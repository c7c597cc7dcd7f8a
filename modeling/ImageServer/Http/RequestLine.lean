import ImageServer.Http.ParseText

/-!
# The grammar of the request line

`parse_request_` takes exactly the lines with a method, a target and the version, with one blank between them
(`IsRequestLine`), and stores the method and the path they give (`parseRequest_grammar`).  It works inside the line:
the name of the start page, appended to a lone `/`, fills the room of the version text and the line end and nothing
behind them.
-/

namespace ImageServer

open CLib

/-- The methods that are taken, of those the protocol has. -/
def methodNames : List (Method × List Byte) := [(.get, lit "GET"), (.post, lit "POST"), (.head, lit "HEAD")]

/-- The target `u` asks for `path`: it is this path, with a scheme and a host before it or without. -/
def TargetPath (u path : List Byte) : Prop :=
  path.head? = some SLASH ∧ (u = path ∨ ∃ scheme host : List Byte,
    (ciEq (lit "http://") scheme = true ∨ ciEq (lit "https://") scheme = true) ∧ SLASH ∉ host ∧
      u = scheme ++ (host ++ path))

/-- The line `l` is a method, a blank, a target for `path`, a blank and the version. -/
def IsRequestLine (l : List Byte) (method : Method) (path : List Byte) : Prop :=
  ∃ m u v : List Byte, l = m ++ SP :: (u ++ SP :: v) ∧ SP ∉ m ∧ SP ∉ u ∧
    (∃ name, (method, name) ∈ methodNames ∧ ciEq name m = true) ∧ TargetPath u path ∧ ciEq (lit "HTTP/1.1") v = true

/-! ### The method and the target -/

private theorem textMethod_eq_some {m : List Byte} {method : Method} :
    textMethod m = some method ↔ ∃ name, (method, name) ∈ methodNames ∧ ciEq name m = true := by
  have hne : ∀ {s t : List Byte}, ciEq s m = true → ciEq t m = true → s.map toLower = t.map toLower := by
    intro s t hs ht
    exact (of_decide_eq_true hs).trans (of_decide_eq_true ht).symm
  unfold textMethod
  constructor
  · intro h
    split at h
    · cases h
      exact ⟨lit "GET", by simp [methodNames], ‹_›⟩
    · split at h
      · cases h
        exact ⟨lit "POST", by simp [methodNames], ‹_›⟩
      · split at h
        · cases h
          exact ⟨lit "HEAD", by simp [methodNames], ‹_›⟩
        · cases h
  · rintro ⟨name, hname, h⟩
    simp only [methodNames, List.mem_cons, List.not_mem_nil, or_false, Prod.mk.injEq] at hname
    rcases hname with ⟨rfl, rfl⟩ | ⟨rfl, rfl⟩ | ⟨rfl, rfl⟩
    · rw [if_pos h]
    · rw [if_neg fun hg => absurd (hne hg h) (by decide), if_pos h]
    · rw [if_neg fun hg => absurd (hne hg h) (by decide), if_neg fun hp => absurd (hne hp h) (by decide), if_pos h]

private theorem pathOffset_of_path {path : List Byte} (h : path.head? = some SLASH) : pathOffset path = some 0 := by
  obtain ⟨d, rfl⟩ : ∃ d, path = SLASH :: d := List.head?_eq_some_iff.1 h
  have hno : ∀ s : List Byte, (s.map toLower).head? ≠ some SLASH → 0 < s.length → ciPrefix s (SLASH :: d) = false := by
    intro s hs hpos
    refine decide_eq_false fun he => hs ?_
    rw [he]
    obtain ⟨k, hk⟩ := Nat.exists_eq_succ_of_ne_zero (Nat.ne_of_gt hpos)
    rw [hk]
    rfl
  rw [pathOffset, hno _ (by decide) (by decide), hno _ (by decide) (by decide)]
  rfl

/-- Behind a scheme the path starts at the first `/`. -/
private theorem pathOffset_of_scheme {scheme host path : List Byte}
    (hs : ciEq (lit "http://") scheme = true ∨ ciEq (lit "https://") scheme = true) (hh : SLASH ∉ host)
    (h : path.head? = some SLASH) :
    pathOffset (scheme ++ (host ++ path)) = some (scheme.length + host.length) := by
  obtain ⟨d, rfl⟩ : ∃ d, path = SLASH :: d := List.head?_eq_some_iff.1 h
  unfold pathOffset
  rcases hs with hs | hs
  · have hlen : scheme.length = 7 := ciEq_length hs
    rw [if_pos (ciPrefix_append hs _), List.drop_left' hlen, cut_append d hh, hlen]
    rfl
  · have hlen : scheme.length = 8 := ciEq_length hs
    have hno : ¬ ciPrefix (lit "http://") (scheme ++ (host ++ SLASH :: d)) = true := by
      intro hp
      have hp := of_decide_eq_true hp
      rw [List.take_append_of_le_length (by rw [hlen]; decide), List.map_take, ← of_decide_eq_true hs] at hp
      exact absurd hp (by decide)
    rw [if_neg hno, if_pos (ciPrefix_append hs _), List.drop_left' hlen, cut_append d hh, hlen]
    rfl

private theorem targetPath_iff {u path : List Byte} :
    TargetPath u path ↔ ∃ o, pathOffset u = some o ∧ (u.drop o).head? = some SLASH ∧ u.drop o = path := by
  constructor
  · rintro ⟨hpath, rfl | ⟨scheme, host, hs, hh, rfl⟩⟩
    · exact ⟨0, pathOffset_of_path hpath, hpath, rfl⟩
    · refine ⟨_, pathOffset_of_scheme hs hh hpath, ?_⟩
      rw [List.drop_length_add_append, List.drop_left]
      exact ⟨hpath, rfl⟩
  · rintro ⟨o, ho, hslash, rfl⟩
    refine ⟨hslash, ?_⟩
    have hscheme : ∀ k, (ciEq (lit "http://") (u.take k) = true ∨ ciEq (lit "https://") (u.take k) = true) →
        (cut SLASH (u.drop k)).map (k + ·.1.length) = some o →
        ∃ scheme host : List Byte, (ciEq (lit "http://") scheme = true ∨ ciEq (lit "https://") scheme = true) ∧
          SLASH ∉ host ∧ u = scheme ++ (host ++ u.drop o) := by
      intro k hs hcut
      obtain ⟨⟨host, d⟩, hhost, rfl⟩ := Option.map_eq_some_iff.1 hcut
      obtain ⟨hd, hno⟩ := cut_eq_some hhost
      refine ⟨u.take k, host, hs, hno, ?_⟩
      have hpath : u.drop (k + host.length) = SLASH :: d := by
        rw [← List.drop_drop, hd, List.drop_left]
      rw [hpath, ← hd, List.take_append_drop]
    unfold pathOffset at ho
    split at ho
    · rename_i hp
      exact .inr (hscheme 7 (.inl hp) ho)
    · split at ho
      · rename_i hp
        exact .inr (hscheme 8 (.inr hp) ho)
      · cases ho
        exact .inl rfl

/-! ### The line -/

theorem isRequestLine_iff {l path : List Byte} {method : Method} :
    IsRequestLine l method path ↔
      ∃ q, readRequestLine l = some q ∧ q.method = method ∧ (l.drop q.url).takeWhile (· ≠ SP) = path := by
  constructor
  · rintro ⟨m, u, v, rfl, hm, hu, hmethod, htarget, hv⟩
    obtain ⟨o, ho, hslash, rfl⟩ := targetPath_iff.1 htarget
    refine ⟨⟨method, m.length + 1 + o, m.length + 1 + u.length + 1⟩, ?_, rfl,
      takeWhile_path hu (Parser.pathOffset_le ho)⟩
    simp only [readRequestLine, Option.bind_eq_bind, cut_append _ hm, cut_append _ hu, textMethod_eq_some.2 hmethod,
      ho, Option.bind_some, if_pos (And.intro hslash hv)]
    rfl
  · rintro ⟨q, hq, rfl, rfl⟩
    unfold readRequestLine at hq
    obtain ⟨⟨m, l'⟩, hm, hm'⟩ := Option.bind_eq_some_iff.1 hq
    obtain ⟨method, hmethod, hq'⟩ := Option.bind_eq_some_iff.1 hm'
    obtain ⟨⟨u, v⟩, hu, hu'⟩ := Option.bind_eq_some_iff.1 hq'
    obtain ⟨o, ho, hend⟩ := Option.bind_eq_some_iff.1 hu'
    obtain ⟨rfl, hm₁⟩ := cut_eq_some hm
    obtain ⟨rfl, hu₁⟩ := cut_eq_some hu
    split at hend
    · rename_i hc
      cases hend
      refine ⟨m, u, v, rfl, hm₁, hu₁, textMethod_eq_some.1 hmethod, ?_, hc.2⟩
      dsimp only
      rw [takeWhile_path hu₁ (Parser.pathOffset_le ho)]
      exact targetPath_iff.2 ⟨o, ho, hc.1, rfl⟩
    · cases hend

/-! ### The parser -/

namespace Parser

/-- A handler fresh from `init_`, with what it has received since and the lines it has scanned. -/
def scanned (q : Parser) (buf : CharArray READ_BUFFER_SIZE) (readIdx checkedIdx startLine : Int) : Parser :=
  { q.init_ with readBuf := buf, readIdx := readIdx, checkedIdx := checkedIdx, startLine := startLine }

/-- The fields a request line with `method` and `path` sets. -/
structure TakesLine (p : Parser) (m : Method) (path : List Byte) : Prop where
  method : p.method = m
  cgi : p.cgi = true ↔ m = .post
  url : ∃ u, p.url = some u ∧ cstring (p.readBuf.suffix u) = some (servedPath path)
  checkState : p.checkState = .checkStateHeader

/-- `parse_request_` takes exactly the lines of the grammar and refuses all others, and writes inside the line. -/
theorem parseRequest_grammar {q : Parser} {buf : CharArray READ_BUFFER_SIZE} {readIdx checkedIdx startLine : Int}
    {t : Nat} {l r : List Byte} (hs : buf.suffix t = l ++ 0 :: 0 :: r) (h0 : 0 ∉ l) :
    ∃ ret p', (scanned q buf readIdx checkedIdx startLine).parseRequest_ t = some (ret, p') ∧
      (ret = .parsering ↔ ∃ method path, IsRequestLine l method path) ∧
      (∀ method path, IsRequestLine l method path → p'.TakesLine method path) ∧
      ((¬ ∃ method path, IsRequestLine l method path) →
        ret = .errorFormat ∧ p'.checkState = (scanned q buf readIdx checkedIdx startLine).checkState) ∧
      p'.readBuf.suffix (t + l.length + 2) = r := by
  have hs : (scanned q buf readIdx checkedIdx startLine).readBuf.suffix t = l ++ 0 :: 0 :: r := hs
  rcases parseRequest_text hs h0 with ⟨hnone, p', hp', hstate, hr⟩ | ⟨rl, buf', hrl, hp', hpath, hr⟩
  · have hno : ¬ ∃ method path, IsRequestLine l method path := by
      rintro ⟨method, path, h⟩
      obtain ⟨q, hq, -⟩ := isRequestLine_iff.1 h
      rw [hnone] at hq
      cases hq
    refine ⟨_, p', hp', ⟨fun h => ?_, fun h => absurd h hno⟩, fun method path h => absurd ⟨method, path, h⟩ hno,
      fun _ => ⟨rfl, hstate⟩, hr⟩
    cases h
  · have hyes : IsRequestLine l rl.method ((l.drop rl.url).takeWhile (· ≠ SP)) :=
      isRequestLine_iff.2 ⟨rl, hrl, rfl, rfl⟩
    refine ⟨_, _, hp', ⟨fun _ => ⟨_, _, hyes⟩, fun _ => rfl⟩, ?_, fun h => absurd ⟨_, _, hyes⟩ h, hr⟩
    intro method path h
    obtain ⟨rl', hrl', rfl, rfl⟩ := isRequestLine_iff.1 h
    obtain rfl := Option.some.inj (hrl.symm.trans hrl')
    refine ⟨rfl, ?_, ⟨_, rfl, hpath⟩, rfl⟩
    simp [scanned, init_]

/-- A request line with a host and a lone `/`, and a header line behind it. -/
def startPage : CharArray READ_BUFFER_SIZE :=
  ⟨lit "get http://host/ HTTP/1.1" ++ 0 :: 0 :: (lit "Accept: */*" ++ List.replicate 2010 0), by decide +kernel⟩

theorem parseRequest_grammar_startPage :
    ∃ ret p', (scanned zero startPage 38 27 27).parseRequest_ 0 = some (ret, p') ∧ p'.TakesLine .get (lit "/") ∧
      p'.readBuf.suffix 27 = lit "Accept: */*" ++ List.replicate 2010 0 := by
  have hs : startPage.suffix 0 =
      lit "get http://host/ HTTP/1.1" ++ 0 :: 0 :: (lit "Accept: */*" ++ List.replicate 2010 0) := rfl
  obtain ⟨ret, p', hp', -, htakes, -, hr⟩ := parseRequest_grammar (q := zero) hs (by decide +kernel)
  refine ⟨ret, p', hp', htakes .get (lit "/") ?_, hr⟩
  exact ⟨lit "get", lit "http://host/", lit "HTTP/1.1", by decide +kernel, by decide, by decide +kernel,
    ⟨lit "GET", by simp [methodNames], by decide +kernel⟩,
    ⟨by decide, .inr ⟨lit "http://", lit "host", .inl (by decide +kernel), by decide +kernel, by decide +kernel⟩⟩,
    by decide +kernel⟩

end Parser

end ImageServer
