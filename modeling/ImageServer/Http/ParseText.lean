import Mathlib.Data.List.TakeWhile
import ImageServer.Http.Grammar

/-!
# The parser of the handler computes `scan`

Each function of the parser works on the text of one line, which in the buffer is followed by NULs, and writes
only inside that line: what is behind `m_checked_idx` stays as it was received (`At`).  From one lemma for each
function follows that `parse_` computes `scan` (`parse_scan`).
-/

namespace ImageServer

open CLib

namespace Parser

/-- The bytes from `c` on, which nothing has been done to yet, are the received `s` and zeros. -/
structure At (p : Parser) (c : Nat) (s : List Byte) : Prop where
  text : ∃ m, p.readBuf.suffix c = s ++ List.replicate m 0
  checkedIdx : p.checkedIdx = c
  startLine : p.startLine = c
  readIdx : p.readIdx = (c + s.length : Nat)
  le : c + s.length ≤ READ_BUFFER_SIZE

/-! ### Lines -/

theorem parseLine_line {p : Parser} {c : Nat} {l r : List Byte} (h : At p c (l ++ CR :: LF :: r)) (hl : Plain l) :
    ∃ buf m, p.parseLine_ = some (.lineOk, { p with readBuf := buf, checkedIdx := (c + l.length + 2 : Nat) }) ∧
      buf.suffix c = l ++ 0 :: 0 :: (r ++ List.replicate m 0) := by
  obtain ⟨m, hm⟩ := h.text
  obtain ⟨hcr, hlf, h0⟩ := hl
  have hm : p.readBuf.suffix c = l ++ CR :: LF :: (r ++ List.replicate m 0) := by rw [hm]; simp
  have hr : strpbrk [CR] (p.readBuf.suffix c) = some (some l.length) := by
    rw [hm]
    exact strpbrk_found h0 (by simpa using hcr) (by simp) (by decide)
  have hn : strpbrk [LF] (p.readBuf.suffix c) = some (some (l.length + 1)) := by
    have : p.readBuf.suffix c = (l ++ [CR]) ++ LF :: (r ++ List.replicate m 0) := by rw [hm]; simp
    rw [this, strpbrk_found (by simpa using ⟨h0, by decide⟩) (by simpa using ⟨hlf, by decide⟩) (by simp) (by decide)]
    simp
  have hread := h.readIdx
  simp only [List.length_append, List.length_cons] at hread
  obtain ⟨buf₁, hb₁, hs₁, -⟩ := CharArray.poke_split (b := 0) hm
  have hs₁' : buf₁.suffix c = (l ++ [0]) ++ LF :: (r ++ List.replicate m 0) := by rw [hs₁]; simp
  obtain ⟨buf₂, hb₂, hs₂, -⟩ := CharArray.poke_split (b := 0) hs₁'
  refine ⟨buf₂, m, ?_, by rw [hs₂]; simp⟩
  have hb₂' : buf₁.poke (c + (l.length + 1)) 0 = some buf₂ := by simpa using hb₂
  unfold parseLine_
  rw [h.checkedIdx, ptr_natCast]
  simp only [Option.bind_eq_bind, Option.bind_some, hr, hn]
  rw [Option.filter_some, if_pos (by simp; omega), Option.filter_some, if_pos (by simp; omega)]
  simp only [if_true, hb₁, hb₂', Option.bind_some, Option.pure_def, Option.some.injEq, Prod.mk.injEq, true_and]
  congr 1

/-- The zeros behind the received bytes end no line. -/
theorem takeLine_zeros {s : List Byte} (h : takeLine s = none) (m : Nat) :
    takeLine (s ++ List.replicate m 0) = none := by
  rcases ht : takeLine (s ++ List.replicate m 0) with _ | ⟨l, r⟩
  · rfl
  · obtain ⟨he, hl⟩ := takeLine_eq_some.1 ht
    have he : s ++ List.replicate m 0 = (l ++ [CR, LF]) ++ r := by simpa using he
    rcases List.append_eq_append_iff.1 he with ⟨z, hz, hr⟩ | ⟨z, hz, -⟩
    · rcases List.eq_nil_or_concat z with rfl | ⟨z', b, rfl⟩
      · rw [List.append_nil] at hz
        rw [← hz, show l ++ [CR, LF] = l ++ CR :: LF :: [] from rfl, takeLine_line [] hl] at h
        cases h
      · have hb : b = 0 := (List.mem_replicate.1 (hr ▸ by simp : b ∈ List.replicate m 0)).2
        have := congrArg List.getLast? hz
        simp [hb, LF] at this
    · rw [hz, show l ++ [CR, LF] ++ z = l ++ CR :: LF :: z by simp, takeLine_line z hl] at h
      cases h

/-- A CR with a LF right behind it, and neither before, ends a line. -/
theorem takeLine_ne_none {s : List Byte} {i : Nat} (hr : strpbrk [CR] s = some (some i))
    (hn : strpbrk [LF] s = some (some (i + 1))) : takeLine s ≠ none := by
  obtain ⟨l, c, r, rfl, rfl, hc, h0, hcr⟩ := strpbrk_eq_some hr
  obtain ⟨l', c', r', he, hlen, hc', -, hlf⟩ := strpbrk_eq_some hn
  obtain rfl := List.mem_singleton.1 hc
  obtain rfl := List.mem_singleton.1 hc'
  have he' : (l ++ [CR]) ++ r = l' ++ LF :: r' := by rw [← he]; simp
  obtain ⟨rfl, rfl⟩ := List.append_inj he' (by rw [hlen]; simp)
  have hl : Plain l := ⟨hcr CR (by simp), fun h => hlf LF (by simp) (by simp [h]), h0⟩
  rw [takeLine_line r' hl]
  exact Option.some_ne_none _

/-- Without a complete line the search runs off a full buffer or does not end in `LINE_OK`. -/
theorem parseLine_open {p : Parser} {c : Nat} {s : List Byte} (h : At p c s) (hs : takeLine s = none) :
    (Unterminated (c + s.length) s ∧ p.parseLine_ = none) ∨
    (¬ Unterminated (c + s.length) s ∧ ∃ st p', st ≠ .lineOk ∧ p.parseLine_ = some (st, p')) := by
  obtain ⟨m, hm⟩ := h.text
  have hmlen : c + s.length + m = READ_BUFFER_SIZE := by
    have := congrArg List.length hm
    rw [CharArray.suffix_length, List.length_append, List.length_replicate] at this
    have := h.le
    omega
  -- a search that meets no NUL has gone through all of a full buffer
  have hfull : 0 ∉ p.readBuf.suffix c → m = 0 ∧ p.readBuf.suffix c = s := by
    rw [hm]
    intro h0
    cases m with
    | zero => simp
    | succ m => simp [List.replicate_succ] at h0
  have hrun : ∀ b : Byte, strpbrk [b] (p.readBuf.suffix c) = none →
      c + s.length = READ_BUFFER_SIZE ∧ 0 ∉ s ∧ b ∉ s := by
    intro b hb
    rcases strpbrk_cases [b] (p.readBuf.suffix c) with ⟨_, h0, hn⟩ | ⟨_, _, _, _, _, h⟩ | ⟨_, _, _, _, _, _, _, h⟩
    · obtain ⟨rfl, he⟩ := hfull h0
      rw [he] at h0 hn
      exact ⟨by omega, h0, hn b (by simp)⟩
    · rw [hb] at h; cases h
    · rw [hb] at h; cases h
  have hmeet : ∀ b : Byte, b ≠ 0 → c + s.length = READ_BUFFER_SIZE → 0 ∉ s → b ∉ s →
      strpbrk [b] (p.readBuf.suffix c) = none := by
    intro b hb0 hn h0 hb
    have he : p.readBuf.suffix c = s := by rw [hm, show m = 0 by omega]; simp
    rw [he]
    rcases strpbrk_cases [b] s with ⟨h, _⟩ | ⟨l, r, rfl, _⟩ | ⟨l, b', r, rfl, hb', _⟩
    · exact h
    · simp at h0
    · simp at hb' hb; exact absurd hb'.symm hb.2.1
  unfold parseLine_
  rw [h.checkedIdx, ptr_natCast]
  simp only [Option.bind_eq_bind, Option.bind_some]
  cases hr : strpbrk [CR] (p.readBuf.suffix c) with
  | none =>
    obtain ⟨h1, h2, h3⟩ := hrun CR hr
    exact Or.inl ⟨⟨h1, h2, Or.inl h3⟩, rfl⟩
  | some r =>
    cases hn : strpbrk [LF] (p.readBuf.suffix c) with
    | none =>
      obtain ⟨h1, h2, h3⟩ := hrun LF hn
      exact Or.inl ⟨⟨h1, h2, Or.inr h3⟩, rfl⟩
    | some n =>
      refine Or.inr ⟨?_, ?_⟩
      · rintro ⟨h1, h2, h3 | h3⟩
        · rw [hmeet CR (by decide) h1 h2 h3] at hr; cases hr
        · rw [hmeet LF (by decide) h1 h2 h3] at hn; cases hn
      · simp only [Option.bind_some]
        split
        · rename_i j i hj hi
          split
          · rename_i hij
            have hr' := hr.trans (congrArg some (Option.filter_eq_some_iff.1 hi).1)
            have hn' := hn.trans (congrArg some (Option.filter_eq_some_iff.1 hj).1)
            rw [← hij] at hn'
            exact absurd (hm ▸ takeLine_zeros hs m) (takeLine_ne_none hr' hn')
          · exact ⟨.lineBad, _, by decide, rfl⟩
        · exact ⟨.lineBad, _, by decide, rfl⟩
        · exact ⟨_, _, by split <;> decide, rfl⟩
        · exact ⟨.lineOpen, _, by decide, rfl⟩

/-! ### The request line -/

private theorem methodOf_text {m r : List Byte} (h : 0 ∉ m) : methodOf (m ++ 0 :: r) = some (textMethod m) := by
  unfold methodOf textMethod
  rw [strcaseeq_text (by decide) h, strcaseeq_text (by decide) h, strcaseeq_text (by decide) h]
  simp only [Option.bind_eq_bind, Option.bind_some]
  split
  · rfl
  · split
    · rfl
    · split <;> rfl

private theorem locatePath_text {buf : CharArray READ_BUFFER_SIZE} {url : Nat} {u r : List Byte}
    (hs : buf.suffix url = u ++ 0 :: r) (h : 0 ∉ u) :
    locatePath buf url = some ((pathOffset u).map (url + ·)) := by
  have hcut : ∀ k ≤ u.length, strpbrk [SLASH] (buf.suffix (url + k)) =
      some ((cut SLASH (u.drop k)).map (·.1.length)) := by
    intro k hk
    rw [CharArray.suffix_drop hs hk]
    exact strpbrk_cut (by decide) fun h' => h (List.mem_of_mem_drop h')
  unfold locatePath pathOffset
  rw [hs, strncaseeq_text (by decide) h, strncaseeq_text (by decide) h]
  simp only [Option.bind_eq_bind, Option.bind_some]
  split
  · rename_i h7
    rw [hcut 7 (ciPrefix_length h7)]
    simp only [Option.bind_some, Option.pure_def, Option.map_map, Option.some.injEq]
    congr 1
    funext x
    exact Nat.add_assoc ..
  · split
    · rename_i h8
      rw [hcut 8 (ciPrefix_length h8)]
      simp only [Option.bind_some, Option.pure_def, Option.map_map, Option.some.injEq]
      congr 1
      funext x
      exact Nat.add_assoc ..
    · rfl

theorem pathOffset_le {u : List Byte} {o : Nat} (h : pathOffset u = some o) : o ≤ u.length := by
  have hcut : ∀ {k : Nat}, (cut SLASH (u.drop k)).map (k + ·.1.length) = some o → o ≤ u.length := by
    intro k hk
    obtain ⟨⟨a, b⟩, hab, rfl⟩ := Option.map_eq_some_iff.1 hk
    have := congrArg List.length (cut_eq_some hab).1
    simp only [List.length_drop, List.length_append, List.length_cons] at this
    dsimp only
    omega
  unfold pathOffset at h
  split at h
  · exact hcut h
  · split at h
    · exact hcut h
    · cases h; omega

/-- The name of the start page fits into the version text and its NULs, behind a lone `/`. -/
private theorem copy_startPage {a : CharArray READ_BUFFER_SIZE} {p : Nat} {v r : List Byte}
    (hs : a.suffix p = [SLASH] ++ 0 :: (v ++ 0 :: 0 :: r)) (hv : v.length = 8) :
    ∃ buf, a.copy (p + 1) (lit "judge.html" ++ [0]) = some buf ∧
      buf.suffix p = (SLASH :: (lit "judge.html" ++ [0])) ++ r := by
  have hroom : a.suffix (p + 1) = (0 :: (v ++ [0, 0])) ++ r := by
    rw [show p + 1 = p + [SLASH].length from rfl, CharArray.suffix_add hs]
    simp
  have hj : (lit "judge.html" ++ [0]).length = 11 := by decide
  obtain ⟨buf, hbuf, hsuf⟩ := CharArray.copy_split (s := lit "judge.html" ++ [0])
    (Nat.le_of_lt (CharArray.lt_of_suffix hroom)) hroom (by rw [hj]; simp [hv])
  have hslash : buf.peek p = some SLASH := by
    rw [CharArray.peek_copy hbuf (Nat.lt_succ_self _), CharArray.peek_suffix, hs]
    rfl
  exact ⟨buf, hbuf, by rw [CharArray.suffix_eq_cons hslash, hsuf]; rfl⟩

/-- The appended file name takes exactly the room of the version text and the line end. -/
private theorem finishRequest_text {p : Parser} {w o : Nat} {u v r : List Byte}
    (hs : p.readBuf.suffix w = u ++ 0 :: (v ++ 0 :: 0 :: r)) (hu : 0 ∉ u) (hv : 0 ∉ v) (hp : p.url = some (w + o))
    (ho : o ≤ u.length) :
    if (u.drop o).head? = some SLASH ∧ ciEq (lit "HTTP/1.1") v = true then
      ∃ buf, p.finishRequest (w + u.length + 1) =
          some (.parsering, { p with readBuf := buf, checkState := .checkStateHeader }) ∧
        cstring (buf.suffix (w + o)) = some (servedPath (u.drop o)) ∧
        buf.suffix (w + u.length + 1 + v.length + 2) = r
    else p.finishRequest (w + u.length + 1) = some (.errorFormat, p) := by
  have hpath : p.readBuf.suffix (w + o) = u.drop o ++ 0 :: (v ++ 0 :: 0 :: r) := CharArray.suffix_drop hs ho
  have hnul : p.readBuf.suffix (w + u.length) = 0 :: (v ++ 0 :: 0 :: r) := CharArray.suffix_add hs
  have hver : p.readBuf.suffix (w + u.length + 1) = v ++ 0 :: 0 :: r := CharArray.suffix_add (l := [0]) hnul
  have hrest : p.readBuf.suffix (w + u.length + 1 + v.length + 2) = r :=
    CharArray.suffix_add (l := [0, 0]) (CharArray.suffix_add hver)
  unfold finishRequest
  simp only [hp, Option.bind_eq_bind, CharArray.peek_suffix, hpath, hver]
  rcases hd : u.drop o with _ | ⟨b, d⟩
  · rfl
  simp only [List.cons_append, List.head?_cons, Option.bind_some]
  by_cases hb : b = SLASH
  · subst hb
    rw [strcaseeq_text (by decide) hv]
    by_cases hc : ciEq (lit "HTTP/1.1") v = true
    · have h0 : 0 ∉ SLASH :: d := hd ▸ fun h' => hu (List.mem_of_mem_drop h')
      have hlen := strlen_text (r := v ++ 0 :: 0 :: r) h0
      rw [List.cons_append] at hlen
      rw [if_pos ⟨rfl, hc⟩]
      simp only [hc, hlen, Option.bind_some, if_true]
      by_cases hd1 : (SLASH :: d).length = 1
      · have hvlen : v.length = 8 := by
          have := congrArg List.length (of_decide_eq_true hc)
          rw [List.length_map, List.length_map] at this
          exact this.symm.trans (by decide)
        have hul : u.length = o + 1 := by
          have := congrArg List.length hd
          rw [List.length_drop, hd1] at this
          omega
        obtain rfl : d = [] := List.length_eq_zero_iff.1 (Nat.succ.inj hd1)
        rw [hd] at hpath
        obtain ⟨buf, hbuf, hsuf⟩ := copy_startPage hpath hvlen
        refine ⟨buf, by simp [hbuf], by rw [hsuf]; rfl, ?_⟩
        have hbehind := CharArray.suffix_add (l := SLASH :: (lit "judge.html" ++ [0])) hsuf
        rw [hul, hvlen]
        exact hbehind
      · refine ⟨p.readBuf, ?_, ?_, hrest⟩
        · rw [if_neg hd1]
          rfl
        · rw [hpath, hd, cstring_text h0, servedPath, if_neg]
          rintro h
          exact hd1 (congrArg List.length h)
    · rw [if_neg fun h' => hc h'.2]
      simp [hc]
  · rw [if_neg fun h' => hb (Option.some.inj h'.1)]
    simp [hb]

theorem parseRequest_text {p : Parser} {t : Nat} {l r : List Byte} (hs : p.readBuf.suffix t = l ++ 0 :: 0 :: r)
    (h0 : 0 ∉ l) :
    (readRequestLine l = none ∧ ∃ p', p.parseRequest_ t = some (.errorFormat, p') ∧
      p'.checkState = p.checkState ∧ p'.readBuf.suffix (t + l.length + 2) = r) ∨
    (∃ q buf, readRequestLine l = some q ∧ p.parseRequest_ t = some (.parsering,
        { p with
          readBuf := buf, method := q.method, cgi := p.cgi || decide (q.method = .post), url := some (t + q.url),
          version := some (t + q.version), checkState := .checkStateHeader }) ∧
      cstring (buf.suffix (t + q.url)) = some (servedPath ((l.drop q.url).takeWhile (· ≠ SP))) ∧
      buf.suffix (t + l.length + 2) = r) := by
  unfold parseRequest_ readRequestLine
  simp only [Option.bind_eq_bind]
  rw [show l ++ 0 :: 0 :: r = l ++ 0 :: (0 :: r) from rfl] at hs
  have hkept : p.readBuf.suffix (t + l.length + 2) = r :=
    CharArray.suffix_add (l := [0, 0]) (CharArray.suffix_add hs)
  rw [hs, strpbrk_cut (by decide) h0]
  rcases hm : cut SP l with _ | ⟨m, l'⟩
  · exact Or.inl ⟨rfl, _, rfl, rfl, hkept⟩
  obtain ⟨rfl, -⟩ := cut_eq_some hm
  simp only [List.mem_append, List.mem_cons, not_or] at h0
  obtain ⟨hm0, -, hl0⟩ := h0
  rw [List.append_assoc, List.cons_append] at hs
  obtain ⟨buf₁, hb₁, hs₁, -⟩ := CharArray.poke_split (b := 0) hs
  have hurl : buf₁.suffix (t + m.length + 1) = l' ++ 0 :: 0 :: r :=
    CharArray.suffix_add (l := [0]) (CharArray.suffix_add hs₁)
  have hend : ∀ {buf : CharArray READ_BUFFER_SIZE}, buf.suffix (t + m.length + 1 + l'.length + 2) = r →
      buf.suffix (t + (m ++ SP :: l').length + 2) = r := by
    intro buf h
    rw [← h]
    simp only [List.length_append, List.length_cons]
    congr 1
    omega
  have hkept₁ := hend (CharArray.suffix_add (l := [0, 0]) (CharArray.suffix_add hurl))
  simp only [Option.map_some, Option.bind_some, hb₁, hs₁, methodOf_text hm0]
  cases hmeth : textMethod m with
  | none => exact Or.inl ⟨rfl, _, rfl, rfl, hkept₁⟩
  | some method =>
    simp only [hurl, strpbrk_cut (c := SP) (by decide) hl0, Option.bind_some]
    rcases hu : cut SP l' with _ | ⟨u, v⟩
    · exact Or.inl ⟨rfl, _, rfl, rfl, hkept₁⟩
    obtain ⟨rfl, hblank⟩ := cut_eq_some hu
    simp only [List.mem_append, List.mem_cons, not_or] at hl0
    obtain ⟨hu0, -, hv0⟩ := hl0
    rw [List.append_assoc, List.cons_append] at hurl
    obtain ⟨buf₂, hb₂, hs₂, -⟩ := CharArray.poke_split (b := 0) hurl
    have hlen : ∀ {buf : CharArray READ_BUFFER_SIZE},
        buf.suffix (t + m.length + 1 + u.length + 1 + v.length + 2) = r →
        buf.suffix (t + (m ++ SP :: (u ++ SP :: v)).length + 2) = r := by
      intro buf h
      refine hend ?_
      rw [← h, List.length_append, List.length_cons]
      congr 1
      omega
    have hkept₂ : buf₂.suffix (t + (m ++ SP :: (u ++ SP :: v)).length + 2) = r :=
      hlen (CharArray.suffix_add (l := [0, 0]) (CharArray.suffix_add (CharArray.suffix_add (l := [0])
        (CharArray.suffix_add hs₂))))
    simp only [Option.map_some, Option.bind_some, hb₂, locatePath_text hs₂ hu0]
    cases ho : pathOffset u with
    | none => exact Or.inl ⟨rfl, _, rfl, rfl, hkept₂⟩
    | some o =>
      simp only [Option.map_some, Option.bind_some]
      have hf := finishRequest_text (p := { p with
          readBuf := buf₂, url := some (t + m.length + 1 + o), method := method,
          cgi := p.cgi || decide (method = .post), version := some (t + m.length + 1 + u.length + 1) })
        hs₂ hu0 hv0 rfl (pathOffset_le ho)
      split at hf
      · rename_i hc
        obtain ⟨buf, hbuf, hpath, hrest⟩ := hf
        refine Or.inr ⟨⟨method, m.length + 1 + o, m.length + 1 + u.length + 1⟩, buf, ?_, ?_, ?_, hlen hrest⟩
        · rw [if_pos hc]
          rfl
        · rw [hbuf]
          simp only [Nat.add_assoc]
        · rw [takeWhile_path hblank (pathOffset_le ho), ← hpath]
          simp only [Nat.add_assoc]
      · rename_i hc
        exact Or.inl ⟨if_neg hc, _, hf, rfl, hkept₂⟩

/-! ### The headers -/

/-- What the parsing of a header line leaves alone. -/
structure Kept (p p' : Parser) : Prop where
  checkState : p'.checkState = p.checkState
  checkedIdx : p'.checkedIdx = p.checkedIdx
  startLine : p'.startLine = p.startLine
  readIdx : p'.readIdx = p.readIdx
  content : p'.content = p.content

theorem skipBlanks_text {buf : CharArray READ_BUFFER_SIZE} {t k : Nat} {l r : List Byte}
    (hs : buf.suffix t = l ++ 0 :: r) (h0 : 0 ∉ l) (hk : k ≤ l.length) :
    ∃ t', skipBlanks buf t k = some t' ∧ buf.suffix t' = headerValue k l ++ 0 :: r ∧
      t' + (headerValue k l).length = t + l.length := by
  have hd := CharArray.suffix_drop hs hk
  have hn : 0 ∉ l.drop k := fun h => h0 (List.mem_of_mem_drop h)
  refine ⟨t + k + ((l.drop k).takeWhile (· ∈ [SP, HT])).length, ?_, ?_, ?_⟩
  · unfold skipBlanks
    rw [hd, strspn_text hn]
    rfl
  · refine CharArray.suffix_add (l := (l.drop k).takeWhile (· ∈ [SP, HT])) ?_
    rw [hd, headerValue, ← List.append_assoc, List.takeWhile_append_dropWhile]
  · have := congrArg List.length (List.takeWhile_append_dropWhile (p := (· ∈ [SP, HT])) (l := l.drop k))
    rw [List.length_append, List.length_drop] at this
    unfold headerValue
    omega

/-- The cut keeps what is before the line and what is behind it, and leaves the text up to the first blank. -/
theorem cutAtBlank_text {p : Parser} {t : Nat} {v r : List Byte} (errno : Errno)
    (hs : p.readBuf.suffix t = v ++ 0 :: r) (h0 : 0 ∉ v) :
    ∃ buf, p.cutAtBlank t errno = some (.parsering, { p with readBuf := buf }, errno) ∧
      buf.suffix (t + v.length) = 0 :: r ∧ buf.bytes.take t = p.readBuf.bytes.take t ∧
      cstring (buf.suffix t) = some (v.takeWhile (· ∉ [SP, HT])) := by
  unfold cutAtBlank
  rw [hs, strpbrk_text h0]
  simp only [Option.bind_eq_bind, Option.bind_some]
  cases hi : v.findIdx? (· ∈ [SP, HT]) with
  | none =>
    refine ⟨p.readBuf, rfl, CharArray.suffix_add hs, rfl, ?_⟩
    have hno : ∀ b ∈ v, b ∉ [SP, HT] := by simpa using List.findIdx?_eq_none_iff.1 hi
    rw [hs, cstring_text h0, List.takeWhile_eq_self_iff.2 fun b hb => decide_eq_true (hno b hb)]
  | some i =>
    obtain ⟨hlt, hblank, hbefore⟩ := List.findIdx?_eq_some_iff_getElem.1 hi
    -- the blank stands before the NUL, so the line still ends where it did
    have hv : v = v.take i ++ v[i] :: v.drop (i + 1) := by rw [← List.drop_eq_getElem_cons, List.take_append_drop]
    have htake : (v.take i).length = i := by rw [List.length_take]; omega
    rw [hv, List.append_assoc, List.cons_append] at hs
    obtain ⟨buf, hbuf, hsuf, hkept⟩ := CharArray.poke_split (b := 0) hs
    rw [htake] at hbuf
    refine ⟨buf, by simp only [hbuf, Option.bind_some, Option.pure_def], ?_, hkept, ?_⟩
    · have := CharArray.suffix_add (l := v.take i ++ 0 :: v.drop (i + 1)) (r := 0 :: r) (by rw [hsuf]; simp)
      rwa [List.length_append, List.length_cons, List.length_drop, htake,
        show i + (v.length - (i + 1) + 1) = v.length by omega] at this
    · have hno : ∀ b ∈ v.take i, decide (b ∉ [SP, HT]) = true := by
        intro b hb
        obtain ⟨j, hj, rfl⟩ := List.mem_iff_getElem.1 hb
        rw [htake] at hj
        rw [List.getElem_take]
        simpa using hbefore j hj
      rw [hsuf, cstring_text fun h => h0 (List.mem_of_mem_take h)]
      conv_rhs => rw [hv]
      rw [List.takeWhile_append_of_pos hno, List.takeWhile_cons, if_neg (by simp only [decide_not, hblank]; decide),
        List.append_nil]

private theorem findField_text {l r : List Byte} (h0 : 0 ∉ l) (names : List (Field × List Byte))
    (hn : ∀ x ∈ names, 0 ∉ x.2) :
    ∃ x, findField (l ++ 0 :: r) names = some x ∧ ∀ f k, x = some (f, k) → k ≤ l.length := by
  induction names with
  | nil => exact ⟨none, rfl, by simp⟩
  | cons x names ih =>
    obtain ⟨f, name⟩ := x
    unfold findField
    rw [strncaseeq_text (hn _ List.mem_cons_self) h0]
    simp only [Option.bind_eq_bind, Option.bind_some]
    split
    · rename_i hp
      refine ⟨_, rfl, fun f' k hk => ?_⟩
      cases hk
      exact ciPrefix_length hp
    · exact ih fun x hx => hn x (List.mem_cons_of_mem _ hx)

theorem setField_kept (p : Parser) (v : Nat) (f : Field) :
    Kept p (p.setField v f) ∧ (p.setField v f).readBuf = p.readBuf ∧
      (p.setField v f).contentLength = p.contentLength ∧ (p.setField v f).linger = p.linger := by
  cases f <;> exact ⟨⟨rfl, rfl, rfl, rfl, rfl⟩, rfl, rfl, rfl⟩

/-- `parse_headers_` on a header line does what `readHeader` says and cuts the line. -/
theorem parseHeaders_text {p : Parser} {t : Nat} {l r : List Byte} (errno : Errno)
    (hs : p.readBuf.suffix t = l ++ 0 :: r) (h0 : 0 ∉ l) (hl : l ≠ []) :
    (readHeader ⟨p.contentLength, p.linger, errno⟩ l = none ∧
      ∃ p' errno', p.parseHeaders_ t errno = some (.errorFormat, p', errno')) ∨
    (∃ x p', readHeader ⟨p.contentLength, p.linger, errno⟩ l = some x ∧
      p.parseHeaders_ t errno = some (.parsering, p', x.errno) ∧ Kept p p' ∧ p'.contentLength = x.contentLength ∧
      p'.linger = x.linger ∧ p'.readBuf.suffix (t + l.length) = 0 :: r) := by
  obtain ⟨b, l', rfl⟩ := List.exists_cons_of_ne_nil hl
  have hb : b ≠ 0 := fun e => h0 (by simp [e])
  -- every branch ends in a cut at the value, in a handler that still holds the line
  have value : ∀ k ≤ (b :: l').length, ∃ t', skipBlanks p.readBuf t k = some t' ∧ 0 ∉ headerValue k (b :: l') ∧
      p.readBuf.suffix t' = headerValue k (b :: l') ++ 0 :: r ∧
      ∀ (q : Parser) (e : Errno), q.readBuf = p.readBuf →
        ∃ buf, q.cutAtBlank t' e = some (.parsering, { q with readBuf := buf }, e) ∧
          buf.suffix (t + (b :: l').length) = 0 :: r := by
    intro k hk
    obtain ⟨t', ht', hsuf, hlen⟩ := skipBlanks_text hs h0 hk
    have hv : 0 ∉ headerValue k (b :: l') := fun h =>
      h0 (List.mem_of_mem_drop ((List.dropWhile_sublist _).subset h))
    refine ⟨t', ht', hv, hsuf, fun q e hq => ?_⟩
    obtain ⟨buf, hbuf, hrest, -⟩ := cutAtBlank_text (p := q) e (by rw [hq]; exact hsuf) hv
    exact ⟨buf, hbuf, hlen ▸ hrest⟩
  unfold parseHeaders_ readHeader
  simp only [Option.bind_eq_bind, CharArray.peek_suffix, hs, List.cons_append, List.head?_cons, Option.bind_some,
    if_neg hb]
  rw [← List.cons_append, strncaseeq_text (by decide) h0, strncaseeq_text (by decide) h0]
  simp only [Option.bind_some]
  by_cases hc : ciPrefix (lit "Connection:") (b :: l') = true
  · rw [if_pos hc, if_pos hc]
    obtain ⟨t', ht', hv, hsuf, hcut⟩ := value 11 (ciPrefix_length hc)
    rw [ht']
    simp only [Option.bind_some, hsuf, strncaseeq_text (t := lit "close") (by decide) hv]
    by_cases hcl : ciPrefix (lit "close") (headerValue 11 (b :: l')) = true
    · obtain ⟨buf, hbuf, hrest⟩ := hcut { p with linger := false } errno rfl
      rw [if_pos hcl, if_pos hcl]
      exact Or.inr ⟨_, _, rfl, hbuf, ⟨rfl, rfl, rfl, rfl, rfl⟩, rfl, rfl, hrest⟩
    · obtain ⟨buf, hbuf, hrest⟩ := hcut p errno rfl
      rw [if_neg hcl, if_neg hcl]
      exact Or.inr ⟨_, _, rfl, hbuf, ⟨rfl, rfl, rfl, rfl, rfl⟩, rfl, rfl, hrest⟩
  rw [if_neg hc, if_neg hc]
  by_cases hcl : IsContentLength (b :: l')
  · have hcl' : ciPrefix (lit "Content-length:") (b :: l') = true := hcl
    rw [if_pos hcl, if_pos hcl']
    obtain ⟨t', ht', hv, hsuf, hcut⟩ := value 15 (ciPrefix_length hcl)
    rw [ht']
    simp only [Option.bind_some, hsuf, strtol_text]
    generalize strtolText (headerValue 15 (b :: l')) = v
    by_cases he : (if v.2 = true then Errno.erange else errno) = .einval
    · rw [if_pos he, if_pos he]
      exact Or.inl ⟨rfl, _, _, rfl⟩
    · obtain ⟨buf, hbuf, hrest⟩ := hcut { p with contentLength := toInt32 v.1 } _ rfl
      rw [if_neg he, if_neg he]
      exact Or.inr ⟨_, _, rfl, hbuf, ⟨rfl, rfl, rfl, rfl, rfl⟩, rfl, rfl, hrest⟩
  have hcl' : ¬ ciPrefix (lit "Content-length:") (b :: l') = true := hcl
  rw [if_neg hcl, if_neg hcl']
  obtain ⟨x, hx, hk⟩ := findField_text (r := r) h0 fieldNames (by decide)
  rw [hx]
  simp only [Option.bind_some]
  rcases x with _ | ⟨f, k⟩
  · obtain ⟨buf, hbuf, hrest, -⟩ := cutAtBlank_text (p := p) errno hs h0
    exact Or.inr ⟨_, _, rfl, hbuf, ⟨rfl, rfl, rfl, rfl, rfl⟩, rfl, rfl, hrest⟩
  · obtain ⟨t', ht', hv, hsuf, hcut⟩ := value k (hk f k rfl)
    obtain ⟨⟨h1, h2, h3, h4, h5⟩, hbuf', hcl', hli⟩ := setField_kept p t' f
    obtain ⟨buf, hbuf, hrest⟩ := hcut (p.setField t' f) errno hbuf'
    simp only [ht', Option.bind_some]
    exact Or.inr ⟨_, _, rfl, hbuf, ⟨h1, h2, h3, h4, h5⟩, hcl', hli, hrest⟩

/-! ### The body -/

/-- `res` is the end of `parse_` that `v` says, from the handler `p`. -/
def Computes (p : Parser) (res : Option (ParseEnd × Parser × Errno)) : Verdict → Prop
  | .undefined => res = none
  | .rejected => ∃ p' errno, res = some (.returns .errorFormat, p', errno)
  | .accepted x rest =>
    ∃ p', res = some (.doRequest, p', x.errno) ∧ p'.contentLength = x.contentLength ∧ p'.linger = x.linger ∧
      (x.contentLength = 0 → p'.content = p.content) ∧
      (x.contentLength ≠ 0 → ∃ c : Nat, p'.content = some c ∧ (c + rest.length : Nat) = p.readIdx ∧
        (0 ≤ x.contentLength → ∃ z, p'.readBuf.suffix c = rest.take x.contentLength.toNat ++ 0 :: z))

private theorem parseContent_text {p : Parser} {c : Nat} {s : List Byte} (errno : Errno) (fuel : Nat) (h : At p c s)
    (hst : p.checkState = .checkStateContent) (hL : p.contentLength ≠ 0) :
    Computes p (parseLoop (fuel + 1) .lineOk p errno)
      (scanBody (c + s.length) ⟨p.contentLength, p.linger, errno⟩ s) := by
  obtain ⟨m, hm⟩ := h.text
  have hread := h.readIdx
  have hstart := h.startLine
  unfold parseLoop
  simp only [hst, if_true, and_self, Option.bind_eq_bind, Option.bind_some, hstart, ptr_natCast, parseText,
    ne_eq, not_true, if_false]
  unfold scanBody parseContent_
  dsimp only
  rw [if_neg hL]
  by_cases hle : p.contentLength ≤ s.length
  · rw [if_pos hle, if_pos (by rw [hread]; omega)]
    by_cases hin : 0 ≤ ((c + s.length : Nat) : Int) - s.length + p.contentLength ∧
        ((c + s.length : Nat) : Int) - s.length + p.contentLength < READ_BUFFER_SIZE
    · rw [if_pos hin]
      obtain ⟨k, hk⟩ := Int.eq_ofNat_of_zero_le (show 0 ≤ (c : Int) + p.contentLength by omega)
      obtain ⟨buf, hbuf⟩ := CharArray.poke_isSome (a := p.readBuf) (b := 0) (show k < READ_BUFFER_SIZE by omega)
      rw [hk, ptr_natCast]
      simp only [Option.bind_eq_bind, Option.bind_some, hbuf]
      refine ⟨_, rfl, rfl, rfl, fun h0 => absurd h0 hL, fun _ => ⟨c, rfl, hread.symm, fun h0 => ?_⟩⟩
      -- the terminator stands behind the first `L` bytes of the body
      replace h0 : 0 ≤ p.contentLength := h0
      have hlen : (p.readBuf.suffix c).length = READ_BUFFER_SIZE - c := CharArray.suffix_length ..
      obtain ⟨b, r, hbr⟩ := List.exists_cons_of_length_pos
        (show 0 < ((p.readBuf.suffix c).drop p.contentLength.toNat).length by rw [List.length_drop]; omega)
      have htake : (p.readBuf.suffix c).take p.contentLength.toNat = s.take p.contentLength.toNat := by
        rw [hm, List.take_append_of_le_length (by omega)]
      obtain ⟨buf', hbuf', hsuf, -⟩ := CharArray.poke_split (a := p.readBuf) (p := c) (b := 0)
        (l := s.take p.contentLength.toNat) (by rw [← htake, ← hbr, List.take_append_drop])
      rw [List.length_take, Nat.min_eq_left (by omega), show c + p.contentLength.toNat = k by omega, hbuf] at hbuf'
      cases hbuf'
      exact ⟨_, hsuf⟩
    · rw [if_neg hin]
      rcases hp : ptr (c + p.contentLength) with _ | k
      · rfl
      · rw [ptr_eq_some] at hp
        have : p.readBuf.poke k 0 = none := CharArray.poke_eq_none.2 (by omega)
        simp only [Option.bind_eq_bind, Option.bind_some, this]
        rfl
  · rw [if_neg hle, if_neg (by rw [hread]; omega)]
    exact ⟨_, _, rfl⟩

/-! ### The loop -/

theorem parseText_header {p : Parser} {t : Nat} {errno : Errno} (h : p.checkState = .checkStateHeader) :
    p.parseText t errno = (p.parseHeaders_ t errno).bind fun x =>
      some (if x.1 = .errorFormat then some (.returns .errorFormat)
        else if x.1 = .readyRequest then some .doRequest else none, x.2.1, x.2.2) := by
  unfold parseText
  rw [h]
  rfl

theorem parseHeaders_empty {p : Parser} {t : Nat} {errno : Errno} (h : p.readBuf.peek t = some 0) :
    p.parseHeaders_ t errno =
      if p.contentLength ≠ 0 then some (.parsering, { p with checkState := .checkStateContent }, errno)
      else some (.readyRequest, p, errno) := by
  unfold parseHeaders_
  simp only [h, Option.bind_eq_bind, Option.bind_some, if_true]
  split <;> rfl

/-- `q` is `p` with the line `l` at `c` taken off the received bytes, of which `r` is left. -/
structure Taken (p q : Parser) (c : Nat) (l r : List Byte) : Prop where
  text : ∃ m, q.readBuf.suffix c = l ++ 0 :: 0 :: (r ++ List.replicate m 0)
  checkedIdx : q.checkedIdx = (c + l.length + 2 : Nat)
  startLine : q.startLine = (c + l.length + 2 : Nat)
  readIdx : q.readIdx = (c + l.length + 2 + r.length : Nat)
  readIdx_eq : q.readIdx = p.readIdx
  le : c + l.length + 2 + r.length ≤ READ_BUFFER_SIZE
  checkState : q.checkState = p.checkState
  contentLength : q.contentLength = p.contentLength
  linger : q.linger = p.linger
  content : q.content = p.content

private theorem Taken.at {p q p' : Parser} {c : Nat} {l r : List Byte} (h : Taken p q c l r)
    (h1 : p'.checkedIdx = q.checkedIdx) (h2 : p'.startLine = q.startLine) (h3 : p'.readIdx = q.readIdx)
    (hs : ∀ z, q.readBuf.suffix c = l ++ 0 :: 0 :: z → p'.readBuf.suffix (c + l.length + 2) = z) :
    At p' (c + l.length + 2) r := by
  obtain ⟨m, hm⟩ := h.text
  exact ⟨⟨m, hs _ hm⟩, h1.trans h.checkedIdx, h2.trans h.startLine, h3.trans h.readIdx, h.le⟩

/-- An iteration of the loop that takes a line off and parses its text. -/
theorem parseLoop_line {p : Parser} {c : Nat} {l r : List Byte} (fuel : Nat) (status : LineState) (errno : Errno)
    (h : At p c (l ++ CR :: LF :: r)) (hl : Plain l) (hst : p.checkState ≠ .checkStateContent) :
    ∃ q, Taken p q c l r ∧
      parseLoop (fuel + 1) status p errno = (q.parseText c errno).bind fun x =>
        match x.1 with
        | some e => some (e, x.2.1, x.2.2)
        | none => parseLoop fuel .lineOk x.2.1 x.2.2 := by
  obtain ⟨buf, m, hline, hsuf⟩ := parseLine_line h hl
  have hread := h.readIdx
  have hle := h.le
  simp only [List.length_append, List.length_cons] at hread hle
  refine ⟨{ p with
    readBuf := buf, checkedIdx := (c + l.length + 2 : Nat), startLine := (c + l.length + 2 : Nat) }, ?_, ?_⟩
  · exact ⟨⟨m, hsuf⟩, rfl, rfl, by dsimp only; omega, rfl, by omega, rfl, rfl, rfl, rfl⟩
  · rw [parseLoop, if_neg fun h => hst h.1, hline]
    simp only [Option.bind_eq_bind, Option.bind_some, h.startLine, ptr_natCast, ne_eq, not_true, if_false]
    rfl

theorem parseLoop_open {p : Parser} {c : Nat} {s : List Byte} (fuel : Nat) (status : LineState) (errno : Errno)
    (h : At p c s) (hs : takeLine s = none) (hst : p.checkState ≠ .checkStateContent) :
    Computes p (parseLoop (fuel + 1) status p errno) (scanOpen (c + s.length) s) := by
  unfold parseLoop scanOpen
  rw [if_neg fun h => hst h.1]
  rcases parseLine_open h hs with ⟨hu, hp⟩ | ⟨hu, st, p', hok, hp⟩
  · rw [if_pos hu, hp]
    rfl
  · rw [if_neg hu, hp]
    simp only [Option.bind_eq_bind, Option.bind_some, if_pos hok]
    exact ⟨_, _, rfl⟩

private theorem Computes.of_kept {p p' : Parser} {res : Option (ParseEnd × Parser × Errno)} {v : Verdict}
    (h : Computes p' res v) (hc : p'.content = p.content) (hr : p'.readIdx = p.readIdx) : Computes p res v := by
  cases v with
  | undefined => exact h
  | rejected => exact h
  | accepted x rest =>
    obtain ⟨q, h1, h2, h3, h4, h5⟩ := h
    rw [hr] at h5
    exact ⟨q, h1, h2, h3, fun h0 => (h4 h0).trans hc, h5⟩

private theorem parseLoop_headers {p : Parser} {c : Nat} {s : List Byte} (fuel : Nat) (status : LineState)
    (errno : Errno) (h : At p c s) (hst : p.checkState = .checkStateHeader) (hf : s.length < fuel) :
    Computes p (parseLoop fuel status p errno)
      (scanHeaders (c + s.length) ⟨p.contentLength, p.linger, errno⟩ s) := by
  induction fuel generalizing p c s status errno with
  | zero => omega
  | succ fuel ih =>
    rcases ht : takeLine s with _ | ⟨l, r⟩
    · rw [scanHeaders_open ht]
      exact parseLoop_open fuel status errno h ht (by rw [hst]; decide)
    rw [scanHeaders_line ht]
    obtain ⟨rfl, hl⟩ := takeLine_eq_some.1 ht
    obtain ⟨q, hq, hloop⟩ := parseLoop_line fuel status errno h hl (by rw [hst]; decide)
    obtain ⟨m, hm⟩ := hq.text
    simp only [List.length_append, List.length_cons] at hf
    have hn : c + (l ++ CR :: LF :: r).length = (c + l.length + 2) + r.length := by
      simp only [List.length_append, List.length_cons]
      omega
    rw [hloop, hn, ← hq.contentLength, ← hq.linger, parseText_header (hq.checkState.trans hst)]
    split
    · rename_i h0
      subst h0
      -- the empty line: the request ends here, or its body is next
      have hpeek : q.readBuf.peek c = some 0 := by rw [CharArray.peek_suffix, hm]; rfl
      rw [parseHeaders_empty hpeek]
      by_cases hL : q.contentLength = 0
      · rw [if_neg (not_not.2 hL), scanBody, if_pos hL]
        exact ⟨q, rfl, rfl, rfl, fun _ => hq.content, fun h => absurd hL h⟩
      · rw [if_pos hL]
        obtain ⟨fuel, rfl⟩ : ∃ k, fuel = k + 1 := ⟨fuel - 1, by omega⟩
        have hat : At { q with checkState := .checkStateContent } (c + 0 + 2) r :=
          hq.at rfl rfl rfl fun z hz => CharArray.suffix_add (l := [0, 0]) hz
        exact (parseContent_text errno fuel hat rfl hL).of_kept hq.content hq.readIdx_eq
    · rename_i h0
      rcases parseHeaders_text errno hm hl.2.2 h0 with ⟨hx, p', e', hp⟩ | ⟨x, p', hx, hp, hk, hcl, hli, hsuf⟩
      · rw [hp, hx]
        exact ⟨_, _, rfl⟩
      · rw [hp, hx]
        have hat : At p' (c + l.length + 2) r := hq.at hk.checkedIdx hk.startLine hk.readIdx fun z hz => by
          rw [hm] at hz
          obtain rfl := List.cons.inj (List.cons.inj (List.append_cancel_left hz)).2 |>.2
          exact CharArray.suffix_add (l := [0, 0]) hsuf
        have := ih .lineOk x.errno hat (hk.checkState.trans (hq.checkState.trans hst)) (by omega)
        rw [hcl, hli] at this
        exact this.of_kept (hk.content.trans hq.content) (hk.readIdx.trans hq.readIdx_eq)

theorem receive_init {q p : Parser} {bs : List Byte} (h : q.init_.receive bs = some p) :
    At p 0 bs ∧ bs.length ≤ READ_BUFFER_SIZE ∧
      p = { q.init_ with readBuf := p.readBuf, readIdx := bs.length } := by
  unfold receive at h
  simp only [show q.init_.readIdx = ((0 : Nat) : Int) from rfl, ptr_natCast, Option.bind_eq_bind,
    Option.bind_some] at h
  obtain ⟨buf, hbuf, he⟩ := Option.bind_eq_some_iff.1 h
  obtain rfl := (Option.some.inj he).symm
  obtain ⟨hle, hb⟩ := CharArray.copy_bytes hbuf
  rw [Nat.zero_add] at hle
  refine ⟨⟨⟨READ_BUFFER_SIZE - bs.length, ?_⟩, rfl, rfl, by simp, by omega⟩, hle, by simp⟩
  show buf.bytes.drop 0 = _
  rw [hb]
  simp only [List.take_zero, List.nil_append, Nat.zero_add, List.drop_zero]
  rw [show q.init_.readBuf.bytes = List.replicate READ_BUFFER_SIZE 0 from rfl, List.drop_replicate]

/-- `parse_` decides as `scan` says on the bytes received since `init_`. -/
theorem parse_scan {q p : Parser} {bs : List Byte} (hp : q.init_.receive bs = some p) (errno : Errno) :
    Computes p (p.parse_ errno) (scan errno bs) := by
  obtain ⟨hat, hle, hfields⟩ := receive_init hp
  have hst : p.checkState = .checkStateRequestline := by rw [hfields]; rfl
  have hcl : p.contentLength = 0 := by rw [hfields]; rfl
  have hli : p.linger = true := by rw [hfields]; rfl
  have h0 : 0 + bs.length = bs.length := Nat.zero_add _
  unfold parse_ scan
  rcases ht : takeLine bs with _ | ⟨l, r⟩
  · have := parseLoop_open (READ_BUFFER_SIZE + 1) .lineBad errno hat ht
      (by rw [hst]; decide)
    rwa [h0] at this
  obtain ⟨rfl, hl⟩ := takeLine_eq_some.1 ht
  obtain ⟨t, hq, hloop⟩ := parseLoop_line (READ_BUFFER_SIZE + 1) .lineBad errno hat hl
    (by rw [hst]; decide)
  obtain ⟨m, hm⟩ := hq.text
  rw [hloop]
  dsimp only
  unfold parseText
  simp only [hq.checkState.trans hst, Option.bind_eq_bind]
  rcases parseRequest_text hm hl.2.2 with ⟨hrl, p', hp', -⟩ | ⟨rl, buf, hrl, hp', -, hsuf⟩
  · rw [hrl, hp']
    exact ⟨_, _, rfl⟩
  · rw [hrl, hp']
    have hnext : At { t with
        readBuf := buf, method := rl.method, cgi := t.cgi || decide (rl.method = .post), url := some (0 + rl.url),
        version := some (0 + rl.version), checkState := .checkStateHeader } (0 + l.length + 2) r := by
      refine hq.at rfl rfl rfl fun z hz => ?_
      rw [hm] at hz
      obtain rfl := List.cons.inj (List.cons.inj (List.append_cancel_left hz)).2 |>.2
      exact hsuf
    have := parseLoop_headers (READ_BUFFER_SIZE + 1) .lineOk errno hnext rfl
      (by simp only [List.length_append, List.length_cons] at hle; omega)
    have hn : 0 + l.length + 2 + r.length = (l ++ CR :: LF :: r).length := by
      simp only [List.length_append, List.length_cons]
      omega
    have hx : (⟨0, true, errno⟩ : HeadState) = ⟨t.contentLength, t.linger, errno⟩ := by
      rw [hq.contentLength.trans hcl, hq.linger.trans hli]
    show Computes p _ (scanHeaders _ _ r)
    rw [hx, ← hn]
    exact this.of_kept hq.content hq.readIdx_eq

end Parser

end ImageServer
