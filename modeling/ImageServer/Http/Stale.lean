import Mathlib.Tactic.Simps.Basic
import ImageServer.Http.ParseText
import ImageServer.Http.Resolve

/-!
# The fields an earlier request leaves behind

`init_` leaves the pointers of eight headers, `m_content` and `m_file_stat` as the last request set them.  The parser
reads none of them, and `do_request_` reads `m_content` only, so on what is left over of an earlier request both do
the same as on a fresh handler wherever that has a result (`parse_agree`, `doRequest_agree`).
-/

namespace ImageServer

open CLib

namespace Parser

/-- The parser without what `init_` does not reset. -/
@[simps]
def core (p : Parser) : Parser :=
  { p with
    useragent := none, origin := none, contentType := none, encoding := none, upgrade := none, accept := none,
    referer := none, language := none, content := none }

/-- The two differ in left-over fields only, and `m_content` is not set in the first or the same in both. -/
structure Agree (p q : Parser) : Prop where
  core : p.core = q.core
  content : p.content = none ∨ p.content = q.content

private theorem parseLine_core (p : Parser) : p.core.parseLine_ = p.parseLine_.map fun x => (x.1, x.2.core) := by
  unfold parseLine_
  simp only [core_checkedIdx, core_readBuf, core_readIdx, Option.bind_eq_bind, Option.pure_def]
  cases ptr p.checkedIdx with
  | none => rfl
  | some c =>
    simp only [Option.bind_some]
    cases strpbrk [CR] (p.readBuf.suffix c) with
    | none => rfl
    | some r =>
      cases strpbrk [LF] (p.readBuf.suffix c) with
      | none => rfl
      | some n =>
        simp only [Option.bind_some]
        split
        · split
          · rename_i j i _ _ _
            cases h : p.readBuf.poke (c + i) 0 with
            | none => rfl
            | some buf =>
              simp only [Option.bind_some]
              cases buf.poke (c + j) 0 <;> rfl
          · rfl
        · rfl
        · rfl
        · rfl

private theorem finishRequest_core (p : Parser) (version : Nat) :
    p.core.finishRequest version = (p.finishRequest version).map fun x => (x.1, x.2.core) := by
  unfold finishRequest
  simp only [core_url, core_readBuf, Option.bind_eq_bind, Option.pure_def]
  cases p.url with
  | none => rfl
  | some u =>
    simp only []
    cases p.readBuf.peek u with
    | none => rfl
    | some b =>
      simp only [Option.bind_some]
      split
      · rfl
      · cases strcaseeq (lit "HTTP/1.1") (p.readBuf.suffix version) with
        | none => rfl
        | some ok =>
          simp only [Option.bind_some]
          cases ok with
          | false => rfl
          | true =>
            simp only [if_true]
            cases strlen (p.readBuf.suffix u) with
            | none => rfl
            | some n =>
              simp only [Option.bind_some]
              split
              · cases p.readBuf.copy (u + 1) (lit "judge.html" ++ [0]) <;> rfl
              · rfl

private theorem parseRequest_core (p : Parser) (t : Nat) :
    p.core.parseRequest_ t = (p.parseRequest_ t).map fun x => (x.1, x.2.core) := by
  unfold parseRequest_
  simp only [core_readBuf, core_cgi, Option.bind_eq_bind, Option.pure_def]
  cases strpbrk [SP] (p.readBuf.suffix t) with
  | none => rfl
  | some i =>
    cases i with
    | none => rfl
    | some i =>
      simp only [Option.bind_some]
      cases p.readBuf.poke (t + i) 0 with
      | none => rfl
      | some buf =>
        simp only [Option.bind_some]
        cases methodOf (buf.suffix t) with
        | none => rfl
        | some m =>
          cases m with
          | none => rfl
          | some m =>
            simp only [Option.bind_some]
            cases strpbrk [SP] (buf.suffix (t + i + 1)) with
            | none => rfl
            | some j =>
              cases j with
              | none => rfl
              | some j =>
                simp only [Option.bind_some]
                cases buf.poke (t + i + 1 + j) 0 with
                | none => rfl
                | some buf' =>
                  simp only [Option.bind_some]
                  cases locatePath buf' (t + i + 1) with
                  | none => rfl
                  | some u =>
                    exact finishRequest_core { p with
                      readBuf := buf', url := u, method := m, cgi := p.cgi || decide (m = Method.post),
                      version := some (t + i + 1 + j + 1) } _

/-- The result of a header line, with the left-over fields dropped. -/
private def dropStale (x : HttpState × Parser × Errno) : HttpState × Parser × Errno := (x.1, x.2.1.core, x.2.2)

private theorem cutAtBlank_core (p : Parser) (t : Nat) (errno : Errno) :
    p.core.cutAtBlank t errno = (p.cutAtBlank t errno).map dropStale := by
  unfold cutAtBlank
  simp only [core_readBuf, Option.bind_eq_bind, Option.pure_def]
  cases strpbrk [SP, HT] (p.readBuf.suffix t) with
  | none => rfl
  | some i =>
    cases i with
    | none => rfl
    | some i =>
      simp only [Option.bind_some]
      cases p.readBuf.poke (t + i) 0 <;> rfl

private theorem parseHeaders_core (p : Parser) (t : Nat) (errno : Errno) :
    (p.core.parseHeaders_ t errno).map dropStale = (p.parseHeaders_ t errno).map dropStale := by
  have hcut : ∀ (q q' : Parser) (t : Nat) (e : Errno), q.core = q'.core →
      (q.cutAtBlank t e).map dropStale = (q'.cutAtBlank t e).map dropStale := by
    intro q q' t e h
    rw [← cutAtBlank_core, ← cutAtBlank_core, h]
  unfold parseHeaders_
  simp only [core_readBuf, core_contentLength, Option.bind_eq_bind, Option.pure_def]
  cases p.readBuf.peek t with
  | none => rfl
  | some b =>
    simp only [Option.bind_some]
    split
    · split <;> rfl
    · cases strncaseeq (lit "Connection:") (p.readBuf.suffix t) with
      | none => rfl
      | some c =>
        simp only [Option.bind_some]
        split
        · cases skipBlanks p.readBuf t 11 with
          | none => rfl
          | some t' =>
            simp only [Option.bind_some]
            cases strncaseeq (lit "close") (p.readBuf.suffix t') with
            | none => rfl
            | some c =>
              simp only [Option.bind_some]
              split <;> exact hcut _ _ _ _ rfl
        · cases strncaseeq (lit "Content-length:") (p.readBuf.suffix t) with
          | none => rfl
          | some c =>
            simp only [Option.bind_some]
            split
            · cases skipBlanks p.readBuf t 15 with
              | none => rfl
              | some t' =>
                simp only [Option.bind_some]
                cases strtol (p.readBuf.suffix t') with
                | none => rfl
                | some v =>
                  simp only [Option.bind_some]
                  generalize (if v.2 = true then Errno.erange else errno) = e
                  split
                  · rfl
                  · exact hcut _ _ _ _ rfl
            · cases findField (p.readBuf.suffix t) fieldNames with
              | none => rfl
              | some x =>
                cases x with
                | none => exact hcut _ _ _ _ rfl
                | some x =>
                  simp only [Option.bind_some]
                  cases skipBlanks p.readBuf t x.2 with
                  | none => rfl
                  | some t' =>
                    simp only [Option.bind_some]
                    refine hcut _ _ _ _ ?_
                    cases x.1 <;> rfl

private theorem parseContent_core (p : Parser) (t : Nat) :
    (p.core.parseContent_ t).map (fun x => (x.1, x.2.core)) = (p.parseContent_ t).map fun x => (x.1, x.2.core) := by
  unfold parseContent_
  simp only [core_readBuf, core_contentLength, core_readIdx, Option.bind_eq_bind, Option.pure_def]
  split
  · cases ptr (t + p.contentLength) with
    | none => rfl
    | some e =>
      simp only [Option.bind_some]
      cases p.readBuf.poke e 0 <;> rfl
  · rfl

/-- Two results that agree under `f`. -/
private theorem both_of_map_eq {α β : Type} {f : α → β} {a b : Option α} (h : a.map f = b.map f) :
    (a = none ∧ b = none) ∨ ∃ x y, a = some x ∧ b = some y ∧ f x = f y := by
  cases a with
  | none => exact Or.inl ⟨rfl, Option.map_eq_none_iff.1 h.symm⟩
  | some x =>
    obtain ⟨y, hy, he⟩ := Option.map_eq_some_iff.1 h.symm
    exact Or.inr ⟨x, y, rfl, hy, he.symm⟩

private theorem parseText_core (p : Parser) (t : Nat) (errno : Errno) :
    (p.core.parseText t errno).map (fun x => (x.1, x.2.1.core, x.2.2)) =
      (p.parseText t errno).map fun x => (x.1, x.2.1.core, x.2.2) := by
  unfold parseText
  simp only [core_checkState, Option.bind_eq_bind, Option.pure_def]
  split
  · rw [parseRequest_core]
    cases p.parseRequest_ t <;> rfl
  · rcases both_of_map_eq (parseHeaders_core p t errno) with ⟨hx, hy⟩ | ⟨x, y, hx, hy, he⟩
    · rw [hx, hy]
    · obtain ⟨h1, h2, h3⟩ : x.1 = y.1 ∧ x.2.1.core = y.2.1.core ∧ x.2.2 = y.2.2 := by simpa [dropStale] using he
      simp only [hx, hy, Option.bind_some, Option.map_some, h1, h2, h3]
  · rcases both_of_map_eq (parseContent_core p t) with ⟨hx, hy⟩ | ⟨x, y, hx, hy, he⟩
    · rw [hx, hy]
    · obtain ⟨h1, h2⟩ : x.1 = y.1 ∧ x.2.core = y.2.core := by simpa using he
      simp only [hx, hy, Option.bind_some, Option.map_some, h1, h2]

private theorem parseLoop_core {p q : Parser} (fuel : Nat) (status : LineState) (errno : Errno) (h : p.core = q.core) :
    (parseLoop fuel status p errno).map (fun x => (x.1, x.2.1.core, x.2.2)) =
      (parseLoop fuel status q errno).map fun x => (x.1, x.2.1.core, x.2.2) := by
  induction fuel generalizing p q status errno with
  | zero =>
    simp only [parseLoop, Option.map_some, h]
  | succ fuel ih =>
    have hline : ∀ p q : Parser, p.core = q.core →
        (if p.checkState = .checkStateContent ∧ status = .lineOk then some (status, p) else p.parseLine_).map
          (fun x => (x.1, x.2.core)) =
        (if q.checkState = .checkStateContent ∧ status = .lineOk then some (status, q) else q.parseLine_).map
          fun x => (x.1, x.2.core) := by
      intro p q h
      have hst : p.core.checkState = q.core.checkState := by rw [h]
      rw [show p.checkState = q.checkState from hst]
      split
      · simp only [Option.map_some, h]
      · rw [← parseLine_core, ← parseLine_core, h]
    rw [parseLoop_succ, parseLoop_succ]
    rcases both_of_map_eq (hline p q h) with ⟨hx, hy⟩ | ⟨x, y, hx, hy, he⟩
    · rw [hx, hy]
    obtain ⟨h1, h2⟩ : x.1 = y.1 ∧ x.2.core = y.2.core := by simpa using he
    simp only [hx, hy, Option.bind_some, h1]
    split
    · simp only [Option.map_some, h2]
    · have hstart : x.2.core.startLine = y.2.core.startLine := by rw [h2]
      have hcore : Parser.core { x.2 with startLine := x.2.checkedIdx } =
          Parser.core { y.2 with startLine := y.2.checkedIdx } := by
        show { x.2.core with startLine := x.2.core.checkedIdx } = { y.2.core with startLine := y.2.core.checkedIdx }
        rw [h2]
      rw [show x.2.startLine = y.2.startLine from hstart]
      cases ptr y.2.startLine with
      | none => rfl
      | some t =>
        simp only [Option.bind_some]
        have ht := (parseText_core _ t errno).symm.trans ((congrArg (fun p => (parseText p t errno).map _) hcore).trans
          (parseText_core { y.2 with startLine := y.2.checkedIdx } t errno))
        rcases both_of_map_eq ht with ⟨hx', hy'⟩ | ⟨x', y', hx', hy', he'⟩
        · rw [hx', hy']
        obtain ⟨e1, e2, e3⟩ : x'.1 = y'.1 ∧ x'.2.1.core = y'.2.1.core ∧ x'.2.2 = y'.2.2 := by simpa using he'
        simp only [hx', hy', Option.bind_some, e1, e3]
        cases y'.1 with
        | none => exact ih _ _ e2
        | some e => simp only [Option.map_some, e2]

/-! ### Two runs of `parse_` -/

private theorem receive_core {p q p' q' : Parser} {bs : List Byte} (h : p.core = q.core) (hp : p.receive bs = some p')
    (hq : q.receive bs = some q') : p'.core = q'.core := by
  unfold receive at hp hq
  obtain ⟨k, hk, hp⟩ := Option.bind_eq_some_iff.1 hp
  obtain ⟨buf, hb, hp⟩ := Option.bind_eq_some_iff.1 hp
  obtain ⟨k', hk', hq⟩ := Option.bind_eq_some_iff.1 hq
  obtain ⟨buf', hb', hq⟩ := Option.bind_eq_some_iff.1 hq
  have h1 : p.core.readIdx = q.core.readIdx := by rw [h]
  have h2 : p.core.readBuf = q.core.readBuf := by rw [h]
  rw [core_readIdx, core_readIdx] at h1
  rw [core_readBuf, core_readBuf] at h2
  rw [h1] at hk
  obtain rfl := Option.some.inj (hk.symm.trans hk')
  rw [h2] at hb
  obtain rfl := Option.some.inj (hb.symm.trans hb')
  cases hp
  cases hq
  show { p.core with readBuf := buf, readIdx := p.core.readIdx + bs.length } =
    { q.core with readBuf := buf, readIdx := q.core.readIdx + bs.length }
  rw [h]

theorem receive_isSome (q : Parser) {bs : List Byte} (h : bs.length ≤ READ_BUFFER_SIZE) :
    ∃ p, q.init_.receive bs = some p := by
  obtain ⟨buf, hb⟩ := CharArray.copy_isSome (a := q.init_.readBuf) (p := 0) (s := bs) (by omega)
  refine ⟨{ q.init_ with readBuf := buf, readIdx := q.init_.readIdx + bs.length }, ?_⟩
  unfold receive
  rw [show q.init_.readIdx = ((0 : Nat) : Int) from rfl, ptr_natCast]
  simp only [Option.bind_eq_bind, Option.bind_some, hb]
  rfl

/-- On the same bytes the parser does the same, whatever earlier requests left behind. -/
theorem parse_agree {q₀ q₁ p₀ p₁ p' : Parser} {bs : List Byte} {errno errno' : Errno} {e : ParseEnd}
    (h0 : q₀.init_.receive bs = some p₀) (h1 : q₁.init_.receive bs = some p₁) (hc : q₀.content = none)
    (hp : p₀.parse_ errno = some (e, p', errno')) :
    ∃ q', p₁.parse_ errno = some (e, q', errno') ∧ p'.core = q'.core ∧ (e = .doRequest → Agree p' q') := by
  have hcore := receive_core (show q₀.init_.core = q₁.init_.core from rfl) h0 h1
  have hrun := parseLoop_core (READ_BUFFER_SIZE + 2) .lineBad errno hcore
  rcases both_of_map_eq hrun with ⟨hx, -⟩ | ⟨x, y, hx, hy, he⟩
  · cases hp.symm.trans hx
  obtain rfl := Option.some.inj (hp.symm.trans hx)
  obtain ⟨e', q', n'⟩ := y
  obtain ⟨rfl, e2, rfl⟩ : e = e' ∧ p'.core = q'.core ∧ errno' = n' := by simpa using he
  refine ⟨q', hy, e2, fun hd => ⟨e2, ?_⟩⟩
  subst hd
  -- the content is set at the same place in both, or in neither
  obtain ⟨hat₀, -, hf₀⟩ := receive_init h0
  obtain ⟨hat₁, -, hf₁⟩ := receive_init h1
  have hs₀ := parse_scan h0 errno
  have hs₁ := parse_scan h1 errno
  rw [show p₀.parse_ errno = _ from hp] at hs₀
  rw [show p₁.parse_ errno = _ from hy] at hs₁
  cases hv : scan errno bs with
  | undefined => rw [hv] at hs₀; cases hs₀
  | rejected => rw [hv] at hs₀; obtain ⟨_, _, h⟩ := hs₀; cases h
  | accepted x rest =>
    rw [hv] at hs₀ hs₁
    obtain ⟨_, h, -, -, hz₀, hb₀⟩ := hs₀
    cases h
    obtain ⟨_, h, -, -, hz₁, hb₁⟩ := hs₁
    cases h
    by_cases hL : x.contentLength = 0
    · refine Or.inl ((hz₀ hL).trans ?_)
      rw [hf₀]
      exact hc
    · obtain ⟨c, hc₀, hn₀, -⟩ := hb₀ hL
      obtain ⟨c', hc₁, hn₁, -⟩ := hb₁ hL
      rw [hat₀.readIdx] at hn₀
      rw [hat₁.readIdx] at hn₁
      refine Or.inr ?_
      rw [hc₀, hc₁]
      congr 1
      omega

end Parser

/-! ### Two runs of `do_request_` -/

/-- The two resources hold the same name and the same mapping. -/
def Resource.Same (r r' : Resource) : Prop := r.realFile = r'.realFile ∧ r.fileAddress = r'.fileAddress

private theorem openResource_same {env : Env} {r r₁ : Resource} {ret : HttpState} (r' : Resource) (h : r.Same r')
    (hr : openResource env r = some (ret, r₁)) :
    ∃ r₁', openResource env r' = some (ret, r₁') ∧ r₁.Same r₁' ∧
      (ret = .finishedRequest → r₁.fileStat = r₁'.fileStat) := by
  obtain ⟨f, st, a⟩ := r
  obtain ⟨f', st', a'⟩ := r'
  obtain ⟨rfl, rfl⟩ : f = f' ∧ a = a' := h
  unfold openResource at hr ⊢
  obtain ⟨path, hpath, hr⟩ := Option.bind_eq_some_iff.1 hr
  dsimp only at hpath hr ⊢
  rw [hpath]
  simp only [Option.bind_eq_bind, Option.bind_some]
  cases hst : env.stat path with
  | none =>
    rw [hst] at hr
    cases hr
    exact ⟨_, rfl, ⟨rfl, rfl⟩, fun h => HttpState.noConfusion h⟩
  | some s =>
    rw [hst] at hr
    exact ⟨r₁, hr, ⟨rfl, rfl⟩, fun _ => rfl⟩

private theorem doAccount_agree {env : Env} {con : Option Nat} {users users' : Users} {p q p' : Parser}
    {r r' r₁ : Resource} {url : Nat} {action : Byte} (h : p.Agree q) (hs : r.Same r')
    (hd : doAccount env con users p r url action = some (p', r₁, users')) :
    ∃ q' r₁', doAccount env con users q r' url action = some (q', r₁', users') ∧ p'.core = q'.core ∧ r₁.Same r₁' := by
  have hbuf : p.core.readBuf = q.core.readBuf := by rw [h.core]
  rw [Parser.core_readBuf, Parser.core_readBuf] at hbuf
  unfold doAccount at hd ⊢
  simp only [Option.bind_eq_bind, Option.bind_eq_some_iff] at hd
  obtain ⟨rest, h1, urlReal, h2, realFile, h3, content, h4, form, h5, x, h6, buf, h7, hd⟩ := hd
  cases hd
  have hcontent : q.content = some content := by
    rcases h.content with hn | he
    · rw [hn] at h4
      cases h4
    · rw [← he, h4]
  rw [hbuf] at h1 h5 h7
  rw [hs.1] at h3
  simp only [h1, h2, h3, hcontent, h5, h6, h7, Option.bind_eq_bind, Option.bind_some, Option.pure_def]
  refine ⟨_, _, rfl, ?_, rfl, hs.2⟩
  show { p.core with readBuf := buf } = { q.core with readBuf := buf }
  rw [h.core]

/-- Up to `stat` the stale bytes of the two runs stay where they are. -/
private theorem resolve_agree {env : Env} {con : Option Nat} {users users' : Users} {p q p' : Parser}
    {r r' r₁ : Resource} (h : p.Agree q) (hs : r.Same r') (hd : resolve env con users p r = some (p', r₁, users')) :
    ∃ q' r₁', resolve env con users q r' = some (q', r₁', users') ∧ p'.core = q'.core ∧ r₁.Same r₁' := by
  have hbuf : p.core.readBuf = q.core.readBuf := by rw [h.core]
  have hurl : p.core.url = q.core.url := by rw [h.core]
  have hcgi : p.core.cgi = q.core.cgi := by rw [h.core]
  simp only [Parser.core_readBuf, Parser.core_url, Parser.core_cgi] at hbuf hurl hcgi
  obtain ⟨file, name, url, i, action, r₂, h1, h2, h3, h4, h5, h6, hr₁⟩ := resolve_steps hd
  dsimp only at h5 h6 hr₁
  have hacc : ∃ q' r₂', (if q.cgi ∧ (action = 50 ∨ action = 51) then
      doAccount env con users q { r' with realFile := file } url action
      else some (q, { r' with realFile := file }, users)) = some (q', r₂', users') ∧
      p'.core = q'.core ∧ r₂.Same r₂' := by
    rw [← hcgi]
    split at h5
    · rename_i hc
      rw [if_pos hc]
      exact doAccount_agree (r := { r with realFile := file }) h ⟨rfl, hs.2⟩ h5
    · rename_i hc
      rw [if_neg hc]
      cases h5
      exact ⟨_, _, rfl, h.core, rfl, hs.2⟩
  obtain ⟨q', r₂', h5', hcore, hsame⟩ := hacc
  have hbuf' : p'.core.readBuf = q'.core.readBuf := by rw [hcore]
  rw [Parser.core_readBuf, Parser.core_readBuf] at hbuf'
  have h6' : chooseFile env q' r₂' url (url + i) = some name := by
    unfold chooseFile at h6 ⊢
    rw [← hbuf', ← hsame.1]
    exact h6
  rw [hs.1] at h1
  rw [hurl] at h2
  rw [hbuf] at h3 h4
  rw [hr₁]
  exact ⟨q', _, resolve_eq_some h1 h2 h3 h4 h5' h6', hcore, rfl, hsame.2⟩

theorem doRequest_agree {env : Env} {con : Option Nat} {users users' : Users} {p q p' : Parser} {r r' r₁ : Resource}
    {ret : HttpState} (h : p.Agree q) (hs : r.Same r')
    (hd : doRequest_ env con users p r = some (ret, p', r₁, users')) :
    ∃ q' r₁', doRequest_ env con users q r' = some (ret, q', r₁', users') ∧ p'.core = q'.core ∧ r₁.Same r₁' ∧
      (ret = .finishedRequest → r₁.fileStat = r₁'.fileStat) := by
  rw [doRequest_eq] at hd
  obtain ⟨⟨p₂, r₂, u₂⟩, hresolve, hd⟩ := Option.bind_eq_some_iff.1 hd
  obtain ⟨⟨ret₂, r₃⟩, hopen, he⟩ := Option.map_eq_some_iff.1 hd
  cases he
  obtain ⟨q', r₂', hresolve', hcore, hsame⟩ := resolve_agree h hs hresolve
  obtain ⟨r₃', hopen', hsame', hst⟩ := openResource_same r₂' hsame hopen
  refine ⟨q', r₃', ?_, hcore, hsame', hst⟩
  rw [doRequest_eq, hresolve', Option.bind_some, hopen']
  rfl

end ImageServer
