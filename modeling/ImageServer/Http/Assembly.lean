import ImageServer.Http.Judgement
import ImageServer.Http.Receive

/-!
# What `read_` leaves for `parse_`

`read_` stores what a `recv` returns at `m_read_idx`, and adds the result of the call to the index, also a failed
attempt's -1.  `Held` is the text that comes about so, and the index; `read_judge` says what `parse_` makes of them,
whatever the results of `recv`.  For bytes that come without a gap this is decided by the request itself
(`gapless_accepts_iff`): nine bytes more than it has would be needed behind a request line, and behind a body.
-/

namespace ImageServer

open CLib Transition

/-- The text at the start of `m_read_buf`, and `m_read_idx`. -/
structure Held where
  text : List Byte
  idx : Int

namespace Held

/-- The effect of an iteration of the loop of `read_` that is not the last one. -/
def add (x : Held) : RecvResult → Held
  | .data bs => ⟨x.text.take x.idx.toNat ++ bs ++ x.text.drop (x.idx.toNat + bs.length), x.idx + bs.length⟩
  | .again => { x with idx := x.idx - 1 }
  | _ => x

/-- What `read_` leaves when `recv` has returned `rs`; the last result ends the loop. -/
def ofResults (rs : List RecvResult) : Held := rs.dropLast.foldl add ⟨[], 0⟩

/-- The handler holds the text and nothing else, and its parser has not started. -/
structure In (x : Held) (h : HttpHandler) : Prop where
  facing : h.toParser.Facing x.idx 0 x.text
  le : x.idx ≤ x.text.length
  fresh : ∃ q : Parser, h.toParser = { q.init_ with readBuf := h.toParser.readBuf, readIdx := h.toParser.readIdx }

theorem In.init (h : HttpHandler) : In ⟨[], 0⟩ h.init_ :=
  ⟨⟨⟨READ_BUFFER_SIZE, rfl⟩, rfl, rfl, rfl, Nat.zero_le _⟩, Int.le_refl _, h.toParser, rfl⟩

theorem In.again {x : Held} {h : HttpHandler} (hx : In x h) : In (x.add .again) { h with readIdx := h.readIdx - 1 } :=
  ⟨⟨hx.facing.text, hx.facing.checkedIdx, hx.facing.startLine, congrArg (· - 1) hx.facing.readIdx, hx.facing.le⟩,
    (Int.sub_le_self _ (by decide)).trans hx.le,
    hx.fresh.imp fun q hq => by dsimp only; rw [hq]⟩

/-- Bytes are stored over what is behind the index. -/
theorem In.data {x : Held} {h : HttpHandler} {bs : List Byte} {p : Parser} (hx : In x h)
    (hp : h.toParser.receive bs = some p) : In (x.add (.data bs)) { h with toParser := p } := by
  obtain ⟨k, hk, hp⟩ := Option.bind_eq_some_iff.1 hp
  obtain ⟨buf, hbuf, hp⟩ := Option.bind_eq_some_iff.1 hp
  cases hp
  obtain ⟨m, hm⟩ := hx.facing.text
  obtain ⟨hle, hbytes⟩ := CharArray.copy_bytes hbuf
  rw [hx.facing.readIdx, ptr_eq_some] at hk
  have hidx := hx.le
  have hlen := hx.facing.le
  have htext : h.readBuf.bytes = x.text ++ List.replicate m 0 := hm
  refine ⟨⟨⟨m - (k + bs.length - x.text.length), ?_⟩, hx.facing.checkedIdx, hx.facing.startLine, ?_, ?_⟩, ?_, ?_⟩
  · show buf.bytes = _
    rw [hbytes, htext, List.take_append_of_le_length (by omega), List.drop_append, List.drop_replicate]
    simp [add, hk, List.append_assoc]
  · show h.readIdx + bs.length = x.idx + bs.length
    rw [hx.facing.readIdx]
  · simp only [add, hk, Int.toNat_natCast, List.length_append, List.length_take, List.length_drop]
    omega
  · simp only [add, hk, Int.toNat_natCast, List.length_append, List.length_take, List.length_drop]
    omega
  · obtain ⟨q, hq⟩ := hx.fresh
    exact ⟨q, by dsimp only; rw [hq]⟩

end Held

namespace HttpHandler

/-- A result of `recv` goes on with the loop, or ends it and leaves the parser as it is. -/
private theorem recvStep_held {users : Users} {h h' : HttpHandler} {tried : Nat} {ph' : Phase} {r : RecvResult}
    {x : Held} (hx : x.In h) (hs : recvStep users (h, .reading tried) r = some (h', ph')) :
    (∃ tried', ph' = .reading tried') ∧ (x.add r).In h' ∨ ph' = .parse ∧ x.In h' := by
  simp only [recvStep, procStep] at hs
  rcases r with bs | _ | _ | _
  · by_cases hcan : h.CanReceive (.data bs)
    · simp only [if_pos hcan, readStep] at hs
      rcases hp : h.toParser.receive bs with _ | p <;> rw [hp] at hs <;> cases hs
      exact .inl ⟨⟨tried, rfl⟩, hx.data hp⟩
    · simp [hcan] at hs
  · cases hs
    exact .inr ⟨rfl, hx.facing, hx.le, hx.fresh⟩
  · by_cases hlast : tried - 1 = 0
    · simp only [CanReceive, if_true, readStep, if_pos hlast] at hs
      cases hs
      exact .inr ⟨rfl, hx⟩
    · simp only [CanReceive, if_true, readStep, if_neg hlast] at hs
      cases hs
      exact .inl ⟨⟨_, rfl⟩, hx.again⟩
  · cases hs
    exact .inr ⟨rfl, hx.facing, hx.le, hx.fresh⟩

theorem held_run {users : Users} {rs : List RecvResult} {h h' : HttpHandler} {tried : Nat} {x : Held} (hx : x.In h)
    (hrun : run (recvStep users) (h, .reading tried) rs = some (h', .parse)) :
    (rs.dropLast.foldl Held.add x).In h' := by
  induction rs generalizing h tried x with
  | nil => cases hrun
  | cons r rs ih =>
    obtain ⟨⟨h₁, ph₁⟩, hs, hrun⟩ := run_cons hrun
    rcases recvStep_held hx hs with ⟨⟨tried', rfl⟩, hx'⟩ | ⟨rfl, hx'⟩
    · rcases rs with _ | ⟨r', rs⟩
      · cases hrun
      · rw [List.dropLast_cons_cons, List.foldl_cons]
        exact ih hx' hrun
    · -- the loop has ended
      rcases rs with _ | ⟨r', rs⟩
      · cases hrun
        exact hx'
      · obtain ⟨_, hs', -⟩ := run_cons hrun
        cases hs'

/-- Whatever `recv` returns, `parse_` then ends as the judgement says of the text and the index that have come about,
and has stored what it says of the head. -/
theorem read_judge {h h' : HttpHandler} {users : Users} {rs : List RecvResult} (errno : Errno)
    (hrun : run (recvStep users) (h.init_, .reading 10) rs = some (h', .parse)) :
    Parser.Delivers h'.toParser (h'.toParser.parse_ errno)
      (judge (Held.ofResults rs).idx errno (Held.ofResults rs).text) := by
  have hx := held_run (Held.In.init h) hrun
  obtain ⟨q, hq⟩ := hx.fresh
  exact Parser.parse_judge hx.facing hx.le hq errno

/-- Bytes that come after an attempt in vain are stored over the last one received. -/
def overlapping : List RecvResult :=
  [.data (lit "GET /a HTTP/1.1\r\n\r\n"), .again, .data (lit "\nbehind the request")] ++ List.replicate 9 .again

theorem read_judge_overlapping :
    Held.ofResults overlapping = ⟨lit "GET /a HTTP/1.1\r\n\r\nbehind the request", 29⟩ ∧
      ∃ h', run (recvStep fun _ => none) ((fresh 19 none .httpClient none).init_, .reading 10) overlapping =
          some (h', .parse) ∧
        Parser.Delivers h'.toParser (h'.toParser.parse_ .eagain)
          (judge (Held.ofResults overlapping).idx .eagain (Held.ofResults overlapping).text) := by
  have hrun : (run (recvStep fun _ => none) ((fresh 19 none .httpClient none).init_, .reading 10) overlapping).map
      Prod.snd = some .parse := by decide +kernel
  obtain ⟨⟨h', ph⟩, hrun, rfl⟩ := Option.map_eq_some_iff.1 hrun
  exact ⟨rfl, h', hrun, read_judge .eagain hrun⟩

end HttpHandler

/-! ### The lines of an accepted text -/

/-- All the lines end before `m_read_idx` as `parse_line_` compares them. -/
def AllSeen (k : Int) (hs : List (List Byte)) : Prop := ∀ h ∈ hs, (h.length : Int) + 1 < k

private theorem lines_cons_length (h : List Byte) (hs : List (List Byte)) :
    (lines (h :: hs)).length = h.length + 2 + (lines hs).length := by
  have hlen := congrArg List.length (lines_cons h hs [])
  simp only [List.append_nil, List.length_append, List.length_cons] at hlen
  omega

/-- The lines are taken off up to where no line is seen, to the empty line, or to a malformed one. -/
private theorem judgeHeaders_cases (k : Int) (c : Nat) (line : List Byte) (hs₀ : List (List Byte)) (x : HeadState)
    (s : List Byte) :
    ∃ hs r x', HeaderLines hs ∧ s = lines hs ++ r ∧ readHeaders x hs = some x' ∧ AllSeen k hs ∧
      (judgeHeaders k c line hs₀ x s = judgeOpen (c + s.length) x'.linger r ∨
       (∃ rest, r = CR :: LF :: rest ∧ AllSeen k [[]] ∧
          judgeHeaders k c line hs₀ x s = judgeBody k (c + (lines hs).length + 2) line (hs₀ ++ hs) x' rest) ∨
       judgeHeaders k c line hs₀ x s = .refused x'.linger) := by
  have hnil : HeaderLines [] := fun h hm => absurd hm List.not_mem_nil
  have hseen : AllSeen k [] := fun h hm => absurd hm List.not_mem_nil
  fun_induction judgeHeaders k c line hs₀ x s with
  | case1 c hs₀ x s ht => exact ⟨[], s, x, hnil, rfl, rfl, hseen, .inl rfl⟩
  | case2 c hs₀ x s r ht =>
    obtain ⟨hr, -, hk⟩ := seenLine_eq_some.1 ht
    refine ⟨[], s, x, hnil, rfl, rfl, hseen, .inr (.inl ⟨r, hr, fun h hm => ?_, ?_⟩)⟩
    · rw [List.mem_singleton.1 hm]
      exact hk
    · simp [lines]
  | case3 c hs₀ x s l r ht h0 hx => exact ⟨[], s, x, hnil, rfl, rfl, hseen, .inr (.inr rfl)⟩
  | case4 c hs₀ x s l r ht h0 y hx ih =>
    obtain ⟨hs', hl, hk⟩ := seenLine_eq_some.1 ht
    obtain ⟨hs, r', x', hh, hr, hx', hall, hcases⟩ := ih
    have hlen : c + l.length + 2 + r.length = c + s.length := by
      rw [hs', List.length_append, List.length_cons, List.length_cons]
      omega
    refine ⟨l :: hs, r', x', ?_, ?_, Option.bind_eq_some_iff.2 ⟨y, hx, hx'⟩, ?_, ?_⟩
    · exact List.forall_mem_cons.2 ⟨⟨hl, h0⟩, hh⟩
    · rw [lines_cons, ← hr]
      exact hs'
    · exact List.forall_mem_cons.2 ⟨hk, hall⟩
    · rw [hlen] at hcases
      rcases hcases with h | ⟨rest, hrest, hempty, h⟩ | h
      · exact .inl h
      · refine .inr (.inl ⟨rest, hrest, hempty, h.trans ?_⟩)
        rw [lines_cons_length, List.append_assoc, List.singleton_append]
        congr 1
        omega
      · exact .inr (.inr h)

/-- Header lines that are seen and well-formed are taken off. -/
private theorem judgeHeaders_lines {k : Int} {c : Nat} {line s : List Byte} {hs₀ hs : List (List Byte)}
    {x x' : HeadState} (hh : HeaderLines hs) (hall : AllSeen k hs) (hx : readHeaders x hs = some x') :
    judgeHeaders k c line hs₀ x (lines hs ++ s) =
      judgeHeaders k (c + (lines hs).length) line (hs₀ ++ hs) x' s := by
  induction hs generalizing c hs₀ x with
  | nil =>
    cases hx
    simp [lines]
  | cons h hs ih =>
    obtain ⟨hp, h0⟩ := hh h List.mem_cons_self
    obtain ⟨y, hy, hx⟩ := Option.bind_eq_some_iff.1 hx
    rw [lines_cons, judgeHeaders_line (seenLine_eq_some.2 ⟨rfl, hp, hall h List.mem_cons_self⟩), if_neg h0, hy,
      lines_cons_length]
    dsimp only
    rw [ih (fun h hm => hh h (List.mem_cons_of_mem _ hm)) (fun h hm => hall h (List.mem_cons_of_mem _ hm)) hx]
    simp [Nat.add_assoc]

/-- With the lines of a head seen, it is judged by its body. -/
theorem judge_head {k : Int} {errno : Errno} {s l rest : List Byte} {hs : List (List Byte)} {x : HeadState}
    (hb : Head s l hs rest) (hl : (readRequestLine l).isSome) (hx : readHeaders ⟨0, true, errno⟩ hs = some x)
    (hall : AllSeen k (l :: hs)) (hempty : AllSeen k [[]]) :
    judge k errno s = judgeBody k (l.length + 2 + (lines hs).length + 2) l hs x rest := by
  obtain ⟨hline, hheaders⟩ := List.forall_mem_cons.1 hall
  have hend : seenLine k (CR :: LF :: rest) = some ([], rest) :=
    seenLine_eq_some.2 ⟨rfl, by decide, hempty [] List.mem_cons_self⟩
  unfold judge
  rw [hb.bytes, seenLine_eq_some.2 ⟨rfl, hb.plain, hline⟩]
  dsimp only
  rw [if_pos hl, judgeHeaders_lines hb.headers hheaders hx, judgeHeaders_line hend, if_pos rfl, List.nil_append]

/-- A declared body that ends before `m_read_idx` is taken. -/
theorem judgeBody_accepts {k : Int} {c : Nat} {line rest : List Byte} {hs : List (List Byte)} {x : HeadState}
    (h0 : 0 ≤ x.contentLength) (hfits : c + x.contentLength ≤ k) (hk : k < READ_BUFFER_SIZE) :
    judgeBody k c line hs x rest = .accepted line hs x rest := by
  unfold judgeBody
  by_cases hz : x.contentLength = 0
  · rw [if_pos hz]
  · rw [if_neg hz, if_pos hfits, if_pos ⟨by omega, by omega⟩]

/-- A text without a head whose lines are seen is refused, or has no line where one is looked for. -/
private theorem judge_cases (k : Int) (errno : Errno) (s : List Byte) :
    (∃ l hs rest x, Head s l hs rest ∧ (readRequestLine l).isSome ∧ readHeaders ⟨0, true, errno⟩ hs = some x ∧
      AllSeen k (l :: hs) ∧ AllSeen k [[]] ∧
      judge k errno s = judgeBody k (l.length + 2 + (lines hs).length + 2) l hs x rest) ∨
    (∃ linger r, judge k errno s = judgeOpen s.length linger r) ∨ ∃ linger, judge k errno s = .refused linger := by
  rcases ht : seenLine k s with _ | ⟨l, r⟩
  · exact .inr (.inl ⟨true, s, by rw [judge, ht]⟩)
  obtain ⟨rfl, hl, hk⟩ := seenLine_eq_some.1 ht
  by_cases hline : (readRequestLine l).isSome
  · obtain ⟨hs, r', x, hh, rfl, hx, hall, hcases⟩ := judgeHeaders_cases k (l.length + 2) l [] ⟨0, true, errno⟩ r
    have hjudge : judge k errno (l ++ CR :: LF :: (lines hs ++ r')) =
        judgeHeaders k (l.length + 2) l [] ⟨0, true, errno⟩ (lines hs ++ r') := by
      rw [judge, ht]
      exact if_pos hline
    rw [hjudge]
    rcases hcases with h | ⟨rest, rfl, hempty, h⟩ | h
    · refine .inr (.inl ⟨x.linger, r', h.trans ?_⟩)
      congr 1
      simp only [List.length_append, List.length_cons]
      omega
    · exact .inl ⟨l, hs, rest, x, ⟨rfl, hl, hh⟩, hline, hx, List.forall_mem_cons.2 ⟨hk, hall⟩, hempty, h⟩
    · exact .inr (.inr ⟨x.linger, h⟩)
  · exact .inr (.inr ⟨true, by rw [judge, ht]; exact if_neg hline⟩)

/-! ### Bytes without a gap -/

/-- A head with an accepted request line, nine bytes or more behind this line, and nine bytes or more behind a body
that is declared. -/
structure GoesAhead (bs l : List Byte) (hs : List (List Byte)) (rest : List Byte) : Prop where
  head : Head bs l hs rest
  accepted : AcceptedLine l
  behindLine : l.length + 11 ≤ bs.length
  behindBody : declaredLength hs = 0 ∨ declaredLength hs + 9 ≤ rest.length

/-- A head whose request line is seen is seen as a whole. -/
theorem Head.allSeen {bs l rest : List Byte} {hs : List (List Byte)} (hb : Head bs l hs rest)
    (hl : (readRequestLine l).isSome) (hle : l.length + 11 ≤ bs.length) :
    AllSeen (bs.length - 9) (l :: hs) ∧ AllSeen (bs.length - 9) [[]] := by
  obtain ⟨rl, hrl⟩ := Option.isSome_iff_exists.1 hl
  have hurl := Parser.readRequestLine_url hrl
  have hlen := congrArg List.length hb.bytes
  simp only [List.length_append, List.length_cons] at hlen
  refine ⟨List.forall_mem_cons.2 ⟨by omega, fun h hm => ?_⟩, List.forall_mem_cons.2 ⟨?_, by simp⟩⟩
  · obtain ⟨a, b, rfl⟩ := List.append_of_mem hm
    have : (lines (a ++ h :: b)).length = (lines a).length + (h.length + 2 + (lines b).length) := by
      rw [← lines_cons_length, lines, lines, lines, List.map_append, List.flatten_append, List.length_append]
    omega
  · rw [List.length_nil]
    omega

/-- With `m_read_idx` nine below the bytes, the requests that go ahead are accepted and all others refused. -/
private theorem judge_nine {errno : Errno} {bs : List Byte} (hn : bs.length < READ_BUFFER_SIZE) (he : errno ≠ .einval)
    (hw : ∀ h, HasHeader bs h → IsContentLength h → WellFormedLength h) :
    (∃ l hs rest, ∃ x : HeadState, GoesAhead bs l hs rest ∧ x.contentLength = declaredLength hs ∧
      judge (bs.length - 9) errno bs = .accepted l hs x rest) ∨
    (∀ l hs rest, ¬ GoesAhead bs l hs rest) ∧ ∃ linger, judge (bs.length - 9) errno bs = .refused linger := by
  -- what a head comes to, by the body it declares
  have hbody : ∀ {l hs rest}, Head bs l hs rest → (readRequestLine l).isSome → ∃ x : HeadState,
      readHeaders ⟨0, true, errno⟩ hs = some x ∧ x.contentLength = declaredLength hs ∧
      judgeBody (bs.length - 9) (l.length + 2 + (lines hs).length + 2) l hs x rest =
        if declaredLength hs = 0 ∨ declaredLength hs + 9 ≤ rest.length then .accepted l hs x rest
        else .refused x.linger := by
    intro l hs rest hb hl
    have hmem : ∀ h ∈ hs, IsContentLength h → WellFormedLength h := fun h hm =>
      hw h (hb.bytes ▸ hasHeader_of_mem hb.plain hb.headers hm)
    obtain ⟨x, hx, -, hL⟩ := readHeaders_wellFormed (x := ⟨0, true, errno⟩) he rfl hmem
    have hlen := congrArg List.length hb.bytes
    simp only [List.length_append, List.length_cons] at hlen
    change x.contentLength = (declaredLength hs : Nat) at hL
    refine ⟨x, hx, hL, ?_⟩
    unfold judgeBody
    rw [hL]
    by_cases h0 : declaredLength hs = 0
    · rw [if_pos (by omega), if_pos (.inl h0)]
    rw [if_neg (by omega)]
    by_cases hle : declaredLength hs + 9 ≤ rest.length
    · rw [if_pos (by omega), if_pos (by omega), if_pos (.inr hle)]
    · rw [if_neg (by omega), if_neg (by omega)]
  rcases judge_cases (bs.length - 9) errno bs with ⟨l, hs, rest, x, hb, hl, hx, hall, hempty, hj⟩ | hrest
  · obtain ⟨y, hy, hL, hjb⟩ := hbody hb hl
    cases hx.symm.trans hy
    have hline := hall l List.mem_cons_self
    rw [hj, hjb]
    split
    · rename_i hd
      exact .inl ⟨l, hs, rest, x, ⟨hb, (hb.acceptedLine hn.le).2 hl, by omega, hd⟩, hL, rfl⟩
    · rename_i hd
      refine .inr ⟨fun l' hs' rest' hg => ?_, _, rfl⟩
      have hl' := (hg.head.acceptedLine hn.le).1 hg.accepted
      obtain ⟨hall', hempty'⟩ := hg.head.allSeen hl' hg.behindLine
      obtain ⟨y', hy', -, hjb'⟩ := hbody hg.head hl'
      have hj' := judge_head hg.head hl' hy' hall' hempty'
      rw [hj, hjb, hjb', if_neg hd, if_pos hg.behindBody] at hj'
      cases hj'
  · have hrefused : ∃ linger, judge (bs.length - 9) errno bs = .refused linger := by
      rcases hrest with ⟨linger, r, h⟩ | h
      · exact ⟨linger, h.trans (if_neg fun hu => absurd hu.1 hn.ne)⟩
      · exact h
    refine .inr ⟨fun l hs rest hg => ?_, hrefused⟩
    have hl := (hg.head.acceptedLine hn.le).1 hg.accepted
    obtain ⟨hall, hempty⟩ := hg.head.allSeen hl hg.behindLine
    obtain ⟨y, hy, -, hjb⟩ := hbody hg.head hl
    obtain ⟨linger, hr⟩ := hrefused
    have hj := judge_head hg.head hl hy hall hempty
    rw [hr, hjb, if_pos hg.behindBody] at hj
    cases hj

namespace HttpHandler

/-- The attempts in vain that end `read_` are always possible. -/
theorem again_run {users : Users} (t : Nat) (h : HttpHandler) :
    ∃ h', run (recvStep users) (h, .reading (t + 1)) (List.replicate (t + 1) .again) = some (h', .parse) := by
  induction t generalizing h with
  | zero => exact ⟨h, rfl⟩
  | succ t ih =>
    obtain ⟨h', hrun⟩ := ih { h with readIdx := h.readIdx - 1 }
    exact ⟨h', hrun⟩

theorem gapless_run (users : Users) {h : HttpHandler} {x : Held} {ds : List (List Byte)} (hx : x.In h)
    (hidx : x.idx = x.text.length) (hd : ∀ d ∈ ds, d ≠ [])
    (hn : x.text.length + ds.flatten.length ≤ READ_BUFFER_SIZE) :
    ∃ h', run (recvStep users) (h, .reading 10) (ds.map .data ++ List.replicate 10 .again) = some (h', .parse) := by
  induction ds generalizing h x with
  | nil => exact again_run 9 h
  | cons d ds ih =>
    simp only [List.flatten_cons, List.length_append] at hn
    have hread : h.readIdx = (x.text.length : Nat) := hx.facing.readIdx.trans hidx
    have hne := List.length_pos_iff.2 (hd d List.mem_cons_self)
    have hcan : h.CanReceive (.data d) = true := decide_eq_true ⟨hne, by omega⟩
    obtain ⟨buf, hbuf⟩ := CharArray.copy_isSome (a := h.readBuf) (p := x.text.length) (s := d) (by omega)
    have hp : h.toParser.receive d = some { h.toParser with readBuf := buf, readIdx := h.readIdx + d.length } := by
      unfold Parser.receive
      rw [hread, ptr_natCast]
      simp only [Option.bind_eq_bind, Option.bind_some, hbuf]
      rfl
    have hs : recvStep users (h, .reading 10) (.data d) =
        some ({ h with toParser := { h.toParser with readBuf := buf, readIdx := h.readIdx + d.length } },
          .reading 10) := by
      simp only [recvStep, procStep, if_pos hcan, readStep, hp]
      rfl
    have hlen : (x.add (.data d)).text.length = x.text.length + d.length := by
      simp [Held.add, hidx]
    obtain ⟨h', hrun⟩ := ih (hx.data hp) (by rw [hlen, Held.add, hidx]; push_cast; rfl)
      (fun d hm => hd d (List.mem_cons_of_mem _ hm)) (by omega)
    refine ⟨h', ?_⟩
    rw [List.map_cons, List.cons_append, run, hs]
    exact hrun

/-- Bytes that come without a gap are held as they come, with the index nine below them. -/
theorem gapless_held (ds : List (List Byte)) :
    Held.ofResults (ds.map .data ++ List.replicate 10 .again) = ⟨ds.flatten, ds.flatten.length - 9⟩ := by
  have hdata : ∀ t : List Byte, (ds.map RecvResult.data).foldl Held.add ⟨t, t.length⟩ =
      ⟨t ++ ds.flatten, (t ++ ds.flatten).length⟩ := by
    induction ds with
    | nil => simp
    | cons d ds ih =>
      intro t
      have hadd : Held.add ⟨t, t.length⟩ (.data d) = ⟨t ++ d, (t ++ d).length⟩ := by
        simp [Held.add]
      rw [List.map_cons, List.foldl_cons, hadd, ih, List.append_assoc, List.flatten_cons]
  have hlast : (ds.map RecvResult.data ++ List.replicate 10 RecvResult.again).dropLast =
      ds.map RecvResult.data ++ List.replicate 9 .again := by
    rw [List.dropLast_append_of_ne_nil (by simp)]
    rfl
  rw [Held.ofResults, hlast, List.foldl_append]
  have := hdata []
  rw [List.nil_append] at this
  rw [show (⟨[], 0⟩ : Held) = ⟨[], (([] : List Byte).length : Nat)⟩ from rfl, this]
  simp only [List.replicate, List.foldl_cons, List.foldl_nil, Held.add]
  congr 1
  omega

/-- Of the requests that arrive without a gap, `parse_` calls `do_request_` for those that go ahead and no others; it
has then stored their path, the words of their headers and their body. -/
theorem gapless_accepts_iff (h : HttpHandler) (users : Users) (ds : List (List Byte)) {errno : Errno}
    (hd : ∀ d ∈ ds, d ≠ []) (hn : ds.flatten.length < READ_BUFFER_SIZE) (he : errno ≠ .einval)
    (hw : ∀ h, HasHeader ds.flatten h → IsContentLength h → WellFormedLength h) :
    ∃ h' e p' errno', run (recvStep users) (h.init_, .reading 10) (ds.map .data ++ List.replicate 10 .again) =
        some (h', .parse) ∧ h'.toParser.parse_ errno = some (e, p', errno') ∧
      ((∃ l hs rest c, ∃ x : HeadState, GoesAhead ds.flatten l hs rest ∧ e = .doRequest ∧
          Parser.Stored h'.toParser p' c l hs x ∧ x.contentLength = declaredLength hs ∧
          (declaredLength hs ≠ 0 → p'.content = some c ∧
            ∃ z, p'.readBuf.suffix c = rest.take (declaredLength hs) ++ 0 :: z)) ∨
        (∀ l hs rest, ¬ GoesAhead ds.flatten l hs rest) ∧ e = .returns .errorFormat) := by
  obtain ⟨h', hrun⟩ := gapless_run users (Held.In.init h) rfl hd (by simpa using hn.le)
  have hjudge := read_judge errno hrun
  rw [gapless_held] at hjudge
  rcases judge_nine hn he hw with ⟨l, hs, rest, x, hg, hL, hj⟩ | ⟨hno, linger, hj⟩
  · rw [hj] at hjudge
    obtain ⟨p', hp, -, -, hstored⟩ := hjudge
    obtain ⟨c, hst, hcontent⟩ := hstored (by omega)
    refine ⟨h', .doRequest, p', x.errno, hrun, hp, .inl ⟨l, hs, rest, c, x, hg, rfl, hst, hL, fun h0 => ?_⟩⟩
    obtain ⟨hc, z, hz⟩ := hcontent (by omega)
    rw [hL, Int.toNat_natCast] at hz
    exact ⟨hc, z, hz⟩
  · rw [hj] at hjudge
    obtain ⟨p', errno', hp, -⟩ := hjudge
    exact ⟨h', .returns .errorFormat, p', errno', hrun, hp, .inr ⟨hno, rfl⟩⟩

/-- A request that comes in two pieces. -/
theorem gapless_accepts_iff_pieces :
    ∃ h' e p' errno', run (recvStep fun _ => none) ((fresh 19 none .httpClient none).init_, .reading 10)
        ([twoByteRequest.take 9, twoByteRequest.drop 9].map .data ++ List.replicate 10 .again) = some (h', .parse) ∧
      h'.toParser.parse_ .eagain = some (e, p', errno') ∧
      ((∃ l hs rest c, ∃ x : HeadState, GoesAhead twoByteRequest l hs rest ∧ e = .doRequest ∧
          Parser.Stored h'.toParser p' c l hs x ∧ x.contentLength = declaredLength hs ∧
          (declaredLength hs ≠ 0 → p'.content = some c ∧
            ∃ z, p'.readBuf.suffix c = rest.take (declaredLength hs) ++ 0 :: z)) ∨
        (∀ l hs rest, ¬ GoesAhead twoByteRequest l hs rest) ∧ e = .returns .errorFormat) := by
  refine gapless_accepts_iff (fresh 19 none .httpClient none) (fun _ => none)
    [twoByteRequest.take 9, twoByteRequest.drop 9] (by decide) (by decide) (by decide) fun h hh hc => ?_
  rcases twoByteRequest_headers hh with rfl | rfl
  · exact ⟨lit " ", lit "2", [], by decide +kernel, by decide +kernel, by decide +kernel, by decide +kernel,
      by decide +kernel⟩
  · exact absurd hc (by decide)

end HttpHandler

end ImageServer
