import ImageServer.Http.Process
import ImageServer.Lib.Transition

/-!
# What `read_` assembles

The loop of `read_` as a system whose labels are the results of its `recv` calls.  The branch for `EAGAIN` falls
through to the addition at the end of the loop, so each failed attempt but the last takes one from `m_read_idx`:
`read_` gives up at the tenth, with `m_read_idx` nine below the number of bytes received (`readIdx_run`), and never
with what it ought to have assembled (`not_assembles`).
-/

namespace ImageServer

open CLib Transition

/-- The bytes a `recv` has stored. -/
def RecvResult.bytes : RecvResult → List Byte
  | .data bs => bs
  | _ => []

/-- What the calls of `recv` have received. -/
def recvBytes (rs : List RecvResult) : List Byte := rs.flatMap RecvResult.bytes

/-- The results of the calls of one `read_` that ends with the tenth `EAGAIN`. -/
structure GivesUp (rs : List RecvResult) : Prop where
  results : ∀ r ∈ rs, r = .again ∨ ∃ bs, bs ≠ [] ∧ r = .data bs
  attempts : rs.count .again = 10
  last : rs.getLast? = some .again
  fits : (recvBytes rs).length < READ_BUFFER_SIZE

namespace HttpHandler

/-- One iteration of the loop of `read_`. -/
def recvStep (users : Users) (s : HttpHandler × Phase) (r : RecvResult) : Option (HttpHandler × Phase) :=
  match s.2 with
  | .reading _ =>
    match s.1.procStep users s.2 (.recv r) with
    | some (.next h _ ph close) => some (if close then h.closeFields else h, ph)
    | _ => none
  | _ => none

/-- The index in `m_read_buf` and the length given to `recv`. -/
def recvArgs (h : HttpHandler) : Int × Int := (h.readIdx, READ_BUFFER_SIZE - h.readIdx)

/-- The call of `recv` stays inside `m_read_buf`. -/
def RecvInside (s : HttpHandler × Phase) (_ : RecvResult) : Prop :=
  0 ≤ s.1.recvArgs.1 ∧ s.1.recvArgs.1 < READ_BUFFER_SIZE ∧ s.1.recvArgs.2 ≤ READ_BUFFER_SIZE - s.1.recvArgs.1

instance (s : HttpHandler × Phase) (r : RecvResult) : Decidable (RecvInside s r) :=
  inferInstanceAs (Decidable (_ ∧ _ ∧ _))

/-- `read_` leaves what has been received at the start of `m_read_buf`, and `m_read_idx` behind it. -/
structure Assembles (h : HttpHandler) (users : Users) (rs : List RecvResult) : Prop where
  inside : Meets (recvStep users) RecvInside (h, .reading 10) rs
  result : ∃ h', run (recvStep users) (h, .reading 10) rs = some (h', .parse) ∧
    h'.readIdx = (recvBytes rs).length ∧
    h'.readBuf.bytes = recvBytes rs ++ List.replicate (READ_BUFFER_SIZE - (recvBytes rs).length) 0

private theorem receive_readIdx {p p' : Parser} {bs : List Byte} (h : p.receive bs = some p') :
    p'.readIdx = p.readIdx + bs.length := by
  unfold Parser.receive at h
  obtain ⟨k, -, h⟩ := Option.bind_eq_some_iff.1 h
  obtain ⟨buf, -, h⟩ := Option.bind_eq_some_iff.1 h
  cases h
  rfl

/-- An iteration that receives bytes, one that fails, and the last one. -/
private theorem recvStep_cases {users : Users} {h h' : HttpHandler} {tried : Nat} {ph' : Phase} {r : RecvResult}
    (hr : r = .again ∨ ∃ bs, bs ≠ [] ∧ r = .data bs) (hs : recvStep users (h, .reading tried) r = some (h', ph')) :
    (∃ bs, r = .data bs ∧ h'.readIdx = h.readIdx + bs.length ∧ ph' = .reading tried) ∨
      (r = .again ∧ tried - 1 ≠ 0 ∧ h'.readIdx = h.readIdx - 1 ∧ ph' = .reading (tried - 1)) ∨
      (r = .again ∧ tried - 1 = 0 ∧ h' = h ∧ ph' = .parse) := by
  simp only [recvStep, procStep] at hs
  rcases hr with rfl | ⟨bs, -, rfl⟩
  · by_cases hlast : tried - 1 = 0
    · simp [CanReceive, readStep, hlast] at hs
      exact .inr (.inr ⟨rfl, hlast, hs.1.symm, hs.2.symm⟩)
    · simp [CanReceive, readStep, hlast] at hs
      exact .inr (.inl ⟨rfl, hlast, hs.1 ▸ rfl, hs.2.symm⟩)
  · by_cases hcan : h.CanReceive (.data bs)
    · simp only [if_pos hcan, readStep] at hs
      cases hp : h.toParser.receive bs with
      | none =>
        rw [hp] at hs
        cases hs
      | some p =>
        rw [hp] at hs
        cases hs
        exact .inl ⟨bs, rfl, receive_readIdx hp, rfl⟩
    · simp [hcan] at hs

/-- When `read_` has given up, `m_read_idx` is as many below the bytes received as it has tried in vain before. -/
theorem readIdx_run {users : Users} {rs : List RecvResult} {h h' : HttpHandler} {tried : Nat}
    (hr : ∀ r ∈ rs, r = .again ∨ ∃ bs, bs ≠ [] ∧ r = .data bs) (htried : rs.count .again = tried)
    (hrun : run (recvStep users) (h, .reading tried) rs = some (h', .parse)) :
    h'.readIdx = h.readIdx + (recvBytes rs).length - (tried - 1 : Nat) := by
  induction rs generalizing h tried with
  | nil => cases hrun
  | cons r rs ih =>
    obtain ⟨⟨h₁, ph₁⟩, hs, hrun⟩ := run_cons hrun
    have hrest := fun x hx => hr x (List.mem_cons_of_mem r hx)
    have hlen : (recvBytes (r :: rs)).length = r.bytes.length + (recvBytes rs).length := by
      rw [recvBytes, List.flatMap_cons, List.length_append]
      rfl
    rw [hlen]
    rcases recvStep_cases (hr r (List.mem_cons_self ..)) hs with
      ⟨bs, rfl, hidx, rfl⟩ | ⟨rfl, hmore, hidx, rfl⟩ | ⟨rfl, hlast, rfl, rfl⟩
    · rw [List.count_cons_of_ne (by simp)] at htried
      rw [ih hrest htried hrun, hidx, RecvResult.bytes]
      omega
    · rw [List.count_cons_self] at htried
      have hnone : RecvResult.again.bytes.length = 0 := rfl
      rw [ih hrest (by omega) hrun, hidx, hnone]
      omega
    · -- nothing follows the last attempt
      cases rs with
      | nil =>
        cases hrun
        simp [recvBytes, RecvResult.bytes, hlast]
      | cons r' rs =>
        obtain ⟨_, hs', -⟩ := run_cons hrun
        cases hs'

/-- `read_` never leaves what it has received. -/
theorem not_assembles (h : HttpHandler) (users : Users) {rs : List RecvResult} (hrs : GivesUp rs) :
    ¬ h.init_.Assembles users rs := by
  rintro ⟨-, h', hrun, hidx, -⟩
  have hread := readIdx_run hrs.results hrs.attempts hrun
  have hzero : h.init_.readIdx = 0 := rfl
  rw [hidx, hzero] at hread
  omega

/-- A request that arrives in two pieces, with failed attempts before and between them. -/
def twoPieces : List RecvResult :=
  [.again, .data (lit "GET / HT"), .again, .again, .data (lit "TP/1.1\r\n\r\n")] ++ List.replicate 7 .again

theorem not_assembles_twoPieces :
    ¬ (HttpHandler.fresh 19 (some 0) .httpClient none).init_.Assembles (fun _ => none) twoPieces := by
  refine not_assembles _ _ ⟨fun r hr => ?_, by decide, by decide, by decide⟩
  cases r with
  | again => exact .inl rfl
  | data bs =>
    refine .inr ⟨bs, ?_, rfl⟩
    rintro rfl
    exact absurd hr (by decide)
  | eof | fail => exact absurd hr (by decide)

/-- A request that arrives in one piece. -/
def onePiece : List RecvResult := .data (lit "GET / HTTP/1.1\r\n\r\n") :: List.replicate 10 .again

/-- The last nine of its eighteen bytes are cut off; and without it `recv` is called with an address before
`m_read_buf`. -/
theorem onePiece_cutOff :
    (recvBytes onePiece).length = 18 ∧
      (∃ x, run (recvStep fun _ => none) ((HttpHandler.fresh 19 (some 0) .httpClient none).init_, .reading 10)
        onePiece = some x ∧ x.1.readIdx = 9) ∧
      ¬ (HttpHandler.fresh 19 (some 0) .httpClient none).init_.Assembles (fun _ => none) onePiece ∧
      ¬ Meets (recvStep fun _ => none) RecvInside
        ((HttpHandler.fresh 19 (some 0) .httpClient none).init_, .reading 10) (List.replicate 10 .again) := by
  have hrun : (run (recvStep fun _ => none) ((HttpHandler.fresh 19 (some 0) .httpClient none).init_, .reading 10)
      onePiece).map (fun x => x.1.readIdx) = some 9 := by decide +kernel
  refine ⟨by decide, exists_run_map hrun fun _ hx => hx, ?_, by decide +kernel⟩
  rintro ⟨-, h', hrun', hidx, -⟩
  rw [hrun', Option.map_some, hidx] at hrun
  exact absurd hrun (by decide)

end HttpHandler

end ImageServer
