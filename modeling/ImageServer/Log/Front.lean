import ImageServer.Log.BlockQueue

/-!
# The element at the front of the queue

`front` reads the cell `m_front`, which is that of the element popped last, while `pop` moves on before it reads.  So
`front` gives the element popped last or, when a full ring has come round to its cell, the one pushed last, and reads
outside of the array when nothing has been popped yet.  These are the element `pop` takes next only when they happen to
be equal to it (`frontAgrees_iff`).
-/

namespace ImageServer

open Transition RingBuffer

namespace BlockQueue

variable {T : Type}

/-- `front`, with its reference argument when it returns `true`. -/
def front (q : BlockQueue T) : Option (Option T) :=
  if 0 = q.mSize then some none
  else do
    let i ← q.cell q.mFront
    let value ← q.mArray[i]?
    return some value

/-- The operations that change the queue, called one after the other; a `pop` that would wait is not one of them. -/
def change (q : BlockQueue T) : QueueOp T → Option (BlockQueue T)
  | .push item => (q.push item).map (·.1)
  | .pop => q.pop.bind fun r =>
    match r.2 with
    | .returns _ => some r.1
    | .waits => none
  | .clear => some q.clear
  | _ => none

/-- On a queue that is not empty `front` gives the element that `pop` takes. -/
def FrontAgrees (q : BlockQueue T) : Prop :=
  0 < q.mSize → ∃ q' x, q.pop = some (q', .returns (.item (some x))) ∧ q.front = some (some x)

end BlockQueue

/-- What there is to know of the operations so far: the elements that wait, and the one popped last, if there is one
since the construction or the last `clear`. -/
structure History (T : Type) where
  waiting : List T
  lastPopped : Option T

namespace History

variable {T : Type}

def next (n : Nat) (h : History T) : QueueOp T → History T
  | .push item => if h.waiting.length < n then { h with waiting := h.waiting ++ [item] } else h
  | .pop =>
    match h.waiting with
    | [] => h
    | x :: l => ⟨l, some x⟩
  | .clear => ⟨[], none⟩
  | _ => h

/-- The history of the operations on a new queue of `n` cells. -/
def ofOps (n : Nat) (ops : List (QueueOp T)) : History T := ops.foldl (next n) ⟨[], none⟩

/-- Something has been popped, and the element popped last, or the one pushed last when the queue is full, is equal to
the oldest one that waits. -/
def Repeats (n : Nat) (h : History T) : Prop :=
  h.lastPopped ≠ none ∧ (if h.waiting.length < n then h.lastPopped else h.waiting.getLast?) = h.waiting.head?

instance [DecidableEq T] (n : Nat) (h : History T) : Decidable (h.Repeats n) := instDecidableAnd

end History

namespace BlockQueue

variable {T : Type}

/-- The ring holds the elements that wait, and `m_front` is the cell of the element popped last. -/
structure Follows (n : Nat) (q : BlockQueue T) (h : History T) : Prop where
  contents : Contents n q h.waiting
  unpopped : h.lastPopped = none → q.mFront = -1
  popped : ∀ x, h.lastPopped = some x → 0 ≤ q.mFront ∧ (h.waiting.length < n → q.mArray[q.mFront.toNat]? = some x)

/-- A `push` on a queue with room writes the cell behind the last element. -/
private theorem push_room {n : Nat} {q q' : BlockQueue T} {l : List T} {x : T} (h : Contents n q l)
    (hroom : l.length < n) (hq : q.push x = some (q', true)) :
    q'.mFront = q.mFront ∧ q'.mArray = q.mArray.set (((q.mFront + 1).toNat + l.length) % n) x := by
  have hsize := h.size
  have hmax := h.maxSize
  have hcell : q.cell (((q.mFront + 1).toNat + l.length) % n : Nat) = some (((q.mFront + 1).toNat + l.length) % n) :=
    cell_eq (by rw [h.cells]; exact Nat.mod_lt _ (by omega))
  rw [push, if_neg (by omega), hmax, next_eq h.back.1, ← h.meet] at hq
  dsimp only at hq
  rw [hcell] at hq
  cases hq
  exact ⟨rfl, rfl⟩

/-- `take` moves `m_front` on to the element it gives. -/
private theorem take_front {q q' : BlockQueue T} {x : T} (hq : q.take = some (q', x)) :
    0 ≤ q'.mFront ∧ q'.mArray[q'.mFront.toNat]? = some x := by
  unfold take at hq
  obtain ⟨i, hi, hq⟩ := Option.bind_eq_some_iff.1 hq
  obtain ⟨y, hy, he⟩ := Option.bind_eq_some_iff.1 hq
  cases he
  unfold cell at hi
  split at hi
  · rename_i hin
    cases hi
    exact ⟨hin.1, hy⟩
  · cases hi

private theorem Follows.push {n : Nat} {q q' : BlockQueue T} {h : History T} {x : T} (hf : Follows n q h)
    (hq : q.change (.push x) = some q') : Follows n q' (h.next n (.push x)) := by
  obtain ⟨⟨q₁, ok⟩, hpush, rfl⟩ := Option.map_eq_some_iff.1 hq
  obtain ⟨hfull, hroom⟩ := hf.contents.push x
  by_cases hl : h.waiting.length < n
  · obtain ⟨q₂, hq₂, hc⟩ := hroom hl
    cases hpush.symm.trans hq₂
    obtain ⟨hfront, harray⟩ := push_room hf.contents hl hq₂
    rw [History.next, if_pos hl]
    refine ⟨hc, fun hn => hfront.trans (hf.unpopped hn), fun y hy => ?_⟩
    obtain ⟨hpos, hcell⟩ := hf.popped y hy
    refine ⟨by rw [hfront]; exact hpos, fun hlt => ?_⟩
    rw [List.length_append, List.length_singleton] at hlt
    -- the cell behind the last element comes before the one of `m_front`, as long as there is one between
    have hne : ((q.mFront + 1).toNat + h.waiting.length) % n ≠ q.mFront.toNat := by
      have hround : ((q.mFront + 1).toNat + (n - 1)) % n = q.mFront.toNat := by
        have hlt' := hf.contents.front.2
        rw [show (q.mFront + 1).toNat + (n - 1) = q.mFront.toNat + n by omega, Nat.add_mod_right,
          Nat.mod_eq_of_lt (by omega)]
      rw [← hround]
      exact add_mod_ne (by omega) (by omega)
    rw [hfront, harray, List.getElem?_set_ne hne]
    exact hcell hl
  · cases hpush.symm.trans (hfull (Nat.not_lt.1 hl))
    rw [History.next, if_neg hl]
    exact hf

theorem Follows.pop {n : Nat} {q q' : BlockQueue T} {h : History T} (hf : Follows n q h)
    (hq : q.change .pop = some q') : Follows n q' (h.next n .pop) := by
  obtain ⟨⟨q₁, out⟩, hpop, hq⟩ := Option.bind_eq_some_iff.1 hq
  have hsize := hf.contents.size
  unfold BlockQueue.pop at hpop
  split at hpop
  · cases hpop
    cases hq
  · rename_i hne
    obtain ⟨⟨q₂, y⟩, htake, he⟩ := Option.map_eq_some_iff.1 hpop
    cases he
    cases hq
    obtain ⟨l, hl⟩ : ∃ l, h.waiting = y :: l := by
      cases hw : h.waiting with
      | nil =>
        rw [hw, List.length_nil] at hsize
        omega
      | cons x l =>
        have hc := hf.contents
        rw [hw] at hc
        obtain ⟨q₃, hq₃, -⟩ := hc.take
        cases htake.symm.trans hq₃
        exact ⟨l, rfl⟩
    have hc := hf.contents
    rw [hl] at hc
    obtain ⟨q₃, hq₃, hc'⟩ := hc.take
    cases htake.symm.trans hq₃
    obtain ⟨hpos, hcell⟩ := take_front htake
    rw [History.next, hl]
    refine ⟨hc', nofun, fun x hx => ?_⟩
    cases hx
    exact ⟨hpos, fun _ => hcell⟩

private theorem Follows.change {n : Nat} {q q' : BlockQueue T} {h : History T} {op : QueueOp T} (hf : Follows n q h)
    (hq : q.change op = some q') : Follows n q' (h.next n op) := by
  cases op with
  | push x => exact hf.push hq
  | pop => exact hf.pop hq
  | clear =>
    cases hq
    exact ⟨hf.contents.clear, fun _ => rfl, nofun⟩
  | popTimed | full | empty | back | size => cases hq

private theorem Follows.run {n : Nat} {q q' : BlockQueue T} {h : History T} {ops : List (QueueOp T)}
    (hf : Follows n q h) (hq : Transition.run BlockQueue.change q ops = some q') : Follows n q'
    (ops.foldl (History.next n) h) := by
  induction ops generalizing q h with
  | nil =>
    cases hq
    exact hf
  | cons op ops ih =>
    obtain ⟨q₁, hq₁, hq⟩ := run_cons hq
    exact ih (hf.change hq₁) hq

/-- What `front` gives on a queue that is not empty. -/
private theorem Follows.front_eq {n : Nat} {q : BlockQueue T} {h : History T} (hf : Follows n q h)
    (hne : h.waiting ≠ []) :
    q.front = if h.lastPopped = none then none
      else some (if h.waiting.length < n then h.lastPopped else h.waiting.getLast?) := by
  have hc := hf.contents
  have hsize := hc.size
  have hlen : 0 < h.waiting.length := List.length_pos_iff.2 hne
  unfold front
  rw [if_neg (by omega)]
  cases hp : h.lastPopped with
  | none =>
    have hcell : q.cell q.mFront = none := by
      rw [hf.unpopped hp]
      exact if_neg (by omega)
    rw [hcell]
    rfl
  | some x =>
    obtain ⟨hpos, hcell⟩ := hf.popped x hp
    have hlt := hc.front.2
    have hread : q.cell q.mFront = some q.mFront.toNat := if_pos ⟨hpos, by rw [hc.cells]; exact hlt⟩
    rw [hread, if_neg (Option.some_ne_none x)]
    simp only [Option.bind_eq_bind, Option.bind_some]
    by_cases hl : h.waiting.length < n
    · rw [if_pos hl, hcell hl]
      rfl
    · -- the ring is full, and its last element is in the cell of `m_front`
      rw [if_neg hl]
      have hfits := hc.holds.fits
      rw [hc.cells] at hfits
      obtain ⟨z, hz⟩ : ∃ z, h.waiting.getLast? = some z := ⟨_, List.getLast?_eq_some_getLast hne⟩
      have hlast := hc.holds.last hz
      rw [hc.cells, show (q.mFront + 1).toNat + (h.waiting.length - 1) = q.mFront.toNat + n by omega,
        Nat.add_mod_right, Nat.mod_eq_of_lt (by omega)] at hlast
      rw [hlast, hz]
      rfl

/-- In every state that operations lead to, `front` agrees with `pop` exactly when the queue is empty or the cell it
reads happens to have an element equal to the oldest one. -/
theorem frontAgrees_iff {n : Nat} (hn : 0 < n) {cells : List T} (hc : cells.length = n) {q₀ q : BlockQueue T}
    (hq₀ : create n cells = some q₀) {ops : List (QueueOp T)} (hq : Transition.run BlockQueue.change q₀ ops = some q) :
    q.FrontAgrees ↔ (History.ofOps n ops).waiting = [] ∨ (History.ofOps n ops).Repeats n := by
  obtain ⟨q₁, hq₁, hcont⟩ := contents_create hn hc
  obtain rfl := Option.some.inj (hq₁.symm.trans hq₀)
  have hfront : q₁.mFront = -1 := by
    rw [create, if_neg (by omega)] at hq₁
    cases hq₁
    rfl
  have hf : Follows n q (History.ofOps n ops) := Follows.run ⟨hcont, fun _ => hfront, nofun⟩ hq
  generalize History.ofOps n ops = h at hf
  have hsize := hf.contents.size
  cases hw : h.waiting with
  | nil =>
    rw [hw, List.length_nil] at hsize
    exact iff_of_true (fun hpos => by omega) (.inl rfl)
  | cons x l =>
    have hcons := hf.contents
    rw [hw] at hcons
    obtain ⟨q', htake, -⟩ := hcons.take
    have hpos : 0 < q.mSize := by
      rw [hw, List.length_cons] at hsize
      omega
    have hpop : q.pop = some (q', .returns (.item (some x))) := by
      rw [BlockQueue.pop, if_neg (by omega), htake]
      rfl
    have hread := hf.front_eq (by rw [hw]; simp)
    have hiff : q.FrontAgrees ↔ q.front = some (some x) := by
      constructor
      · intro hagree
        obtain ⟨q₂, y, hpop', hy⟩ := hagree hpos
        cases hpop.symm.trans hpop'
        exact hy
      · exact fun h _ => ⟨q', x, hpop, h⟩
    rw [hiff, hread, History.Repeats, hw, List.head?_cons]
    by_cases hp : h.lastPopped = none
    · simp [hp]
    · simp [hp]

theorem frontAgrees_iff_repeated : ∃ q₀ q, create 2 [0, 0] = some q₀ ∧
    Transition.run BlockQueue.change q₀ [.push 7, .pop, .push 7] = some q ∧ q.FrontAgrees := by
  have hrun : Transition.run BlockQueue.change (⟨[0, 0], 0, 2, -1, -1⟩ : BlockQueue Nat) [.push 7, .pop, .push 7] =
      some ⟨[7, 7], 1, 2, 0, 1⟩ := rfl
  exact ⟨_, _, rfl, hrun,
    (frontAgrees_iff (by decide : 0 < 2) (rfl : [0, 0].length = 2) rfl hrun).2 (by decide +kernel)⟩

/-- After the first `push` the index is -1. -/
theorem not_frontAgrees_onePush : ∃ q₀ q, create 2 [0, 0] = some q₀ ∧
    Transition.run BlockQueue.change q₀ [.push 7] = some q ∧ q.mFront = -1 ∧ q.front = none ∧ ¬ q.FrontAgrees := by
  refine ⟨_, _, rfl, rfl, rfl, rfl, fun h => ?_⟩
  obtain ⟨q', x, -, hfront⟩ := h (by decide)
  cases hfront

end BlockQueue

end ImageServer
