import ImageServer.Lib.Monitor
import ImageServer.Lib.RingBuffer

/-!
# The blocking queue

`BlockQueue` of `block_queue.h`: a ring of `m_max_size` cells, with the indices of the element popped last and of the
one pushed last, both -1 in the beginning, and the number of elements.  Every operation runs under the mutex, and
`pop` waits on the condition variable.  An operation has no result when it uses an index outside of the array.

The queue is one of at most `m_max_size` elements in the order of their pushes: it refines `bounded`, whatever the
threads do (`refines_bounded`).
-/

namespace ImageServer

open Monitor Transition RingBuffer

structure BlockQueue (T : Type) where
  mArray : List T
  mSize : Int
  mMaxSize : Int
  mFront : Int
  mBack : Int

/-- A call of an operation. -/
inductive QueueOp (T : Type)
  | push (item : T)
  | pop
  /-- `pop` with a timeout -/
  | popTimed (ms : Int)
  | clear
  | full
  | empty
  | back
  | size

/-- What it returns. -/
inductive QueueResult (T : Type)
  | unit
  | bool (b : Bool)
  | int (n : Int)
  /-- the value of the reference argument, or none when `false` is returned -/
  | item (x : Option T)

namespace BlockQueue

variable {T : Type}

/-- The constructor, with the elements `new` has set up; a size that is not positive ends the process. -/
def create (maxSize : Int) (cells : List T) : Option (BlockQueue T) :=
  if maxSize ≤ 0 then none
  else some { mArray := cells, mSize := 0, mMaxSize := maxSize, mFront := -1, mBack := -1 }

/-- The cell of an index into `m_array`. -/
def cell (q : BlockQueue T) (i : Int) : Option Nat :=
  if 0 ≤ i ∧ i < q.mArray.length then some i.toNat else none

def clear (q : BlockQueue T) : BlockQueue T := { q with mSize := 0, mFront := -1, mBack := -1 }

def full (q : BlockQueue T) : Bool := q.mMaxSize ≤ q.mSize

def empty (q : BlockQueue T) : Bool := 0 = q.mSize

/-- `back`, with its reference argument when it returns `true`. -/
def back (q : BlockQueue T) : Option (Option T) :=
  if 0 = q.mSize then some none
  else do
    let i ← q.cell q.mBack
    let value ← q.mArray[i]?
    return some value

def size (q : BlockQueue T) : Int := q.mSize

/-- The elements in the ring, the oldest one first. -/
def items (q : BlockQueue T) : List T :=
  (List.range q.mSize.toNat).filterMap fun i => q.mArray[((q.mFront + 1).toNat + i) % q.mArray.length]?

/-- `push`; the broadcast it makes in any case has no effect on the queue. -/
def push (q : BlockQueue T) (item : T) : Option (BlockQueue T × Bool) :=
  if q.mMaxSize ≤ q.mSize then some (q, false)
  else do
    let back := (q.mBack + 1).tmod q.mMaxSize
    let i ← q.cell back
    return ({ q with mArray := q.mArray.set i item, mSize := q.mSize + 1, mBack := back }, true)

/-- The end of both functions `pop`. -/
def take (q : BlockQueue T) : Option (BlockQueue T × T) := do
  let front := (q.mFront + 1).tmod q.mMaxSize
  let i ← q.cell front
  let item ← q.mArray[i]?
  return ({ q with mFront := front, mSize := q.mSize - 1 }, item)

/-- `pop` up to its return or to `pthread_cond_wait`. -/
def pop (q : BlockQueue T) : Option (BlockQueue T × Outcome (QueueResult T)) :=
  if q.mSize ≤ 0 then some (q, .waits)
  else q.take.map fun r => (r.1, .returns (.item (some r.2)))

/-- `pop` with a timeout, behind the wait. -/
def popAgain (q : BlockQueue T) : Option (BlockQueue T × Outcome (QueueResult T)) :=
  if q.mSize ≤ 0 then some (q, .returns (.item none))
  else q.take.map fun r => (r.1, .returns (.item (some r.2)))

/-- The operations. -/
def object : Object (BlockQueue T) (QueueOp T) (QueueResult T) where
  apply q
    | .push item => (q.push item).map fun r => (r.1, .returns (.bool r.2))
    | .pop => q.pop
    | .popTimed _ => q.pop
    | .clear => some (q.clear, .returns .unit)
    | .full => some (q, .returns (.bool q.full))
    | .empty => some (q, .returns (.bool q.empty))
    | .back => q.back.map fun r => (q, .returns (.item r))
    | .size => some (q, .returns (.int q.size))
  resume q op ret :=
    match op with
    -- a wait that fails makes both return `false`
    | .pop => if ret ≠ 0 then some (q, .returns (.item none)) else q.pop
    | .popTimed _ => if ret ≠ 0 then some (q, .returns (.item none)) else q.popAgain
    -- no other operation waits
    | _ => none

end BlockQueue

/-! ### A bounded queue -/

section
variable {T : Type}

/-- The first element, or a wait. -/
def popFirst : List T → List T × Outcome (QueueResult T)
  | [] => ([], .waits)
  | x :: l => (l, .returns (.item (some x)))

/-- A queue of at most `n` elements. -/
def bounded (T : Type) (n : Nat) : Object (List T) (QueueOp T) (QueueResult T) where
  apply l
    | .push x => some (if l.length < n then (l ++ [x], .returns (.bool true)) else (l, .returns (.bool false)))
    | .pop => some (popFirst l)
    | .popTimed _ => some (popFirst l)
    | .clear => some ([], .returns .unit)
    | .full => some (l, .returns (.bool (n ≤ l.length)))
    | .empty => some (l, .returns (.bool l.isEmpty))
    | .back => some (l, .returns (.item l.getLast?))
    | .size => some (l, .returns (.int l.length))
  resume l op ret :=
    match op with
    | .pop => some (if ret ≠ 0 then (l, .returns (.item none)) else popFirst l)
    | .popTimed _ => some (if ret ≠ 0 ∨ l.isEmpty then (l, .returns (.item none)) else popFirst l)
    | _ => none

end

/-! ### Refinement -/

namespace BlockQueue

variable {T : Type}

/-- The ring holds the elements of `l`, and has `n` cells. -/
structure Contents (n : Nat) (q : BlockQueue T) (l : List T) : Prop where
  cells : q.mArray.length = n
  maxSize : q.mMaxSize = n
  size : q.mSize = l.length
  front : -1 ≤ q.mFront ∧ q.mFront < n
  back : -1 ≤ q.mBack ∧ q.mBack < n
  backNonneg : l ≠ [] → 0 ≤ q.mBack
  meet : ((q.mFront + 1).toNat + l.length) % n = (q.mBack + 1).toNat % n
  holds : Holds q.mArray (q.mFront + 1).toNat l

/-- The next index of the ring. -/
theorem next_eq {i : Int} {n : Nat} (hi : -1 ≤ i) : (i + 1).tmod n = ((i + 1).toNat % n : Nat) := by
  rw [Int.tmod_eq_emod_of_nonneg (by omega)]
  conv => lhs; rw [← Int.toNat_of_nonneg (show 0 ≤ i + 1 by omega)]
  rfl

theorem cell_eq {q : BlockQueue T} {k : Nat} (hk : k < q.mArray.length) : q.cell k = some k := by
  unfold cell
  rw [if_pos ⟨by omega, by omega⟩]
  rfl

theorem contents_create {n : Nat} (hn : 0 < n) {cells : List T} (hc : cells.length = n) :
    ∃ q, create n cells = some q ∧ Contents n q [] := by
  refine ⟨_, if_neg (by omega), hc, rfl, rfl, ?_, ?_, fun h => absurd rfl h, rfl, Holds.nil ..⟩
  · dsimp only
    omega
  · dsimp only
    omega

theorem Contents.clear {n : Nat} {q : BlockQueue T} {l : List T} (h : Contents n q l) : Contents n q.clear [] where
  cells := h.cells
  maxSize := h.maxSize
  size := rfl
  front := by
    have := h.front
    dsimp only [BlockQueue.clear]
    omega
  back := by
    have := h.back
    dsimp only [BlockQueue.clear]
    omega
  backNonneg := fun h => absurd rfl h
  meet := rfl
  holds := Holds.nil ..

theorem Contents.push {n : Nat} {q : BlockQueue T} {l : List T} (h : Contents n q l) (x : T) :
    (n ≤ l.length → q.push x = some (q, false)) ∧
      (l.length < n → ∃ q', q.push x = some (q', true) ∧ Contents n q' (l ++ [x])) := by
  have hsize := h.size
  have hmax := h.maxSize
  constructor
  · intro hfull
    rw [BlockQueue.push, if_pos (by omega)]
  · intro hroom
    have hn : 0 < n := by omega
    have hback : (q.mBack + 1).tmod q.mMaxSize = ((q.mBack + 1).toNat % n : Nat) := by
      rw [hmax]
      exact next_eq h.back.1
    have hlt : (q.mBack + 1).toNat % n < n := Nat.mod_lt _ hn
    have hcell : q.cell ((q.mBack + 1).tmod q.mMaxSize) = some ((q.mBack + 1).toNat % n) := by
      rw [hback]
      exact cell_eq (by rw [h.cells]; exact hlt)
    refine ⟨{ q with
      mArray := q.mArray.set ((q.mBack + 1).toNat % n) x
      mSize := q.mSize + 1
      mBack := ((q.mBack + 1).toNat % n : Nat) }, ?_, ?_⟩
    · rw [BlockQueue.push, if_neg (by omega)]
      dsimp only
      rw [hcell, hback]
      rfl
    · have hholds := h.holds.push (by rw [h.cells]; exact hroom) x
      rw [h.cells, h.meet] at hholds
      refine ⟨?_, hmax, ?_, h.front, ?_, fun _ => ?_, ?_, hholds⟩
      · rw [List.length_set]
        exact h.cells
      · rw [List.length_append, List.length_singleton]
        dsimp only
        omega
      · dsimp only
        omega
      · dsimp only
        omega
      · have hmeet := h.meet
        dsimp only
        rw [List.length_append, List.length_singleton, ← Nat.add_assoc, Nat.add_mod, hmeet]
        generalize (q.mBack + 1).toNat % n = b
        have hb : ((b : Int) + 1).toNat = b + 1 := by omega
        rw [hb, Nat.add_mod_mod]

theorem Contents.take {n : Nat} {q : BlockQueue T} {x : T} {l : List T} (h : Contents n q (x :: l)) :
    ∃ q', q.take = some (q', x) ∧ Contents n q' l := by
  have hsize := h.size
  have hmax := h.maxSize
  have hfits := h.holds.fits
  rw [h.cells, List.length_cons] at hfits
  have hn : 0 < n := by omega
  have hfront : (q.mFront + 1).tmod q.mMaxSize = ((q.mFront + 1).toNat % n : Nat) := by
    rw [hmax]
    exact next_eq h.front.1
  have hlt : (q.mFront + 1).toNat % n < n := Nat.mod_lt _ hn
  have hcell : q.cell ((q.mFront + 1).tmod q.mMaxSize) = some ((q.mFront + 1).toNat % n) := by
    rw [hfront]
    exact cell_eq (by rw [h.cells]; exact hlt)
  obtain ⟨hitem, hrest⟩ := h.holds.pop
  rw [h.cells] at hitem
  refine ⟨{ q with mFront := ((q.mFront + 1).toNat % n : Nat), mSize := q.mSize - 1 }, ?_, ?_⟩
  · unfold BlockQueue.take
    dsimp only
    rw [hcell, hfront, Option.bind_eq_bind, Option.bind_some, hitem]
    rfl
  · have hstart : ((((q.mFront + 1).toNat % n : Nat) : Int) + 1).toNat = (q.mFront + 1).toNat % n + 1 := by
      generalize (q.mFront + 1).toNat % n = f
      omega
    refine ⟨h.cells, hmax, ?_, ?_, h.back, fun _ => h.backNonneg (by simp), ?_, ?_⟩
    · rw [List.length_cons] at hsize
      dsimp only
      omega
    · dsimp only
      omega
    · have hmeet := h.meet
      dsimp only
      rw [hstart, ← hmeet, List.length_cons, Nat.add_assoc, Nat.mod_add_mod, Nat.add_comm 1]
    · dsimp only
      rw [hstart]
      refine hrest.congr ?_
      rw [h.cells, Nat.mod_add_mod]

/-- The two ways in which an operation gives the first element. -/
theorem Contents.popFirst {n : Nat} {q : BlockQueue T} {l : List T} (h : Contents n q l) :
    Option.Rel (Same (Contents n)) q.pop (some (ImageServer.popFirst l)) := by
  have hsize := h.size
  cases l with
  | nil =>
    rw [List.length_nil] at hsize
    rw [BlockQueue.pop, if_pos (by omega)]
    exact .some ⟨h, rfl⟩
  | cons x l =>
    rw [List.length_cons] at hsize
    obtain ⟨q', hq', h'⟩ := h.take
    rw [BlockQueue.pop, if_neg (by omega), hq']
    exact .some ⟨h', rfl⟩

private theorem Contents.popAgain {n : Nat} {q : BlockQueue T} {l : List T} (h : Contents n q l) :
    Option.Rel (Same (Contents n)) q.popAgain
      (some (if l.isEmpty then (l, .returns (.item none)) else ImageServer.popFirst l)) := by
  have hsize := h.size
  cases l with
  | nil =>
    rw [List.length_nil] at hsize
    have hpop : q.popAgain = some (q, .returns (.item none)) := if_pos (by omega)
    rw [hpop]
    exact .some ⟨h, rfl⟩
  | cons x l =>
    rw [List.length_cons] at hsize
    obtain ⟨q', hq', h'⟩ := h.take
    rw [BlockQueue.popAgain, if_neg (by omega), hq']
    exact .some ⟨h', rfl⟩

private theorem Contents.back_eq {n : Nat} {q : BlockQueue T} {l : List T} (h : Contents n q l) :
    q.back = some l.getLast? := by
  have hsize := h.size
  have hfits := h.holds.fits
  rw [h.cells] at hfits
  unfold BlockQueue.back
  cases hx : l.getLast? with
  | none =>
    rw [List.getLast?_eq_none_iff] at hx
    subst hx
    exact if_pos hsize.symm
  | some x =>
    have hne : l ≠ [] := by
      rintro rfl
      cases hx
    have hlen : 0 < l.length := List.length_pos_iff.2 hne
    have hnonneg := h.backNonneg hne
    have hlt := h.back.2
    have hcell : q.cell q.mBack = some q.mBack.toNat := by
      unfold cell
      rw [if_pos ⟨hnonneg, by rw [h.cells]; exact hlt⟩]
    -- the last element is one before the next one to be pushed
    have hindex : ((q.mFront + 1).toNat + (l.length - 1)) % n = q.mBack.toNat := by
      have hmeet : (q.mFront + 1).toNat + l.length ≡ (q.mBack + 1).toNat [MOD n] := h.meet
      have hleft : (q.mFront + 1).toNat + l.length = (q.mFront + 1).toNat + (l.length - 1) + 1 := by omega
      have hright : (q.mBack + 1).toNat = q.mBack.toNat + 1 := by omega
      rw [hleft, hright] at hmeet
      have hmod := Nat.ModEq.add_right_cancel' 1 hmeet
      rw [hmod, Nat.mod_eq_of_lt (by omega)]
    have hlast := h.holds.last hx
    rw [h.cells, hindex] at hlast
    rw [if_neg (by omega), hcell, Option.bind_eq_bind, Option.bind_some, hlast]
    rfl

theorem Contents.items_eq {n : Nat} {q : BlockQueue T} {l : List T} (h : Contents n q l) : q.items = l := by
  have hsize : q.mSize.toNat = l.length := by
    rw [h.size]
    rfl
  unfold BlockQueue.items
  rw [hsize]
  exact h.holds.read

theorem Contents.full_iff {n : Nat} {q : BlockQueue T} {l : List T} (h : Contents n q l) :
    q.full = true ↔ n ≤ l.length := by
  have hsize := h.size
  have hmax := h.maxSize
  unfold BlockQueue.full
  rw [decide_eq_true_iff]
  omega

/-- The ring does what a bounded queue does. -/
theorem refines (n : Nat) : Refines (Contents n) (object (T := T)) (bounded T n) where
  apply := by
    intro q l op h
    cases op with
    | push x =>
      obtain ⟨hfull, hroom⟩ := h.push x
      by_cases hl : l.length < n
      · obtain ⟨q', hq', h'⟩ := hroom hl
        simp only [object, bounded, hq', Option.map_some, if_pos hl]
        exact .some ⟨h', rfl⟩
      · simp only [object, bounded, hfull (Nat.not_lt.1 hl), Option.map_some, if_neg hl]
        exact .some ⟨h, rfl⟩
    | pop | popTimed => exact h.popFirst
    | clear => exact .some ⟨h.clear, rfl⟩
    | full =>
      have hfull : q.full = decide (n ≤ l.length) := by
        rw [Bool.eq_iff_iff, h.full_iff, decide_eq_true_iff]
      simp only [object, bounded, hfull]
      exact .some ⟨h, rfl⟩
    | empty =>
      refine .some ⟨h, ?_⟩
      have hsize := h.size
      cases l with
      | nil => simp [BlockQueue.empty, hsize]
      | cons x l =>
        rw [List.length_cons] at hsize
        have hne : 0 ≠ q.mSize := by omega
        simp [BlockQueue.empty, hne]
    | back =>
      simp only [object, bounded, h.back_eq, Option.map_some]
      exact .some ⟨h, rfl⟩
    | size =>
      refine .some ⟨h, ?_⟩
      show Outcome.returns (QueueResult.int q.mSize) = _
      rw [h.size]
  resume := by
    intro q l op ret h
    cases op with
    | pop =>
      by_cases hret : ret = 0
      · simp only [object, bounded, hret, ne_eq, not_true_eq_false, if_false]
        exact h.popFirst
      · simp only [object, bounded, if_pos hret]
        exact .some ⟨h, rfl⟩
    | popTimed ms =>
      by_cases hret : ret = 0
      · simp only [object, bounded, hret, ne_eq, not_true_eq_false, if_false, false_or]
        exact h.popAgain
      · simp only [object, bounded, if_pos hret, if_pos (Or.inl hret)]
        exact .some ⟨h, rfl⟩
    | push | clear | full | empty | back | size => exact .none

end BlockQueue

/-! ### What becomes of the elements -/

section
variable {T : Type}

/-- The element a call has added. -/
def pushedBy : QueueOp T → QueueResult T → Option T
  | .push x, .bool true => some x
  | _, _ => none

/-- The element a call has removed. -/
def poppedBy : QueueOp T → QueueResult T → Option T
  | .pop, .item x => x
  | .popTimed _, .item x => x
  | _, _ => none

/-- The elements added, in their order. -/
def pushed (log : List (Nat × QueueOp T × QueueResult T)) : List T := log.filterMap fun e => pushedBy e.2.1 e.2.2

/-- The elements removed by `pop`, in their order. -/
def popped (log : List (Nat × QueueOp T × QueueResult T)) : List T := log.filterMap fun e => poppedBy e.2.1 e.2.2

/-- The elements added are those that have gone, with a mark at those that were popped, followed by those still there;
only `clear` takes an element that is not popped. -/
structure Conserved (n : Nat) (s : State (List T) (QueueOp T) (QueueResult T)) : Prop where
  bound : s.obj.length ≤ n
  order : ∃ gone : List (T × Bool), pushed s.log = gone.map Prod.fst ++ s.obj ∧
    popped s.log = (gone.filter Prod.snd).map Prod.fst ∧
    ((∀ e ∈ s.log, e.2.1 ≠ .clear) → ∀ x ∈ gone, x.2 = true)

/-- What an operation does to a bounded queue. -/
inductive Effect (n : Nat) (l : List T) : QueueOp T → List T → Outcome (QueueResult T) → Prop
  | pushed {x : T} : l.length < n → Effect n l (.push x) (l ++ [x]) (.returns (.bool true))
  | popped {op : QueueOp T} {x : T} {l' : List T} : l = x :: l' → pushedBy op (.item (some x)) = none →
    poppedBy op (.item (some x)) = some x → op ≠ .clear → Effect n l op l' (.returns (.item (some x)))
  | cleared : Effect n l .clear [] (.returns .unit)
  | waits {op : QueueOp T} : Effect n l op l .waits
  | nothing {op : QueueOp T} {r : QueueResult T} : pushedBy op r = none → poppedBy op r = none → op ≠ .clear →
    Effect n l op l (.returns r)

private theorem popFirst_effect {n : Nat} {l : List T} {op : QueueOp T} (hop : op = .pop ∨ ∃ ms, op = .popTimed ms) :
    Effect n l op (popFirst l).1 (popFirst l).2 := by
  cases l with
  | nil => exact .waits
  | cons x l => rcases hop with rfl | ⟨ms, rfl⟩ <;> exact .popped rfl rfl rfl (by simp)

private theorem bounded_effect {n : Nat} {l : List T} {op : QueueOp T} {x : List T × Outcome (QueueResult T)}
    (h : (bounded T n).apply l op = some x ∨ ∃ ret, (bounded T n).resume l op ret = some x) :
    Effect n l op x.1 x.2 := by
  rcases h with h | ⟨ret, h⟩
  · cases op with
    | push y =>
      simp only [bounded] at h
      split at h
      · cases h
        exact .pushed ‹_›
      · cases h
        exact .nothing rfl rfl (by simp)
    | pop => cases h; exact popFirst_effect (Or.inl rfl)
    | popTimed ms => cases h; exact popFirst_effect (Or.inr ⟨ms, rfl⟩)
    | clear => cases h; exact .cleared
    | full | empty | back | size => cases h; exact .nothing rfl rfl (by simp)
  · cases op with
    | pop =>
      simp only [bounded, Option.some.injEq] at h
      split at h
      · cases h
        exact .nothing rfl rfl (by simp)
      · cases h
        exact popFirst_effect (Or.inl rfl)
    | popTimed ms =>
      simp only [bounded, Option.some.injEq] at h
      split at h
      · cases h
        exact .nothing rfl rfl (by simp)
      · cases h
        exact popFirst_effect (Or.inr ⟨ms, rfl⟩)
    | push | clear | full | empty | back | size => cases h

private theorem pushed_concat (log : List (Nat × QueueOp T × QueueResult T)) (th : Nat) (op : QueueOp T)
    (r : QueueResult T) :
    pushed (log ++ [(th, op, r)]) = pushed log ++ (pushedBy op r).toList := by
  cases h : pushedBy op r <;> simp [pushed, h]

private theorem popped_concat (log : List (Nat × QueueOp T × QueueResult T)) (th : Nat) (op : QueueOp T)
    (r : QueueResult T) :
    popped (log ++ [(th, op, r)]) = popped log ++ (poppedBy op r).toList := by
  cases h : poppedBy op r <;> simp [popped, h]

private theorem Conserved.after {n : Nat} {s : State (List T) (QueueOp T) (QueueResult T)} (h : Conserved n s)
    (th : Nat) {op : QueueOp T} {x : List T × Outcome (QueueResult T)} (he : Effect n s.obj op x.1 x.2) :
    Conserved n (s.after th op x) := by
  obtain ⟨l, out⟩ := x
  have hbound := h.bound
  obtain ⟨gone, hpushed, hpopped, hclear⟩ := h.order
  dsimp only at he
  cases he with
  | @pushed x hroom =>
    refine ⟨?_, gone, ?_, ?_, ?_⟩
    · simp only [State.after, List.length_append, List.length_singleton]
      omega
    · simp only [State.after, pushed_concat, hpushed]
      simp [pushedBy]
    · simp only [State.after, popped_concat, hpopped]
      simp [poppedBy]
    · intro hno
      refine hclear fun e he => hno e ?_
      exact List.mem_append_left _ he
  | @popped _ x _ hl hno hyes hne =>
    refine ⟨?_, gone ++ [(x, true)], ?_, ?_, ?_⟩
    · rw [hl, List.length_cons] at hbound
      simp only [State.after]
      omega
    · simp only [State.after, pushed_concat, hpushed, hno, hl]
      simp
    · simp only [State.after, popped_concat, hpopped, hyes]
      simp
    · intro hno'
      have hold := hclear fun e he => hno' e (List.mem_append_left _ he)
      intro y hy
      rcases List.mem_append.1 hy with hy | hy
      · exact hold y hy
      · rw [List.mem_singleton.1 hy]
  | cleared =>
    refine ⟨Nat.zero_le _, gone ++ s.obj.map fun x => (x, false), ?_, ?_, ?_⟩
    · simp only [State.after, pushed_concat, hpushed]
      simp [pushedBy, Function.comp_def]
    · simp only [State.after, popped_concat, hpopped]
      simp [poppedBy]
    · intro hno
      exact absurd rfl (hno (th, .clear, .unit) (by simp [State.after]))
  | waits => exact ⟨h.bound, gone, hpushed, hpopped, hclear⟩
  | nothing hno hno' =>
    refine ⟨hbound, gone, ?_, ?_, ?_⟩
    · simp only [State.after, pushed_concat, hpushed, hno]
      simp
    · simp only [State.after, popped_concat, hpopped, hno']
      simp
    · intro hclr
      refine hclear fun e he => hclr e ?_
      exact List.mem_append_left _ he

private theorem Conserved.step {n : Nat} {s s' : State (List T) (QueueOp T) (QueueResult T)} {l : Label (QueueOp T)}
    (h : Conserved n s) (hs : step (bounded T n) s l = some s') : Conserved n s' := by
  cases l with
  | call th op =>
    simp only [Monitor.step] at hs
    split at hs
    · cases hs
    · obtain ⟨x, hx, rfl⟩ := Option.map_eq_some_iff.1 hs
      exact h.after th (bounded_effect (Or.inl hx))
  | wake th ret =>
    simp only [Monitor.step] at hs
    split at hs
    · cases hs
    · obtain ⟨x, hx, rfl⟩ := Option.map_eq_some_iff.1 hs
      exact h.after th (bounded_effect (Or.inr ⟨ret, hx⟩))

private theorem bounded_conserved {n : Nat} {ls : List (Label (QueueOp T))}
    {t : State (List T) (QueueOp T) (QueueResult T)} (h : run (step (bounded T n)) (State.start []) ls = some t) :
    Conserved n t := by
  refine run_invariant (P := Conserved n) (fun s l s' hc _ hs => hc.step hs) ?_ Meets.trivial h
  exact ⟨Nat.zero_le _, [], rfl, rfl, by simp⟩

end

/-- The queue of `n` cells is, for the calls of any threads in any order, a bounded queue: it has a result exactly when
that one has, and the same one.  In particular no index is outside of the array.  What is pushed is popped once and in
order, unless it is cleared. -/
theorem BlockQueue.refines_bounded {T : Type} {n : Nat} (hn : 0 < n) {cells : List T} (hc : cells.length = n) :
    ∃ q, BlockQueue.create n cells = some q ∧ ∀ ls : List (Label (QueueOp T)),
      Option.Rel (fun s t => Agree (BlockQueue.Contents n) s t ∧ Conserved n t)
        (run (step BlockQueue.object) (State.start q) ls) (run (step (bounded T n)) (State.start []) ls) := by
  obtain ⟨q, hq, h⟩ := BlockQueue.contents_create hn hc
  refine ⟨q, hq, fun ls => ?_⟩
  have hrel := run_refines (BlockQueue.refines n) ls (s := State.start q) (t := State.start []) ⟨h, rfl, rfl⟩
  generalize ht : run (step (bounded T n)) (State.start []) ls = y at hrel ⊢
  generalize run (step object) (State.start q) ls = x at hrel ⊢
  cases hrel with
  | some hagree => exact .some ⟨hagree, bounded_conserved ht⟩
  | none => exact .none

/-- The ring of two cells goes round: two elements in, one out, one in, one refused, two out; the last `pop` waits
until the next `push`. -/
def roundAndRound : List (Label (QueueOp Nat)) :=
  [.call 0 (.push 7), .call 1 (.push 8), .call 2 .pop, .call 0 (.push 9), .call 1 (.push 10), .call 0 .back,
    .call 2 .pop, .call 2 .pop, .call 2 .pop, .call 0 (.push 11), .wake 2 0]

theorem BlockQueue.refines_bounded_two :
    ∃ q, BlockQueue.create 2 [0, 0] = some q ∧
      ∃ s, run (step BlockQueue.object) (State.start q) roundAndRound = some s ∧ popped s.log = [7, 8, 9, 11] := by
  obtain ⟨q, hq, h⟩ := BlockQueue.refines_bounded (by decide : 0 < 2) (rfl : [0, 0].length = 2)
  refine ⟨q, hq, ?_⟩
  have hpopped : (run (step (bounded Nat 2)) (State.start []) roundAndRound).map (fun t => popped t.log) =
      some [7, 8, 9, 11] := by decide +kernel
  obtain ⟨t, ht, hlog⟩ := Option.map_eq_some_iff.1 hpopped
  have hrel := h roundAndRound
  rw [ht] at hrel
  generalize run (step BlockQueue.object) (State.start q) roundAndRound = x at hrel ⊢
  cases hrel with
  | @some s _ hagree => exact ⟨s, rfl, by rw [hagree.1.log, hlog]⟩

end ImageServer
