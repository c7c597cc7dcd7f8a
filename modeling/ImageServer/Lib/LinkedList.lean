import Mathlib.Data.List.Nodup
import Mathlib.Logic.Function.Basic
import Mathlib.Tactic.Common

/-!
# Doubly linked lists in memory

A heap of nodes with a value and the pointers `prev` and `next`.  `Segment h p l q` says that the nodes of the elements
of `l` are linked to each other in this order, the first one behind `p` and the last one before `q`; an element has an
address `addr` and a value `val`.  Segments are cut and joined by `segment_append`; a write to a node outside changes
nothing (`Segment.frame`), and the outer pointers of a segment can be written (`Segment.setNext_last`,
`Segment.setPrev_first`).  `Visits` follows `next`.
-/

namespace LinkedList

structure Node (α : Type*) where
  val : α
  prev : Option Nat
  next : Option Nat

/-- The nodes by address. -/
abbrev Heap (α : Type*) := Nat → Option (Node α)

variable {α β : Type*}

namespace Heap

/-- A write to the node at `x`; there is no result when there is no node. -/
def modify (h : Heap α) (x : Nat) (f : Node α → Node α) : Option (Heap α) :=
  (h x).map fun n => Function.update h x (some (f n))

def setPrev (h : Heap α) (x : Nat) (p : Option Nat) : Option (Heap α) := h.modify x fun n => { n with prev := p }

def setNext (h : Heap α) (x : Nat) (q : Option Nat) : Option (Heap α) := h.modify x fun n => { n with next := q }

/-- The node at `x` is deleted. -/
def free (h : Heap α) (x : Nat) : Option (Heap α) := (h x).map fun _ => Function.update h x none

theorem modify_spec {h : Heap α} {x : Nat} {n : Node α} (hx : h x = some n) (f : Node α → Node α) :
    ∃ h', h.modify x f = some h' ∧ h' x = some (f n) ∧ ∀ z ≠ x, h' z = h z := by
  refine ⟨_, by rw [modify, hx, Option.map_some], Function.update_self .., fun z hz => Function.update_of_ne hz ..⟩

theorem setPrev_spec {h : Heap α} {x : Nat} {n : Node α} (hx : h x = some n) (p : Option Nat) :
    ∃ h', h.setPrev x p = some h' ∧ h' x = some { n with prev := p } ∧ ∀ z ≠ x, h' z = h z :=
  modify_spec hx _

theorem setNext_spec {h : Heap α} {x : Nat} {n : Node α} (hx : h x = some n) (q : Option Nat) :
    ∃ h', h.setNext x q = some h' ∧ h' x = some { n with next := q } ∧ ∀ z ≠ x, h' z = h z :=
  modify_spec hx _

theorem free_spec {h : Heap α} {x : Nat} {n : Node α} (hx : h x = some n) :
    ∃ h', h.free x = some h' ∧ h' x = none ∧ ∀ z ≠ x, h' z = h z := by
  refine ⟨_, by rw [free, hx, Option.map_some], Function.update_self .., fun z hz => Function.update_of_ne hz ..⟩

end Heap

/-- Following `next` from `p` visits the addresses of the list, and ends with a null pointer. -/
inductive Visits (h : Heap α) : Option Nat → List Nat → Prop
  | nil : Visits h none []
  | cons {x : Nat} {n : Node α} {l : List Nat} : h x = some n → Visits h n.next l → Visits h (some x) (x :: l)

section
variable (addr : β → Nat) (val : β → α)

/-- The address of the first element, or `q`. -/
def first (l : List β) (q : Option Nat) : Option Nat := (l.head?.map addr).or q

/-- The address of the last element, or `p`. -/
def last (p : Option Nat) (l : List β) : Option Nat := (l.getLast?.map addr).or p

/-- The elements of `l` are linked in this order, between `p` and `q`. -/
def Segment (h : Heap α) : Option Nat → List β → Option Nat → Prop
  | _, [], _ => True
  | p, x :: l, q => h (addr x) = some ⟨val x, p, first addr l q⟩ ∧ Segment h (some (addr x)) l q

end

section
variable {addr : β → Nat} {val : β → α} {h : Heap α} {p q : Option Nat} {a b l : List β} {x : β}

@[simp] theorem first_nil : first addr [] q = q := rfl

@[simp] theorem first_cons : first addr (x :: l) q = some (addr x) := rfl

@[simp] theorem last_nil : last addr p [] = p := rfl

@[simp] theorem last_concat : last addr p (l ++ [x]) = some (addr x) := by simp [last]

theorem first_append : first addr (a ++ b) q = first addr a (first addr b q) := by
  cases a <;> rfl

/-- The first address is that of an element. -/
theorem mem_of_first {z : Nat} (hz : first addr l none = some z) : z ∈ l.map addr := by
  cases l with
  | nil => cases hz
  | cons x l =>
    cases hz
    simp

theorem last_cons : last addr p (x :: l) = last addr (some (addr x)) l := by
  unfold last
  rw [List.getLast?_cons]
  cases l.getLast? <;> rfl

/-- The last address is that of an element. -/
theorem mem_of_last {z : Nat} (hz : last addr none l = some z) : z ∈ l.map addr := by
  rcases List.eq_nil_or_concat l with rfl | ⟨l, x, rfl⟩
  · cases hz
  · rw [List.concat_eq_append, last_concat] at hz
    cases hz
    simp

theorem last_append_cons : last addr p (a ++ x :: b) = last addr (some (addr x)) b := by
  induction a generalizing p with
  | nil => exact last_cons
  | cons y a ih => rw [List.cons_append, last_cons, ih]

theorem segment_append :
    Segment addr val h p (a ++ b) q ↔
      Segment addr val h p a (first addr b q) ∧ Segment addr val h (last addr p a) b q := by
  induction a generalizing p with
  | nil => exact ⟨fun hs => ⟨True.intro, hs⟩, fun hs => hs.2⟩
  | cons x a ih =>
    simp only [List.cons_append, Segment, ih, first_append, last_cons, and_assoc]

/-- The node of an element in the middle. -/
theorem Segment.node (hs : Segment addr val h p (a ++ x :: b) q) :
    h (addr x) = some ⟨val x, last addr p a, first addr b q⟩ :=
  (segment_append.1 hs).2.1

/-- Writing outside of a segment leaves it. -/
theorem Segment.frame {h' : Heap α} {y : Nat} (hs : Segment addr val h p l q) (hf : ∀ z ≠ y, h' z = h z)
    (hy : y ∉ l.map addr) : Segment addr val h' p l q := by
  induction l generalizing p with
  | nil => exact True.intro
  | cons x l ih =>
    simp only [List.map_cons, List.mem_cons, not_or] at hy
    exact ⟨(hf _ (Ne.symm hy.1)).trans hs.1, ih hs.2 hy.2⟩

/-- `next` of the last element is written. -/
theorem Segment.setNext_last (hs : Segment addr val h p (a ++ [x]) q) (hx : addr x ∉ a.map addr) (q' : Option Nat) :
    ∃ h', h.setNext (addr x) q' = some h' ∧ Segment addr val h' p (a ++ [x]) q' ∧ ∀ z ≠ addr x, h' z = h z := by
  obtain ⟨h', hw, hx', hf⟩ := Heap.setNext_spec hs.node q'
  rw [segment_append] at hs
  exact ⟨h', hw, segment_append.2 ⟨hs.1.frame hf hx, hx', True.intro⟩, hf⟩

/-- `prev` of the first element is written. -/
theorem Segment.setPrev_first (hs : Segment addr val h p (x :: b) q) (hx : addr x ∉ b.map addr) (p' : Option Nat) :
    ∃ h', h.setPrev (addr x) p' = some h' ∧ Segment addr val h' p' (x :: b) q ∧ ∀ z ≠ addr x, h' z = h z := by
  obtain ⟨h', hw, hx', hf⟩ := Heap.setPrev_spec hs.1 p'
  exact ⟨h', hw, ⟨hx', hs.2.frame hf hx⟩, hf⟩

/-- The value of an element is written: `x` becomes `y`. -/
theorem Segment.setVal {y : β} {f : Node α → Node α} (hs : Segment addr val h p (a ++ x :: b) q)
    (hx : addr x ∉ a.map addr ∧ addr x ∉ b.map addr) (ha : addr y = addr x)
    (hf : ∀ p q, f ⟨val x, p, q⟩ = ⟨val y, p, q⟩) :
    ∃ h', h.modify (addr x) f = some h' ∧ Segment addr val h' p (a ++ y :: b) q := by
  obtain ⟨h', hw, hx', hfr⟩ := Heap.modify_spec hs.node f
  rw [segment_append] at hs
  have hfirst : first addr (y :: b) q = first addr (x :: b) q := by
    rw [first_cons, first_cons, ha]
  refine ⟨h', hw, segment_append.2 ⟨?_, ?_, ?_⟩⟩
  · rw [hfirst]
    exact hs.1.frame hfr hx.1
  · rw [ha, hx', hf]
  · rw [ha]
    exact hs.2.2.frame hfr hx.2

/-- Following `next` from the first element visits the segment. -/
theorem Segment.visits (hs : Segment addr val h p l none) : Visits h (first addr l none) (l.map addr) := by
  induction l generalizing p with
  | nil => exact .nil
  | cons x l ih => exact .cons hs.1 (ih hs.2)

/-- `prev` is the inverse of `next`. -/
theorem Segment.prev_iff (hs : Segment addr val h none l none) (hl : (l.map addr).Nodup) {y : β} (hy : y ∈ l)
    {z : Nat} :
    (h (addr y)).map Node.prev = some (some z) ↔
      ∃ x ∈ l, addr x = z ∧ (h z).map Node.next = some (some (addr y)) := by
  constructor
  · intro hprev
    obtain ⟨a, b, rfl⟩ := List.append_of_mem hy
    rw [hs.node] at hprev
    rcases List.eq_nil_or_concat a with rfl | ⟨a, x, rfl⟩
    · cases hprev
    · rw [List.concat_eq_append, last_concat] at hprev
      cases hprev
      have hsplit : a.concat x ++ y :: b = a ++ x :: y :: b := by simp
      rw [hsplit] at hs
      refine ⟨x, by simp, rfl, ?_⟩
      rw [hs.node]
      rfl
  · rintro ⟨x, hx, rfl, hnext⟩
    obtain ⟨a, b, rfl⟩ := List.append_of_mem hx
    rw [hs.node] at hnext
    cases b with
    | nil => cases hnext
    | cons w b =>
      -- the successor of `x` has the address of `y`
      have hw : w = y := List.inj_on_of_nodup_map hl (by simp) hy (Option.some.inj (Option.some.inj hnext))
      subst hw
      have hsplit : a ++ x :: w :: b = (a ++ [x]) ++ w :: b := by simp
      rw [hsplit] at hs
      rw [hs.node, last_concat]
      rfl

end

end LinkedList
