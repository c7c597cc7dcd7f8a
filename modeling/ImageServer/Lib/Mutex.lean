import Mathlib.Data.List.Basic
import Mathlib.Tactic.Common

/-!
# Threads that share a mutex

Each of a list of threads is in some phase of its code, and `holds` tells the phases inside a critical section.  The
mutex has an owner or none; `Exclusive` says that the owner is the one thread inside.  A thread that takes the mutex
when it is free, gives it back, or makes a step that is neither keeps it so.
-/

namespace Mutex

variable {α : Type*} {holds : α → Bool} {threads : List α} {owner : Option Nat} {th : Nat} {ph ph' : α}

/-- The owner is the thread that is in a critical section. -/
def Exclusive (holds : α → Bool) (threads : List α) (owner : Option Nat) : Prop :=
  ∀ th, owner = some th ↔ ∃ ph, threads[th]? = some ph ∧ holds ph = true

theorem Exclusive.start (h : ∀ ph ∈ threads, holds ph = false) : Exclusive holds threads none := by
  refine fun th => iff_of_false (fun he => by cases he) ?_
  rintro ⟨ph, hth, hph⟩
  rw [h ph (List.mem_of_getElem? hth)] at hph
  cases hph

/-- Whoever is in a critical section is the owner. -/
theorem Exclusive.owner_eq (h : Exclusive holds threads owner) (hth : threads[th]? = some ph)
    (hph : holds ph = true) : owner = some th :=
  (h th).2 ⟨ph, hth, hph⟩

/-- While one thread is in a critical section no other one is. -/
theorem Exclusive.outside (h : Exclusive holds threads (some th)) {k : Nat} (hk : k ≠ th)
    (hph : threads[k]? = some ph) : holds ph = false := by
  rw [Bool.eq_false_iff]
  intro hholds
  exact hk (Option.some.inj (h.owner_eq hph hholds)).symm

theorem getElem?_set_some {l : List α} {i k : Nat} {a b x : α} (hi : l[i]? = some b)
    (h : (l.set i a)[k]? = some x) : k = i ∧ x = a ∨ k ≠ i ∧ l[k]? = some x := by
  obtain ⟨hlt, -⟩ := List.getElem?_eq_some_iff.1 hi
  by_cases hk : k = i
  · subst hk
    rw [List.getElem?_set_self hlt] at h
    exact Or.inl ⟨rfl, (Option.some.inj h).symm⟩
  · rw [List.getElem?_set_ne (Ne.symm hk)] at h
    exact Or.inr ⟨hk, h⟩

theorem Exclusive.acquire (h : Exclusive holds threads none) (hth : threads[th]? = some ph)
    (hph : holds ph' = true) : Exclusive holds (threads.set th ph') (some th) := by
  obtain ⟨hlt, -⟩ := List.getElem?_eq_some_iff.1 hth
  intro k
  constructor
  · rintro ⟨⟩
    exact ⟨ph', List.getElem?_set_self hlt, hph⟩
  · rintro ⟨x, hx, hholds⟩
    rcases getElem?_set_some hth hx with ⟨rfl, -⟩ | ⟨-, hx⟩
    · rfl
    · cases (h k).2 ⟨x, hx, hholds⟩

theorem Exclusive.release (h : Exclusive holds threads (some th)) (hth : threads[th]? = some ph)
    (hph : holds ph' = false) : Exclusive holds (threads.set th ph') none := by
  intro k
  refine iff_of_false (fun he => by cases he) ?_
  rintro ⟨x, hx, hholds⟩
  rcases getElem?_set_some hth hx with ⟨-, rfl⟩ | ⟨hk, hx⟩
  · rw [hph] at hholds
    cases hholds
  · rw [h.outside hk hx] at hholds
    cases hholds

/-- The thread in a critical section gives the mutex back. -/
theorem Exclusive.leave (h : Exclusive holds threads owner) (hth : threads[th]? = some ph) (hph : holds ph = true)
    (hph' : holds ph' = false) : Exclusive holds (threads.set th ph') none := by
  have hown := h.owner_eq hth hph
  subst hown
  exact h.release hth hph'

/-- A step that neither takes the mutex nor gives it back. -/
theorem Exclusive.goesOn (h : Exclusive holds threads owner) (hth : threads[th]? = some ph)
    (hph : holds ph' = holds ph) : Exclusive holds (threads.set th ph') owner := by
  obtain ⟨hlt, -⟩ := List.getElem?_eq_some_iff.1 hth
  intro k
  rw [h k]
  by_cases hk : k = th
  · subst hk
    simp only [hth, List.getElem?_set_self hlt, Option.some.injEq, exists_eq_left', hph]
  · rw [List.getElem?_set_ne (Ne.symm hk)]

/-- The number of threads in some phases, when one thread goes on. -/
theorem countP_set_add (p : α → Bool) (h : threads[th]? = some ph) :
    (threads.set th ph').countP p + (p ph).toNat = threads.countP p + (p ph').toNat := by
  obtain ⟨hlt, hget⟩ := List.getElem?_eq_some_iff.1 h
  have hset := List.countP_set (p := p) (a := ph') hlt
  have hpos : (p ph).toNat ≤ threads.countP p := by
    cases hp : p ph with
    | false => exact Nat.zero_le _
    | true => exact List.countP_pos_iff.2 ⟨ph, List.mem_of_getElem? h, hp⟩
  rw [hget] at hset
  rw [hset]
  cases hp : p ph <;> cases p ph' <;> simp only [hp, Bool.toNat_true, Bool.toNat_false] at hpos ⊢ <;>
    simp <;> omega

end Mutex
