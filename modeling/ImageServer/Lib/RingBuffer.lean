import Mathlib.Data.Int.ModEq
import Mathlib.Tactic.Common

/-!
# Queues in an array

A queue in an array of `n` cells, used round and round: `Holds a start l` says that the elements of `l` are in the
cells from `start` on, modulo `n`.  Only the remainder of `start` matters (`Holds.congr`), a new element goes behind
the last one (`Holds.push`), and the first one is taken by moving `start` on (`Holds.pop`).
-/

namespace RingBuffer

variable {α : Type*}

/-- The elements of `l` are in the cells of `a` from `start` on, and there is room for them. -/
structure Holds (a : List α) (start : Nat) (l : List α) : Prop where
  fits : l.length ≤ a.length
  cell : ∀ i x, l[i]? = some x → a[(start + i) % a.length]? = some x

variable {a l : List α} {start : Nat} {x : α}

theorem Holds.nil (a : List α) (start : Nat) : Holds a start [] := ⟨Nat.zero_le _, by simp⟩

theorem Holds.congr {start' : Nat} (h : Holds a start l) (hs : start' % a.length = start % a.length) :
    Holds a start' l where
  fits := h.fits
  cell := by
    intro i x hx
    rw [Nat.add_mod, hs, ← Nat.add_mod]
    exact h.cell i x hx

/-- Two of `n` consecutive numbers have different remainders. -/
theorem add_mod_ne {n start i j : Nat} (hij : i < j) (hj : j < n) : (start + i) % n ≠ (start + j) % n := by
  intro he
  have hmod : start + i ≡ start + j [MOD n] := he
  have hij' : i ≡ j [MOD n] := Nat.ModEq.add_left_cancel' start hmod
  have hlt : i < n := hij.trans hj
  rw [Nat.ModEq, Nat.mod_eq_of_lt hlt, Nat.mod_eq_of_lt hj] at hij'
  omega

theorem Holds.push (h : Holds a start l) (hroom : l.length < a.length) (x : α) :
    Holds (a.set ((start + l.length) % a.length) x) start (l ++ [x]) where
  fits := by
    rw [List.length_append, List.length_set, List.length_singleton]
    omega
  cell := by
    intro i y hy
    rw [List.length_set]
    by_cases hi : i < l.length
    · rw [List.getElem?_append_left hi] at hy
      rw [List.getElem?_set_ne (add_mod_ne hi hroom).symm]
      exact h.cell i y hy
    · have hlast : i = l.length := by
        have hlt : i < (l ++ [x]).length := (List.getElem?_eq_some_iff.1 hy).1
        simp only [List.length_append, List.length_singleton] at hlt
        omega
      subst hlast
      have hx : x = y := by simpa using hy
      subst hx
      rw [List.getElem?_set_self (Nat.mod_lt _ (by omega))]

theorem Holds.pop (h : Holds a start (x :: l)) : a[start % a.length]? = some x ∧ Holds a (start + 1) l := by
  refine ⟨h.cell 0 x rfl, ⟨?_, ?_⟩⟩
  · have hfits := h.fits
    rw [List.length_cons] at hfits
    omega
  · intro i y hy
    rw [Nat.add_assoc, Nat.add_comm 1 i]
    exact h.cell (i + 1) y hy

/-- The cells read one after the other. -/
theorem Holds.read (h : Holds a start l) :
    ((List.range l.length).filterMap fun i => a[(start + i) % a.length]?) = l := by
  induction l generalizing start with
  | nil => rfl
  | cons x l ih =>
    obtain ⟨hx, hrest⟩ := h.pop
    have hshift : (fun i => a[(start + (i + 1)) % a.length]?) = fun i => a[(start + 1 + i) % a.length]? := by
      funext i
      rw [Nat.add_assoc, Nat.add_comm 1 i]
    rw [List.length_cons, List.range_succ_eq_map, List.filterMap_cons, Nat.add_zero, hx, List.filterMap_map]
    simp only [Function.comp_def, Nat.succ_eq_add_one, hshift, ih hrest]

/-- The last element. -/
theorem Holds.last (h : Holds a start l) (hx : l.getLast? = some x) :
    a[(start + (l.length - 1)) % a.length]? = some x := by
  rw [List.getLast?_eq_getElem?] at hx
  exact h.cell _ x hx

end RingBuffer
