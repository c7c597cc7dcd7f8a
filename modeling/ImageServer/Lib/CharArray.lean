import Mathlib.Tactic.Common

/-!
# Fixed-size character arrays

A C array `char a[n]` as a list of exactly `n` bytes.  A pointer into the array is the offset of the byte it
points at, and the string a pointer designates is the rest of the array from there on, so a function that scans
for a NUL runs off the array when that rest holds none.  Writes are partial: a write outside the array has no
result.  The lemmas say what a write over a known text leaves behind it and before it (`poke_split`, `copy_split`).
-/

namespace CLib

/-- A C `char`. -/
abbrev Byte := UInt8

/-- The bytes of a string literal, without the terminating NUL. -/
def lit (s : String) : List Byte := s.toList.map fun c => UInt8.ofNat c.toNat

/-- A C array of `n` characters. -/
structure CharArray (n : Nat) where
  bytes : List Byte
  size_eq : bytes.length = n
deriving DecidableEq

/-- The pointer `a + i` as an offset; there is none before the array. -/
def ptr (i : Int) : Option Nat := if 0 ≤ i then some i.toNat else none

@[simp] theorem ptr_natCast (i : Nat) : ptr (i : Int) = some i := by simp [ptr]

theorem ptr_eq_some {i : Int} {k : Nat} : ptr i = some k ↔ i = k := by
  unfold ptr
  split <;> simp <;> omega

namespace CharArray

variable {n : Nat}

@[ext] theorem ext {a b : CharArray n} (h : a.bytes = b.bytes) : a = b := by
  cases a; cases b; cases h; rfl

/-- `memset(a, '\0', n)`. -/
def zeros (n : Nat) : CharArray n := ⟨List.replicate n 0, List.length_replicate⟩

/-- The bytes `s` at the start of the array, and zeros behind them. -/
def ofBytes (s : List Byte) : CharArray n :=
  ⟨(s ++ List.replicate n 0).take n, by rw [List.length_take, List.length_append, List.length_replicate]; omega⟩

/-- The rest of the array from the offset `p` on. -/
def suffix (a : CharArray n) (p : Nat) : List Byte := a.bytes.drop p

/-- `a[p]`. -/
def peek (a : CharArray n) (p : Nat) : Option Byte := a.bytes[p]?

/-- `a[p] = b`. -/
def poke (a : CharArray n) (p : Nat) (b : Byte) : Option (CharArray n) :=
  if p < n then some ⟨a.bytes.set p b, by rw [List.length_set, a.size_eq]⟩ else none

/-- `memcpy(a + p, s, |s|)`. -/
def copy (a : CharArray n) (p : Nat) (s : List Byte) : Option (CharArray n) :=
  if h : p + s.length ≤ n then
    some ⟨a.bytes.take p ++ s ++ a.bytes.drop (p + s.length), by
      have := a.size_eq
      simp only [List.length_append, List.length_take, List.length_drop]
      omega⟩
  else none

/-! ### What a write leaves alone, and what it leaves behind -/

theorem poke_isSome {a : CharArray n} {p : Nat} {b : Byte} (h : p < n) : ∃ a', a.poke p b = some a' := by
  simp [poke, h]

theorem poke_eq_none {a : CharArray n} {p : Nat} {b : Byte} : a.poke p b = none ↔ n ≤ p := by
  unfold poke
  split <;> simp <;> omega

theorem poke_bytes {a a' : CharArray n} {p : Nat} {b : Byte} (h : a.poke p b = some a') :
    a'.bytes = a.bytes.set p b := by
  unfold poke at h
  split at h
  · cases h; rfl
  · cases h

theorem take_poke {a a' : CharArray n} {p q : Nat} {b : Byte} (h : a.poke p b = some a') (hpq : q ≤ p) :
    a'.bytes.take q = a.bytes.take q := by
  rw [poke_bytes h, List.take_set_of_le hpq]

/-- A write into the text at `p`, `k` characters from its start. -/
theorem poke_split {a : CharArray n} {p : Nat} {l r : List Byte} {c b : Byte}
    (h : a.suffix p = l ++ c :: r) :
    ∃ a', a.poke (p + l.length) b = some a' ∧ a'.suffix p = l ++ b :: r ∧ a'.bytes.take p = a.bytes.take p := by
  have hlen : p + l.length < n := by
    have := congrArg List.length h
    simp only [suffix, List.length_drop, List.length_append, List.length_cons, a.size_eq] at this
    omega
  obtain ⟨a', ha⟩ := poke_isSome (a := a) (b := b) hlen
  refine ⟨a', ha, ?_, take_poke ha (Nat.le_add_right ..)⟩
  unfold suffix at h ⊢
  rw [poke_bytes ha, List.drop_set, if_neg (by omega), Nat.add_sub_cancel_left, h]
  simp

theorem suffix_add {a : CharArray n} {p : Nat} {l r : List Byte} (h : a.suffix p = l ++ r) :
    a.suffix (p + l.length) = r := by
  unfold suffix at h ⊢
  rw [← List.drop_drop, h, List.drop_left]

/-- The rest of the array behind a part of the text at `p`. -/
theorem suffix_drop {a : CharArray n} {p k : Nat} {l r : List Byte} (h : a.suffix p = l ++ r) (hk : k ≤ l.length) :
    a.suffix (p + k) = l.drop k ++ r := by
  have hd := suffix_add (l := l.take k) (r := l.drop k ++ r)
    (by rw [h, ← List.append_assoc, List.take_append_drop])
  rwa [List.length_take, Nat.min_eq_left hk] at hd

theorem peek_suffix (a : CharArray n) (p : Nat) : a.peek p = (a.suffix p).head? := by
  simp [peek, suffix, List.head?_drop]

theorem suffix_eq_cons {a : CharArray n} {p : Nat} {b : Byte} (h : a.peek p = some b) :
    a.suffix p = b :: a.suffix (p + 1) := by
  rw [suffix, List.drop_eq_getElem?_toList_append, show a.bytes[p]? = some b from h]
  rfl

theorem suffix_length (a : CharArray n) (p : Nat) : (a.suffix p).length = n - p := by
  simp [suffix, a.size_eq]

theorem lt_of_suffix {a : CharArray n} {p : Nat} {b : Byte} {r : List Byte} (h : a.suffix p = b :: r) : p < n := by
  have := congrArg List.length h
  rw [suffix_length, List.length_cons] at this
  omega

theorem copy_isSome {a : CharArray n} {p : Nat} {s : List Byte} (h : p + s.length ≤ n) :
    ∃ a', a.copy p s = some a' := by
  simp [copy, h]

theorem copy_bytes {a a' : CharArray n} {p : Nat} {s : List Byte} (h : a.copy p s = some a') :
    p + s.length ≤ n ∧ a'.bytes = a.bytes.take p ++ s ++ a.bytes.drop (p + s.length) := by
  unfold copy at h
  split at h
  · cases h; exact ⟨‹_›, rfl⟩
  · cases h

theorem take_copy {a a' : CharArray n} {p : Nat} {s : List Byte} (h : a.copy p s = some a') :
    a'.bytes.take (p + s.length) = a.bytes.take p ++ s := by
  obtain ⟨hle, hb⟩ := copy_bytes h
  have hp : (a.bytes.take p ++ s).length = p + s.length := by
    have := a.size_eq
    simp only [List.length_append, List.length_take]
    omega
  rw [hb, List.take_left' hp]

/-- A copy leaves what is before it. -/
theorem peek_copy {a a' : CharArray n} {p k : Nat} {s : List Byte} (h : a.copy p s = some a')
    (hk : k < p) : a'.peek k = a.peek k := by
  obtain ⟨hle, hb⟩ := copy_bytes h
  have hlen : (a.bytes.take p).length = p := by
    rw [List.length_take, a.size_eq]
    omega
  unfold peek
  rw [hb, List.append_assoc, List.getElem?_append_left (by omega), List.getElem?_take_of_lt hk]

/-- Behind its start a copy shows what is copied, and then what was there before. -/
theorem peek_copy_add {a a' : CharArray n} {p : Nat} {s : List Byte} (h : a.copy p s = some a') (j : Nat) :
    a'.peek (p + j) = if j < s.length then s[j]? else a.peek (p + j) := by
  obtain ⟨hle, hb⟩ := copy_bytes h
  have hlen : (a.bytes.take p).length = p := by
    rw [List.length_take, a.size_eq]
    omega
  unfold peek
  rw [hb, List.append_assoc, List.getElem?_append_right (by omega), hlen, Nat.add_sub_cancel_left]
  split
  · rename_i hj
    exact List.getElem?_append_left hj
  · rename_i hj
    rw [List.getElem?_append_right (by omega), List.getElem?_drop]
    congr 1
    omega

/-- A copy over the text at `p`. -/
theorem copy_split {a : CharArray n} {p : Nat} {s l r : List Byte} (hp : p ≤ n) (h : a.suffix p = l ++ r)
    (hl : l.length = s.length) : ∃ a', a.copy p s = some a' ∧ a'.suffix p = s ++ r := by
  have hlen := congrArg List.length h
  rw [suffix_length, List.length_append] at hlen
  obtain ⟨a', ha⟩ := copy_isSome (a := a) (p := p) (s := s) (by omega)
  refine ⟨a', ha, ?_⟩
  have hr : a.bytes.drop (p + s.length) = r := by rw [← hl]; exact suffix_add h
  have htp : (a.bytes.take p).length = p := by rw [List.length_take, a.size_eq]; omega
  unfold suffix
  rw [(copy_bytes ha).2, hr, List.append_assoc, List.drop_left' htp]

theorem ofBytes_bytes {s : List Byte} (h : s.length ≤ n) :
    (ofBytes s : CharArray n).bytes = s ++ List.replicate (n - s.length) 0 := by
  change (s ++ List.replicate n 0).take n = _
  rw [List.take_append, List.take_of_length_le h, List.take_replicate, Nat.min_eq_left (Nat.sub_le ..)]

theorem suffix_ofBytes {s : List Byte} {p : Nat} (hp : p ≤ s.length) (h : s.length ≤ n) :
    (ofBytes s : CharArray n).suffix p = s.drop p ++ List.replicate (n - s.length) 0 := by
  rw [suffix, ofBytes_bytes h, List.drop_append_of_le_length hp]

/-- The rest of the bytes copied behind the first of them. -/
theorem copy_ofBytes {s : List Byte} {k : Nat} (hk : k ≤ s.length) (h : s.length ≤ n) :
    (ofBytes (s.take k) : CharArray n).copy k (s.drop k) = some (ofBytes s) := by
  have hlen : (s.take k).length = k := List.length_take_of_le hk
  have hfit : k + (s.drop k).length ≤ n := by
    rw [List.length_drop]
    omega
  obtain ⟨a, ha⟩ := copy_isSome (a := (ofBytes (s.take k) : CharArray n)) hfit
  rw [ha]
  congr 1
  ext1
  rw [(copy_bytes ha).2, ofBytes_bytes h, ofBytes_bytes (by omega), hlen, List.length_drop,
    List.take_left' hlen, List.take_append_drop, List.drop_append, List.drop_eq_nil_of_le (by omega), hlen,
    List.nil_append, List.drop_replicate]
  congr 2
  omega

end CharArray

end CLib
