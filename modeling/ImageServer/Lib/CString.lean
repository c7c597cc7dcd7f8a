import Mathlib.Data.Nat.Digits.Defs
import ImageServer.Lib.CharArray

/-!
# The C string functions

The functions of `<string.h>`, `<strings.h>` and `<stdlib.h>` on a string that is the rest of an array.  A
function stops at the NUL or at the character that decides its result; when the array ends first it has read
past the end, and there is no result.  For a text `l` without NUL that is followed by one, each function is a
plain function of `l` (`strpbrk_text` and the lemmas after it), so it depends on nothing behind the NUL.
-/

namespace CLib

/-- `strpbrk(s, accept)`, as an offset from `s`; the inner `none` is the null pointer. -/
def strpbrk (accept : List Byte) : List Byte → Option (Option Nat)
  | [] => none
  | b :: s =>
    if b = 0 then some none
    else if b ∈ accept then some (some 0)
    else (strpbrk accept s).map (Option.map (· + 1))

/-- `strspn(s, accept)`. -/
def strspn (accept : List Byte) : List Byte → Option Nat
  | [] => none
  | b :: s => if b ≠ 0 ∧ b ∈ accept then (strspn accept s).map (· + 1) else some 0

/-- The characters of the string `s` before its NUL. -/
def cstring : List Byte → Option (List Byte)
  | [] => none
  | b :: s => if b = 0 then some [] else (cstring s).map (b :: ·)

/-- `strlen(s)`. -/
def strlen (s : List Byte) : Option Nat := (cstring s).map List.length

/-- The offset of the last occurrence of `c` in a text. -/
def lastIdx (c : Byte) : List Byte → Option Nat
  | [] => none
  | b :: l =>
    match lastIdx c l with
    | some i => some (i + 1)
    | none => if b = c then some 0 else none

/-- `strrchr(s, c)` for a character `c` other than NUL. -/
def strrchr (c : Byte) (s : List Byte) : Option (Option Nat) := (cstring s).map (lastIdx c)

/-- `tolower` in the C locale. -/
def toLower (b : Byte) : Byte := if 65 ≤ b ∧ b ≤ 90 then b + 32 else b

/-- `strcasecmp(s, t) == 0` for a literal `t`. -/
def strcaseeq : List Byte → List Byte → Option Bool
  | _, [] => none
  | [], b :: _ => some (b = 0)
  | c :: t, b :: s => if toLower b = toLower c then strcaseeq t s else some false

/-- `strncasecmp(s, t, strlen(t)) == 0` for a literal `t`. -/
def strncaseeq : List Byte → List Byte → Option Bool
  | [], _ => some true
  | _ :: _, [] => none
  | c :: t, b :: s => if toLower b = toLower c then strncaseeq t s else some false

/-- `isspace` in the C locale. -/
def isSpace (b : Byte) : Bool := b = 32 ∨ 9 ≤ b ∧ b ≤ 13

def isDigit (b : Byte) : Bool := 48 ≤ b ∧ b ≤ 57

/-- The value of a string of decimal digits. -/
def digitsValue (ds : List Byte) : Nat := ds.foldl (fun n b => 10 * n + (b.toNat - 48)) 0

/-- The longest prefix of the characters `p`; scanning it has to meet a character outside `p`. -/
def spanWhile (p : Byte → Bool) : List Byte → Option (List Byte × List Byte)
  | [] => none
  | b :: s => if p b then (spanWhile p s).map (fun r => (b :: r.1, r.2)) else some ([], b :: s)

def LONG_MAX : Int := 2 ^ 63 - 1

def LONG_MIN : Int := -2 ^ 63

/-- `strtol(s, nullptr, 10)`: the value, and whether it was out of range (then `errno` becomes `ERANGE`). -/
def strtol (s : List Byte) : Option (Int × Bool) := do
  let (_, s) ← spanWhile isSpace s
  let b ← s.head?
  let s' := if b = 43 ∨ b = 45 then s.tail else s
  let (ds, _) ← spanWhile isDigit s'
  let v : Int := if b = 45 then -(digitsValue ds : Int) else digitsValue ds
  if LONG_MAX < v then return (LONG_MAX, true)
  else if v < LONG_MIN then return (LONG_MIN, true)
  else return (v, false)

/-- The conversion of a `long` or a `size_t` to a 32-bit `int`. -/
def toInt32 (x : Int) : Int := x.bmod (2 ^ 32)

/-- `%d`. -/
def decimal (i : Int) : List Byte :=
  if i < 0 then 45 :: (Nat.toDigits 10 i.natAbs).map (fun c => UInt8.ofNat c.toNat)
  else (Nat.toDigits 10 i.natAbs).map fun c => UInt8.ofNat c.toNat

/-- `%0wd`, for a number that is not negative. -/
def zeroPad (w n : Nat) : List Byte := List.replicate (w - (decimal n).length) 48 ++ decimal n

/-! ### Integers -/

theorem toInt32_bounds (x : Int) : -2 ^ 31 ≤ toInt32 x ∧ toInt32 x < 2 ^ 31 := by
  unfold toInt32
  have h1 := Int.le_bmod (x := x) (m := 2 ^ 32) (by decide)
  have h2 := Int.bmod_lt (x := x) (m := 2 ^ 32) (by decide)
  omega

theorem toInt32_of_lt {x : Int} (h0 : 0 ≤ x) (h : x < 2 ^ 31) : toInt32 x = x := by
  unfold toInt32
  rw [Int.bmod_eq_of_le] <;> omega

theorem toInt32_natCast {n : Nat} (h : n < 2 ^ 31) : toInt32 n = n :=
  toInt32_of_lt (Int.natCast_nonneg n) (by exact_mod_cast h)

theorem decimal_length_le {i : Int} (h1 : -2 ^ 31 ≤ i) (h2 : i ≤ 2 ^ 31) : (decimal i).length ≤ 11 := by
  have h := Nat.toDigits_length 10 i.natAbs 10 (by decide) (by omega)
  unfold decimal
  split <;> simp only [List.length_cons, List.length_map] <;> omega

theorem digit_toNat {c : Char} (h : c.isDigit = true) : 48 ≤ c.toNat ∧ c.toNat ≤ 57 := by
  simp only [Char.isDigit, Bool.and_eq_true, decide_eq_true_eq, UInt32.le_iff_toNat_le] at h
  exact h

/-- A number can be read back from its digits. -/
theorem digitsValue_decimal (n : Nat) : digitsValue (decimal n) = n := by
  have hfold : ∀ (l : List Char) (a : Nat), (∀ c ∈ l, c.isDigit = true) →
      l.foldl (fun n c => 10 * n + ((UInt8.ofNat c.toNat).toNat - 48)) a = Nat.ofDigitChars 10 l a := by
    intro l
    induction l with
    | nil => intro a _; rfl
    | cons c l ih =>
      intro a h
      have hc := digit_toNat (h c List.mem_cons_self)
      rw [List.foldl_cons, ih _ fun d hd => h d (List.mem_cons_of_mem c hd), Nat.ofDigitChars_cons]
      congr 1
      rw [UInt8.toNat_ofNat_of_lt' (by show c.toNat < 256; omega)]
      rfl
  unfold decimal digitsValue
  rw [if_neg (by omega), List.foldl_map, hfold, Int.natAbs_natCast, Nat.ofDigitChars_ten_toDigits]
  exact fun c hc => Nat.isDigit_of_mem_toDigits (by decide) (by decide) hc

theorem isDigit_of_mem_decimal {n : Nat} {b : Byte} (h : b ∈ decimal n) : isDigit b = true := by
  unfold decimal at h
  rw [if_neg (by omega)] at h
  obtain ⟨c, hc, rfl⟩ := List.mem_map.1 h
  have hd := digit_toNat (Nat.isDigit_of_mem_toDigits (by decide) (by decide) hc)
  simp only [isDigit, decide_eq_true_eq, UInt8.le_iff_toNat_le]
  rw [UInt8.toNat_ofNat_of_lt' (by show c.toNat < 256; omega)]
  exact hd

theorem digitsValue_zeroPad (w n : Nat) : digitsValue (zeroPad w n) = n := by
  have hzero : ∀ k : Nat, (List.replicate k (48 : Byte)).foldl (fun n b => 10 * n + (b.toNat - 48)) 0 = 0 := by
    intro k
    induction k with
    | zero => rfl
    | succ k ih => exact ih
  rw [zeroPad, digitsValue, List.foldl_append, hzero]
  exact digitsValue_decimal n

theorem decimal_length_le_iff {n k : Nat} (hk : 0 < k) : (decimal n).length ≤ k ↔ n < 10 ^ k := by
  unfold decimal
  rw [if_neg (by omega), List.length_map, Int.natAbs_natCast]
  exact Nat.length_toDigits_le_iff (by decide) hk

theorem zeroPad_length {w n : Nat} (hw : 0 < w) (h : n < 10 ^ w) : (zeroPad w n).length = w := by
  have hle := (decimal_length_le_iff hw).2 h
  rw [zeroPad, List.length_append, List.length_replicate]
  omega

theorem isDigit_of_mem_zeroPad {w n : Nat} {b : Byte} (h : b ∈ zeroPad w n) : isDigit b = true := by
  rcases List.mem_append.1 h with h | h
  · rw [(List.mem_replicate.1 h).2]
    rfl
  · exact isDigit_of_mem_decimal h

/-! ### The functions on a text -/

variable {accept : List Byte}

@[simp] theorem cstring_text {l r : List Byte} (h : 0 ∉ l) : cstring (l ++ 0 :: r) = some l := by
  induction l with
  | nil => simp [cstring]
  | cons b l ih =>
    simp only [List.mem_cons, not_or] at h
    simp [cstring, Ne.symm h.1, ih h.2]

theorem cstring_eq_some {s l : List Byte} (h : cstring s = some l) : ∃ r, s = l ++ 0 :: r ∧ 0 ∉ l := by
  induction s generalizing l with
  | nil => cases h
  | cons b s ih =>
    unfold cstring at h
    split at h
    · rename_i hb
      cases h
      exact ⟨s, by rw [hb]; rfl, List.not_mem_nil⟩
    · rename_i hb
      obtain ⟨l', hl', he⟩ := Option.map_eq_some_iff.1 h
      cases he
      obtain ⟨r, hr, h0⟩ := ih hl'
      exact ⟨r, by rw [hr]; rfl, by simp [Ne.symm hb, h0]⟩

/-- Of a text with only NULs behind it, if any, the string is the text. -/
theorem cstring_zeros {l t : List Byte} {k : Nat} (h0 : 0 ∉ l) (h : cstring (l ++ List.replicate k 0) = some t) :
    t = l := by
  cases k with
  | zero =>
    obtain ⟨r, hr, -⟩ := cstring_eq_some h
    rw [List.replicate_zero, List.append_nil] at hr
    exact absurd (by rw [hr]; simp) h0
  | succ k =>
    rw [List.replicate_succ, cstring_text h0] at h
    exact (Option.some.inj h).symm

/-- The string behind some characters of a string. -/
theorem cstring_drop {s l : List Byte} {k : Nat} (h : cstring s = some l) (hk : k ≤ l.length) :
    cstring (s.drop k) = some (l.drop k) := by
  obtain ⟨r, rfl, h0⟩ := cstring_eq_some h
  rw [List.drop_append_of_le_length hk]
  exact cstring_text fun hm => h0 (List.mem_of_mem_drop hm)

theorem not_mem_of_lastIdx {c : Byte} {l : List Byte} (h : lastIdx c l = none) : c ∉ l := by
  induction l with
  | nil => exact List.not_mem_nil
  | cons b l ih =>
    unfold lastIdx at h
    split at h
    · cases h
    · rename_i hl
      split at h
      · cases h
      · rename_i hb
        simp [Ne.symm hb, ih hl]

/-- The last occurrence stands in the text, and none follows it. -/
theorem lastIdx_eq_some {c : Byte} {l : List Byte} {i : Nat} (h : lastIdx c l = some i) :
    ∃ a b, l = a ++ c :: b ∧ a.length = i ∧ c ∉ b := by
  induction l generalizing i with
  | nil => cases h
  | cons d l ih =>
    unfold lastIdx at h
    split at h
    · rename_i j hj
      cases h
      obtain ⟨a, b, rfl, rfl, hb⟩ := ih hj
      exact ⟨d :: a, b, rfl, rfl, hb⟩
    · rename_i hl
      split at h
      · rename_i hd
        cases h
        exact ⟨[], l, by rw [hd]; rfl, rfl, not_mem_of_lastIdx hl⟩
      · cases h

theorem lastIdx_text {c : Byte} {b : List Byte} (a : List Byte) (h : c ∉ b) :
    lastIdx c (a ++ c :: b) = some a.length := by
  have hb : lastIdx c b = none := by
    cases hi : lastIdx c b with
    | none => rfl
    | some i =>
      obtain ⟨x, y, rfl, -, -⟩ := lastIdx_eq_some hi
      simp at h
  induction a with
  | nil => simp [lastIdx, hb]
  | cons d a ih => simp [lastIdx, ih]

theorem strlen_text {l r : List Byte} (h : 0 ∉ l) : strlen (l ++ 0 :: r) = some l.length := by
  simp [strlen, h]

theorem strpbrk_text {l r : List Byte} (h : 0 ∉ l) :
    strpbrk accept (l ++ 0 :: r) = some (l.findIdx? (· ∈ accept)) := by
  induction l with
  | nil => simp [strpbrk]
  | cons b l ih =>
    simp only [List.mem_cons, not_or] at h
    by_cases hb : b ∈ accept <;> simp [strpbrk, Ne.symm h.1, hb, ih h.2, List.findIdx?_cons]

theorem strspn_text {l r : List Byte} (h : 0 ∉ l) :
    strspn accept (l ++ 0 :: r) = some (l.takeWhile (· ∈ accept)).length := by
  induction l with
  | nil => simp [strspn]
  | cons b l ih =>
    simp only [List.mem_cons, not_or] at h
    by_cases hb : b ∈ accept <;> simp [strspn, Ne.symm h.1, hb, ih h.2]

/-- The texts `l` and `t` are equal up to case. -/
def ciEq (t l : List Byte) : Bool := t.map toLower = l.map toLower

/-- The text `l` starts with `t` up to case. -/
def ciPrefix (t l : List Byte) : Bool := ciEq t (l.take t.length)

theorem toLower_eq_zero {b : Byte} : toLower b = 0 ↔ b = 0 := by
  unfold toLower
  split
  · rename_i h
    rw [UInt8.le_iff_toNat_le, UInt8.le_iff_toNat_le] at h
    rw [← UInt8.toNat_inj, ← UInt8.toNat_inj, UInt8.toNat_add]
    simp only [UInt8.reduceToNat] at h ⊢
    omega
  · rfl

theorem strcaseeq_text {t l r : List Byte} (ht : 0 ∉ t) (h : 0 ∉ l) :
    strcaseeq t (l ++ 0 :: r) = some (ciEq t l) := by
  induction t generalizing l with
  | nil => cases l with
    | nil => simp [strcaseeq, ciEq]
    | cons b l => simp only [List.mem_cons, not_or] at h; simp [strcaseeq, ciEq, Ne.symm h.1]
  | cons c t ih =>
    simp only [List.mem_cons, not_or] at ht
    cases l with
    | nil =>
      have : ¬ toLower 0 = toLower c := fun e => ht.1 (toLower_eq_zero.1 (e.symm.trans (by decide))).symm
      simp [strcaseeq, ciEq, this]
    | cons b l =>
      simp only [List.mem_cons, not_or] at h
      by_cases hb : toLower b = toLower c
      · simp [strcaseeq, ciEq, hb, ih ht.2 h.2]
      · simp [strcaseeq, ciEq, hb, Ne.symm hb]

theorem strncaseeq_text {t l r : List Byte} (ht : 0 ∉ t) (h : 0 ∉ l) :
    strncaseeq t (l ++ 0 :: r) = some (ciPrefix t l) := by
  induction t generalizing l with
  | nil => cases l <;> simp [strncaseeq, ciPrefix, ciEq]
  | cons c t ih =>
    simp only [List.mem_cons, not_or] at ht
    cases l with
    | nil =>
      have : ¬ toLower 0 = toLower c := fun e => ht.1 (toLower_eq_zero.1 (e.symm.trans (by decide))).symm
      simp [strncaseeq, ciPrefix, ciEq, this]
    | cons b l =>
      simp only [List.mem_cons, not_or] at h
      by_cases hb : toLower b = toLower c
      · simpa [strncaseeq, ciPrefix, ciEq, hb] using ih ht.2 h.2
      · simp [strncaseeq, ciPrefix, ciEq, hb, Ne.symm hb]

theorem spanWhile_text {p : Byte → Bool} (hp : p 0 = false) (l r : List Byte) :
    spanWhile p (l ++ 0 :: r) = some (l.takeWhile p, l.dropWhile p ++ 0 :: r) := by
  induction l with
  | nil => simp [spanWhile, hp]
  | cons b l ih => by_cases hb : p b <;> simp [spanWhile, hb, ih]

/-- `strtol` on a text: it is a function of the text alone. -/
def strtolText (l : List Byte) : Int × Bool :=
  let s := l.dropWhile isSpace
  let neg := s.head? = some 45
  let ds := (if s.head? = some 43 ∨ s.head? = some 45 then s.tail else s).takeWhile isDigit
  let v : Int := if neg then -(digitsValue ds : Int) else digitsValue ds
  if LONG_MAX < v then (LONG_MAX, true) else if v < LONG_MIN then (LONG_MIN, true) else (v, false)

theorem strtol_text {l r : List Byte} : strtol (l ++ 0 :: r) = some (strtolText l) := by
  unfold strtol strtolText
  rw [spanWhile_text (by decide)]
  rcases hs : l.dropWhile isSpace with _ | ⟨b, s⟩
  · simp [spanWhile, isDigit, digitsValue]
    rfl
  · have hd := spanWhile_text (p := isDigit) (by decide)
    have hd' := hd (b :: s) r
    simp only [List.cons_append] at hd'
    by_cases h43 : b = 43
    · subst h43
      simp [hd s r]
      split <;> (try split) <;> rfl
    · by_cases h45 : b = 45
      · subst h45
        simp [hd s r]
        split <;> (try split) <;> rfl
      · simp only [Option.bind_eq_bind, Option.bind_some, List.cons_append, List.head?_cons, h43, h45,
          or_self, if_false, hd', Option.some.injEq]
        split <;> (try split) <;> rfl

/-! ### Scanning an unfinished text -/

/-- A scan runs off the array, meets the NUL first, or meets one of the characters first. -/
theorem strpbrk_cases (accept s : List Byte) :
    (strpbrk accept s = none ∧ 0 ∉ s ∧ ∀ c ∈ accept, c ∉ s) ∨
    (∃ l r, s = l ++ 0 :: r ∧ 0 ∉ l ∧ (∀ c ∈ accept, c ∉ l) ∧ strpbrk accept s = some none) ∨
    (∃ l c r, s = l ++ c :: r ∧ c ∈ accept ∧ 0 ∉ l ∧ (∀ c ∈ accept, c ∉ l) ∧
      strpbrk accept s = some (some l.length)) := by
  induction s with
  | nil => exact Or.inl ⟨rfl, by simp, by simp⟩
  | cons b s ih =>
    by_cases hb0 : b = 0
    · subst hb0
      exact Or.inr (Or.inl ⟨[], s, rfl, by simp, by simp, by simp [strpbrk]⟩)
    · by_cases hb : b ∈ accept
      · exact Or.inr (Or.inr ⟨[], b, s, rfl, hb, by simp, by simp, by simp [strpbrk, hb0, hb]⟩)
      · have hne : ∀ c ∈ accept, c ≠ b := fun c hc e => hb (e ▸ hc)
        rcases ih with ⟨h, h1, h2⟩ | ⟨l, r, h, h1, h2, h3⟩ | ⟨l, c, r, h, hc, h1, h2, h3⟩
        · refine Or.inl ⟨by simp [strpbrk, hb0, hb, h], by simp [Ne.symm hb0, h1], ?_⟩
          intro c hc
          simp [hne c hc, h2 c hc]
        · refine Or.inr (Or.inl ⟨b :: l, r, by simp [h], by simp [Ne.symm hb0, h1], ?_, ?_⟩)
          · intro c hc; simp [hne c hc, h2 c hc]
          · simp [strpbrk, hb0, hb, h3]
        · refine Or.inr (Or.inr ⟨b :: l, c, r, by simp [h], hc, by simp [Ne.symm hb0, h1], ?_, ?_⟩)
          · intro c hc; simp [hne c hc, h2 c hc]
          · simp [strpbrk, hb0, hb, h3]

/-- The first of the characters is found where it stands. -/
theorem strpbrk_found {c : Byte} {l r : List Byte} (h0 : 0 ∉ l) (hl : ∀ a ∈ accept, a ∉ l) (hc : c ∈ accept)
    (hc0 : c ≠ 0) : strpbrk accept (l ++ c :: r) = some (some l.length) := by
  induction l with
  | nil => simp [strpbrk, hc, hc0]
  | cons b l ih =>
    simp only [List.mem_cons, not_or] at h0
    have hb : b ∉ accept := fun hb => hl b hb List.mem_cons_self
    simp [strpbrk, Ne.symm h0.1, hb, ih h0.2 fun a ha hal => hl a ha (List.mem_cons_of_mem _ hal)]

theorem strpbrk_eq_some {s : List Byte} {i : Nat} (h : strpbrk accept s = some (some i)) :
    ∃ l c r, s = l ++ c :: r ∧ l.length = i ∧ c ∈ accept ∧ 0 ∉ l ∧ ∀ a ∈ accept, a ∉ l := by
  rcases strpbrk_cases accept s with ⟨hn, _⟩ | ⟨l, r, _, _, _, hn⟩ | ⟨l, c, r, hs, hc, h0, ha, hn⟩
  · rw [hn] at h; cases h
  · rw [hn] at h; cases h
  · rw [hn] at h; cases h; exact ⟨l, c, r, hs, rfl, hc, h0, ha⟩

/-! ### Cutting a text at a character -/

/-- The parts of a text before and behind the first occurrence of `c`. -/
def cut (c : Byte) : List Byte → Option (List Byte × List Byte)
  | [] => none
  | b :: l => if b = c then some ([], l) else (cut c l).map fun x => (b :: x.1, x.2)

theorem cut_eq_some {c : Byte} {l a b : List Byte} (h : cut c l = some (a, b)) : l = a ++ c :: b ∧ c ∉ a := by
  induction l generalizing a with
  | nil => cases h
  | cons d l ih =>
    unfold cut at h
    split at h
    · rename_i hd
      cases h
      exact ⟨by rw [hd]; rfl, List.not_mem_nil⟩
    · rename_i hd
      obtain ⟨⟨a', b'⟩, hab, he⟩ := Option.map_eq_some_iff.1 h
      cases he
      obtain ⟨rfl, hn⟩ := ih hab
      exact ⟨rfl, by simp [Ne.symm hd, hn]⟩

theorem cut_append {c : Byte} {a : List Byte} (b : List Byte) (h : c ∉ a) : cut c (a ++ c :: b) = some (a, b) := by
  induction a with
  | nil => simp [cut]
  | cons d a ih =>
    simp only [List.mem_cons, not_or] at h
    rw [List.cons_append, cut, if_neg (Ne.symm h.1), ih h.2]
    rfl

theorem cut_eq_none {c : Byte} {l : List Byte} (h : cut c l = none) : c ∉ l := by
  induction l with
  | nil => exact List.not_mem_nil
  | cons b l ih =>
    unfold cut at h
    split at h
    · cases h
    · rename_i hb
      simp [Ne.symm hb, ih (Option.map_eq_none_iff.1 h)]

theorem strpbrk_cut {c : Byte} (hc : c ≠ 0) {l r : List Byte} (h : 0 ∉ l) :
    strpbrk [c] (l ++ 0 :: r) = some ((cut c l).map (·.1.length)) := by
  induction l with
  | nil => simp [strpbrk, cut]
  | cons b l ih =>
    simp only [List.mem_cons, not_or] at h
    by_cases hb : b = c
    · simp [strpbrk, cut, hb, hc]
    · simp only [List.cons_append, strpbrk, cut, Ne.symm h.1, hb, List.mem_singleton, if_false, ih h.2,
        Option.map_some, Option.map_map]
      cases cut c l <;> simp

theorem ciEq_length {s t : List Byte} (h : ciEq s t = true) : t.length = s.length := by
  have := congrArg List.length (of_decide_eq_true h)
  rw [List.length_map, List.length_map] at this
  exact this.symm

theorem ciPrefix_append {s t : List Byte} (h : ciEq s t = true) (r : List Byte) : ciPrefix s (t ++ r) = true := by
  rw [ciPrefix, List.take_left' (ciEq_length h)]
  exact h

theorem ciPrefix_length {t l : List Byte} (h : ciPrefix t l = true) : t.length ≤ l.length := by
  have := congrArg List.length (of_decide_eq_true h)
  simp only [List.length_map, List.length_take] at this
  omega

/-- Two prefixes of one text agree as far as both go. -/
theorem ciPrefix_agree {s t l : List Byte} (hs : ciPrefix s l = true) (ht : ciPrefix t l = true) :
    (s.map toLower).take t.length = (t.map toLower).take s.length := by
  rw [of_decide_eq_true hs, of_decide_eq_true ht, ← List.map_take, ← List.map_take, List.take_take, List.take_take,
    Nat.min_comm]

end CLib
