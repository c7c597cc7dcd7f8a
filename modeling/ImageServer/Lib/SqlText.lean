import ImageServer.Lib.CString

/-!
# The text of an SQL statement

How MySQL, with its default settings, takes a statement apart: words, string literals and single symbols, with blanks
and comments between them.  In a literal a doubled quote stands for one, and a backslash for a control character or for
what follows it; only before `%` and `_` it stays.

No token is longer than its text, so a statement is at least as long as its tokens (`tokens_length`), and a literal
that is as long as its value is written out verbatim (`readText_split`).
-/

namespace Sql

open CLib

inductive Token
  | word (text : List Byte)
  | literal (value : List Byte)
  | symbol (b : Byte)
deriving DecidableEq

/-! ### Literals -/

def BACKSLASH : Byte := 92

/-- What a backslash and the character `b` stand for. -/
def unescape (b : Byte) : List Byte :=
  if b = 48 then [0]
  else if b = 98 then [8]
  else if b = 110 then [10]
  else if b = 114 then [13]
  else if b = 116 then [9]
  else if b = 90 then [26]
  else if b = 37 ∨ b = 95 then [BACKSLASH, b]
  else [b]

/-- The value of a literal, behind its opening quote, and what follows its closing quote. -/
def readText (quote : Byte) : List Byte → Option (List Byte × List Byte)
  | [] => none
  | [b] => if b = quote then some ([], []) else none
  | b :: c :: s =>
    if b = quote then
      if c = quote then (readText quote s).map fun x => (quote :: x.1, x.2) else some ([], c :: s)
    else if b = BACKSLASH then (readText quote s).map fun x => (unescape c ++ x.1, x.2)
    else (readText quote (c :: s)).map fun x => (b :: x.1, x.2)

/-- No quote, and no backslash but before `%` and `_`. -/
def Verbatim (quote : Byte) : List Byte → Prop
  | [] => True
  | b :: s => b ≠ quote ∧ (b = BACKSLASH → s.head? = some 37 ∨ s.head? = some 95) ∧ Verbatim quote s

instance decidableVerbatim (quote : Byte) : (s : List Byte) → Decidable (Verbatim quote s)
  | [] => inferInstanceAs (Decidable True)
  | _ :: s => @instDecidableAnd _ _ _ (@instDecidableAnd _ _ _ (decidableVerbatim quote s))

theorem unescape_length (b : Byte) : (unescape b).length ≤ 2 := by
  unfold unescape
  repeat' split
  all_goals simp

theorem unescape_verbatim {b : Byte} (h : (unescape b).length = 2) :
    (b = 37 ∨ b = 95) ∧ unescape b = [BACKSLASH, b] := by
  unfold unescape at h ⊢
  by_cases hb : b = 37 ∨ b = 95
  · rcases hb with rfl | rfl <;> decide
  · rw [if_neg hb] at h
    repeat' split at h
    all_goals simp at h

variable {quote : Byte}

/-- The text of a literal is no shorter than its value, and if it is no longer either, it is the value. -/
theorem readText_split {s v rest : List Byte} (hq : quote = 39 ∨ quote = 34)
    (h : readText quote s = some (v, rest)) :
    ∃ raw, s = raw ++ quote :: rest ∧ v.length ≤ raw.length ∧
      (v.length = raw.length → raw = v ∧ Verbatim quote v) := by
  fun_induction readText quote s generalizing v rest with
  | case1 => cases h
  | case2 =>
    cases h
    exact ⟨[], rfl, Nat.le_refl _, fun _ => ⟨rfl, True.intro⟩⟩
  | case3 => cases h
  | case4 s ih =>
    obtain ⟨⟨v', rest'⟩, hv, he⟩ := Option.map_eq_some_iff.1 h
    cases he
    obtain ⟨raw, rfl, hle, -⟩ := ih hv
    refine ⟨quote :: quote :: raw, rfl, ?_, fun hlen => ?_⟩
    · simp only [List.length_cons]
      omega
    · simp only [List.length_cons] at hlen
      omega
  | case5 c s hc =>
    cases h
    exact ⟨[], rfl, Nat.le_refl _, fun _ => ⟨rfl, True.intro⟩⟩
  | case6 c s hb ih =>
    obtain ⟨⟨v', rest'⟩, hv, he⟩ := Option.map_eq_some_iff.1 h
    cases he
    obtain ⟨raw, rfl, hle, heq⟩ := ih hv
    have h2 := unescape_length c
    refine ⟨BACKSLASH :: c :: raw, rfl, ?_, fun hlen => ?_⟩
    · simp only [List.length_append, List.length_cons]
      omega
    · simp only [List.length_append, List.length_cons] at hlen
      obtain ⟨hc, hu⟩ := unescape_verbatim (show (unescape c).length = 2 by omega)
      obtain ⟨rfl, hv'⟩ := heq (by omega)
      rw [hu]
      refine ⟨rfl, hb, fun _ => hc.imp (congrArg some) (congrArg some), ?_, fun hback => ?_, hv'⟩
      · rcases hc with rfl | rfl <;> rcases hq with rfl | rfl <;> decide
      · rcases hc with rfl | rfl <;> exact absurd hback (by decide)
  | case7 b c s hb hback ih =>
    obtain ⟨⟨v', rest'⟩, hv, he⟩ := Option.map_eq_some_iff.1 h
    cases he
    obtain ⟨raw, hraw, hle, heq⟩ := ih hv
    refine ⟨b :: raw, by rw [hraw]; rfl, Nat.succ_le_succ hle, fun hlen => ?_⟩
    obtain ⟨rfl, hv'⟩ := heq (Nat.succ.inj hlen)
    exact ⟨rfl, hb, fun he => absurd he hback, hv'⟩

/-- A literal that is written out verbatim is read as it stands. -/
theorem readText_verbatim (rest : List Byte) (hrest : rest.head? ≠ some quote) :
    (v : List Byte) → Verbatim quote v → readText quote (v ++ quote :: rest) = some (v, rest)
  | [], _ => by
    cases rest with
    | nil => simp [readText]
    | cons c s =>
      have hc : c ≠ quote := fun he => hrest (congrArg some he)
      simp [readText, hc]
  | [b], h => by
    have hback : b ≠ BACKSLASH := fun hb => by simpa using h.2.1 hb
    have ih := readText_verbatim rest hrest [] True.intro
    rw [List.nil_append] at ih
    simp [readText, h.1, hback, ih]
  | b :: c :: v, h => by
    by_cases hback : b = BACKSLASH
    · subst hback
      have hc : unescape c = [BACKSLASH, c] := by
        rcases h.2.1 rfl with hc | hc <;> cases hc <;> rfl
      have ih := readText_verbatim rest hrest v h.2.2.2.2
      simp [readText, h.1, ih, hc]
    · have ih := readText_verbatim rest hrest (c :: v) h.2.2
      simp only [List.cons_append] at ih ⊢
      simp [readText, h.1, hback, ih]

/-! ### Tokens -/

/-- A letter, a digit, `_`, `$`, or a byte of a longer character. -/
def isWord (b : Byte) : Bool := isDigit b ∨ 65 ≤ b ∧ b ≤ 90 ∨ 97 ≤ b ∧ b ≤ 122 ∨ b = 95 ∨ b = 36 ∨ 128 ≤ b

/-- What follows the second dash makes two of them a comment. -/
def startsComment (s : List Byte) : Bool := s.head? = some 45 ∧ s.tail.head?.all fun b => isSpace b ∨ b < 32 ∨ b = 127

/-- What follows the end of a `/*` comment. -/
def skipBlock : List Byte → Option (List Byte)
  | [] => none
  | [_] => none
  | b :: c :: s => if b = 42 ∧ c = 47 then some s else skipBlock (c :: s)

theorem skipBlock_length {s rest : List Byte} (h : skipBlock s = some rest) : rest.length ≤ s.length := by
  fun_induction skipBlock s with
  | case1 => cases h
  | case2 => cases h
  | case3 b c s hc =>
    cases h
    simp only [List.length_cons]
    omega
  | case4 b c s hc ih => exact Nat.le_succ_of_le (ih h)

theorem readText_length {quote : Byte} {s v rest : List Byte} (h : readText quote s = some (v, rest)) :
    rest.length ≤ s.length := by
  fun_induction readText quote s generalizing v rest with
  | case1 => cases h
  | case2 => cases h; exact Nat.zero_le _
  | case3 => cases h
  | case4 s ih =>
    obtain ⟨⟨v', rest'⟩, hv, he⟩ := Option.map_eq_some_iff.1 h
    cases he
    exact Nat.le_succ_of_le (Nat.le_succ_of_le (ih hv))
  | case5 c s hc => cases h; exact Nat.le_succ _
  | case6 c s hb ih =>
    obtain ⟨⟨v', rest'⟩, hv, he⟩ := Option.map_eq_some_iff.1 h
    cases he
    exact Nat.le_succ_of_le (Nat.le_succ_of_le (ih hv))
  | case7 b c s hb hback ih =>
    obtain ⟨⟨v', rest'⟩, hv, he⟩ := Option.map_eq_some_iff.1 h
    cases he
    exact Nat.le_succ_of_le (ih hv)

/-- The tokens of a statement; there are none when a literal or a comment has no end. -/
def tokens : List Byte → Option (List Token)
  | [] => some []
  | b :: s =>
    if isSpace b then tokens s
    else if b = 35 ∨ b = 45 ∧ startsComment s then tokens (s.dropWhile (· ≠ 10))
    else if b = 47 ∧ s.head? = some 42 ∧ s.tail.head? ≠ some 33 then
      match _h : skipBlock s.tail with
      | none => none
      | some rest => tokens rest
    else if b = 39 ∨ b = 34 then
      match _h : readText b s with
      | none => none
      | some (v, rest) => (tokens rest).map (.literal v :: ·)
    else if isWord b then (tokens (s.dropWhile isWord)).map (.word (b :: s.takeWhile isWord) :: ·)
    else (tokens s).map (.symbol b :: ·)
termination_by s => s.length
decreasing_by
  all_goals simp only [List.length_cons]
  · omega
  · have := (List.dropWhile_sublist (· ≠ (10 : Byte)) (l := s)).length_le
    omega
  · have := skipBlock_length ‹_›
    rw [List.length_tail] at this
    omega
  · have := readText_length ‹_›
    omega
  · have := (List.dropWhile_sublist isWord (l := s)).length_le
    omega
  · omega

/-- The characters a token takes at least. -/
def Token.size : Token → Nat
  | .word text => text.length
  | .literal value => value.length + 2
  | .symbol _ => 1

/-- A statement is no shorter than its tokens. -/
theorem tokens_length {s : List Byte} {ts : List Token} (h : tokens s = some ts) :
    (ts.map Token.size).sum ≤ s.length := by
  fun_induction tokens s generalizing ts with
  | case1 => cases h; exact Nat.le_refl _
  | case2 b s hs ih => exact Nat.le_succ_of_le (ih h)
  | case3 b s hs hc ih =>
    have hlen := (List.dropWhile_sublist (· ≠ (10 : Byte)) (l := s)).length_le
    have := ih h
    rw [List.length_cons]
    omega
  | case4 => cases h
  | case5 b s hs hc hb rest hrest ih =>
    have hlen := skipBlock_length hrest
    have := ih h
    rw [List.length_tail] at hlen
    rw [List.length_cons]
    omega
  | case6 => cases h
  | case7 b s hs hc hb hq v rest hv ih =>
    obtain ⟨ts', hts, rfl⟩ := Option.map_eq_some_iff.1 h
    obtain ⟨raw, rfl, hle, -⟩ := readText_split hq hv
    have := ih hts
    simp only [List.map_cons, List.sum_cons, Token.size, List.length_cons, List.length_append]
    omega
  | case8 b s hs hc hb hq hw ih =>
    obtain ⟨ts', hts, rfl⟩ := Option.map_eq_some_iff.1 h
    have hlen := congrArg List.length (List.takeWhile_append_dropWhile (p := isWord) (l := s))
    have := ih hts
    rw [List.length_append] at hlen
    simp only [List.map_cons, List.sum_cons, Token.size, List.length_cons]
    omega
  | case9 b s hs hc hb hq hw ih =>
    obtain ⟨ts', hts, rfl⟩ := Option.map_eq_some_iff.1 h
    have := ih hts
    simp only [List.map_cons, List.sum_cons, Token.size, List.length_cons]
    omega

@[simp] theorem tokens_nil : tokens [] = some [] := by rw [tokens]

theorem tokens_space {b : Byte} (s : List Byte) (h : isSpace b = true) : tokens (b :: s) = tokens s := by
  rw [tokens, if_pos h]

theorem tokens_symbol {b : Byte} (s : List Byte) (hs : isSpace b = false) (hb : b ∉ [35, 45, 47, 39, 34])
    (hw : isWord b = false) : tokens (b :: s) = (tokens s).map (.symbol b :: ·) := by
  simp only [List.mem_cons, List.not_mem_nil, or_false, not_or] at hb
  rw [tokens]
  simp [hs, hb, hw]

theorem tokens_literal (s : List Byte) (hq : quote = 39 ∨ quote = 34) :
    tokens (quote :: s) = (readText quote s).bind fun x => (tokens x.2).map (.literal x.1 :: ·) := by
  rw [tokens]
  rcases hq with rfl | rfl <;> cases readText _ s <;> simp [isSpace]

theorem tokens_literal_inv {s v : List Byte} {ts : List Token} (hq : quote = 39 ∨ quote = 34)
    (h : tokens (quote :: s) = some (.literal v :: ts)) :
    ∃ rest, readText quote s = some (v, rest) ∧ tokens rest = some ts := by
  rw [tokens_literal s hq] at h
  obtain ⟨⟨v', rest⟩, hread, h⟩ := Option.bind_eq_some_iff.1 h
  obtain ⟨ts', hts, he⟩ := Option.map_eq_some_iff.1 h
  cases he
  exact ⟨rest, hread, hts⟩

theorem isWord_cases {b : Byte} (h : isWord b = true) : isSpace b = false ∧ b ∉ [35, 45, 47, 39, 34] := by
  constructor
  · unfold isWord isDigit at h
    unfold isSpace
    simp only [Bool.decide_or, Bool.decide_and, Bool.or_eq_true, Bool.and_eq_true,
      decide_eq_true_eq, UInt8.le_iff_toNat_le, ← UInt8.toNat_inj, UInt8.reduceToNat, Bool.or_eq_false_iff,
      Bool.and_eq_false_iff, decide_eq_false_iff_not] at h ⊢
    omega
  · intro hm
    simp only [List.mem_cons, List.not_mem_nil, or_false] at hm
    rcases hm with rfl | rfl | rfl | rfl | rfl <;> exact absurd h (by decide)

/-- A word ends before the first character that is none. -/
theorem tokens_word {w rest : List Byte} (hne : w ≠ []) (hw : ∀ x ∈ w, isWord x = true)
    (hrest : ∀ x ∈ rest.head?, isWord x = false) : tokens (w ++ rest) = (tokens rest).map (.word w :: ·) := by
  obtain ⟨b, w, rfl⟩ := List.exists_cons_of_ne_nil hne
  obtain ⟨hs, hb⟩ := isWord_cases (hw b List.mem_cons_self)
  simp only [List.mem_cons, List.not_mem_nil, or_false, not_or] at hb
  have hw' : ∀ x ∈ w, isWord x = true := fun x hx => hw x (List.mem_cons_of_mem _ hx)
  have htake : (w ++ rest).takeWhile isWord = w ∧ (w ++ rest).dropWhile isWord = rest := by
    rw [List.takeWhile_append_of_pos hw', List.dropWhile_append_of_pos hw']
    cases rest with
    | nil => simp
    | cons c rest => simp [hrest c rfl]
  rw [List.cons_append, tokens]
  simp [hs, hb, hw b List.mem_cons_self, htake]

end Sql
