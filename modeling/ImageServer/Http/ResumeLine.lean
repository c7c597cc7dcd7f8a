import ImageServer.Http.Parse
import Mathlib.Data.List.TakeWhile

/-!
# Scanning a line in two parts

`parse_line_` on the first bytes of a buffer, and again when the others have arrived.  `LINE_OPEN` moves
`m_checked_idx` behind all bytes, so that the second call does not see a CR that was the last byte of the first part,
and goes on behind a NUL at which the call on the whole buffer ends.  The calls agree with the one on the whole buffer
exactly when neither makes a difference, and when that call does not take the last byte for a CR that is still open
(`sameLine_iff`).
-/

namespace ImageServer

open CLib

namespace Parser

/-- The bytes are received, and the line that begins at `c` is to be scanned. -/
def holding (p : Parser) (c : Nat) (bs : List Byte) : Parser :=
  { p with readBuf := .ofBytes bs, readIdx := bs.length, checkedIdx := c, startLine := c }

/-- `p₁` is left by a call on the first `k` bytes: a call when the rest has arrived has the result of one on all. -/
def SameLine (p p₁ : Parser) (c k : Nat) (bs : List Byte) : Prop :=
  ∃ p₂ out, p₁.receive (bs.drop k) = some p₂ ∧ p₂.parseLine_ = some out ∧ (p.holding c bs).parseLine_ = some out

end Parser

/-- What a string function sees of bytes that a NUL follows. -/
def beforeNul (s : List Byte) : List Byte := s.takeWhile (· ≠ 0)

/-- The result of `parse_line_`, and where `m_checked_idx` is then, for the bytes `s` from `c` on. -/
def lineEnd (c : Nat) (s : List Byte) : LineState × Nat :=
  match (beforeNul s).idxOf? LF, (beforeNul s).idxOf? CR with
  | some j, some i => (if i + 1 = j then .lineOk else .lineBad, c + j + 1)
  | some j, none => (.lineBad, c + j + 1)
  | none, some i => (if i + 1 = c + s.length then .lineOpen else .lineBad, c + i + 1)
  | none, none => (.lineOpen, c + s.length)

/-- The line that begins at `c` with the bytes `u` may be cut before the bytes `v`. -/
def Resumable (c : Nat) (u v : List Byte) : Prop :=
  if 0 ∈ u then CR ∉ beforeNul v ∧ LF ∉ beforeNul v
  else if CR ∈ u then
    v = [] ∨ ∃ j ∈ (beforeNul v).idxOf? LF, 0 < j ∧ (beforeNul v).idxOf? CR ≠ some (j - 1)
  else
    -- the first CR is not the last byte of the buffer
    c = 0 → u ≠ [] → LF ∈ beforeNul v ∨ ∀ i ∈ (beforeNul v).idxOf? CR, i + 1 ≠ v.length

instance (c : Nat) (u v : List Byte) : Decidable (Resumable c u v) :=
  inferInstanceAs (Decidable (ite _ _ _))

/-! ### What the search finds -/

private theorem strpbrk_beforeNul (b : Byte) (s r : List Byte) :
    strpbrk [b] (s ++ 0 :: r) = some ((beforeNul s).idxOf? b) := by
  induction s with
  | nil => rfl
  | cons a s ih =>
    rw [List.cons_append, strpbrk, beforeNul, List.takeWhile_cons]
    by_cases ha : a = 0
    · simp [ha]
    · by_cases hab : a = b
      · subst hab
        simp [ha, List.idxOf?_cons]
      · rw [ih]
        simp [ha, hab, List.idxOf?_cons, beforeNul]

private theorem beforeNul_append (u v : List Byte) :
    beforeNul (u ++ v) = if 0 ∈ u then beforeNul u else u ++ beforeNul v := by
  induction u with
  | nil => rfl
  | cons a u ih =>
    unfold beforeNul at ih ⊢
    rw [List.cons_append, List.takeWhile_cons, List.takeWhile_cons, ih]
    by_cases ha : a = 0
    · simp [ha]
    · by_cases hu : 0 ∈ u
      · simp [ha, hu]
      · simp [ha, hu, Ne.symm ha]

private theorem beforeNul_eq_self {u : List Byte} (h : 0 ∉ u) : beforeNul u = u :=
  List.takeWhile_eq_self_iff.2 fun _ hb => decide_eq_true fun h0 => h (h0 ▸ hb)

private theorem beforeNul_length_le (s : List Byte) : (beforeNul s).length ≤ s.length :=
  (List.takeWhile_prefix _).length_le

private theorem lt_of_idxOf {l : List Byte} {b : Byte} {i : Nat} (h : l.idxOf? b = some i) : i < l.length := by
  obtain ⟨hi, -⟩ := List.idxOf?_eq_some_iff.1 h
  exact hi

private theorem idxOf_append {u t : List Byte} {b : Byte} (h : b ∉ u) :
    (u ++ t).idxOf? b = (t.idxOf? b).map (u.length + ·) := by
  induction u with
  | nil => simp
  | cons a u ih =>
    obtain ⟨ha, hu⟩ := not_or.1 (List.mem_cons.not.1 h)
    rw [List.cons_append, List.idxOf?_cons, if_neg (by simpa using Ne.symm ha), ih hu, Option.map_map]
    congr 1
    funext i
    simp only [Function.comp, List.length_cons]
    omega

/-! ### The function -/

namespace Parser

/-- What the end of a line at `m_checked_idx` leaves: a complete line gets its NULs. -/
def closeLine (p : Parser) (r : LineState × Nat) : Option Parser :=
  if r.1 = .lineOk then
    (p.readBuf.poke (r.2 - 2) 0).bind fun buf => (buf.poke (r.2 - 1) 0).map fun buf =>
      { p with readBuf := buf, checkedIdx := r.2 }
  else some { p with checkedIdx := r.2 }

/-- `parse_line_` finds the line's end that `lineEnd` says. -/
private theorem parseLine_lineEnd {p : Parser} {c m : Nat} {s : List Byte}
    (hs : p.readBuf.suffix c = s ++ List.replicate (m + 1) 0) (hc : p.checkedIdx = c)
    (hr : p.readIdx = (c + s.length : Nat)) :
    p.parseLine_ = (p.closeLine (lineEnd c s)).map fun q => ((lineEnd c s).1, q) := by
  -- an offset in the line is less than `m_read_idx`, also when the line does not begin at 0
  have hok : ∀ b, ((beforeNul s).idxOf? b).filter (fun i : Nat => decide ((i : Int) ≤ p.readIdx - 1)) =
      (beforeNul s).idxOf? b := by
    intro b
    cases hi : (beforeNul s).idxOf? b with
    | none => rfl
    | some i =>
      have hlt := lt_of_idxOf hi
      have hle := beforeNul_length_le s
      exact if_pos (decide_eq_true (by omega))
  unfold parseLine_
  rw [hc, ptr_natCast]
  simp only [Option.bind_eq_bind, Option.bind_some, hs, List.replicate_succ, strpbrk_beforeNul, hok]
  unfold lineEnd closeLine
  cases hn : (beforeNul s).idxOf? LF with
  | none =>
    cases hcr : (beforeNul s).idxOf? CR with
    | none => simp [hr]
    | some i =>
      have hopen : ((i : Int) = p.readIdx - 1) ↔ i + 1 = c + s.length := by omega
      by_cases h : i + 1 = c + s.length
      · simp [hopen, h]
      · simp [hopen, h]
  | some j =>
    cases hcr : (beforeNul s).idxOf? CR with
    | none => simp
    | some i =>
      by_cases h : i + 1 = j
      · subst h
        have hfirst : c + (i + 1) + 1 - 2 = c + i := by omega
        have hsecond : c + (i + 1) + 1 - 1 = c + (i + 1) := by omega
        simp [hfirst, hsecond, Option.map_eq_bind, Option.bind_assoc]
      · simp [h]

/-- The writes of a complete line are inside the buffer. -/
private theorem closeLine_isSome {p : Parser} {r : LineState × Nat} (h : r.2 ≤ READ_BUFFER_SIZE)
    (hok : r.1 = .lineOk → 2 ≤ r.2) : ∃ q, p.closeLine r = some q ∧ q.checkedIdx = r.2 := by
  unfold closeLine
  by_cases hr : r.1 = .lineOk
  · have hpos := hok hr
    obtain ⟨b₁, hb₁⟩ := CharArray.poke_isSome (a := p.readBuf) (b := 0) (show r.2 - 2 < READ_BUFFER_SIZE by omega)
    obtain ⟨b₂, hb₂⟩ := CharArray.poke_isSome (a := b₁) (b := 0) (show r.2 - 1 < READ_BUFFER_SIZE by omega)
    rw [if_pos hr, hb₁, Option.bind_some, hb₂]
    exact ⟨_, rfl, rfl⟩
  · rw [if_neg hr]
    exact ⟨_, rfl, rfl⟩

end Parser

private theorem lineEnd_le (c : Nat) (s : List Byte) : (lineEnd c s).2 ≤ c + s.length := by
  have hle := beforeNul_length_le s
  have hlt : ∀ b i, (beforeNul s).idxOf? b = some i → i < s.length := fun b i h => (lt_of_idxOf h).trans_le hle
  unfold lineEnd
  cases hn : (beforeNul s).idxOf? LF with
  | none =>
    cases hcr : (beforeNul s).idxOf? CR with
    | none => exact le_rfl
    | some i =>
      have hi := hlt CR i hcr
      dsimp only
      omega
  | some j =>
    have hj := hlt LF j hn
    cases hcr : (beforeNul s).idxOf? CR with
    | none => dsimp only; omega
    | some i => dsimp only; omega

private theorem two_le_lineEnd {c : Nat} {s : List Byte} (h : (lineEnd c s).1 = .lineOk) : 2 ≤ (lineEnd c s).2 := by
  unfold lineEnd at h ⊢
  split at h
  · split at h
    · dsimp only
      omega
    · cases h
  · cases h
  · split at h <;> cases h
  · cases h

/-- An open line has no CR and no LF, or it begins the buffer and has one CR as its last byte; in any case the index
moves behind all bytes. -/
private theorem lineEnd_open {c : Nat} {u : List Byte} (h : (lineEnd c u).1 = .lineOpen) :
    (lineEnd c u).2 = c + u.length ∧ (beforeNul u).idxOf? LF = none ∧
      ((beforeNul u).idxOf? CR = none ∨
        (c = 0 ∧ 0 ∉ u ∧ ∃ i, (beforeNul u).idxOf? CR = some i ∧ i + 1 = u.length)) := by
  unfold lineEnd at h ⊢
  cases hn : (beforeNul u).idxOf? LF with
  | none =>
    cases hcr : (beforeNul u).idxOf? CR with
    | none => exact ⟨rfl, rfl, .inl rfl⟩
    | some i =>
      rw [hn, hcr] at h
      dsimp only at h ⊢
      split at h
      · rename_i hi
        have hlt := lt_of_idxOf hcr
        have hle := beforeNul_length_le u
        have hall : beforeNul u = u := (List.takeWhile_prefix _).eq_of_length (by
          change (beforeNul u).length = u.length
          omega)
        refine ⟨by omega, rfl, .inr ⟨by omega, fun h0 => ?_, i, rfl, by omega⟩⟩
        have hne := List.mem_takeWhile_imp (show (0 : Byte) ∈ u.takeWhile (· ≠ 0) by
          change 0 ∈ beforeNul u
          rwa [hall])
        exact absurd rfl (of_decide_eq_true hne)
      · cases h
  | some j =>
    rw [hn] at h
    cases hcr : (beforeNul u).idxOf? CR with
    | none =>
      rw [hcr] at h
      cases h
    | some i =>
      rw [hcr] at h
      dsimp only at h
      split at h <;> cases h

/-! ### One scan and two -/

private theorem lineEnd_lf {c j : Nat} {s : List Byte} (hn : (beforeNul s).idxOf? LF = some j) :
    lineEnd c s =
      (if ((beforeNul s).idxOf? CR).map (· + 1) = some j then .lineOk else .lineBad, c + j + 1) := by
  rw [lineEnd, hn]
  cases (beforeNul s).idxOf? CR with
  | none => rfl
  | some i => simp only [Option.map_some, Option.some.injEq]

private theorem lineEnd_cr {c i : Nat} {s : List Byte} (hn : (beforeNul s).idxOf? LF = none)
    (hr : (beforeNul s).idxOf? CR = some i) :
    lineEnd c s = (if i + 1 = c + s.length then .lineOpen else .lineBad, c + i + 1) := by
  rw [lineEnd, hn, hr]

private theorem lineEnd_none {c : Nat} {s : List Byte} (hn : (beforeNul s).idxOf? LF = none)
    (hr : (beforeNul s).idxOf? CR = none) : lineEnd c s = (.lineOpen, c + s.length) := by
  rw [lineEnd, hn, hr]

private theorem ite_eq_ite_iff {a b : LineState} (hab : a ≠ b) {p q : Prop} [Decidable p] [Decidable q] :
    (if p then a else b) = (if q then a else b) ↔ (p ↔ q) := by
  by_cases hp : p <;> by_cases hq : q <;> simp [hp, hq, hab, hab.symm]

/-- Behind a NUL the scan of the whole sees nothing. -/
private theorem lineEnd_resume_nul {c : Nat} {u v : List Byte} (h0 : 0 ∈ u) (hn : (beforeNul u).idxOf? LF = none)
    (hr : (beforeNul u).idxOf? CR = none) :
    lineEnd (c + u.length) v = lineEnd c (u ++ v) ↔ CR ∉ beforeNul v ∧ LF ∉ beforeNul v := by
  have hwhole : lineEnd c (u ++ v) = (.lineOpen, c + u.length + v.length) := by
    have hsame : beforeNul (u ++ v) = beforeNul u := by rw [beforeNul_append, if_pos h0]
    rw [lineEnd_none (by rw [hsame, hn]) (by rw [hsame, hr]), List.length_append, Nat.add_assoc]
  have hpos : 0 < u.length := List.length_pos_of_mem h0
  have hle := beforeNul_length_le v
  rw [hwhole, ← List.idxOf?_eq_none_iff, ← List.idxOf?_eq_none_iff]
  cases hnv : (beforeNul v).idxOf? LF with
  | none =>
    cases hrv : (beforeNul v).idxOf? CR with
    | none => exact iff_of_true (lineEnd_none hnv hrv) ⟨rfl, rfl⟩
    | some i =>
      have hi := lt_of_idxOf hrv
      rw [lineEnd_cr hnv hrv, if_neg (by omega)]
      exact iff_of_false (fun h => by cases h) fun h => by cases h.1
  | some j =>
    rw [lineEnd_lf hnv]
    refine iff_of_false (fun h => ?_) fun h => by cases h.2
    split at h <;> cases h

/-- With a LF behind the cut, the first part's CR belongs to it exactly when nothing is between them. -/
private theorem lineEnd_resume_crLf {u v : List Byte} {i j : Nat} (hi : i + 1 = u.length)
    (hcr : (beforeNul (u ++ v)).idxOf? CR = some i) (hlf : (beforeNul (u ++ v)).idxOf? LF = some (u.length + j))
    (hnv : (beforeNul v).idxOf? LF = some j) :
    lineEnd (0 + u.length) v = lineEnd 0 (u ++ v) ↔ 0 < j ∧ (beforeNul v).idxOf? CR ≠ some (j - 1) := by
  have hpos : 0 + u.length + j + 1 = 0 + (u.length + j) + 1 := by omega
  have hmeet : (some i).map (· + 1) = some (u.length + j) ↔ j = 0 := by
    rw [Option.map_some, Option.some.injEq]
    omega
  rw [lineEnd_lf hnv, lineEnd_lf hlf, hcr, Prod.mk.injEq, and_iff_left hpos, ite_eq_ite_iff (by decide), hmeet]
  cases hrv : (beforeNul v).idxOf? CR with
  | none =>
    rw [and_iff_left (Option.some_ne_none _).symm]
    refine ⟨fun h => Nat.pos_of_ne_zero fun hj0 => ?_, fun h => iff_of_false (fun h' => by cases h') (by omega)⟩
    have hsome := h.2 hj0
    cases hsome
  | some r =>
    simp only [Option.map_some, Option.some.injEq, ne_eq]
    omega

/-- Without one, the CR makes the line of the whole a bad one, if anything is behind the cut. -/
private theorem lineEnd_resume_crOnly {u v : List Byte} {i : Nat} (hi : i + 1 = u.length)
    (hcr : (beforeNul (u ++ v)).idxOf? CR = some i) (hlf : (beforeNul (u ++ v)).idxOf? LF = none)
    (hnv : (beforeNul v).idxOf? LF = none) : lineEnd (0 + u.length) v = lineEnd 0 (u ++ v) ↔ v = [] := by
  have hvnil : v = [] ↔ v.length = 0 := List.length_eq_zero_iff.symm
  have hle := beforeNul_length_le v
  rw [lineEnd_cr hlf hcr, List.length_append, hvnil]
  cases hrv : (beforeNul v).idxOf? CR with
  | none =>
    rw [lineEnd_none hnv hrv, Prod.mk.injEq]
    by_cases hv : v.length = 0
    · rw [if_pos (by omega)]
      exact iff_of_true ⟨rfl, by omega⟩ hv
    · exact iff_of_false (fun h => by omega) hv
  | some r =>
    have hrlt := lt_of_idxOf hrv
    rw [lineEnd_cr hnv hrv, Prod.mk.injEq]
    exact iff_of_false (fun h => by omega) (by omega)

/-- A CR at the end of the first part is lost. -/
private theorem lineEnd_resume_cr {u v : List Byte} {i : Nat} (h0 : 0 ∉ u) (hn : LF ∉ u) (hr : u.idxOf? CR = some i)
    (hi : i + 1 = u.length) :
    lineEnd (0 + u.length) v = lineEnd 0 (u ++ v) ↔
      v = [] ∨ ∃ j ∈ (beforeNul v).idxOf? LF, 0 < j ∧ (beforeNul v).idxOf? CR ≠ some (j - 1) := by
  have hwhole : beforeNul (u ++ v) = u ++ beforeNul v := by rw [beforeNul_append, if_neg h0]
  have hcr : (beforeNul (u ++ v)).idxOf? CR = some i := by
    rw [hwhole]
    unfold List.idxOf? at hr ⊢
    rw [List.findIdx?_append, hr]
    rfl
  have hlf : (beforeNul (u ++ v)).idxOf? LF = ((beforeNul v).idxOf? LF).map (u.length + ·) := by
    rw [hwhole, idxOf_append hn]
  cases hnv : (beforeNul v).idxOf? LF with
  | none =>
    rw [hnv] at hlf
    rw [lineEnd_resume_crOnly hi hcr hlf hnv]
    refine (or_iff_left ?_).symm
    rintro ⟨j, hj, -⟩
    cases hj
  | some j =>
    rw [hnv] at hlf
    have hvpos : v ≠ [] := by
      rintro rfl
      cases hnv
    rw [lineEnd_resume_crLf hi hcr hlf hnv, or_iff_right hvpos]
    constructor
    · exact fun h => ⟨j, rfl, h⟩
    · rintro ⟨j', hj', h⟩
      cases hj'
      exact h

/-- With a first part that has neither, all but an open CR is the same. -/
private theorem lineEnd_resume_plain {c : Nat} {u v : List Byte} (h0 : 0 ∉ u) (hn : LF ∉ u) (hr : CR ∉ u) :
    lineEnd (c + u.length) v = lineEnd c (u ++ v) ↔
      (c = 0 → u ≠ [] → LF ∈ beforeNul v ∨ ∀ i ∈ (beforeNul v).idxOf? CR, i + 1 ≠ v.length) := by
  have hwhole : beforeNul (u ++ v) = u ++ beforeNul v := by rw [beforeNul_append, if_neg h0]
  have hlf : (beforeNul (u ++ v)).idxOf? LF = ((beforeNul v).idxOf? LF).map (u.length + ·) := by
    rw [hwhole, idxOf_append hn]
  have hcr : (beforeNul (u ++ v)).idxOf? CR = ((beforeNul v).idxOf? CR).map (u.length + ·) := by
    rw [hwhole, idxOf_append hr]
  have hle := beforeNul_length_le v
  have hulen : u ≠ [] ↔ 0 < u.length := List.length_pos_iff.symm
  have hmem : LF ∈ beforeNul v ↔ (beforeNul v).idxOf? LF ≠ none := by
    rw [Ne, List.idxOf?_eq_none_iff, not_not]
  rw [hulen, hmem]
  cases hnv : (beforeNul v).idxOf? LF with
  | none =>
    rw [hnv] at hlf
    rw [or_iff_right (not_not_intro rfl)]
    cases hrv : (beforeNul v).idxOf? CR with
    | none =>
      rw [hrv] at hcr
      rw [lineEnd_none hnv hrv, lineEnd_none hlf hcr, List.length_append, Nat.add_assoc]
      exact iff_of_true rfl fun _ _ i hi => by cases hi
    | some i =>
      rw [hrv] at hcr
      have hi := lt_of_idxOf hrv
      have hpos : c + u.length + i + 1 = c + (u.length + i) + 1 := by omega
      have hall : (∀ i' ∈ some i, i' + 1 ≠ v.length) ↔ i + 1 ≠ v.length :=
        ⟨fun h => h i rfl, fun h i' hi' => Option.some.inj hi' ▸ h⟩
      rw [lineEnd_cr hnv hrv, lineEnd_cr hlf hcr, Prod.mk.injEq, and_iff_left hpos, ite_eq_ite_iff (by decide),
        List.length_append, hall]
      dsimp only
      omega
  | some j =>
    rw [hnv] at hlf
    have hpos : c + u.length + j + 1 = c + (u.length + j) + 1 := by omega
    rw [lineEnd_lf hnv, lineEnd_lf hlf, Prod.mk.injEq, and_iff_left hpos, ite_eq_ite_iff (by decide), hcr]
    refine iff_of_true ?_ fun _ _ => .inl (Option.some_ne_none j)
    cases (beforeNul v).idxOf? CR with
    | none => exact iff_of_false (fun h => by cases h) fun h => by cases h
    | some i =>
      simp only [Option.map_some, Option.some.injEq]
      omega

private theorem lineEnd_resume_iff {c : Nat} {u v : List Byte} (h : (lineEnd c u).1 = .lineOpen) :
    lineEnd (c + u.length) v = lineEnd c (u ++ v) ↔ Resumable c u v := by
  obtain ⟨-, hn, hr⟩ := lineEnd_open h
  unfold Resumable
  by_cases h0 : 0 ∈ u
  · rw [if_pos h0]
    rcases hr with hr | ⟨-, hno, -⟩
    · exact lineEnd_resume_nul h0 hn hr
    · exact absurd h0 hno
  · rw [if_neg h0]
    rw [beforeNul_eq_self h0] at hn hr
    have hlf : LF ∉ u := List.idxOf?_eq_none_iff.1 hn
    rcases hr with hr | ⟨rfl, -, i, hi, hlast⟩
    · have hcr : CR ∉ u := List.idxOf?_eq_none_iff.1 hr
      rw [if_neg hcr]
      exact lineEnd_resume_plain h0 hlf hcr
    · have hcr : CR ∈ u := by
        by_contra hcr
        rw [List.idxOf?_eq_none_iff.2 hcr] at hi
        cases hi
      rw [if_pos hcr]
      exact lineEnd_resume_cr h0 hlf hi hlast

namespace Parser

/-- The scan from `e` on, whatever line it belongs to. -/
private theorem parseLine_holding (p : Parser) {c e : Nat} {bs : List Byte} (hn : bs.length < READ_BUFFER_SIZE)
    (he : e ≤ bs.length) :
    ∃ q, q.checkedIdx = ((lineEnd e (bs.drop e)).2 : Int) ∧
      (p.holding c bs).closeLine (lineEnd e (bs.drop e)) = some q ∧
      { p.holding c bs with checkedIdx := (e : Int) }.parseLine_ = some ((lineEnd e (bs.drop e)).1, q) := by
  obtain ⟨m, hm⟩ : ∃ m, READ_BUFFER_SIZE - bs.length = m + 1 := ⟨READ_BUFFER_SIZE - bs.length - 1, by omega⟩
  have hsuffix : (p.holding c bs).readBuf.suffix e = bs.drop e ++ List.replicate (m + 1) 0 := by
    rw [← hm]
    exact CharArray.suffix_ofBytes he hn.le
  have hend := lineEnd_le e (bs.drop e)
  rw [List.length_drop] at hend
  obtain ⟨q, hq, hidx⟩ := closeLine_isSome (p := p.holding c bs) (r := lineEnd e (bs.drop e)) (by omega)
    two_le_lineEnd
  refine ⟨q, hidx, hq, ?_⟩
  have hread : (p.holding c bs).readIdx = (e + (bs.drop e).length : Nat) := by
    rw [List.length_drop, Nat.add_sub_cancel' he]
    rfl
  rw [parseLine_lineEnd (p := { p.holding c bs with checkedIdx := (e : Int) }) hsuffix rfl hread]
  change ((p.holding c bs).closeLine (lineEnd e (bs.drop e))).map _ = _
  rw [hq, Option.map_some]

/-- A call that finds an open line leaves the buffer as it was, and the index behind all bytes. -/
private theorem parseLine_holding_open {p p₁ : Parser} {c : Nat} {bs : List Byte} (hn : bs.length < READ_BUFFER_SIZE)
    (hc : c ≤ bs.length) (h : (p.holding c bs).parseLine_ = some (.lineOpen, p₁)) :
    (lineEnd c (bs.drop c)).1 = .lineOpen ∧ p₁ = { p.holding c bs with checkedIdx := (bs.length : Int) } := by
  obtain ⟨q, -, hclose, hq⟩ := parseLine_holding p (c := c) hn hc
  have hout := h.symm.trans hq
  rw [Option.some.injEq, Prod.mk.injEq] at hout
  obtain ⟨hopen, rfl⟩ := hout
  have hend := (lineEnd_open hopen.symm).1
  rw [List.length_drop, Nat.add_sub_cancel' hc] at hend
  rw [closeLine, if_neg (by rw [← hopen]; decide), Option.some.injEq, hend] at hclose
  exact ⟨hopen.symm, hclose.symm⟩

/-- The rest arrives behind the first part. -/
private theorem receive_rest {p : Parser} {c k : Nat} {bs : List Byte} (hn : bs.length < READ_BUFFER_SIZE)
    (hk : k ≤ bs.length) :
    { p.holding c (bs.take k) with checkedIdx := (k : Int) }.receive (bs.drop k) =
      some { p.holding c bs with checkedIdx := (k : Int) } := by
  have hlen : (bs.take k).length = k := List.length_take_of_le hk
  have hsum : (k : Int) + ((bs.length - k : Nat) : Int) = bs.length := by omega
  simp only [receive, holding, hlen, ptr_natCast, Option.bind_eq_bind, Option.bind_some,
    CharArray.copy_ofBytes hk hn.le, Option.pure_def, List.length_drop, hsum]

/-- Two calls, with the rest arriving in between, have the result of one exactly when the line may be cut there. -/
theorem sameLine_iff {p p₁ : Parser} {c k : Nat} {bs : List Byte} (hn : bs.length < READ_BUFFER_SIZE) (hc : c ≤ k)
    (hk : k ≤ bs.length) (hopen : (p.holding c (bs.take k)).parseLine_ = some (.lineOpen, p₁)) :
    SameLine p p₁ c k bs ↔ Resumable c ((bs.take k).drop c) (bs.drop k) := by
  have hlen : (bs.take k).length = k := List.length_take_of_le hk
  obtain ⟨hline, rfl⟩ := parseLine_holding_open (by omega) (by omega) hopen
  obtain ⟨q₂, hidx₂, hclose₂, hq₂⟩ := parseLine_holding p (c := c) hn hk
  obtain ⟨q, hidx, hclose, hq⟩ := parseLine_holding p (c := c) hn (hc.trans hk)
  have hparts : bs.drop c = (bs.take k).drop c ++ bs.drop k := by
    rw [← List.drop_append_of_le_length (by omega), List.take_append_drop]
  have hlenU : c + ((bs.take k).drop c).length = k := by
    rw [List.length_drop, hlen]
    omega
  rw [← lineEnd_resume_iff hline, ← hparts, hlenU, SameLine, hlen, receive_rest hn hk]
  constructor
  · rintro ⟨p₂, out, hp₂, hout, hwhole⟩
    cases hp₂
    have h₂ := hq₂.symm.trans hout
    have h := hq.symm.trans hwhole
    cases h₂
    rw [Option.some.injEq, Prod.mk.injEq] at h
    obtain ⟨hst, rfl⟩ := h
    refine Prod.ext hst.symm ?_
    rw [hidx] at hidx₂
    exact (Int.ofNat_inj.1 hidx₂).symm
  · intro hsame
    rw [hsame] at hclose₂ hq₂
    cases hclose.symm.trans hclose₂
    exact ⟨_, _, rfl, hq₂, hq⟩

theorem sameLine_iff_host : ∃ p₁,
    (Parser.zero.holding 16 ((lit "GET / HTTP/1.1\r\nHost: a\r\n").take 20)).parseLine_ = some (.lineOpen, p₁) ∧
      SameLine Parser.zero p₁ 16 20 (lit "GET / HTTP/1.1\r\nHost: a\r\n") := by
  have hopen : (Parser.zero.holding 16 ((lit "GET / HTTP/1.1\r\nHost: a\r\n").take 20)).parseLine_ = some (.lineOpen,
      { Parser.zero.holding 16 ((lit "GET / HTTP/1.1\r\nHost: a\r\n").take 20) with checkedIdx := 20 }) := by
    decide +kernel
  exact ⟨_, hopen, (sameLine_iff (by decide) (by decide) (by decide) hopen).2 (by decide)⟩

/-- A line cut between its CR and its LF. -/
theorem not_sameLine_crThenLf : ∃ p₁ p₂ q q',
    (Parser.zero.holding 0 ((lit "A\r\n").take 2)).parseLine_ = some (.lineOpen, p₁) ∧
      p₁.receive ((lit "A\r\n").drop 2) = some p₂ ∧ p₂.parseLine_ = some (.lineBad, q) ∧
      (Parser.zero.holding 0 (lit "A\r\n")).parseLine_ = some (.lineOk, q') ∧
      ¬ SameLine Parser.zero p₁ 0 2 (lit "A\r\n") := by
  have hopen : (Parser.zero.holding 0 ((lit "A\r\n").take 2)).parseLine_ = some (.lineOpen,
      { Parser.zero.holding 0 ((lit "A\r\n").take 2) with checkedIdx := 2 }) := by decide +kernel
  have hrest : { Parser.zero.holding 0 ((lit "A\r\n").take 2) with checkedIdx := 2 }.receive ((lit "A\r\n").drop 2) =
      some { Parser.zero.holding 0 (lit "A\r\n") with checkedIdx := 2 } := by decide +kernel
  have hbad : ({ Parser.zero.holding 0 (lit "A\r\n") with checkedIdx := 2 }.parseLine_).map Prod.fst =
      some .lineBad := by decide +kernel
  have hgood : ((Parser.zero.holding 0 (lit "A\r\n")).parseLine_).map Prod.fst = some .lineOk := by decide +kernel
  obtain ⟨⟨st, q⟩, hq, rfl⟩ := Option.map_eq_some_iff.1 hbad
  obtain ⟨⟨st', q'⟩, hq', rfl⟩ := Option.map_eq_some_iff.1 hgood
  refine ⟨_, _, q, q', hopen, hrest, hq, hq', ?_⟩
  rintro ⟨p₂, out, hp₂, hout, hwhole⟩
  cases hrest.symm.trans hp₂
  cases hq.symm.trans hout
  cases hq'.symm.trans hwhole

end Parser

end ImageServer
