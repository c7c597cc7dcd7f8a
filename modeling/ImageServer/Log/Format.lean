import ImageServer.Log.Rotation

/-!
# The text of a log line

The formatting part of `Log::write_log`: the time, the level and the message go into `m_buf` one behind the other, and
then a newline and a NUL.  `vsnprintf` is given the size of the whole buffer, less one, although it writes behind the
time, and the newline goes to where the whole message would end.  So a line is as it should be, and the writes stay in
`m_buf`, exactly for the messages without a NUL that fit (`formatsLine_iff`).
-/

namespace ImageServer

open CLib

/-- A `struct tm` with the `tv_usec` it was made from. -/
structure Tm extends Date where
  tmHour : Nat
  tmMin : Nat
  tmSec : Nat
  tvUsec : Nat
  tmYear_lt : tmYear + 1900 < 2 ^ 31
  tmMon_lt : tmMon < 12
  tmMday_lt : tmMday < 32
  tmHour_lt : tmHour < 24
  tmMin_lt : tmMin < 60
  tmSec_le : tmSec ≤ 60
  tvUsec_lt : tvUsec < 10 ^ 6

/-- The text of the level. -/
def levelText : Int → List Byte
  | 0 => lit "[debug]:"
  | 1 => lit "[info]:"
  | 2 => lit "[warn]:"
  | 3 => lit "[erro]:"
  | _ => lit "[info]:"

/-- `%d-%02d-%02d %02d:%02d:%02d.%06ld %s ` -/
def Tm.linePrefix (t : Tm) (level : Int) : List Byte :=
  decimal (t.tmYear + 1900 : Nat) ++ lit "-" ++ zeroPad 2 (t.tmMon + 1) ++ lit "-" ++ zeroPad 2 t.tmMday ++ lit " " ++
    zeroPad 2 t.tmHour ++ lit ":" ++ zeroPad 2 t.tmMin ++ lit ":" ++ zeroPad 2 t.tmSec ++ lit "." ++
    zeroPad 6 t.tvUsec ++ lit " " ++ levelText level ++ lit " "

/-- What `vsnprintf` returns: the length of the whole text, when this is an `int`. -/
def printed (text : List Byte) : Int := if text.length < 2 ^ 31 then text.length else -1

/-- The formatting of a line in `m_buf`: the buffer behind it, and `log_str`.  The message is what the format and its
arguments come to. -/
def formatLine {logBufSize : Nat} (mBuf : CharArray logBufSize) (t : Tm) (level : Int) (message : List Byte) :
    Option (CharArray logBufSize × List Byte) := do
  let timeText := t.linePrefix level
  let mBuf ← mBuf.copy 0 (snprintfText 48 timeText ++ [0])
  let n := timeText.length
  let mBuf ← mBuf.copy n (snprintfText (logBufSize - 1) message ++ [0])
  let newline ← ptr (n + printed message)
  let mBuf ← mBuf.poke newline LF
  let mBuf ← mBuf.poke (newline + 1) 0
  let logStr ← cstring mBuf.bytes
  return (mBuf, logStr)

/-- Every write is inside `m_buf`, and the line is the time, the message, or the start of one that does not fit, and a
newline. -/
def FormatsLine {logBufSize : Nat} (mBuf : CharArray logBufSize) (t : Tm) (level : Int) (message : List Byte) : Prop :=
  ∃ mBuf' logStr shown, formatLine mBuf t level message = some (mBuf', logStr) ∧
    logStr = t.linePrefix level ++ shown ++ [LF] ∧
    (shown = message ∨ shown <+: message ∧ logBufSize < (t.linePrefix level).length + message.length + 2)

/-! ### The time -/

/-- The buffer of 48 bytes is large enough for the time of any `struct tm`. -/
private theorem linePrefix_length (t : Tm) (level : Int) :
    2 ≤ (t.linePrefix level).length ∧ (t.linePrefix level).length < 48 := by
  have hyear : (decimal (t.tmYear + 1900 : Nat)).length ≤ 10 :=
    (decimal_length_le_iff (by decide)).2 (t.tmYear_lt.trans (by decide))
  have hmon := zeroPad_length (w := 2) (by decide) (show t.tmMon + 1 < 10 ^ 2 by have := t.tmMon_lt; omega)
  have hmday := zeroPad_length (w := 2) (by decide) (t.tmMday_lt.trans (by decide))
  have hhour := zeroPad_length (w := 2) (by decide) (t.tmHour_lt.trans (by decide))
  have hmin := zeroPad_length (w := 2) (by decide) (t.tmMin_lt.trans (by decide))
  have hsec := zeroPad_length (w := 2) (by decide) (Nat.lt_of_le_of_lt t.tmSec_le (by decide))
  have husec := zeroPad_length (w := 6) (by decide) t.tvUsec_lt
  have hlevel : (levelText level).length ≤ 8 := by
    unfold levelText
    split <;> decide
  have hone : ∀ c ∈ ["-", " ", ":", "."], (lit c).length = 1 := by decide
  simp only [Tm.linePrefix, List.length_append, hmon, hmday, hhour, hmin, hsec, husec, hone "-" (by decide),
    hone " " (by decide), hone ":" (by decide), hone "." (by decide)]
  omega

private theorem linePrefix_no_nul (t : Tm) (level : Int) : 0 ∉ t.linePrefix level := by
  have hdec : ∀ n : Nat, (0 : Byte) ∉ decimal n := fun n hn => absurd (isDigit_of_mem_decimal hn) (by decide)
  have hpad : ∀ w n : Nat, (0 : Byte) ∉ zeroPad w n := fun w n hn => absurd (isDigit_of_mem_zeroPad hn) (by decide)
  have hlevel : (0 : Byte) ∉ levelText level := by
    unfold levelText
    split <;> decide
  have hone : ∀ c ∈ ["-", " ", ":", "."], (0 : Byte) ∉ lit c := by decide
  simp only [Tm.linePrefix, List.mem_append, hdec, hpad, hlevel, hone "-" (by decide), hone " " (by decide),
    hone ":" (by decide), hone "." (by decide), or_self, not_false_eq_true]

/-! ### The line -/

/-- A line that fits is written whole. -/
theorem formatLine_fits {logBufSize : Nat} (mBuf : CharArray logBufSize) (t : Tm) (level : Int) {message : List Byte}
    (h0 : 0 ∉ message) (hL : logBufSize < 2 ^ 31)
    (hfit : (t.linePrefix level).length + message.length + 2 ≤ logBufSize) :
    ∃ mBuf', formatLine mBuf t level message = some (mBuf', t.linePrefix level ++ message ++ [LF]) := by
  obtain ⟨htwo, hshort⟩ := linePrefix_length t level
  have hno := linePrefix_no_nul t level
  unfold formatLine
  generalize t.linePrefix level = time at *
  have htime : snprintfText 48 time = time := List.take_of_length_le (by omega)
  have hmsg : snprintfText (logBufSize - 1) message = message := List.take_of_length_le (by omega)
  have hret : printed message = message.length := if_pos (by omega)
  obtain ⟨b₁, hb₁⟩ := CharArray.copy_isSome (a := mBuf) (p := 0) (s := time ++ [0])
    (by rw [List.length_append, List.length_singleton]; omega)
  obtain ⟨b₂, hb₂⟩ := CharArray.copy_isSome (a := b₁) (p := time.length) (s := message ++ [0])
    (by rw [List.length_append, List.length_singleton]; omega)
  have htake : b₁.bytes.take time.length = time := by
    rw [(CharArray.copy_bytes hb₁).2, List.take_zero, List.nil_append, List.append_assoc, List.take_left]
  have hs₂ : b₂.suffix 0 = (time ++ message) ++ 0 :: b₁.bytes.drop (time.length + (message.length + 1)) := by
    rw [CharArray.suffix, List.drop_zero, (CharArray.copy_bytes hb₂).2, htake, List.length_append,
      List.length_singleton]
    simp only [List.append_assoc, List.singleton_append]
  -- the newline takes the place of the NUL of the message, and its own NUL the next one
  obtain ⟨c, r, hr⟩ := List.exists_cons_of_length_pos
    (show 0 < (b₁.bytes.drop (time.length + (message.length + 1))).length by
      rw [List.length_drop, b₁.size_eq]; omega)
  rw [hr] at hs₂
  obtain ⟨b₃, hb₃, hs₃, -⟩ := CharArray.poke_split (b := LF) hs₂
  have hs₃' : b₃.suffix 0 = (time ++ message ++ [LF]) ++ c :: r := by
    rw [hs₃]
    simp only [List.append_assoc, List.singleton_append]
  obtain ⟨b₄, hb₄, hs₄, -⟩ := CharArray.poke_split (b := 0) hs₃'
  have hstr : cstring b₄.bytes = some (time ++ message ++ [LF]) := by
    have hline : 0 ∉ time ++ message ++ [LF] := by
      simp only [List.mem_append, List.mem_singleton, not_or]
      exact ⟨⟨hno, h0⟩, by decide⟩
    rw [show b₄.bytes = b₄.suffix 0 from rfl, hs₄, cstring_text hline]
  have hend : (time.length : Int) + message.length = ((time.length + message.length : Nat) : Int) := by omega
  simp only [List.length_append, List.length_singleton, Nat.zero_add] at hb₃ hb₄
  refine ⟨b₄, ?_⟩
  simp only [htime, hmsg, hret, hb₁, hb₂, hend, ptr_natCast, hb₃, hb₄, hstr, Option.bind_eq_bind, Option.bind_some]
  rfl

/-- A line is written as it should be exactly when its message has no NUL and it fits, with its newline and NUL. -/
theorem formatsLine_iff {logBufSize : Nat} (mBuf : CharArray logBufSize) (t : Tm) (level : Int) (message : List Byte)
    (h64 : 64 < logBufSize) (hL : logBufSize < 2 ^ 31) :
    FormatsLine mBuf t level message ↔
      0 ∉ message ∧ (t.linePrefix level).length + message.length + 2 ≤ logBufSize := by
  constructor
  · rintro ⟨mBuf', logStr, shown, hrun, hline, hshown⟩
    obtain ⟨htwo, -⟩ := linePrefix_length t level
    simp only [formatLine, Option.bind_eq_bind] at hrun
    obtain ⟨b₁, -, hrun⟩ := Option.bind_eq_some_iff.1 hrun
    obtain ⟨b₂, hb₂, hrun⟩ := Option.bind_eq_some_iff.1 hrun
    obtain ⟨e, he, hrun⟩ := Option.bind_eq_some_iff.1 hrun
    obtain ⟨b₃, -, hrun⟩ := Option.bind_eq_some_iff.1 hrun
    obtain ⟨b₄, hb₄, hrun⟩ := Option.bind_eq_some_iff.1 hrun
    obtain ⟨str, hstr, hend⟩ := Option.bind_eq_some_iff.1 hrun
    cases hend
    have hfit : (t.linePrefix level).length + message.length + 2 ≤ logBufSize := by
      have hcopy := (CharArray.copy_bytes hb₂).1
      rw [snprintfText, List.length_append, List.length_take, List.length_singleton] at hcopy
      have hpoke : e + 1 < logBufSize := by
        by_contra hle
        rw [CharArray.poke_eq_none.2 (Nat.not_lt.1 hle)] at hb₄
        cases hb₄
      rw [ptr_eq_some, printed] at he
      -- a message whose length is no `int` does not even get through the copy
      split at he
      · omega
      · omega
    refine ⟨?_, hfit⟩
    obtain rfl := hshown.resolve_right fun h => by omega
    obtain ⟨-, -, h0⟩ := cstring_eq_some hstr
    intro hm
    exact h0 (by rw [hline]; simp [hm])
  · rintro ⟨h0, hfit⟩
    obtain ⟨mBuf', hrun⟩ := formatLine_fits mBuf t level h0 hL hfit
    exact ⟨mBuf', _, message, hrun, rfl, .inl rfl⟩

/-- A moment of the day, to the microsecond. -/
def someTm : Tm where
  tmYear := 124
  tmMon := 2
  tmMday := 5
  tmHour := 17
  tmMin := 4
  tmSec := 9
  tvUsec := 250
  tmYear_lt := by decide
  tmMon_lt := by decide
  tmMday_lt := by decide
  tmHour_lt := by decide
  tmMin_lt := by decide
  tmSec_le := by decide
  tvUsec_lt := by decide

theorem formatsLine_iff_closing : FormatsLine (CharArray.zeros 65) someTm 2 (lit "closing log system") :=
  (formatsLine_iff (CharArray.zeros 65) someTm 2 (lit "closing log system") (by decide) (by decide)).2
    (by decide +kernel)

/-- A message one byte too long: its NUL is written behind the buffer. -/
theorem not_formatsLine_tooLong :
    formatLine (CharArray.zeros 65) someTm 0 (List.replicate 28 120) = none ∧
      ¬ FormatsLine (CharArray.zeros 65) someTm 0 (List.replicate 28 120) := by
  have hnone : formatLine (CharArray.zeros 65) someTm 0 (List.replicate 28 120) = none := by decide +kernel
  refine ⟨hnone, ?_⟩
  rintro ⟨mBuf', logStr, shown, hrun, -⟩
  rw [hnone] at hrun
  cases hrun

end ImageServer
