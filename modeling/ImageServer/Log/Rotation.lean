import Mathlib.Data.List.DropRight
import ImageServer.Lib.CharArray
import ImageServer.Lib.CString
import ImageServer.Lib.Transition
import ImageServer.Http.Parse

/-!
# The files of the log

`Log::init` and the part of `Log::write_log` that opens files, called by one synchronous writer.  `init` opens a file
whose name has the date between the directory and the base name; `write_log` opens the next one on another day of the
month, and whenever `m_count` reaches a multiple of `m_split_lines`.
-/

namespace ImageServer

open CLib Transition

/-- The date in a `struct tm`. -/
structure Date where
  tmYear : Nat
  tmMon : Nat
  tmMday : Nat
deriving DecidableEq

/-- The formats `%d_%02d_%02d_` of `init` and `write_log`. -/
def Date.text (d : Date) : List Byte :=
  decimal (d.tmYear + 1900 : Nat) ++ lit "_" ++ zeroPad 2 (d.tmMon + 1) ++ lit "_" ++ zeroPad 2 d.tmMday ++ lit "_"

/-- The calendar order. -/
def Date.le (a b : Date) : Prop :=
  a.tmYear < b.tmYear ∨ a.tmYear = b.tmYear ∧ (a.tmMon < b.tmMon ∨ a.tmMon = b.tmMon ∧ a.tmMday ≤ b.tmMday)

instance (a b : Date) : Decidable (a.le b) := instDecidableOr

/-- `snprintf` into a buffer of more than `size` zeros: what `%s` then finds there. -/
def snprintfText (size : Nat) (text : List Byte) : List Byte := text.take (size - 1)

/-- The fields of `Log` that decide on the file of a line.  `m_fp` is the name that was opened; `fopen` succeeds. -/
structure Log where
  mCount : Nat
  mSplitLines : Nat
  dirName : CharArray 128
  logName : CharArray 128
  mToday : Nat
  mFp : List Byte

namespace Log

/-- `Log::init` on the day `d`, for the static and so zero-initialised instance. -/
def init (fileName : List Byte) (splitLines : Nat) (d : Date) : Option Log :=
  match lastIdx SLASH fileName with
  | none =>
    some { mCount := 0, mSplitLines := splitLines, dirName := .zeros _, logName := .zeros _, mToday := d.tmMday,
           mFp := snprintfText 255 (d.text ++ fileName) }
  | some i => do
    let logName ← (CharArray.zeros 128).copy 0 (fileName.drop (i + 1) ++ [0])
    let dirName ← (CharArray.zeros 128).copy 0 (fileName.take (i + 1))
    let dir ← cstring dirName.bytes
    let name ← cstring logName.bytes
    return { mCount := 0, mSplitLines := splitLines, dirName := dirName, logName := logName, mToday := d.tmMday,
             mFp := snprintfText 255 (dir ++ d.text ++ name) }

/-- `write_log` on the day `d`, up to the formatting of its line, which then goes to `m_fp`. -/
def writeLog (l : Log) (d : Date) : Option Log := do
  let l := { l with mCount := l.mCount + 1 }
  if l.mToday ≠ d.tmMday ∨ l.mCount % l.mSplitLines = 0 then
    let tail := snprintfText 16 d.text
    let dir ← cstring l.dirName.bytes
    let name ← cstring l.logName.bytes
    if l.mToday ≠ d.tmMday then
      return { l with mFp := snprintfText 255 (dir ++ tail ++ name), mToday := d.tmMday, mCount := 0 }
    else
      return { l with
        mFp := snprintfText 255 (dir ++ tail ++ name ++ lit "." ++ decimal (l.mCount / l.mSplitLines : Nat)) }
  else return l

/-- The call opens a file. -/
def Rotates (l : Log) (d : Date) : Prop := l.mToday ≠ d.tmMday ∨ (l.mCount + 1) % l.mSplitLines = 0

instance (l : Log) (d : Date) : Decidable (l.Rotates d) := instDecidableOr

/-- The branch of `write_log` that opens a file, behind the `fclose`. -/
def reopen (l : Log) (d : Date) : Option Log := do
  let tail := snprintfText 16 d.text
  let dir ← cstring l.dirName.bytes
  let name ← cstring l.logName.bytes
  if l.mToday ≠ d.tmMday then
    return { l with mFp := snprintfText 255 (dir ++ tail ++ name), mToday := d.tmMday, mCount := 0 }
  else
    return { l with
      mFp := snprintfText 255 (dir ++ tail ++ name ++ lit "." ++ decimal (l.mCount / l.mSplitLines : Nat)) }

/-- The first critical section is the whole of what `write_log` does to the files. -/
theorem writeLog_eq (l : Log) (d : Date) :
    l.writeLog d =
      if l.Rotates d then { l with mCount := l.mCount + 1 }.reopen d else some { l with mCount := l.mCount + 1 } := by
  unfold writeLog Rotates reopen
  rfl

end Log

/-- A log with the lines written so far: their files and the dates of their timestamps.  `last` is the date of the last
call, of `init` at first. -/
structure Logging where
  log : Log
  last : Date
  lines : List (List Byte × Date)

namespace Logging

def start (fileName : List Byte) (splitLines : Nat) (d : Date) : Option Logging :=
  (Log.init fileName splitLines d).map fun l => ⟨l, d, []⟩

/-- A call of `write_log` on the day `d`. -/
def step (s : Logging) (d : Date) : Option Logging :=
  (s.log.writeLog d).map fun l => ⟨l, d, s.lines ++ [(l.mFp, d)]⟩

end Logging

/-! ### What is asked of the files -/

/-- The directory of `file_name`, with its `/`. -/
def dirOf (fileName : List Byte) : List Byte := fileName.rdropWhile (· ≠ SLASH)

/-- The name of the file in it. -/
def baseOf (fileName : List Byte) : List Byte := fileName.rtakeWhile (· ≠ SLASH)

/-- The file in the directory of `file_name` with the date before the base name and `suffix` behind it. -/
def fileOf (fileName : List Byte) (d : Date) (suffix : List Byte) : List Byte :=
  dirOf fileName ++ d.text ++ baseOf fileName ++ suffix

/-- A numeric suffix, or none, the number being at most `k`. -/
def Suffix (k : Nat) (suffix : List Byte) : Prop := suffix = [] ∨ ∃ i ≤ k, suffix = lit "." ++ decimal (i : Nat)

/-- The lines in a file. -/
def linesIn (lines : List (List Byte × Date)) (file : List Byte) : Nat := (lines.filter fun x => x.1 = file).length

/-- Logging on these days goes through, and leaves every line in the directory of `file_name`, in a file whose name has
the date of the line, the base name and possibly a number, and no file with more than `splitLines` lines. -/
def FilesLines (fileName : List Byte) (splitLines : Nat) (d : Date) (ds : List Date) : Prop :=
  ∃ s₀ s, Logging.start fileName splitLines d = some s₀ ∧ run Logging.step s₀ ds = some s ∧ s.lines.map (·.2) = ds ∧
    (∀ x ∈ s.lines, ∃ k suffix, Suffix k suffix ∧ x.1 = fileOf fileName x.2 suffix) ∧
    ∀ file, linesIn s.lines file ≤ splitLines

/-! ### Names -/

private theorem append_cons_inj {c : Byte} {a a' r r' : List Byte} (ha : c ∉ a) (ha' : c ∉ a')
    (h : a ++ c :: r = a' ++ c :: r') : a = a' ∧ r = r' := by
  have hcut := cut_append r ha
  rw [h, cut_append r' ha', Option.some.injEq, Prod.mk.injEq] at hcut
  exact ⟨hcut.1.symm, hcut.2.symm⟩

/-- The date can be read back from the start of a name. -/
private theorem Date.text_inj {d d' : Date} {r r' : List Byte} (h : d.text ++ r = d'.text ++ r') :
    d = d' ∧ r = r' := by
  have hdec : ∀ n : Nat, (95 : Byte) ∉ decimal n := fun n hn => absurd (isDigit_of_mem_decimal hn) (by decide)
  have hpad : ∀ n : Nat, (95 : Byte) ∉ zeroPad 2 n := fun n hn => absurd (isDigit_of_mem_zeroPad hn) (by decide)
  have hlit : lit "_" = [95] := by decide
  simp only [Date.text, hlit, List.append_assoc, List.singleton_append] at h
  obtain ⟨hy, h⟩ := append_cons_inj (hdec _) (hdec _) h
  obtain ⟨hm, h⟩ := append_cons_inj (hpad _) (hpad _) h
  obtain ⟨hd, h⟩ := append_cons_inj (hpad _) (hpad _) h
  have hy' := congrArg digitsValue hy
  have hm' := congrArg digitsValue hm
  have hd' := congrArg digitsValue hd
  rw [digitsValue_decimal, digitsValue_decimal] at hy'
  rw [digitsValue_zeroPad, digitsValue_zeroPad] at hm' hd'
  refine ⟨?_, h⟩
  cases d
  cases d'
  simp only [Date.mk.injEq]
  exact ⟨Nat.add_right_cancel hy', Nat.succ.inj hm', hd'⟩

private theorem fileOf_inj {fileName : List Byte} {d d' : Date} {t t' : List Byte}
    (h : fileOf fileName d t = fileOf fileName d' t') : d = d' ∧ t = t' := by
  simp only [fileOf, List.append_assoc] at h
  obtain ⟨hd, h⟩ := Date.text_inj (List.append_cancel_left h)
  exact ⟨hd, List.append_cancel_left h⟩

/-- A number that is too large is not in the suffix. -/
private theorem Suffix.ne {k n : Nat} {t : List Byte} (h : Suffix k t) (hn : k < n) :
    t ≠ lit "." ++ decimal (n : Nat) := by
  rintro rfl
  rcases h with h | ⟨i, hi, h⟩
  · cases h
  · have := congrArg digitsValue (List.append_cancel_left h)
    rw [digitsValue_decimal, digitsValue_decimal] at this
    omega

private theorem linesIn_append (lines : List (List Byte × Date)) (file file' : List Byte) (d : Date) :
    linesIn (lines ++ [(file', d)]) file = linesIn lines file + if file' = file then 1 else 0 := by
  unfold linesIn
  rw [List.filter_append, List.length_append]
  congr 1
  by_cases h : file' = file
  · simp [h]
  · simp [h]

private theorem linesIn_eq_zero {lines : List (List Byte × Date)} {file : List Byte} (h : ∀ x ∈ lines, x.1 ≠ file) :
    linesIn lines file = 0 := by
  unfold linesIn
  rw [List.length_eq_zero_iff, List.filter_eq_nil_iff]
  exact fun x hx => by simpa using h x hx

private theorem dirOf_slash {a b : List Byte} (h : SLASH ∉ b) : dirOf (a ++ SLASH :: b) = a ++ [SLASH] := by
  have hb : ∀ c ∈ b.reverse, decide (c ≠ SLASH) = true := fun c hc =>
    decide_eq_true fun e => h (e ▸ List.mem_reverse.1 hc)
  rw [dirOf, List.rdropWhile, List.reverse_append, List.reverse_cons, List.append_assoc,
    List.dropWhile_append_of_pos hb]
  simp

private theorem baseOf_slash {a b : List Byte} (h : SLASH ∉ b) : baseOf (a ++ SLASH :: b) = b := by
  have hb : ∀ c ∈ b.reverse, decide (c ≠ SLASH) = true := fun c hc =>
    decide_eq_true fun e => h (e ▸ List.mem_reverse.1 hc)
  rw [baseOf, List.rtakeWhile, List.reverse_append, List.reverse_cons, List.append_assoc,
    List.takeWhile_append_of_pos hb]
  simp

private theorem dirOf_no_slash {f : List Byte} (h : SLASH ∉ f) : dirOf f = [] :=
  List.rdropWhile_eq_nil_iff.2 fun _ hc => decide_eq_true fun e => h (e ▸ hc)

private theorem baseOf_no_slash {f : List Byte} (h : SLASH ∉ f) : baseOf f = f :=
  List.rtakeWhile_eq_self_iff.2 fun _ hc => decide_eq_true fun e => h (e ▸ hc)

/-! ### The calls -/

/-- The names that `init` and the calls on the days `ds` build fit into their buffers. -/
structure WithinBuffers (fileName : List Byte) (ds : List Date) : Prop where
  parts : SLASH ∈ fileName → (dirOf fileName).length < 128 ∧ (baseOf fileName).length < 128
  date : ∀ d ∈ ds, d.text.length < 16
  full : ∀ d ∈ ds, ∀ k ≤ ds.length, (fileOf fileName d (lit "." ++ decimal (k : Nat))).length < 255

private theorem WithinBuffers.fileOf {fileName : List Byte} {ds : List Date} (h : WithinBuffers fileName ds) {d : Date}
    (hd : d ∈ ds) {k : Nat} (hk : k ≤ ds.length) {t : List Byte} (ht : Suffix k t) :
    snprintfText 255 (fileOf fileName d t) = fileOf fileName d t := by
  refine List.take_of_length_le ?_
  rcases ht with rfl | ⟨i, hi, rfl⟩
  · have := h.full d hd 0 (Nat.zero_le _)
    simp only [ImageServer.fileOf, List.length_append] at this ⊢
    simp only [List.length_nil]
    omega
  · have := h.full d hd i (hi.trans hk)
    omega

namespace Log

/-- The buffers with the two parts of `file_name`, of which the calls build the later names. -/
def KeepsNames (fileName : List Byte) (l : Log) : Prop :=
  cstring l.dirName.bytes = some (dirOf fileName) ∧ cstring l.logName.bytes = some (baseOf fileName)

private theorem init_eq {fileName : List Byte} {splitLines : Nat} {d : Date} (h0 : 0 ∉ fileName)
    (hb : WithinBuffers fileName [d]) :
    ∃ l, init fileName splitLines d = some l ∧ l.mCount = 0 ∧ l.mSplitLines = splitLines ∧ l.mToday = d.tmMday ∧
      l.mFp = fileOf fileName d [] ∧ (SLASH ∈ fileName ∨ fileName = [] → l.KeepsNames fileName) := by
  have hfull := hb.fileOf List.mem_cons_self (Nat.zero_le _) (.inl rfl)
  unfold init
  cases hi : lastIdx SLASH fileName with
  | none =>
    have hno := not_mem_of_lastIdx hi
    refine ⟨_, rfl, rfl, rfl, rfl, ?_, ?_⟩
    · rw [fileOf, dirOf_no_slash hno, baseOf_no_slash hno, List.append_nil, List.nil_append] at hfull ⊢
      exact hfull
    · rintro (h | rfl)
      · exact absurd h hno
      · exact ⟨rfl, rfl⟩
  | some i =>
    obtain ⟨a, b, rfl, rfl, hslash⟩ := lastIdx_eq_some hi
    obtain ⟨hdir, hbase⟩ := hb.parts (by simp)
    rw [dirOf_slash hslash, List.length_append, List.length_singleton] at hdir
    rw [baseOf_slash hslash] at hbase
    simp only [List.mem_append, List.mem_cons, not_or] at h0
    have hdrop : (a ++ SLASH :: b).drop (a.length + 1) = b := by
      rw [List.drop_length_add_append, List.drop_succ_cons, List.drop_zero]
    have htake : (a ++ SLASH :: b).take (a.length + 1) = a ++ [SLASH] := by
      rw [List.take_length_add_append, List.take_succ_cons, List.take_zero]
    obtain ⟨name, hname⟩ := CharArray.copy_isSome (a := CharArray.zeros 128) (p := 0) (s := b ++ [0])
      (by rw [List.length_append, List.length_singleton]; omega)
    obtain ⟨dir, hdirs⟩ := CharArray.copy_isSome (a := CharArray.zeros 128) (p := 0) (s := a ++ [SLASH])
      (by rw [List.length_append, List.length_singleton]; omega)
    have hname' : cstring name.bytes = some b := by
      rw [(CharArray.copy_bytes hname).2, List.take_zero, List.nil_append, List.append_assoc, List.singleton_append]
      exact cstring_text h0.2.2
    have hdirs' : cstring dir.bytes = some (a ++ [SLASH]) := by
      obtain ⟨k, hk⟩ : ∃ k, 128 - (0 + (a ++ [SLASH]).length) = k + 1 :=
        ⟨126 - a.length, by rw [List.length_append, List.length_singleton]; omega⟩
      rw [(CharArray.copy_bytes hdirs).2, List.take_zero, List.nil_append, CharArray.zeros, List.drop_replicate, hk,
        List.replicate_succ]
      refine cstring_text ?_
      simp only [List.mem_append, List.mem_singleton, not_or]
      exact ⟨h0.1, h0.2.1⟩
    refine ⟨⟨0, splitLines, dir, name, d.tmMday, fileOf (a ++ SLASH :: b) d []⟩, ?_, rfl, rfl, rfl, rfl, fun _ => ?_⟩
    · rw [fileOf, dirOf_slash hslash, baseOf_slash hslash, List.append_nil] at hfull ⊢
      simp only [hdrop, htake, hname, hdirs, hname', hdirs', hfull, Option.bind_eq_bind, Option.bind_some]
      rfl
    · rw [KeepsNames, dirOf_slash hslash, baseOf_slash hslash]
      exact ⟨hdirs', hname'⟩

/-- The two names end in their buffers. -/
def Named (l : Log) : Prop := (cstring l.dirName.bytes).isSome ∧ (cstring l.logName.bytes).isSome

theorem Named.init {fileName : List Byte} {splitLines : Nat} {d : Date} {l : Log}
    (h : init fileName splitLines d = some l) : l.Named := by
  unfold Log.init at h
  split at h
  · cases h
    have hzeros : (cstring (CharArray.zeros 128).bytes).isSome := by decide +kernel
    exact ⟨hzeros, hzeros⟩
  · simp only [Option.bind_eq_bind, Option.bind_eq_some_iff] at h
    obtain ⟨_, -, _, -, _, hdir, _, hname, h⟩ := h
    cases h
    exact ⟨Option.isSome_iff_exists.2 ⟨_, hdir⟩, Option.isSome_iff_exists.2 ⟨_, hname⟩⟩

/-- Opening the next file changes neither the directory nor the base name. -/
theorem reopen_names {l l' : Log} {d : Date} (h : l.reopen d = some l') :
    l'.dirName = l.dirName ∧ l'.logName = l.logName ∧ l'.mSplitLines = l.mSplitLines := by
  simp only [reopen, Option.bind_eq_bind, Option.bind_eq_some_iff] at h
  obtain ⟨_, -, _, -, h⟩ := h
  split at h <;> cases h <;> exact ⟨rfl, rfl, rfl⟩

/-- The next file can be opened, and the one after it. -/
theorem Named.reopen {l : Log} (h : l.Named) (d : Date) : ∃ l', l.reopen d = some l' ∧ l'.Named := by
  obtain ⟨⟨dir, hdir⟩, ⟨name, hname⟩⟩ := h.imp Option.isSome_iff_exists.1 Option.isSome_iff_exists.1
  have hsome : (l.reopen d).isSome := by
    simp only [Log.reopen, hdir, hname, Option.bind_eq_bind, Option.bind_some]
    split <;> rfl
  obtain ⟨l', hl'⟩ := Option.isSome_iff_exists.1 hsome
  obtain ⟨hdirs, hnames, -⟩ := reopen_names hl'
  refine ⟨l', hl', ?_⟩
  rw [Named, hdirs, hnames]
  exact h

theorem init_split {fileName : List Byte} {splitLines : Nat} {d : Date} {l : Log}
    (h : init fileName splitLines d = some l) : l.mSplitLines = splitLines := by
  unfold init at h
  split at h
  · cases h
    rfl
  · simp only [Option.bind_eq_bind, Option.bind_eq_some_iff] at h
    obtain ⟨_, -, _, -, _, -, _, -, h⟩ := h
    cases h
    rfl

private theorem writeLog_stays {l : Log} {d : Date} (h : ¬ l.Rotates d) :
    l.writeLog d = some { l with mCount := l.mCount + 1 } := if_neg h

private theorem writeLog_nextDay {fileName : List Byte} {l : Log} {d : Date} (hn : l.KeepsNames fileName)
    (h : l.mToday ≠ d.tmMday) (hd : d.text.length < 16)
    (hfull : snprintfText 255 (fileOf fileName d []) = fileOf fileName d []) :
    l.writeLog d = some { l with mFp := fileOf fileName d [], mToday := d.tmMday, mCount := 0 } := by
  have htail : snprintfText 16 d.text = d.text := List.take_of_length_le (by omega)
  rw [fileOf, List.append_nil] at hfull ⊢
  simp only [writeLog, hn.1, hn.2, htail, hfull, Option.bind_eq_bind, Option.bind_some, h, ne_eq,
    not_false_eq_true, true_or, if_true]
  rfl

private theorem writeLog_splits {fileName : List Byte} {l : Log} {d : Date} (hn : l.KeepsNames fileName)
    (h : l.mToday = d.tmMday) (hs : (l.mCount + 1) % l.mSplitLines = 0) (hd : d.text.length < 16)
    (hfull : snprintfText 255 (fileOf fileName d (lit "." ++ decimal ((l.mCount + 1) / l.mSplitLines : Nat))) =
      fileOf fileName d (lit "." ++ decimal ((l.mCount + 1) / l.mSplitLines : Nat))) :
    l.writeLog d = some { l with
      mFp := fileOf fileName d (lit "." ++ decimal ((l.mCount + 1) / l.mSplitLines : Nat)),
      mCount := l.mCount + 1 } := by
  have htail : snprintfText 16 d.text = d.text := List.take_of_length_le (by omega)
  rw [fileOf, ← List.append_assoc] at hfull ⊢
  simp only [writeLog, hn.1, hn.2, htail, hfull, Option.bind_eq_bind, Option.bind_some, h, hs, ne_eq,
    not_true_eq_false, or_true, if_true, if_false]
  rfl

end Log

/-! ### Runs -/

/-- Between two calls: every line is in a file named for it, the open file is one of the last day, and no later file of
that day has a smaller number. -/
structure Filed (fileName : List Byte) (splitLines : Nat) (s : Logging) : Prop where
  split : s.log.mSplitLines = splitLines
  names : SLASH ∈ fileName ∨ fileName = [] → s.log.KeepsNames fileName
  today : s.log.mToday = s.last.tmMday
  count_le : s.log.mCount ≤ s.lines.length
  current : ∃ t, Suffix (s.log.mCount / splitLines) t ∧ s.log.mFp = fileOf fileName s.last t
  named : ∀ x ∈ s.lines, x.2.le s.last ∧ ∃ k t, Suffix k t ∧ x.1 = fileOf fileName x.2 t ∧
    (x.2 = s.last → k ≤ s.log.mCount / splitLines)
  inCurrent : linesIn s.lines s.log.mFp ≤ s.log.mCount % splitLines + 1
  bounded : ∀ file, linesIn s.lines file ≤ splitLines

/-- The call opens a file of which the name is still known, or there is a file of the day open. -/
def FindsFile (fileName : List Byte) (s : Logging) (d : Date) : Prop :=
  if s.log.Rotates d then SLASH ∈ fileName ∨ fileName = [] else d = s.last

instance (fileName : List Byte) (s : Logging) (d : Date) : Decidable (FindsFile fileName s d) :=
  inferInstanceAs (Decidable (if s.log.Rotates d then SLASH ∈ fileName ∨ fileName = [] else d = s.last))

private theorem Date.le_antisymm {a b : Date} (h : a.le b) (h' : b.le a) : a = b := by
  cases a
  cases b
  simp only [Date.le, Date.mk.injEq] at h h' ⊢
  omega

private theorem Date.le_refl (a : Date) : a.le a := by
  simp [Date.le]

private theorem Date.le_trans {a b c : Date} (h : a.le b) (h' : b.le c) : a.le c := by
  unfold Date.le at h h' ⊢
  omega

/-- A call that opens a file nothing has been written to. -/
private theorem Filed.opens {fileName : List Byte} {splitLines : Nat} {s : Logging} {d : Date} {l : Log} {k : Nat}
    {t : List Byte} (h : Filed fileName splitLines s) (hsplit : 1 ≤ splitLines) (hd : s.last.le d)
    (hl : l.mSplitLines = splitLines ∧ l.dirName = s.log.dirName ∧ l.logName = s.log.logName ∧ l.mToday = d.tmMday)
    (hcount : l.mCount ≤ s.lines.length + 1) (hk : k = l.mCount / splitLines) (ht : Suffix k t)
    (hfp : l.mFp = fileOf fileName d t) (hfresh : ∀ x ∈ s.lines, x.1 ≠ fileOf fileName d t)
    (hlater : ∀ x ∈ s.lines, x.2 = d → d = s.last ∧ s.log.mCount / splitLines ≤ k) :
    Filed fileName splitLines ⟨l, d, s.lines ++ [(l.mFp, d)]⟩ := by
  obtain ⟨hl₁, hl₂, hl₃, hl₄⟩ := hl
  have hzero := linesIn_eq_zero hfresh
  refine ⟨hl₁, ?_, hl₄, ?_, ⟨t, hk ▸ ht, hfp⟩, ?_, ?_, ?_⟩
  · intro hn
    rw [Log.KeepsNames, hl₂, hl₃]
    exact h.names hn
  · rw [List.length_append]
    exact hcount
  · intro x hx
    rcases List.mem_append.1 hx with hx | hx
    · obtain ⟨hle, j, t', ht', hxt, hj⟩ := h.named x hx
      refine ⟨Date.le_trans hle hd, j, t', ht', hxt, fun hxd => ?_⟩
      obtain ⟨hlast, hle'⟩ := hlater x hx hxd
      exact (hj (hxd.trans hlast)).trans (hk ▸ hle')
    · obtain rfl := List.mem_singleton.1 hx
      exact ⟨Date.le_refl d, k, t, ht, hfp, fun _ => hk ▸ Nat.le_refl _⟩
  · show linesIn _ l.mFp ≤ _
    rw [linesIn_append, if_pos rfl, hfp, hzero]
    omega
  · intro file
    rw [linesIn_append]
    split
    · rename_i hf
      rw [← hf, hfp, hzero]
      omega
    · exact h.bounded file

/-- A line of a later day than the last one is the first of its day. -/
private theorem Filed.first_of_day {fileName : List Byte} {splitLines : Nat} {s : Logging} {d : Date}
    (h : Filed fileName splitLines s) (hle : s.last.le d) (hne : d ≠ s.last) : ∀ x ∈ s.lines, x.2 ≠ d := by
  intro x hx hxd
  exact hne (Date.le_antisymm (hxd ▸ (h.named x hx).1) hle)

/-- On the day of the last line, with the open file full. -/
private theorem Filed.splits {fileName : List Byte} {splitLines : Nat} {s : Logging} {ds : List Date} {d : Date}
    (h : Filed fileName splitLines s) (hsplit : 1 ≤ splitLines) (hb : WithinBuffers fileName ds) (hd : d ∈ ds)
    (hle : s.last.le d) (hlen : s.lines.length < ds.length) (hn : s.log.KeepsNames fileName)
    (hday : s.log.mToday = d.tmMday) (hmod : (s.log.mCount + 1) % s.log.mSplitLines = 0) :
    ∃ s' file, s.step d = some s' ∧ Filed fileName splitLines s' ∧ s'.last = d ∧
      s'.lines = s.lines ++ [(file, d)] := by
  have hsplit' := h.split
  have hcount := h.count_le
  have hk : (s.log.mCount + 1) / splitLines ≤ s.log.mCount + 1 := Nat.div_le_self _ _
  have ht : Suffix ((s.log.mCount + 1) / splitLines)
      (lit "." ++ decimal ((s.log.mCount + 1) / splitLines : Nat)) := .inr ⟨_, Nat.le_refl _, rfl⟩
  have hlt : s.log.mCount / splitLines < (s.log.mCount + 1) / splitLines := by
    rw [hsplit'] at hmod
    rw [Nat.succ_div_of_dvd (Nat.dvd_of_mod_eq_zero hmod)]
    exact Nat.lt_succ_self _
  refine ⟨_, _, congrArg _ (Log.writeLog_splits hn hday hmod (hb.date d hd) ?_), ?_, rfl, rfl⟩
  · rw [hsplit']
    exact hb.fileOf hd (by omega) ht
  · refine h.opens hsplit hle ⟨hsplit', rfl, rfl, hday⟩ (Nat.succ_le_succ hcount) rfl ht (by rw [hsplit']) ?_ ?_
    · intro x hx hxf
      obtain ⟨-, j, t, ht', hxt, hj⟩ := h.named x hx
      obtain ⟨hxd, hts⟩ := fileOf_inj (hxt.symm.trans hxf)
      by_cases hlast : d = s.last
      · exact ht'.ne (Nat.lt_of_le_of_lt (hj (hxd.trans hlast)) hlt) hts
      · exact h.first_of_day hle hlast x hx hxd
    · intro x hx hxd
      exact ⟨by_contra fun hne => h.first_of_day hle hne x hx hxd, Nat.le_of_lt hlt⟩

/-- On another day of the month. -/
private theorem Filed.nextDay {fileName : List Byte} {splitLines : Nat} {s : Logging} {ds : List Date} {d : Date}
    (h : Filed fileName splitLines s) (hsplit : 1 ≤ splitLines) (hb : WithinBuffers fileName ds) (hd : d ∈ ds)
    (hle : s.last.le d) (hn : s.log.KeepsNames fileName) (hday : s.log.mToday ≠ d.tmMday) :
    ∃ s' file, s.step d = some s' ∧ Filed fileName splitLines s' ∧ s'.last = d ∧
      s'.lines = s.lines ++ [(file, d)] := by
  have hne : d ≠ s.last := by
    rintro rfl
    exact hday h.today
  have hnew := h.first_of_day hle hne
  refine ⟨_, _, congrArg _ (Log.writeLog_nextDay hn hday (hb.date d hd)
    (hb.fileOf hd (Nat.zero_le _) (.inl rfl))), ?_, rfl, rfl⟩
  refine h.opens hsplit hle ⟨h.split, rfl, rfl, rfl⟩ (Nat.zero_le _) (Nat.zero_div _).symm (.inl rfl) rfl ?_ ?_
  · intro x hx hxf
    obtain ⟨-, j, t, -, hxt, -⟩ := h.named x hx
    exact hnew x hx (fileOf_inj (hxt.symm.trans hxf)).1
  · exact fun x hx hxd => absurd hxd (hnew x hx)

/-- On the day of the open file, with room in it. -/
private theorem Filed.stays {fileName : List Byte} {splitLines : Nat} {s : Logging} (h : Filed fileName splitLines s)
    (hsplit : 1 ≤ splitLines) (hrot : ¬ s.log.Rotates s.last) :
    ∃ s' file, s.step s.last = some s' ∧ Filed fileName splitLines s' ∧ s'.last = s.last ∧
      s'.lines = s.lines ++ [(file, s.last)] := by
  have hsplit' := h.split
  have hne : (s.log.mCount + 1) % splitLines ≠ 0 := fun h0 => hrot (.inr (hsplit' ▸ h0))
  have hdiv := Nat.succ_div_of_mod_ne_zero hne
  have hmod : (s.log.mCount + 1) % splitLines = s.log.mCount % splitLines + 1 := by
    have h₁ := Nat.mod_add_div (s.log.mCount + 1) splitLines
    have h₂ := Nat.mod_add_div s.log.mCount splitLines
    rw [hdiv] at h₁
    omega
  obtain ⟨t, ht, hfp⟩ := h.current
  refine ⟨_, _, congrArg _ (Log.writeLog_stays hrot), ?_, rfl, rfl⟩
  refine ⟨hsplit', h.names, h.today, ?_, ⟨t, hdiv ▸ ht, hfp⟩, ?_, ?_, ?_⟩
  · rw [List.length_append]
    exact Nat.succ_le_succ h.count_le
  · intro x hx
    rcases List.mem_append.1 hx with hx | hx
    · obtain ⟨hx₁, j, t', ht', hxt, hj⟩ := h.named x hx
      exact ⟨hx₁, j, t', ht', hxt, fun hlast => hdiv ▸ hj hlast⟩
    · obtain rfl := List.mem_singleton.1 hx
      exact ⟨Date.le_refl _, _, t, ht, hfp, fun _ => hdiv ▸ Nat.le_refl _⟩
  · show linesIn _ s.log.mFp ≤ (s.log.mCount + 1) % splitLines + 1
    rw [linesIn_append, if_pos rfl, hmod]
    exact Nat.succ_le_succ h.inCurrent
  · intro file
    rw [linesIn_append]
    split
    · rename_i hf
      have hlt := Nat.mod_lt (s.log.mCount + 1) (show 0 < splitLines by omega)
      have hcur := h.inCurrent
      rw [hf] at hcur
      omega
    · exact h.bounded file

/-- A call of `write_log` that finds its file. -/
private theorem Filed.step {fileName : List Byte} {splitLines : Nat} {s : Logging} {ds : List Date} {d : Date}
    (h : Filed fileName splitLines s) (hsplit : 1 ≤ splitLines) (hb : WithinBuffers fileName ds) (hd : d ∈ ds)
    (hle : s.last.le d) (hlen : s.lines.length < ds.length) (hf : FindsFile fileName s d) :
    ∃ s' file, s.step d = some s' ∧ Filed fileName splitLines s' ∧ s'.last = d ∧
      s'.lines = s.lines ++ [(file, d)] := by
  unfold FindsFile at hf
  split at hf
  · rename_i hrot
    have hn := h.names hf
    by_cases hday : s.log.mToday = d.tmMday
    · exact h.splits hsplit hb hd hle hlen hn hday (hrot.resolve_left (not_not.2 hday))
    · exact h.nextDay hsplit hb hd hle hn hday
  · rename_i hrot
    subst hf
    exact h.stays hsplit hrot

/-- The whole run, by the step for each of its calls. -/
private theorem Filed.run {fileName : List Byte} {splitLines : Nat} {ds rest : List Date} {s : Logging}
    (hsplit : 1 ≤ splitLines) (hb : WithinBuffers fileName ds) (h : Filed fileName splitLines s)
    (hrest : ∀ d ∈ rest, d ∈ ds) (hlen : s.lines.length + rest.length ≤ ds.length)
    (hsorted : (s.last :: rest).Pairwise Date.le) (hf : Meets Logging.step (FindsFile fileName) s rest) :
    ∃ s', Transition.run Logging.step s rest = some s' ∧ Filed fileName splitLines s' ∧
      s'.lines.map (·.2) = s.lines.map (·.2) ++ rest := by
  induction rest generalizing s with
  | nil => exact ⟨s, rfl, h, (List.append_nil _).symm⟩
  | cons d rest ih =>
    rw [List.pairwise_cons] at hsorted
    rw [List.length_cons] at hlen
    obtain ⟨s₁, file, hs₁, h₁, hlast, hlines⟩ := h.step hsplit hb (hrest d List.mem_cons_self)
      (hsorted.1 d List.mem_cons_self) (by omega) hf.1
    obtain ⟨s', hrun, h', hmap⟩ := ih h₁ (fun d hd => hrest d (List.mem_cons_of_mem _ hd))
      (by rw [hlines, List.length_append, List.length_singleton]; omega) (by rw [hlast]; exact hsorted.2) (hf.2 s₁ hs₁)
    refine ⟨s', by rw [Transition.run, hs₁]; exact hrun, h', ?_⟩
    rw [hmap, hlines, List.map_append, List.append_assoc]
    rfl

private theorem filed_start {fileName : List Byte} {splitLines : Nat} {d : Date} (h0 : 0 ∉ fileName)
    (hb : WithinBuffers fileName [d]) :
    ∃ s, Logging.start fileName splitLines d = some s ∧ s.last = d ∧ s.lines = [] ∧ Filed fileName splitLines s := by
  obtain ⟨l, hl, hcount, hsplit', htoday, hfp, hnames⟩ := Log.init_eq h0 hb
  have hstart : Logging.start fileName splitLines d = some ⟨l, d, []⟩ := by
    rw [Logging.start, hl]
    rfl
  refine ⟨_, hstart, rfl, rfl, hsplit', hnames, htoday, ?_, ⟨[], .inl rfl, hfp⟩, ?_, ?_, ?_⟩
  · exact Nat.le_of_eq hcount
  · exact fun x hx => absurd hx List.not_mem_nil
  · exact Nat.zero_le _
  · exact fun _ => Nat.zero_le _

/-- The condition on the calls of a run that begins with `init`. -/
def FindsFiles (fileName : List Byte) (splitLines : Nat) (d : Date) (ds : List Date) : Prop :=
  ∀ s, Logging.start fileName splitLines d = some s → Meets Logging.step (FindsFile fileName) s ds

/-- The lines of a run are filed as they should be when each of its calls finds its file. -/
theorem filesLines_of_findsFiles {fileName : List Byte} {splitLines : Nat} {d : Date} {ds : List Date}
    (h0 : 0 ∉ fileName) (hsplit : 1 ≤ splitLines) (hb : WithinBuffers fileName (d :: ds))
    (hsorted : (d :: ds).Pairwise Date.le) (hf : FindsFiles fileName splitLines d ds) :
    FilesLines fileName splitLines d ds := by
  have hb₀ : WithinBuffers fileName [d] := by
    refine ⟨hb.parts, fun e he => ?_, fun e he k hk => ?_⟩
    · exact hb.date e (List.mem_singleton.1 he ▸ List.mem_cons_self)
    · exact hb.full e (List.mem_singleton.1 he ▸ List.mem_cons_self) k (hk.trans (Nat.succ_le_succ (Nat.zero_le _)))
  obtain ⟨s₀, hs₀, hlast, hlines, h₀⟩ := @filed_start _ splitLines _ h0 hb₀
  obtain ⟨s, hrun, h, hmap⟩ := Filed.run hsplit hb h₀ (fun e he => List.mem_cons_of_mem d he)
    (by rw [hlines, List.length_nil, List.length_cons]; omega) (by rw [hlast]; exact hsorted) (hf s₀ hs₀)
  refine ⟨s₀, s, hs₀, hrun, by rw [hmap, hlines]; rfl, fun x hx => ?_, h.bounded⟩
  obtain ⟨-, k, t, ht, hxt, -⟩ := h.named x hx
  exact ⟨k, t, ht, hxt⟩

/-- The lines of a run that is evaluated. -/
def filedLines (fileName : List Byte) (splitLines : Nat) (d : Date) (ds : List Date) :
    Option (List (List Byte × Date)) :=
  ((Logging.start fileName splitLines d).bind fun s => run Logging.step s ds).map (·.lines)

theorem filesLines_of_findsFiles_web : FilesLines (lit "log/web") 2 ⟨124, 1, 29⟩
    [⟨124, 1, 29⟩, ⟨124, 1, 29⟩, ⟨124, 2, 1⟩] := by
  refine filesLines_of_findsFiles (by decide +kernel) (by decide) ⟨?_, by decide +kernel, by decide +kernel⟩
    (by decide +kernel) fun s hs => ?_
  · exact fun _ => by decide +kernel
  · have h : (Logging.start (lit "log/web") 2 ⟨124, 1, 29⟩).map (fun s => decide
        (Meets Logging.step (FindsFile (lit "log/web")) s [⟨124, 1, 29⟩, ⟨124, 1, 29⟩, ⟨124, 2, 1⟩])) = some true := by
      decide +kernel
    rw [hs, Option.map_some, Option.some.injEq] at h
    exact of_decide_eq_true h

/-- A line that is filed as it should be is in a file whose name begins with its date and the base name. -/
private theorem FilesLines.named {fileName : List Byte} {splitLines : Nat} {d : Date} {ds : List Date}
    {lines : List (List Byte × Date)} (h : FilesLines fileName splitLines d ds)
    (hl : filedLines fileName splitLines d ds = some lines) {x : List Byte × Date} (hx : x ∈ lines) :
    fileOf fileName x.2 [] <+: x.1 := by
  obtain ⟨s₀, s, hs₀, hs, -, hnamed, -⟩ := h
  rw [filedLines, hs₀, Option.bind_some, hs, Option.map_some, Option.some.injEq] at hl
  obtain ⟨k, t, -, hxt⟩ := hnamed x (hl ▸ hx)
  rw [hxt, fileOf, fileOf, List.append_nil]
  exact List.prefix_append _ _

/-- After a month without a line the next one goes to the file of the month before, and without a `/` in `file_name`
the file of the next day is named by its date alone. -/
theorem not_filesLines_gap_noSlash :
    filedLines (lit "log/web") 5000000 ⟨124, 2, 5⟩ [⟨124, 3, 5⟩] =
        some [(lit "log/2024_03_05_web", ⟨124, 3, 5⟩)] ∧
      ¬ FilesLines (lit "log/web") 5000000 ⟨124, 2, 5⟩ [⟨124, 3, 5⟩] ∧
      filedLines (lit "web") 5000000 ⟨124, 2, 5⟩ [⟨124, 2, 6⟩] = some [(lit "2024_03_06_", ⟨124, 2, 6⟩)] ∧
      ¬ FilesLines (lit "web") 5000000 ⟨124, 2, 5⟩ [⟨124, 2, 6⟩] := by
  have hgap : filedLines (lit "log/web") 5000000 ⟨124, 2, 5⟩ [⟨124, 3, 5⟩] =
      some [(lit "log/2024_03_05_web", ⟨124, 3, 5⟩)] := by decide +kernel
  have hnext : filedLines (lit "web") 5000000 ⟨124, 2, 5⟩ [⟨124, 2, 6⟩] =
      some [(lit "2024_03_06_", ⟨124, 2, 6⟩)] := by decide +kernel
  refine ⟨hgap, fun h => ?_, hnext, fun h => ?_⟩
  · exact absurd (h.named hgap List.mem_cons_self) (by decide +kernel)
  · exact absurd (h.named hnext List.mem_cons_self) (by decide +kernel)

end ImageServer
