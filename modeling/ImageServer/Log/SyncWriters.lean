import ImageServer.Lib.Mutex
import ImageServer.Log.Format

/-!
# Many synchronous writers

`Log::write_log` without `m_is_async`, called by any number of threads.  A call takes `m_mutex` three times: to count
the line and open the next file when it is time (`fclose` and `fopen` are steps of their own), to format the line in
`m_buf` and copy it to `log_str`, and for `fputs`.  In between any thread can go on.  `fopen` succeeds, and goes on in
the file when its name was opened before.

The lines of all calls are written whole, once, and those of each thread in its order (`writesAll_run`); no thread
writes to a file that is closed, and none is blocked for good (`neverBlocked_run`).  This is for lines that fit `m_buf`
(`LogCall.Fits`).  But a line is written to the file that is open at its third critical section, not at its first one,
so a file can get more lines than `m_split_lines` each time it is opened, by one less than there are threads
(`fileBound_run`).
-/

namespace ImageServer

open CLib Mutex Transition

/-- A call of `write_log`, with the time it has read. -/
structure LogCall where
  tm : Tm
  level : Int
  message : List Byte

namespace LogCall

/-- The line. -/
def text (x : LogCall) : List Byte := x.tm.linePrefix x.level ++ x.message ++ [LF]

/-- The line fits a buffer of `n` bytes, and no NUL cuts it. -/
def Fits (n : Nat) (x : LogCall) : Prop :=
  0 ∉ x.message ∧ (x.tm.linePrefix x.level).length + x.message.length + 2 ≤ n

instance (n : Nat) (x : LogCall) : Decidable (x.Fits n) := instDecidableAnd

end LogCall

/-- Where a thread is in `write_log`. -/
inductive SyncWrite
  | outside
  /-- `gettimeofday` and `localtime` are done -/
  | stamped (x : LogCall)
  /-- it has `m_mutex`, and counts the line -/
  | counting (x : LogCall)
  /-- it has `m_mutex`, and `m_fp` is closed -/
  | opening (x : LogCall)
  | counted (x : LogCall)
  /-- it has `m_mutex`, and formats the line -/
  | formatting (x : LogCall)
  /-- it has `m_mutex`, and the line is in `m_buf` -/
  | copying (x : LogCall)
  | formatted (logStr : List Byte)
  /-- it has `m_mutex`, and calls `fputs` -/
  | putting (logStr : List Byte)

namespace SyncWrite

/-- It has `m_mutex`. -/
def holds : SyncWrite → Bool
  | .counting _ | .opening _ | .formatting _ | .copying _ | .putting _ => true
  | _ => false

/-- Its line is counted and not yet written. -/
def inFlight : SyncWrite → Bool
  | .counted _ | .formatting _ | .copying _ | .formatted _ | .putting _ => true
  | _ => false

/-- The line of the call it is in. -/
def line : SyncWrite → Option (List Byte)
  | .outside => none
  | .stamped x | .counting x | .opening x | .counted x | .formatting x | .copying x => some x.text
  | .formatted logStr | .putting logStr => some logStr

/-- The call it is in, until its line is formatted. -/
def call : SyncWrite → Option LogCall
  | .stamped x | .counting x | .opening x | .counted x | .formatting x | .copying x => some x
  | .outside | .formatted _ | .putting _ => none

end SyncWrite

/-- What a thread has written, and the name of the file. -/
structure LogLine where
  file : List Byte
  thread : Nat
  text : List Byte

/-- The log with its mutex, its threads, the names that were opened, and the lines written so far in their order. -/
structure SyncLog (n : Nat) where
  log : Log
  fpOpen : Bool
  mBuf : CharArray n
  mMutex : Option Nat
  threads : List SyncWrite
  opened : List (List Byte)
  written : List LogLine

inductive SyncStep
  /-- the thread calls `write_log` and reads the time -/
  | call (th : Nat) (x : LogCall)
  | lock (th : Nat)
  | count (th : Nat)
  | fopen (th : Nat)
  | format (th : Nat)
  | copy (th : Nat)
  | fputs (th : Nat)

/-- The step with which a thread that is in `write_log` goes on. -/
def SyncWrite.next (th : Nat) : SyncWrite → SyncStep
  | .counting _ => .count th
  | .opening _ => .fopen th
  | .formatting _ => .format th
  | .copying _ => .copy th
  | .putting _ => .fputs th
  | .outside | .stamped _ | .counted _ | .formatted _ => .lock th

namespace SyncLog

variable {n : Nat}

/-- The log behind `init`, with `threads` threads that can call `write_log`. -/
def start (n : Nat) (fileName : List Byte) (splitLines : Nat) (d : Date) (threads : Nat) : Option (SyncLog n) :=
  (Log.init fileName splitLines d).map fun l =>
    { log := l, fpOpen := true, mBuf := .zeros n, mMutex := none, threads := List.replicate threads .outside
      opened := [l.mFp], written := [] }

def set (s : SyncLog n) (th : Nat) (ph : SyncWrite) : SyncLog n := { s with threads := s.threads.set th ph }

/-- `pthread_mutex_lock`, when nobody has the mutex. -/
def lock (s : SyncLog n) (th : Nat) : SyncWrite → Option (SyncLog n)
  | .stamped x => some { s.set th (.counting x) with mMutex := some th }
  | .counted x => some { s.set th (.formatting x) with mMutex := some th }
  | .formatted logStr => some { s.set th (.putting logStr) with mMutex := some th }
  | _ => none

/-- The first critical section, up to the `fclose` if there is one; a remainder by zero has no result. -/
def count (s : SyncLog n) (th : Nat) : SyncWrite → Option (SyncLog n)
  | .counting x =>
    let l := { s.log with mCount := s.log.mCount + 1 }
    if s.log.mToday = x.tm.tmMday ∧ s.log.mSplitLines = 0 then none
    else if s.log.Rotates x.tm.toDate then some { s.set th (.opening x) with log := l, fpOpen := false }
    else some { s.set th (.counted x) with log := l, mMutex := none }
  | _ => none

/-- The rest of it. -/
def fopen (s : SyncLog n) (th : Nat) : SyncWrite → Option (SyncLog n)
  | .opening x => (s.log.reopen x.tm.toDate).map fun l =>
    { s.set th (.counted x) with log := l, fpOpen := true, mMutex := none, opened := l.mFp :: s.opened }
  | _ => none

/-- The second critical section, up to the NUL behind the line. -/
def format (s : SyncLog n) (th : Nat) : SyncWrite → Option (SyncLog n)
  | .formatting x => (formatLine s.mBuf x.tm x.level x.message).map fun r =>
    { s.set th (.copying x) with mBuf := r.1 }
  | _ => none

/-- `log_str = m_buf`. -/
def copy (s : SyncLog n) (th : Nat) : SyncWrite → Option (SyncLog n)
  | .copying _ => (cstring s.mBuf.bytes).map fun logStr => { s.set th (.formatted logStr) with mMutex := none }
  | _ => none

/-- The third critical section; on a closed file `fputs` has no result. -/
def fputs (s : SyncLog n) (th : Nat) : SyncWrite → Option (SyncLog n)
  | .putting logStr =>
    if s.fpOpen then
      some { s.set th .outside with mMutex := none, written := s.written ++ [⟨s.log.mFp, th, logStr⟩] }
    else none
  | _ => none

def step (s : SyncLog n) : SyncStep → Option (SyncLog n)
  | .call th x => s.threads[th]?.bind fun ph =>
    match ph with
    | .outside => some (s.set th (.stamped x))
    | _ => none
  | .lock th => if s.mMutex = none then s.threads[th]?.bind (s.lock th) else none
  | .count th => s.threads[th]?.bind (s.count th)
  | .fopen th => s.threads[th]?.bind (s.fopen th)
  | .format th => s.threads[th]?.bind (s.format th)
  | .copy th => s.threads[th]?.bind (s.copy th)
  | .fputs th => s.threads[th]?.bind (s.fputs th)

/-- The lines of one thread. -/
def linesOf (th : Nat) (l : List LogLine) : List (List Byte) := (l.filter fun x => x.thread = th).map LogLine.text

/-- The number of lines in a file. -/
def fileLines (s : SyncLog n) (file : List Byte) : Nat := s.written.countP fun x => x.file = file

/-- The line the thread is busy with. -/
def busy (s : SyncLog n) (th : Nat) : List (List Byte) := (s.threads[th]?.bind SyncWrite.line).toList

end SyncLog

/-- The lines of the calls fit a buffer of `n` bytes. -/
def SyncStep.Fits (n : Nat) : SyncStep → Prop
  | .call _ x => x.Fits n
  | _ => True

instance (n : Nat) (e : SyncStep) : Decidable (e.Fits n) := by
  cases e <;> unfold SyncStep.Fits <;> infer_instance

/-- The lines of the calls of one thread. -/
def callsOf (th : Nat) (es : List SyncStep) : List (List Byte) :=
  es.filterMap fun e =>
    match e with
    | .call k x => if k = th then some x.text else none
    | _ => none

namespace SyncLog

variable {n : Nat}

/-! ### What a step can do -/

/-- The steps, each with the phase of its thread before and after. -/
inductive Effect (s : SyncLog n) : SyncStep → SyncLog n → Prop
  | calls {th : Nat} {x : LogCall} : s.threads[th]? = some .outside → Effect s (.call th x) (s.set th (.stamped x))
  | locks {th : Nat} {ph ph' : SyncWrite} : s.mMutex = none → s.threads[th]? = some ph → ph'.holds = true →
    ph'.line = ph.line → ph'.call = ph.call ∨ ph'.call = none → ph'.inFlight = ph.inFlight →
    (∀ x, ph' ≠ .opening x) → (∀ x, ph' ≠ .copying x) →
    Effect s (.lock th) { s.set th ph' with mMutex := some th }
  | counts {th : Nat} {x : LogCall} : s.threads[th]? = some (.counting x) → ¬ s.log.Rotates x.tm.toDate →
    Effect s (.count th)
      { s.set th (.counted x) with log := { s.log with mCount := s.log.mCount + 1 }, mMutex := none }
  | closes {th : Nat} {x : LogCall} : s.threads[th]? = some (.counting x) →
    Effect s (.count th)
      { s.set th (.opening x) with log := { s.log with mCount := s.log.mCount + 1 }, fpOpen := false }
  | opens {th : Nat} {x : LogCall} {l : Log} : s.threads[th]? = some (.opening x) →
    s.log.reopen x.tm.toDate = some l →
    Effect s (.fopen th)
      { s.set th (.counted x) with log := l, fpOpen := true, mMutex := none, opened := l.mFp :: s.opened }
  | formats {th : Nat} {x : LogCall} {b : CharArray n} {logStr : List Byte} :
    s.threads[th]? = some (.formatting x) →
    formatLine s.mBuf x.tm x.level x.message = some (b, logStr) →
    Effect s (.format th) { s.set th (.copying x) with mBuf := b }
  | copies {th : Nat} {x : LogCall} {logStr : List Byte} : s.threads[th]? = some (.copying x) →
    cstring s.mBuf.bytes = some logStr →
    Effect s (.copy th) { s.set th (.formatted logStr) with mMutex := none }
  | puts {th : Nat} {logStr : List Byte} : s.threads[th]? = some (.putting logStr) → s.fpOpen = true →
    Effect s (.fputs th)
      { s.set th .outside with mMutex := none, written := s.written ++ [⟨s.log.mFp, th, logStr⟩] }

private theorem step_effect {s s' : SyncLog n} {e : SyncStep} (h : s.step e = some s') : Effect s e s' := by
  cases e with
  | call th x =>
    obtain ⟨ph, hth, h⟩ := Option.bind_eq_some_iff.1 h
    cases ph with
    | outside => cases h; exact .calls hth
    | _ => cases h
  | lock th =>
    simp only [step] at h
    split at h
    · rename_i hfree
      obtain ⟨ph, hth, h⟩ := Option.bind_eq_some_iff.1 h
      cases ph with
      | stamped | counted | formatted =>
        cases h
        exact .locks hfree hth rfl rfl (Or.inl rfl) rfl (fun _ hx => by cases hx) fun _ hx => by cases hx
      | _ => cases h
    · cases h
  | count th =>
    obtain ⟨ph, hth, h⟩ := Option.bind_eq_some_iff.1 h
    cases ph with
    | counting x =>
      simp only [count] at h
      split at h
      · cases h
      · split at h
        · cases h; exact .closes hth
        · cases h; exact .counts hth ‹_›
    | _ => cases h
  | fopen th =>
    obtain ⟨ph, hth, h⟩ := Option.bind_eq_some_iff.1 h
    cases ph with
    | opening x =>
      obtain ⟨l, hl, rfl⟩ := Option.map_eq_some_iff.1 h
      exact .opens hth hl
    | _ => cases h
  | format th =>
    obtain ⟨ph, hth, h⟩ := Option.bind_eq_some_iff.1 h
    cases ph with
    | formatting x =>
      rw [format.eq_1] at h
      obtain ⟨r, hr, rfl⟩ := Option.map_eq_some_iff.1 h
      exact .formats hth hr
    | _ => cases h
  | copy th =>
    obtain ⟨ph, hth, h⟩ := Option.bind_eq_some_iff.1 h
    cases ph with
    | copying x =>
      obtain ⟨logStr, hstr, rfl⟩ := Option.map_eq_some_iff.1 h
      exact .copies hth hstr
    | _ => cases h
  | fputs th =>
    obtain ⟨ph, hth, h⟩ := Option.bind_eq_some_iff.1 h
    cases ph with
    | putting logStr =>
      simp only [fputs] at h
      split at h
      · cases h; exact .puts hth ‹_›
      · cases h
    | _ => cases h

/-! ### The mutex -/

/-- The invariant: one thread at most is in a critical section; while the file is closed it is the one that opens the
next; and a line that is formatted is still in `m_buf` when it is copied. -/
structure Sound (s : SyncLog n) : Prop where
  exclusive : Exclusive SyncWrite.holds s.threads s.mMutex
  closed : s.fpOpen = false → ∃ (th : Nat) (x : LogCall), s.threads[th]? = some (.opening x)
  copied : ∀ (th : Nat) (x : LogCall), s.threads[th]? = some (.copying x) → cstring s.mBuf.bytes = some x.text
  fits : ∀ (th : Nat) (ph : SyncWrite) (x : LogCall), s.threads[th]? = some ph → ph.call = some x → x.Fits n
  split : 0 < s.log.mSplitLines
  named : s.log.Named

private theorem Sound.start {fileName : List Byte} {splitLines threads : Nat} {d : Date} {s : SyncLog n}
    (hm : 0 < splitLines) (h : SyncLog.start n fileName splitLines d threads = some s) : Sound s := by
  obtain ⟨l, hl, rfl⟩ := Option.map_eq_some_iff.1 h
  have hout : ∀ ph ∈ List.replicate threads SyncWrite.outside, ph = .outside := fun _ => List.eq_of_mem_replicate
  refine ⟨Exclusive.start fun ph hph => ?_, fun he => (by cases he), fun th x hx => ?_, fun th ph x hx hph => ?_, ?_,
    Log.Named.init hl⟩
  · rw [hout ph hph]
    rfl
  · cases hout _ (List.mem_of_getElem? hx)
  · rw [hout _ (List.mem_of_getElem? hx)] at hph
    cases hph
  · rw [Log.init_split hl]
    exact hm

/-- `formatLine` leaves its line in `m_buf`. -/
private theorem formatLine_cstring {b b' : CharArray n} {t : Tm} {level : Int} {message logStr : List Byte}
    (h : formatLine b t level message = some (b', logStr)) : cstring b'.bytes = some logStr := by
  simp only [formatLine, Option.bind_eq_bind, Option.bind_eq_some_iff] at h
  obtain ⟨_, -, _, -, _, -, _, -, _, -, str, hstr, h⟩ := h
  cases h
  exact hstr

/-- The line of a call, formatted. -/
private theorem formatLine_call (b : CharArray n) {x : LogCall} (hx : x.Fits n) (hn : n < 2 ^ 31) :
    ∃ b', formatLine b x.tm x.level x.message = some (b', x.text) ∧ cstring b'.bytes = some x.text := by
  obtain ⟨b', hb⟩ := formatLine_fits b x.tm x.level hx.1 hn hx.2
  exact ⟨b', hb, formatLine_cstring hb⟩

/-- While another thread is in a critical section, one phase of a thread has not changed. -/
private theorem threads_set {s : SyncLog n} {th : Nat} {ph ph' x : SyncWrite} (hth : s.threads[th]? = some ph)
    {k : Nat} (h : (s.set th ph').threads[k]? = some x) : k = th ∧ x = ph' ∨ k ≠ th ∧ s.threads[k]? = some x :=
  getElem?_set_some hth h

/-- A thread in a critical section other than the one that opens finds the file open. -/
private theorem Sound.fpOpen {s : SyncLog n} (h : Sound s) {th : Nat} {ph : SyncWrite} (hth : s.threads[th]? = some ph)
    (hph : ph.holds = true) (hne : ∀ x, ph ≠ .opening x) : s.fpOpen = true := by
  cases ho : s.fpOpen with
  | true => rfl
  | false =>
    obtain ⟨k, x, hk⟩ := h.closed ho
    have h₁ := h.exclusive.owner_eq hth hph
    have h₂ := h.exclusive.owner_eq hk rfl
    cases Option.some.inj (h₁.symm.trans h₂)
    exact absurd (Option.some.inj (hth.symm.trans hk)) (hne x)

/-- The calls the threads are in, when one of them goes on with its call or has it formatted. -/
private theorem Sound.fits_set {s : SyncLog n} (h : Sound s) {th : Nat} {ph ph' : SyncWrite}
    (hth : s.threads[th]? = some ph) (hcall : ph'.call = ph.call ∨ ph'.call = none) (k : Nat) (phk : SyncWrite)
    (x : LogCall) (hk : (s.set th ph').threads[k]? = some phk) (hx : phk.call = some x) : x.Fits n := by
  rcases threads_set hth hk with ⟨rfl, rfl⟩ | ⟨-, hk⟩
  · rcases hcall with hcall | hcall
    · exact h.fits k ph x hth (hcall ▸ hx)
    · rw [hcall] at hx
      cases hx
  · exact h.fits k phk x hk hx

private theorem Sound.step {s s' : SyncLog n} {e : SyncStep} (h : Sound s) (hn : n < 2 ^ 31) (he : e.Fits n)
    (hs : s.step e = some s') : Sound s' := by
  -- what is known of the other threads when `m_buf` stays as it is
  have hcopied : ∀ {th : Nat} {ph ph' : SyncWrite}, s.threads[th]? = some ph → (∀ x, ph' ≠ .copying x) →
      ∀ (k : Nat) (x : LogCall), (s.set th ph').threads[k]? = some (.copying x) →
        cstring s.mBuf.bytes = some x.text := by
    intro th ph ph' hth hne k x hk
    rcases threads_set hth hk with ⟨-, he⟩ | ⟨-, hk⟩
    · exact absurd he.symm (hne x)
    · exact h.copied k x hk
  have hopen : ∀ {th : Nat} {ph ph' : SyncWrite}, s.threads[th]? = some ph → (∀ x, ph ≠ .opening x) →
      s.fpOpen = false → ∃ (k : Nat) (x : LogCall), (s.set th ph').threads[k]? = some (.opening x) := by
    intro th ph ph' hth hne ho
    obtain ⟨k, x, hk⟩ := h.closed ho
    have hkt : k ≠ th := fun he => hne x (Option.some.inj (hth.symm.trans (he ▸ hk)))
    exact ⟨k, x, (List.getElem?_set_ne (Ne.symm hkt)).trans hk⟩
  cases step_effect hs with
  | @calls th x hth =>
    refine ⟨h.exclusive.goesOn hth rfl, hopen hth (fun _ hx => by cases hx),
      hcopied hth (fun _ hx => by cases hx), fun k phk y hk hy => ?_, h.split, h.named⟩
    rcases threads_set hth hk with ⟨-, rfl⟩ | ⟨-, hk⟩
    · cases hy
      exact he
    · exact h.fits k phk y hk hy
  | @locks th ph ph' hfree hth hph _ hcall _ hno hnc =>
    have hout : ph.holds = false := by
      rw [Bool.eq_false_iff]
      intro hin
      rw [h.exclusive.owner_eq hth hin] at hfree
      cases hfree
    have hfree' := h.exclusive
    rw [hfree] at hfree'
    refine ⟨hfree'.acquire hth hph, hopen hth (fun x hx => ?_),
      hcopied hth hnc, h.fits_set hth hcall, h.split, h.named⟩
    rw [hx] at hout
    cases hout
  | @counts th x hth _ =>
    exact ⟨h.exclusive.leave hth rfl rfl, hopen hth (fun _ hx => by cases hx),
      hcopied hth (fun _ hx => by cases hx), h.fits_set hth (Or.inl rfl), h.split, h.named⟩
  | @closes th x hth =>
    obtain ⟨hlt, -⟩ := List.getElem?_eq_some_iff.1 hth
    exact ⟨h.exclusive.goesOn hth rfl, fun _ => ⟨th, x, List.getElem?_set_self hlt⟩,
      hcopied hth (fun _ hx => by cases hx), h.fits_set hth (Or.inl rfl), h.split, h.named⟩
  | @opens th x l hth hl =>
    obtain ⟨l', hl', hnamed⟩ := h.named.reopen x.tm.toDate
    cases hl'.symm.trans hl
    refine ⟨h.exclusive.leave hth rfl rfl, fun ho => (by cases ho),
      hcopied hth (fun _ hx => by cases hx), h.fits_set hth (Or.inl rfl), ?_, hnamed⟩
    rw [(Log.reopen_names hl).2.2]
    exact h.split
  | @formats th x b logStr hth hb =>
    refine ⟨h.exclusive.goesOn hth rfl, hopen hth (fun _ hx => by cases hx), fun k y hk => ?_,
      h.fits_set hth (Or.inl rfl), h.split, h.named⟩
    rcases threads_set hth hk with ⟨-, he⟩ | ⟨hkt, hk⟩
    · cases he
      obtain ⟨b', hb', hstr⟩ := formatLine_call s.mBuf (h.fits th _ x hth rfl) hn
      cases hb.symm.trans hb'
      exact hstr
    · -- another thread cannot be copying as well
      have hown := h.exclusive
      rw [h.exclusive.owner_eq hth rfl] at hown
      exact absurd (hown.outside hkt hk) (by simp [SyncWrite.holds])
  | @copies th x logStr hth _ =>
    exact ⟨h.exclusive.leave hth rfl rfl, hopen hth (fun _ hx => by cases hx),
      hcopied hth (fun _ hx => by cases hx), h.fits_set hth (Or.inr rfl), h.split, h.named⟩
  | @puts th logStr hth _ =>
    exact ⟨h.exclusive.leave hth rfl rfl, hopen hth (fun _ hx => by cases hx),
      hcopied hth (fun _ hx => by cases hx), h.fits_set hth (Or.inr rfl), h.split, h.named⟩

theorem sound_run {s t : SyncLog n} {es : List SyncStep} (h : run SyncLog.step s es = some t) (hs : Sound s)
    (hn : n < 2 ^ 31) (hfits : ∀ e ∈ es, e.Fits n) : Sound t :=
  run_invariant (fun _ _ _ hu he hstep => Sound.step hu hn he hstep) hs
    (Meets.of_forall (p := SyncStep.Fits n) hfits) h

/-- A thread that has `m_mutex` can go on: no `fputs` is called on a file that is closed, and no write of the
formatting is outside `m_buf`. -/
private theorem Sound.goesOn {s : SyncLog n} (h : Sound s) (hn : n < 2 ^ 31) {th : Nat} {ph : SyncWrite}
    (hth : s.threads[th]? = some ph) (hph : ph.holds = true) : (s.step (ph.next th)).isSome := by
  cases ph with
  | counting x =>
    have hne : ¬ (s.log.mToday = x.tm.tmMday ∧ s.log.mSplitLines = 0) := fun hc => absurd hc.2 (Nat.ne_of_gt h.split)
    simp only [SyncWrite.next, SyncLog.step, hth, Option.bind_some, count]
    rw [if_neg hne]
    split <;> rfl
  | opening x =>
    obtain ⟨l, hl, -⟩ := h.named.reopen x.tm.toDate
    simp only [SyncWrite.next, SyncLog.step, hth, Option.bind_some, fopen, hl, Option.map_some, Option.isSome_some]
  | formatting x =>
    obtain ⟨b, hb, -⟩ := formatLine_call s.mBuf (h.fits th _ x hth rfl) hn
    simp only [SyncWrite.next, SyncLog.step, hth, Option.bind_some, format, hb, Option.map_some, Option.isSome_some]
  | copying x =>
    simp only [SyncWrite.next, SyncLog.step, hth, Option.bind_some, copy, h.copied th x hth, Option.map_some,
      Option.isSome_some]
  | putting logStr =>
    have ho := h.fpOpen hth rfl (fun _ hx => by cases hx)
    simp only [SyncWrite.next, SyncLog.step, hth, Option.bind_some, fputs, ho, if_true, Option.isSome_some]
  | outside | stamped | counted | formatted => cases hph

/-- The writers do not block each other for good: whenever a thread is in `write_log`, it can go on, or it waits for
`m_mutex` and the thread that has it can go on. -/
theorem neverBlocked_run {fileName : List Byte} {splitLines threads : Nat} {d : Date} {s t : SyncLog n}
    {es : List SyncStep} (hn : n < 2 ^ 31) (hm : 0 < splitLines)
    (hs : SyncLog.start n fileName splitLines d threads = some s) (hfits : ∀ e ∈ es, e.Fits n)
    (h : run SyncLog.step s es = some t) {th : Nat} {ph : SyncWrite} (hth : t.threads[th]? = some ph)
    (hin : ph.line ≠ none) :
    (t.step (ph.next th)).isSome ∨
      ∃ k ph', t.mMutex = some k ∧ t.threads[k]? = some ph' ∧ (t.step (ph'.next k)).isSome := by
  have ht := sound_run h (Sound.start hm hs) hn hfits
  cases hph : ph.holds with
  | true => exact Or.inl (ht.goesOn hn hth hph)
  | false =>
    cases hown : t.mMutex with
    | none =>
      refine Or.inl ?_
      cases ph with
      | stamped | counted | formatted =>
        simp only [SyncWrite.next, step, hown, if_true, hth, Option.bind_some, lock, Option.isSome_some]
      | outside => exact absurd rfl hin
      | counting | opening | formatting | copying | putting => cases hph
    | some k =>
      obtain ⟨ph', hk, hholds⟩ := (ht.exclusive k).1 hown
      exact Or.inr ⟨k, ph', rfl, hk, ht.goesOn hn hk hholds⟩

/-! ### The lines -/

private theorem busy_set {s : SyncLog n} {th : Nat} {ph ph' : SyncWrite} (hth : s.threads[th]? = some ph) (k : Nat) :
    (s.set th ph').busy k = if k = th then ph'.line.toList else s.busy k := by
  obtain ⟨hlt, -⟩ := List.getElem?_eq_some_iff.1 hth
  unfold busy set
  split
  · subst_vars
    rw [List.getElem?_set_self hlt]
    rfl
  · rw [List.getElem?_set_ne (Ne.symm ‹_›)]

private theorem busy_eq {s : SyncLog n} {th : Nat} {ph : SyncWrite} (hth : s.threads[th]? = some ph) :
    s.busy th = ph.line.toList := by
  rw [busy, hth]
  rfl

private theorem linesOf_append (th : Nat) (l l' : List LogLine) :
    linesOf th (l ++ l') = linesOf th l ++ linesOf th l' := by
  simp [linesOf]

/-- What a step does to the lines of a thread. -/
private theorem lines_step {s s' : SyncLog n} {e : SyncStep} (h : Sound s) (hs : s.step e = some s') (k : Nat) :
    linesOf k s'.written ++ s'.busy k = linesOf k s.written ++ s.busy k ++ callsOf k [e] := by
  -- a step that neither begins a call nor ends one
  have hsame : ∀ {th : Nat} {ph : SyncWrite} (ph' : SyncWrite), s.threads[th]? = some ph → ph'.line = ph.line →
      (s.set th ph').busy k = s.busy k := by
    intro th ph ph' hth hline
    rw [busy_set hth]
    split
    · subst_vars
      rw [hline, busy_eq hth]
    · rfl
  cases step_effect hs with
  | @calls th x hth =>
    show linesOf k s.written ++ (s.set th (.stamped x)).busy k = _
    rw [busy_set hth]
    by_cases hk : k = th
    · subst hk
      rw [if_pos rfl, busy_eq hth]
      simp [callsOf, SyncWrite.line]
    · rw [if_neg hk]
      simp [callsOf, Ne.symm hk]
  | @locks th ph ph' _ hth _ hline _ _ _ =>
    show linesOf k s.written ++ (s.set th ph').busy k = _
    rw [hsame ph' hth hline]
    exact (List.append_nil _).symm
  | @counts th x hth _ =>
    show linesOf k s.written ++ (s.set th (.counted x)).busy k = _
    rw [hsame (.counted x) hth rfl]
    exact (List.append_nil _).symm
  | @closes th x hth =>
    show linesOf k s.written ++ (s.set th (.opening x)).busy k = _
    rw [hsame (.opening x) hth rfl]
    exact (List.append_nil _).symm
  | @opens th x l hth _ =>
    show linesOf k s.written ++ (s.set th (.counted x)).busy k = _
    rw [hsame (.counted x) hth rfl]
    exact (List.append_nil _).symm
  | @formats th x b logStr hth _ =>
    show linesOf k s.written ++ (s.set th (.copying x)).busy k = _
    rw [hsame (.copying x) hth rfl]
    exact (List.append_nil _).symm
  | @copies th x logStr hth hstr =>
    -- what is copied is the line of the call
    have htext : logStr = x.text := Option.some.inj (hstr.symm.trans (h.copied th x hth))
    show linesOf k s.written ++ (s.set th (.formatted logStr)).busy k = _
    rw [hsame (.formatted logStr) hth (by rw [htext]; rfl)]
    exact (List.append_nil _).symm
  | @puts th logStr hth _ =>
    show linesOf k (s.written ++ [⟨s.log.mFp, th, logStr⟩]) ++ (s.set th .outside).busy k = _
    rw [busy_set hth, linesOf_append, List.append_assoc]
    by_cases hk : k = th
    · subst hk
      rw [if_pos rfl, busy_eq hth]
      simp [callsOf, SyncWrite.line, linesOf]
    · rw [if_neg hk]
      simp [callsOf, linesOf, Ne.symm hk]

private theorem callsOf_append (k : Nat) (es es' : List SyncStep) :
    callsOf k (es ++ es') = callsOf k es ++ callsOf k es' :=
  List.filterMap_append ..

/-- Whatever the threads do, the lines written of each one, with the line it is busy with if there is one, are those
of its calls, whole and in their order. -/
theorem writesAll_run {fileName : List Byte} {splitLines threads : Nat} {d : Date} {s t : SyncLog n}
    {es : List SyncStep} (hn : n < 2 ^ 31) (hm : 0 < splitLines)
    (hs : SyncLog.start n fileName splitLines d threads = some s) (hfits : ∀ e ∈ es, e.Fits n)
    (h : run SyncLog.step s es = some t) (th : Nat) : linesOf th t.written ++ t.busy th = callsOf th es := by
  have hstart : linesOf th s.written ++ s.busy th = [] := by
    obtain ⟨l, -, rfl⟩ := Option.map_eq_some_iff.1 hs
    simp only [busy, linesOf, List.filter_nil, List.map_nil, List.nil_append]
    cases hget : (List.replicate threads SyncWrite.outside)[th]? with
    | none => rfl
    | some ph =>
      rw [List.eq_of_mem_replicate (List.mem_of_getElem? hget)]
      rfl
  have key : (∀ e ∈ es, e.Fits n) → Sound t ∧ linesOf th t.written ++ t.busy th = callsOf th es := by
    refine run_history (P := fun es t => (∀ e ∈ es, e.Fits n) →
      Sound t ∧ linesOf th t.written ++ t.busy th = callsOf th es)
      (fun _ => ⟨Sound.start hm hs, hstart⟩) (fun es u e u' _ hu hu' hfits => ?_) h
    obtain ⟨hsound, hlines⟩ := hu fun x hx => hfits x (List.mem_append_left _ hx)
    have he : e.Fits n := hfits e (List.mem_append_right _ (List.mem_singleton_self e))
    exact ⟨hsound.step hn he hu', by rw [lines_step hsound hu', hlines, callsOf_append]⟩
  exact (key hfits).2

/-! ### The files -/

/-- The invariant: of each file there are no more lines than its openings allow; and the file that is open has, with
the lines on their way to it, no more than its earlier openings allow, those counted since, and one for each other
thread that was on its way when it was opened. -/
structure Bounded (splitLines threads : Nat) (s : SyncLog n) : Prop where
  split : s.log.mSplitLines = splitLines
  count : s.threads.length = threads
  files : ∀ file, s.fileLines file ≤ s.opened.count file * (splitLines + threads - 1)
  current : s.fpOpen = true →
    s.fileLines s.log.mFp + s.threads.countP SyncWrite.inFlight + (splitLines + threads - 1) ≤
      s.opened.count s.log.mFp * (splitLines + threads - 1) + threads + s.log.mCount % splitLines

private theorem succ_mod_of_ne {a m : Nat} (h : (a + 1) % m ≠ 0) : (a + 1) % m = a % m + 1 := by
  have hdiv := Nat.succ_div_of_mod_ne_zero h
  have h₁ := Nat.mod_add_div (a + 1) m
  have h₂ := Nat.mod_add_div a m
  rw [hdiv] at h₁
  omega

private theorem fileLines_append (l : List LogLine) (x : LogLine) (file : List Byte) :
    (l ++ [x]).countP (fun y => y.file = file) =
      l.countP (fun y => y.file = file) + if x.file = file then 1 else 0 := by
  rw [List.countP_append, List.countP_singleton]
  simp

private theorem Bounded.start {fileName : List Byte} {splitLines threads : Nat} {d : Date} {s : SyncLog n}
    (h : SyncLog.start n fileName splitLines d threads = some s) : Bounded splitLines threads s := by
  obtain ⟨l, hl, rfl⟩ := Option.map_eq_some_iff.1 h
  refine ⟨Log.init_split hl, List.length_replicate, fun file => Nat.zero_le _, fun _ => ?_⟩
  have hle := List.countP_le_length (p := SyncWrite.inFlight) (l := List.replicate threads SyncWrite.outside)
  rw [List.length_replicate] at hle
  show 0 + (List.replicate threads SyncWrite.outside).countP SyncWrite.inFlight + _ ≤
    [l.mFp].count l.mFp * _ + threads + _
  rw [List.count_singleton_self, Nat.one_mul]
  omega

private theorem Bounded.step {splitLines threads : Nat} {s s' : SyncLog n} {e : SyncStep}
    (h : Bounded splitLines threads s) (hm : 0 < splitLines) (hs : s.step e = some s') :
    Bounded splitLines threads s' := by
  have hlen : ∀ (th : Nat) (ph : SyncWrite), (s.threads.set th ph).length = threads := by
    intro th ph
    rw [List.length_set, h.count]
  have hcount : ∀ {th : Nat} {ph : SyncWrite} (ph' : SyncWrite), s.threads[th]? = some ph →
      (s.threads.set th ph').countP SyncWrite.inFlight + ph.inFlight.toNat =
        s.threads.countP SyncWrite.inFlight + ph'.inFlight.toNat :=
    fun ph' hth => countP_set_add SyncWrite.inFlight hth
  -- a step after which as many lines are on their way as before, to the same files
  have hsame : ∀ {th : Nat} {ph : SyncWrite} (ph' : SyncWrite), s.threads[th]? = some ph →
      ph'.inFlight = ph.inFlight → s.fpOpen = true →
        s.fileLines s.log.mFp + (s.threads.set th ph').countP SyncWrite.inFlight + (splitLines + threads - 1) ≤
          s.opened.count s.log.mFp * (splitLines + threads - 1) + threads + s.log.mCount % splitLines := by
    intro th ph ph' hth hin ho
    have hcur := h.current ho
    have hset := hcount ph' hth
    rw [hin] at hset
    omega
  cases step_effect hs with
  | @calls th x hth => exact ⟨h.split, hlen _ _, h.files, hsame (.stamped x) hth rfl⟩
  | @locks th ph ph' _ hth _ _ _ hin _ _ => exact ⟨h.split, hlen _ _, h.files, hsame ph' hth hin⟩
  | @counts th x hth hrot =>
    refine ⟨h.split, hlen _ _, h.files, fun ho => ?_⟩
    have hne : (s.log.mCount + 1) % splitLines ≠ 0 := fun h0 => hrot (Or.inr (h.split ▸ h0))
    have hin := hcount (.counted x) hth
    have hcur := h.current ho
    show s.fileLines s.log.mFp + (s.threads.set th (.counted x)).countP SyncWrite.inFlight + _ ≤
      s.opened.count s.log.mFp * _ + threads + (s.log.mCount + 1) % splitLines
    rw [succ_mod_of_ne hne]
    simp only [SyncWrite.inFlight, Bool.toNat_true, Bool.toNat_false] at hin
    omega
  | @closes th x hth => exact ⟨h.split, hlen _ _, h.files, fun ho => by cases ho⟩
  | @opens th x l hth hl =>
    refine ⟨(Log.reopen_names hl).2.2.trans h.split, hlen _ _, fun file => ?_, fun _ => ?_⟩
    · exact (h.files file).trans (Nat.mul_le_mul_right _ (List.count_le_count_cons ..))
    · have hle := List.countP_le_length (p := SyncWrite.inFlight) (l := s.threads.set th (.counted x))
      rw [hlen] at hle
      have hold := h.files l.mFp
      show s.fileLines l.mFp + (s.threads.set th (.counted x)).countP SyncWrite.inFlight + _ ≤
        (l.mFp :: s.opened).count l.mFp * _ + threads + _
      rw [List.count_cons_self, Nat.succ_mul]
      omega
  | @formats th x b logStr hth _ => exact ⟨h.split, hlen _ _, h.files, hsame (.copying x) hth rfl⟩
  | @copies th x logStr hth _ => exact ⟨h.split, hlen _ _, h.files, hsame (.formatted logStr) hth rfl⟩
  | @puts th logStr hth ho =>
    have hcur := h.current ho
    have hin := hcount .outside hth
    have hmod := Nat.mod_lt s.log.mCount hm
    simp only [SyncWrite.inFlight, Bool.toNat_true, Bool.toNat_false] at hin
    refine ⟨h.split, hlen _ _, fun file => ?_, fun _ => ?_⟩
    · show (s.written ++ [(⟨s.log.mFp, th, logStr⟩ : LogLine)]).countP (fun y => y.file = file) ≤
        s.opened.count file * _
      rw [fileLines_append]
      by_cases hfile : s.log.mFp = file
      · subst hfile
        rw [if_pos rfl]
        unfold fileLines at hcur
        omega
      · rw [if_neg hfile]
        exact h.files file
    · show (s.written ++ [(⟨s.log.mFp, th, logStr⟩ : LogLine)]).countP (fun y => y.file = s.log.mFp) +
        (s.threads.set th .outside).countP SyncWrite.inFlight + _ ≤ _
      rw [fileLines_append, if_pos rfl]
      unfold fileLines at hcur
      show _ ≤ s.opened.count s.log.mFp * _ + threads + s.log.mCount % splitLines
      omega

/-- A file gets, for each time it is opened by `init` or `write_log`, no more lines than `m_split_lines` and one for
each other thread. -/
theorem fileBound_run {fileName : List Byte} {splitLines threads : Nat} {d : Date} {s t : SyncLog n}
    {es : List SyncStep} (hm : 0 < splitLines) (hs : SyncLog.start n fileName splitLines d threads = some s)
    (h : run SyncLog.step s es = some t) (file : List Byte) :
    t.fileLines file ≤ t.opened.count file * (splitLines + threads - 1) := by
  have ht : Bounded splitLines threads t := run_invariant (P := Bounded splitLines threads)
    (fun _ _ _ hu _ hstep => hu.step hm hstep) (Bounded.start hs) Meets.trivial h
  exact ht.files file

/-- A call with an empty message. -/
def emptyCall : LogCall := ⟨someTm, 1, []⟩

/-- Each of two threads has its line counted, and opens a file for it, before either writes. -/
def bothCounted : List SyncStep :=
  [.call 0 emptyCall, .call 1 emptyCall, .lock 0, .count 0, .fopen 0, .lock 1, .count 1, .fopen 1,
    .lock 0, .format 0, .copy 0, .lock 1, .format 1, .copy 1, .lock 0, .fputs 0, .lock 1]

private theorem bothCounted_possible :
    ∃ s t, SyncLog.start 65 (lit "log") 1 someTm.toDate 2 = some s ∧ run SyncLog.step s bothCounted = some t ∧
      t.busy 1 = [emptyCall.text] := by
  have h : ((SyncLog.start 65 (lit "log") 1 someTm.toDate 2).bind fun s =>
      (run SyncLog.step s bothCounted).map fun t => t.busy 1) = some [emptyCall.text] := by decide +kernel
  obtain ⟨s, hs, h⟩ := Option.bind_eq_some_iff.1 h
  obtain ⟨t, ht, h⟩ := Option.map_eq_some_iff.1 h
  exact ⟨s, t, hs, ht, h⟩

theorem neverBlocked_run_bothCounted :
    ∃ s t ph, SyncLog.start 65 (lit "log") 1 someTm.toDate 2 = some s ∧ run SyncLog.step s bothCounted = some t ∧
      t.threads[1]? = some ph ∧ ((t.step (ph.next 1)).isSome ∨
        ∃ k ph', t.mMutex = some k ∧ t.threads[k]? = some ph' ∧ (t.step (ph'.next k)).isSome) := by
  obtain ⟨s, t, hs, ht, hbusy⟩ := bothCounted_possible
  cases hth : t.threads[1]? with
  | none =>
    rw [busy, hth] at hbusy
    cases hbusy
  | some ph =>
    have hin : ph.line ≠ none := by
      intro hline
      rw [busy_eq hth, hline] at hbusy
      cases hbusy
    exact ⟨s, t, ph, hs, ht, hth, neverBlocked_run (by decide) Nat.one_pos hs (by decide +kernel) ht hth hin⟩

theorem writesAll_run_bothCounted :
    ∃ s t, SyncLog.start 65 (lit "log") 1 someTm.toDate 2 = some s ∧ run SyncLog.step s bothCounted = some t ∧
      linesOf 0 t.written ++ t.busy 0 = callsOf 0 bothCounted := by
  obtain ⟨s, t, hs, ht, -⟩ := bothCounted_possible
  exact ⟨s, t, hs, ht, writesAll_run (by decide) Nat.one_pos hs (by decide +kernel) ht 0⟩

theorem fileBound_run_bothCounted :
    ∃ s t, SyncLog.start 65 (lit "log") 1 someTm.toDate 2 = some s ∧ run SyncLog.step s bothCounted = some t ∧
      t.fileLines t.log.mFp ≤ t.opened.count t.log.mFp * (1 + 2 - 1) := by
  obtain ⟨s, t, hs, ht, -⟩ := bothCounted_possible
  exact ⟨s, t, hs, ht, fileBound_run Nat.one_pos hs ht t.log.mFp⟩

/-- The bound is reached: the file opened last gets both lines. -/
example : ((SyncLog.start 65 (lit "log") 1 someTm.toDate 2).bind fun s =>
    (run SyncLog.step s (bothCounted ++ [.fputs 1])).map fun t =>
      (t.fileLines t.log.mFp, t.opened.count t.log.mFp)) = some (2, 1) := by decide +kernel

end SyncLog

end ImageServer
