import ImageServer.Log.BlockQueue
import ImageServer.Log.Rotation
import Mathlib.Data.List.Nodup

/-!
# Asynchronous logging

`Log::write_log` with `m_is_async` set, called by any number of threads, and the thread of `async_write_log`.  A call
counts its line under `m_mutex`, where it closes `m_fp` and opens the next file when it is time; it formats the line,
again under `m_mutex`; it asks whether the queue is full, and then gives the line to `push`, whose result it does not
use, or writes it to the file itself.  These are separate steps, in any order with those of the other threads; and the
thread of `async_write_log` writes without `m_mutex`, also between the `fclose` and the `fopen` of a call.

A line is lost when the queue has been filled between `full` and `push`, and it comes out of order when its thread
writes it past a line that is still on its way through the queue.  All lines are written once and in the order of the
calls exactly when neither happens and `m_fp` is open whenever it is used (`faithful_iff`).
-/

namespace ImageServer

open CLib Monitor Transition

/-- A formatted line.  The thread and the number of its call are not in the program: they tell the lines apart. -/
structure Line where
  thread : Nat
  call : Nat
  text : List Byte
  deriving DecidableEq

/-- Where a thread is in `write_log`. -/
inductive WriteLog
  | outside
  /-- `my_tm` is read, and the line is counted next -/
  | stamped (d : Date)
  /-- it has `m_mutex`, `m_fp` is closed, and `fopen` is called next -/
  | opening (d : Date)
  /-- the line is formatted next -/
  | counted
  /-- `log_str` is formatted, and `full` is called next -/
  | formatted (line : Line)
  /-- the queue was not full, and `push` is called next -/
  | pushing (line : Line)
  /-- the queue was full, and `fputs` is called next -/
  | writing (line : Line)

/-- Where the thread of `async_write_log` is. -/
inductive AsyncWriteLog
  /-- it calls `pop` next -/
  | popping
  /-- in the wait of `pop` -/
  | waiting
  /-- `single_log` was popped, and `fputs` is called next -/
  | writing (line : Line)
  /-- `pop` has returned `false` -/
  | ended

structure AsyncLog where
  log : Log
  /-- `m_fp` is an open file -/
  fpOpen : Bool
  mMutex : Option Nat
  mLogQueue : BlockQueue Line
  writers : Nat → WriteLog
  flusher : AsyncWriteLog
  /-- the lines written to `m_fp`, in their order -/
  written : List Line
  /-- the lines formatted so far -/
  formatted : List Line
  /-- the last step was undefined -/
  undefined : Bool

inductive LogStep
  /-- the thread enters `write_log` and reads the time -/
  | call (th : Nat) (d : Date)
  /-- it counts its line, and closes the file when it is time for the next one -/
  | count (th : Nat)
  /-- it opens that file; the result says whether it is `nullptr` -/
  | fopen (th : Nat) (ok : Bool)
  /-- it formats the line -/
  | format (th : Nat) (text : List Byte)
  /-- it calls `full` -/
  | full (th : Nat)
  | push (th : Nat)
  | fputs (th : Nat)
  /-- `async_write_log` calls `pop` -/
  | pop
  /-- its wait returns `ret` -/
  | wake (ret : Int)
  /-- it calls `fputs` -/
  | flush

/-- The lines of one thread. -/
def linesOf (th : Nat) (l : List Line) : List Line := l.filter fun x => x.thread = th

def WriteLog.lines : WriteLog → List Line
  | .outside | .stamped _ | .opening _ | .counted => []
  | .formatted line | .pushing line | .writing line => [line]

def AsyncWriteLog.lines : AsyncWriteLog → List Line
  | .writing line => [line]
  | _ => []

namespace AsyncLog

/-- The state `init` leaves on the day `d`, with a `max_queue_size` of at least 1 and the elements of the new queue. -/
def init (fileName : List Byte) (splitLines : Nat) (d : Date) (maxQueueSize : Int) (cells : List Line) :
    Option AsyncLog := do
  let queue ← BlockQueue.create maxQueueSize cells
  let log ← Log.init fileName splitLines d
  return { log := log, fpOpen := true, mMutex := none, mLogQueue := queue, writers := fun _ => .outside,
           flusher := .popping, written := [], formatted := [], undefined := false }

def setWriter (s : AsyncLog) (th : Nat) (w : WriteLog) : AsyncLog :=
  { s with writers := Function.update s.writers th w }

/-- The step was undefined. -/
def fails (s : AsyncLog) : AsyncLog := { s with undefined := true }

/-- The counting of the line, up to the `fclose` if there is one. -/
def count (s : AsyncLog) (th : Nat) (d : Date) : AsyncLog :=
  let l := { s.log with mCount := s.log.mCount + 1 }
  -- the remainder by `m_split_lines` is computed only when the day is the same
  if s.log.mToday = d.tmMday ∧ s.log.mSplitLines = 0 then s.fails
  else if s.log.Rotates d then
    -- behind an `fopen` that has failed `fclose` gets a null pointer
    if s.fpOpen then { s.setWriter th (.opening d) with log := l, fpOpen := false, mMutex := some th } else s.fails
  else { s.setWriter th .counted with log := l }

/-- `fputs` to `m_fp`, and what follows it. -/
def puts (s : AsyncLog) (line : Line) (next : AsyncLog) : AsyncLog :=
  if s.fpOpen then { next with written := s.written ++ [line] } else s.fails

/-- The loop of `async_write_log` behind a `pop`. -/
def popped (s : AsyncLog) (out : BlockQueue Line × Outcome (QueueResult Line)) : AsyncLog :=
  { s with
    mLogQueue := out.1
    flusher :=
      match out.2 with
      | .waits => .waiting
      | .returns (.item (some line)) => .writing line
      | .returns _ => .ended }

/-- The steps, as long as none was undefined.  Counting, formatting and the direct `fputs` need `m_mutex`. -/
def goesOn (s : AsyncLog) : LogStep → Option AsyncLog
  | .call th d =>
    match s.writers th with
    | .outside => some (s.setWriter th (.stamped d))
    | _ => none
  | .count th =>
    match s.writers th, s.mMutex with
    | .stamped d, none => some (s.count th d)
    | _, _ => none
  | .fopen th ok =>
    match s.writers th with
    | .opening d =>
      match s.log.reopen d with
      | some l => some { s.setWriter th .counted with log := l, fpOpen := ok, mMutex := none }
      | none => some s.fails
    | _ => none
  | .format th text =>
    match s.writers th, s.mMutex with
    | .counted, none =>
      let line : Line := ⟨th, (linesOf th s.formatted).length, text⟩
      some { s.setWriter th (.formatted line) with formatted := s.formatted ++ [line] }
    | _, _ => none
  | .full th =>
    match s.writers th with
    | .formatted line => some (s.setWriter th (if s.mLogQueue.full then .writing line else .pushing line))
    | _ => none
  | .push th =>
    match s.writers th with
    | .pushing line =>
      -- whatever `push` returns, the call is over
      (s.mLogQueue.push line).map fun r => { s.setWriter th .outside with mLogQueue := r.1 }
    | _ => none
  | .fputs th =>
    match s.writers th, s.mMutex with
    | .writing line, none => some (s.puts line (s.setWriter th .outside))
    | _, _ => none
  | .pop =>
    match s.flusher with
    | .popping => s.mLogQueue.pop.map s.popped
    | _ => none
  | .wake ret =>
    match s.flusher with
    | .waiting => (BlockQueue.object.resume s.mLogQueue .pop ret).map s.popped
    | _ => none
  | .flush =>
    match s.flusher with
    | .writing line => some (s.puts line { s with flusher := .popping })
    | _ => none

def step (s : AsyncLog) (e : LogStep) : Option AsyncLog := if s.undefined then none else s.goesOn e

/-- The line of a thread that is in `write_log`. -/
def pending (s : AsyncLog) (th : Nat) : List Line := (s.writers th).lines

/-- The lines on their way through the queue. -/
def inTransit (s : AsyncLog) : List Line := s.flusher.lines ++ s.mLogQueue.items

/-- All calls have returned, and the queue is drained. -/
structure Drained (s : AsyncLog) : Prop where
  returned : ∀ th, s.writers th = .outside
  queue : s.inTransit = []

/-- Every line formatted has been written exactly once, the lines of a thread in the order of its calls, and no step
was undefined. -/
structure Faithful (s : AsyncLog) : Prop where
  once : ∀ x ∈ s.formatted, s.written.count x = 1
  ordered : ∀ th, ((linesOf th s.written).map Line.call).Pairwise (· < ·)
  defined : s.undefined = false

/-- `push` finds room, and a thread does not write past a line of its own. -/
def KeepsOrder (s : AsyncLog) : LogStep → Prop
  | .push _ => s.mLogQueue.full = false
  | .fputs th => linesOf th s.inTransit = []
  | _ => True

/-- The line can be counted: no remainder by zero, and a file that is closed was open. -/
def Countable (s : AsyncLog) (d : Date) : Prop :=
  (s.log.mToday = d.tmMday → s.log.mSplitLines ≠ 0) ∧ (s.log.Rotates d → s.fpOpen = true)

/-- `fputs` finds `m_fp` open, and so does `fclose`. -/
def FindsOpen (s : AsyncLog) : LogStep → Prop
  | .count th =>
    match s.writers th with
    | .stamped d => s.Countable d
    | _ => True
  | .fputs _ => s.fpOpen = true
  | .flush => s.fpOpen = true
  | _ => True

def Orderly (s : AsyncLog) (e : LogStep) : Prop := s.KeepsOrder e ∧ s.FindsOpen e

instance (s : AsyncLog) : ∀ e, Decidable (s.KeepsOrder e)
  | .push _ => inferInstanceAs (Decidable (_ = _))
  | .fputs _ => inferInstanceAs (Decidable (_ = _))
  | .call _ _ | .count _ | .fopen _ _ | .format _ _ | .full _ | .pop | .wake _ | .flush => .isTrue trivial

instance (s : AsyncLog) (d : Date) : Decidable (s.Countable d) :=
  inferInstanceAs (Decidable ((s.log.mToday = d.tmMday → s.log.mSplitLines ≠ 0) ∧
    (s.log.Rotates d → s.fpOpen = true)))

instance (s : AsyncLog) (e : LogStep) : Decidable (s.FindsOpen e) := by
  unfold FindsOpen
  split
  · split <;> infer_instance
  · infer_instance
  · infer_instance
  · infer_instance

instance (s : AsyncLog) (e : LogStep) : Decidable (s.Orderly e) := inferInstanceAs (Decidable (_ ∧ _))

/-! ### One step -/

/-- What a step does to the lines. -/
inductive Effect (s s' : AsyncLog) : LogStep → Prop
  | formats {th : Nat} {line : Line} (thread : line.thread = th) (call : line.call = (linesOf th s.formatted).length)
      {text : List Byte} (none : s.pending th = []) (pending : s'.pending = Function.update s.pending th [line])
      (inTransit : s'.inTransit = s.inTransit) (written : s'.written = s.written)
      (formatted : s'.formatted = s.formatted ++ [line]) : Effect s s' (.format th text)
  | moves {e : LogStep} (notPush : ∀ th, e ≠ .push th) (notFputs : ∀ th, e ≠ .fputs th)
      (pending : s'.pending = s.pending) (inTransit : s'.inTransit = s.inTransit) (written : s'.written = s.written)
      (formatted : s'.formatted = s.formatted) : Effect s s' e
  | pushes {th : Nat} {line : Line} (room : s.mLogQueue.full = false) (mine : s.pending th = [line])
      (pending : s'.pending = Function.update s.pending th []) (inTransit : s'.inTransit = s.inTransit ++ [line])
      (written : s'.written = s.written) (formatted : s'.formatted = s.formatted) : Effect s s' (.push th)
  | drops {th : Nat} {line : Line} (full : s.mLogQueue.full = true) (mine : s.pending th = [line])
      (pending : s'.pending = Function.update s.pending th []) (inTransit : s'.inTransit = s.inTransit)
      (written : s'.written = s.written) (formatted : s'.formatted = s.formatted) : Effect s s' (.push th)
  | puts {th : Nat} {line : Line} (mine : s.pending th = [line])
      (pending : s'.pending = Function.update s.pending th []) (inTransit : s'.inTransit = s.inTransit)
      (written : s'.written = s.written ++ [line]) (formatted : s'.formatted = s.formatted) : Effect s s' (.fputs th)
  | flushes {line : Line} (pending : s'.pending = s.pending) (inTransit : s.inTransit = line :: s'.inTransit)
      (written : s'.written = s.written ++ [line]) (formatted : s'.formatted = s.formatted) : Effect s s' .flush

private theorem pending_setWriter (s : AsyncLog) (th : Nat) (w : WriteLog) :
    (s.setWriter th w).pending = Function.update s.pending th w.lines := by
  funext th'
  by_cases h : th' = th
  · subst h
    simp [pending, setWriter]
  · simp [pending, setWriter, h]

/-- A thread that goes on with the line it has. -/
private theorem pending_setWriter_same {s : AsyncLog} {th : Nat} {w : WriteLog} (h : w.lines = (s.writers th).lines) :
    (s.setWriter th w).pending = s.pending := by
  rw [pending_setWriter, h]
  exact Function.update_eq_self th s.pending

/-- The queue of the log is a ring of `n` cells with something in it. -/
def QueueOk (n : Nat) (s : AsyncLog) : Prop := ∃ l, BlockQueue.Contents n s.mLogQueue l

/-- A step that is defined: it finds the file open if it uses it, and leaves the queue and the names as they have
to be. -/
structure Proceeds (n : Nat) (s s' : AsyncLog) (e : LogStep) : Prop where
  finds : s.FindsOpen e
  defined : s'.undefined = s.undefined
  queue : QueueOk n s'
  named : s'.log.Named
  effect : Effect s s' e

/-- A `pop` moves a line, or none. -/
private theorem popped_effect {n : Nat} {s s' : AsyncLog} {e : LogStep} {l : List Line}
    (hl : BlockQueue.Contents n s.mLogQueue l) (hnamed : s.log.Named) (hidle : s.flusher.lines = [])
    {x : Option (BlockQueue Line × Outcome (QueueResult Line))} {y : List Line × Outcome (QueueResult Line)}
    (hrel : Option.Rel (Same (BlockQueue.Contents n)) x (some y))
    (hy : y = popFirst l ∨ ∃ r, y = (l, .returns (.item r)) ∧ r = none) (hfinds : s.FindsOpen e)
    (notPush : ∀ th, e ≠ .push th) (notFputs : ∀ th, e ≠ .fputs th) (hs : x.map s.popped = some s') :
    Proceeds n s s' e := by
  obtain ⟨out, rfl, rfl⟩ := Option.map_eq_some_iff.1 hs
  cases hrel with
  | some hsame =>
    obtain ⟨hcontents, hout⟩ := hsame
    refine ⟨hfinds, rfl, ⟨_, hcontents⟩, hnamed, .moves notPush notFputs rfl ?_ rfl rfl⟩
    have hitems : (s.popped out).mLogQueue.items = y.1 := hcontents.items_eq
    rw [inTransit, inTransit, hitems, hl.items_eq, hidle]
    simp only [popped, hout]
    rcases hy with rfl | ⟨r, rfl, rfl⟩
    · cases l with
      | nil => rfl
      | cons z l => rfl
    · rfl

/-- A `push` moves the line of its thread into the queue, or the line is gone. -/
private theorem push_effect {n th : Nat} {s s' : AsyncLog} {l : List Line} {line : Line}
    (hl : BlockQueue.Contents n s.mLogQueue l) (hnamed : s.log.Named) (hw : s.writers th = .pushing line)
    (hs : (s.mLogQueue.push line).map (fun r => { s.setWriter th .outside with mLogQueue := r.1 }) = some s') :
    Proceeds n s s' (.push th) := by
  have hmine : s.pending th = [line] := by rw [pending, hw]; rfl
  obtain ⟨r, hr, rfl⟩ := Option.map_eq_some_iff.1 hs
  obtain ⟨hfull, hroom⟩ := hl.push line
  by_cases hn : n ≤ l.length
  · cases (hfull hn).symm.trans hr
    exact ⟨trivial, rfl, ⟨l, hl⟩, hnamed, .drops (hl.full_iff.2 hn) hmine (pending_setWriter s th _) rfl rfl rfl⟩
  · obtain ⟨q', hq', hcontents⟩ := hroom (by omega)
    cases hq'.symm.trans hr
    have hnot : s.mLogQueue.full = false := by
      rw [Bool.eq_false_iff, ne_eq, hl.full_iff]
      exact hn
    refine ⟨trivial, rfl, ⟨_, hcontents⟩, hnamed, .pushes hnot hmine (pending_setWriter s th _) ?_ rfl rfl⟩
    show s.flusher.lines ++ q'.items = (s.flusher.lines ++ s.mLogQueue.items) ++ [line]
    rw [hcontents.items_eq, hl.items_eq, List.append_assoc]

private theorem count_cases {n th : Nat} {s : AsyncLog} {d : Date} (hq : QueueOk n s) (hl : s.log.Named)
    (hw : s.writers th = .stamped d) :
    s.count th d = s.fails ∧ ¬ s.FindsOpen (.count th) ∨ Proceeds n s (s.count th d) (.count th) := by
  have hfinds : s.FindsOpen (.count th) ↔ s.Countable d := by rw [FindsOpen, hw]
  have hnone : ∀ w : WriteLog, w.lines = [] → (s.setWriter th w).pending = s.pending := by
    intro w hlines
    refine pending_setWriter_same ?_
    rw [hw, hlines]
    rfl
  unfold count
  by_cases hzero : s.log.mToday = d.tmMday ∧ s.log.mSplitLines = 0
  · rw [if_pos hzero, hfinds]
    exact Or.inl ⟨rfl, fun hc => hc.1 hzero.1 hzero.2⟩
  rw [if_neg hzero]
  have hne : s.log.mToday = d.tmMday → s.log.mSplitLines ≠ 0 := fun hday hsplit => hzero ⟨hday, hsplit⟩
  by_cases hrot : s.log.Rotates d
  · rw [if_pos hrot]
    by_cases hopen : s.fpOpen = true
    · rw [if_pos hopen]
      right
      exact ⟨hfinds.2 ⟨hne, fun _ => hopen⟩, rfl, hq, hl,
        .moves (by simp) (by simp) (hnone (.opening d) rfl) rfl rfl rfl⟩
    · rw [if_neg hopen, hfinds]
      exact Or.inl ⟨rfl, fun hc => hopen (hc.2 hrot)⟩
  · rw [if_neg hrot]
    right
    exact ⟨hfinds.2 ⟨hne, fun hr => absurd hr hrot⟩, rfl, hq, hl,
      .moves (by simp) (by simp) (hnone .counted rfl) rfl rfl rfl⟩

/-- A step is undefined when it does not find the file open, and proceeds when it does. -/
private theorem goesOn_cases {n : Nat} {s s' : AsyncLog} {e : LogStep} (hq : QueueOk n s) (hnamed : s.log.Named)
    (hs : s.goesOn e = some s') : s' = s.fails ∧ ¬ s.FindsOpen e ∨ Proceeds n s s' e := by
  obtain ⟨l, hl⟩ := hq
  cases e with
  | call th d =>
    simp only [goesOn] at hs
    split at hs
    · have hw := ‹s.writers th = .outside›
      cases hs
      right
      refine ⟨trivial, rfl, ⟨l, hl⟩, hnamed,
        .moves (by simp) (by simp) (pending_setWriter_same ?_) rfl rfl rfl⟩
      rw [hw]
      rfl
    · cases hs
  | count th =>
    simp only [goesOn] at hs
    split at hs
    · cases hs
      exact count_cases ⟨l, hl⟩ hnamed ‹_›
    · cases hs
  | fopen th ok =>
    simp only [goesOn] at hs
    split at hs
    · rename_i d hw
      obtain ⟨log, hlog, hnamed'⟩ := hnamed.reopen d
      rw [hlog] at hs
      cases hs
      right
      have hpending : (s.setWriter th .counted).pending = s.pending := by
        refine pending_setWriter_same ?_
        rw [hw]
        rfl
      exact ⟨trivial, rfl, ⟨l, hl⟩, hnamed', .moves (by simp) (by simp) hpending rfl rfl rfl⟩
    · cases hs
  | format th text =>
    simp only [goesOn] at hs
    split at hs
    · have hw := ‹s.writers th = .counted›
      cases hs
      have hnone : s.pending th = [] := by rw [pending, hw]; rfl
      right
      refine ⟨trivial, rfl, ⟨l, hl⟩, hnamed, .formats ?_ ?_ hnone (pending_setWriter s th _) rfl rfl rfl⟩
      · rfl
      · rfl
    · cases hs
  | full th =>
    simp only [goesOn] at hs
    split at hs
    · have hw := ‹s.writers th = .formatted _›
      cases hs
      right
      refine ⟨trivial, rfl, ⟨l, hl⟩, hnamed,
        .moves (by simp) (by simp) (pending_setWriter_same ?_) rfl rfl rfl⟩
      rw [hw]
      split <;> rfl
    · cases hs
  | push th =>
    simp only [goesOn] at hs
    split at hs
    · exact Or.inr (push_effect hl hnamed ‹_› hs)
    · cases hs
  | fputs th =>
    simp only [goesOn] at hs
    split at hs
    · rename_i line hw _
      have hmine : s.pending th = [line] := by rw [pending, hw]; rfl
      cases hs
      unfold puts
      by_cases hopen : s.fpOpen = true
      · rw [if_pos hopen]
        right
        exact ⟨hopen, rfl, ⟨l, hl⟩, hnamed, .puts hmine (pending_setWriter s th _) rfl rfl rfl⟩
      · rw [if_neg hopen]
        exact Or.inl ⟨rfl, hopen⟩
    · cases hs
  | pop =>
    simp only [goesOn] at hs
    split at hs
    · have hw := ‹s.flusher = .popping›
      exact Or.inr (popped_effect hl hnamed (by rw [hw]; rfl) hl.popFirst (Or.inl rfl) trivial (by simp) (by simp) hs)
    · cases hs
  | wake ret =>
    simp only [goesOn] at hs
    split at hs
    · have hw := ‹s.flusher = .waiting›
      have hrel := (BlockQueue.refines n).resume s.mLogQueue l .pop ret hl
      have hout : (if ret ≠ 0 then (l, .returns (.item none)) else popFirst l) = popFirst l ∨
          ∃ r, (if ret ≠ 0 then (l, .returns (.item none)) else popFirst l) = (l, .returns (.item r)) ∧ r = none := by
        by_cases hret : ret ≠ 0
        · rw [if_pos hret]
          exact Or.inr ⟨none, rfl, rfl⟩
        · rw [if_neg hret]
          exact Or.inl rfl
      exact Or.inr (popped_effect hl hnamed (by rw [hw]; rfl) hrel hout trivial (by simp) (by simp) hs)
    · cases hs
  | flush =>
    simp only [goesOn] at hs
    split at hs
    · rename_i line hw
      cases hs
      have htransit : s.inTransit = line :: s.mLogQueue.items := by rw [inTransit, hw]; rfl
      unfold puts
      by_cases hopen : s.fpOpen = true
      · rw [if_pos hopen]
        right
        exact ⟨hopen, rfl, ⟨l, hl⟩, hnamed, .flushes rfl htransit rfl rfl⟩
      · rw [if_neg hopen]
        exact Or.inl ⟨rfl, hopen⟩
    · cases hs

private theorem step_cases {n : Nat} {s s' : AsyncLog} {e : LogStep} (hq : QueueOk n s) (hnamed : s.log.Named)
    (hs : s.step e = some s') : s.undefined = false ∧ (s' = s.fails ∧ ¬ s.FindsOpen e ∨ Proceeds n s s' e) := by
  unfold step at hs
  split at hs
  · cases hs
  · exact ⟨Bool.eq_false_of_not_eq_true ‹_›, goesOn_cases hq hnamed hs⟩

/-! ### What holds in any case -/

private theorem linesOf_append (th : Nat) (l l' : List Line) : linesOf th (l ++ l') = linesOf th l ++ linesOf th l' :=
  List.filter_append ..

private theorem linesOf_cons (th : Nat) (x : Line) (l : List Line) :
    linesOf th (x :: l) = linesOf th [x] ++ linesOf th l :=
  linesOf_append th [x] l

private theorem linesOf_self {th : Nat} {x : Line} (h : x.thread = th) : linesOf th [x] = [x] := by simp [linesOf, h]

private theorem linesOf_other {th th' : Nat} {x : Line} (h : x.thread = th') (hne : th ≠ th') : linesOf th [x] =
    [] := by
  have hth : x.thread ≠ th := fun he => hne (he.symm.trans h)
  simp [linesOf, hth]

/-- The number of lines of the thread that are written, or will be. -/
def accounted (s : AsyncLog) (th : Nat) : Nat :=
  (linesOf th s.written).length + (linesOf th s.inTransit).length + (s.pending th).length

/-- The invariant of all runs. -/
structure Sound (n : Nat) (s : AsyncLog) : Prop where
  queue : QueueOk n s
  named : s.log.Named
  numbered : ∀ th, (linesOf th s.formatted).map Line.call = List.range (linesOf th s.formatted).length
  last : ∀ th, s.pending th <:+ linesOf th s.formatted
  known : ∀ x ∈ s.written ++ s.inTransit, x ∈ s.formatted
  counted : ∀ th, s.accounted th ≤ (linesOf th s.formatted).length

variable {n : Nat} {s s' : AsyncLog} {e : LogStep}

/-- A thread that is in `write_log` has one line there, of its own. -/
private theorem Sound.mine (h : Sound n s) {th : Nat} {line : Line} (hl : s.pending th = [line]) :
    line.thread = th ∧ line ∈ s.formatted := by
  have hmem : line ∈ linesOf th s.formatted := (h.last th).subset (by simp [hl])
  obtain ⟨hformatted, hth⟩ := List.mem_filter.1 hmem
  exact ⟨of_decide_eq_true hth, hformatted⟩

/-- A step adds no more to the lines accounted for than to those formatted, and `push` on a full queue less. -/
private theorem Effect.balance (h : Sound n s) (he : Effect s s' e) (th : Nat) :
    s'.accounted th + (linesOf th s.formatted).length ≤ s.accounted th + (linesOf th s'.formatted).length ∧
      (e = .push th → s.mLogQueue.full = true →
        s'.accounted th + (linesOf th s.formatted).length < s.accounted th + (linesOf th s'.formatted).length) := by
  unfold accounted
  cases he with
  | @formats th' line thread call text none pending inTransit written formatted =>
    rw [inTransit, written, formatted, pending, linesOf_append, List.length_append]
    by_cases hth : th = th'
    · subst hth
      rw [linesOf_self thread, Function.update_self, none]
      refine ⟨by simp only [List.length_cons, List.length_nil]; omega, by simp⟩
    · rw [Function.update_of_ne hth]
      refine ⟨by omega, by simp⟩
  | moves notPush notFputs pending inTransit written formatted =>
    rw [inTransit, written, formatted, pending]
    refine ⟨by omega, fun hpush => absurd hpush (notPush th)⟩
  | @pushes th' line room mine pending inTransit written formatted =>
    rw [inTransit, written, formatted, pending, linesOf_append, List.length_append, room]
    refine ⟨?_, by simp⟩
    by_cases hth : th = th'
    · subst hth
      rw [linesOf_self (h.mine mine).1, Function.update_self, mine]
      simp only [List.length_cons, List.length_nil]
      omega
    · rw [linesOf_other (h.mine mine).1 hth, Function.update_of_ne hth]
      simp only [List.length_nil]
      omega
  | @drops th' line full mine pending inTransit written formatted =>
    rw [inTransit, written, formatted, pending]
    by_cases hth : th = th'
    · subst hth
      rw [Function.update_self, mine]
      simp only [List.length_cons, List.length_nil]
      omega
    · rw [Function.update_of_ne hth]
      refine ⟨by omega, fun hpush => ?_⟩
      cases hpush
      exact absurd rfl hth
  | @puts th' line mine pending inTransit written formatted =>
    rw [inTransit, written, formatted, pending, linesOf_append, List.length_append]
    refine ⟨?_, by simp⟩
    by_cases hth : th = th'
    · subst hth
      rw [linesOf_self (h.mine mine).1, Function.update_self, mine]
      simp only [List.length_cons, List.length_nil]
      omega
    · rw [linesOf_other (h.mine mine).1 hth, Function.update_of_ne hth]
      simp only [List.length_nil]
      omega
  | @flushes line pending inTransit written formatted =>
    rw [inTransit, written, formatted, pending, linesOf_append, linesOf_cons th line s'.inTransit, List.length_append,
      List.length_append]
    refine ⟨by omega, by simp⟩

/-- The lines written and formatted only become more. -/
private theorem Effect.grows (he : Effect s s' e) : s.written <+: s'.written ∧ s.formatted <+: s'.formatted := by
  cases he with
  | formats _ _ _ _ _ written formatted =>
    rw [written, formatted]
    exact ⟨List.prefix_rfl, List.prefix_append ..⟩
  | moves _ _ _ _ written formatted | pushes _ _ _ _ written formatted | drops _ _ _ _ written formatted =>
    rw [written, formatted]
    exact ⟨List.prefix_rfl, List.prefix_rfl⟩
  | puts _ _ _ written formatted | flushes _ _ written formatted =>
    rw [written, formatted]
    exact ⟨List.prefix_append .., List.prefix_rfl⟩

/-- In the beginning there are no lines. -/
private theorem init_empty {fileName : List Byte} {splitLines : Nat} {d : Date} {cells : List Line} (hn : 0 < n)
    (hc : cells.length = n) (hs : AsyncLog.init fileName splitLines d n cells = some s) :
    QueueOk n s ∧ s.log.Named ∧ s.undefined = false ∧ s.inTransit = [] ∧ s.written = [] ∧ s.formatted = [] ∧
      ∀ th, s.pending th = [] := by
  obtain ⟨q, hq, hcontents⟩ := BlockQueue.contents_create hn hc
  simp only [AsyncLog.init, hq, Option.bind_eq_bind, Option.bind_some, Option.bind_eq_some_iff] at hs
  obtain ⟨l, hl, hs⟩ := hs
  cases hs
  exact ⟨⟨_, hcontents⟩, Log.Named.init hl, rfl, hcontents.items_eq, rfl, rfl, fun th => rfl⟩

private theorem Sound.init {fileName : List Byte} {splitLines : Nat} {d : Date} {cells : List Line} (hn : 0 < n)
    (hc : cells.length = n) (hs : AsyncLog.init fileName splitLines d n cells = some s) : Sound n s := by
  obtain ⟨hqueue, hnamed, -, htransit, hwritten, hformatted, hpending⟩ := init_empty hn hc hs
  refine ⟨hqueue, hnamed, fun th => ?_, fun th => ?_, fun x hx => ?_, fun th => ?_⟩
  · rw [hformatted]
    rfl
  · rw [hpending]
    exact List.nil_suffix
  · rw [hwritten, htransit] at hx
    cases hx
  · rw [accounted, hwritten, htransit, hpending]
    exact Nat.zero_le _

/-- The lines of a thread are numbered in the order in which they are formatted. -/
private theorem Effect.numbered (h : Sound n s) (he : Effect s s' e) (th : Nat) :
    (linesOf th s'.formatted).map Line.call = List.range (linesOf th s'.formatted).length := by
  cases he with
  | @formats th' line thread call _ _ _ _ _ formatted =>
    rw [formatted, linesOf_append]
    by_cases hth : line.thread = th
    · have hcall : line.call = (linesOf th s.formatted).length := by rw [call, ← thread, hth]
      rw [linesOf_self hth, List.map_append, List.length_append, h.numbered th, List.map_singleton, hcall,
        List.length_singleton, List.range_succ]
    · rw [linesOf_other rfl (Ne.symm hth), List.append_nil]
      exact h.numbered th
  | moves _ _ _ _ _ formatted | pushes _ _ _ _ _ formatted | drops _ _ _ _ _ formatted | puts _ _ _ _ formatted
  | flushes _ _ _ formatted =>
    rw [formatted]
    exact h.numbered th

/-- A thread leaves `write_log` with nothing, and comes with the line formatted last. -/
private theorem Effect.last (h : Sound n s) (he : Effect s s' e) (th : Nat) :
    s'.pending th <:+ linesOf th s'.formatted := by
  have hleave : ∀ th', Function.update s.pending th' [] th <:+ linesOf th s.formatted := by
    intro th'
    by_cases hth : th = th'
    · rw [hth, Function.update_self]
      exact List.nil_suffix
    · rw [Function.update_of_ne hth]
      exact h.last th
  cases he with
  | @formats th' line thread call _ _ pending _ _ formatted =>
    rw [pending, formatted, linesOf_append]
    by_cases hth : th = th'
    · subst hth
      rw [Function.update_self, linesOf_self thread]
      exact List.suffix_append ..
    · rw [Function.update_of_ne hth, linesOf_other thread hth, List.append_nil]
      exact h.last th
  | moves _ _ pending _ _ formatted | flushes pending _ _ formatted =>
    rw [pending, formatted]
    exact h.last th
  | pushes _ _ pending _ _ formatted | drops _ _ pending _ _ formatted | puts _ pending _ _ formatted =>
    rw [pending, formatted]
    exact hleave _

/-- No line is written, or in the queue, that was not formatted. -/
private theorem Effect.known (h : Sound n s) (he : Effect s s' e) :
    ∀ x ∈ s'.written ++ s'.inTransit, x ∈ s'.formatted := by
  intro x hx
  cases he with
  | formats _ _ _ _ inTransit written formatted =>
    rw [inTransit, written] at hx
    rw [formatted]
    exact List.mem_append_left _ (h.known x hx)
  | moves _ _ _ inTransit written formatted | drops _ _ _ inTransit written formatted =>
    rw [inTransit, written] at hx
    rw [formatted]
    exact h.known x hx
  | @pushes _ line _ mine _ inTransit written formatted =>
    rw [inTransit, written, ← List.append_assoc, List.mem_append] at hx
    rw [formatted]
    rcases hx with hx | hx
    · exact h.known x hx
    · rw [List.mem_singleton.1 hx]
      exact (h.mine mine).2
  | @puts _ line mine _ inTransit written formatted =>
    rw [inTransit, written, List.append_assoc, List.mem_append, List.singleton_append, List.mem_cons] at hx
    rw [formatted]
    rcases hx with hx | rfl | hx
    · exact h.known x (List.mem_append_left _ hx)
    · exact (h.mine mine).2
    · exact h.known x (List.mem_append_right _ hx)
  | flushes _ inTransit written formatted =>
    rw [written, List.append_assoc, List.singleton_append, ← inTransit] at hx
    rw [formatted]
    exact h.known x hx

private theorem Sound.step (h : Sound n s) (hs : s.step e = some s') : Sound n s' := by
  obtain ⟨-, ⟨rfl, -⟩ | hp⟩ := step_cases h.queue h.named hs
  · exact ⟨h.queue, h.named, h.numbered, h.last, h.known, h.counted⟩
  · have he := hp.effect
    refine ⟨hp.queue, hp.named, he.numbered h, he.last h, he.known h, fun th => ?_⟩
    have hbalance := (he.balance h th).1
    have hcounted := h.counted th
    omega

/-- The lines of a thread are different, and in the order of its calls. -/
private theorem Sound.ordered (h : Sound n s) (th : Nat) :
    ((linesOf th s.formatted).map Line.call).Pairwise (· < ·) := by
  rw [h.numbered th]
  exact List.pairwise_lt_range

private theorem Sound.nodup (h : Sound n s) (th : Nat) : (linesOf th s.formatted).Nodup := by
  refine List.Nodup.of_map Line.call ?_
  rw [h.numbered th]
  exact List.nodup_range

/-- All is written once and in order when the lines written of each thread are those it has formatted. -/
private theorem Sound.faithful_iff_lines (h : Sound n s) :
    s.Faithful ↔ s.undefined = false ∧ ∀ th, linesOf th s.written = linesOf th s.formatted := by
  constructor
  · intro hf
    refine ⟨hf.defined, fun th => ?_⟩
    have hsorted : (linesOf th s.written).Pairwise fun x y => x.call < y.call := List.pairwise_map.1 (hf.ordered th)
    have hsorted' : (linesOf th s.formatted).Pairwise fun x y => x.call < y.call := List.pairwise_map.1 (h.ordered th)
    have hnodup : (linesOf th s.written).Nodup := by
      refine List.Nodup.of_map Line.call ?_
      exact (hf.ordered th).imp fun hlt => Nat.ne_of_lt hlt
    refine List.Perm.eq_of_pairwise ?_ hsorted hsorted' ?_
    · intro x y _ _ hxy hyx
      omega
    · rw [List.perm_ext_iff_of_nodup hnodup (h.nodup th)]
      intro x
      simp only [linesOf, List.mem_filter]
      refine and_congr_left fun _ => ⟨fun hx => h.known x (List.mem_append_left _ hx), fun hx => ?_⟩
      exact List.count_pos_iff.1 (by rw [hf.once x hx]; exact Nat.one_pos)
  · rintro ⟨hdefined, heq⟩
    refine ⟨fun x hx => ?_, fun th => by rw [heq th]; exact h.ordered th, hdefined⟩
    have hcount : ∀ l : List Line, (linesOf x.thread l).count x = l.count x := fun l => List.count_filter (by simp)
    have hmem : x ∈ linesOf x.thread s.formatted := List.mem_filter.2 ⟨hx, by simp⟩
    rw [← hcount, heq, List.count_eq_one_of_mem (h.nodup x.thread) hmem]

/-! ### Orderly runs -/

/-- The lines of each thread are written, or on their way, in the order of its calls. -/
def InOrder (s : AsyncLog) : Prop :=
  ∀ th, linesOf th s.formatted = linesOf th s.written ++ linesOf th s.inTransit ++ s.pending th

private theorem InOrder.init {fileName : List Byte} {splitLines : Nat} {d : Date} {cells : List Line} (hn : 0 < n)
    (hc : cells.length = n) (hs : AsyncLog.init fileName splitLines d n cells = some s) : s.InOrder := by
  obtain ⟨-, -, -, htransit, hwritten, hformatted, hpending⟩ := init_empty hn hc hs
  intro th
  rw [hformatted, hwritten, htransit, hpending]
  rfl

private theorem Effect.inOrder (h : Sound n s) (hin : s.InOrder) (hc : s.KeepsOrder e) (he : Effect s s' e) :
    s'.InOrder := by
  intro th
  have hth := hin th
  cases he with
  | @formats th' line thread call text none pending inTransit written formatted =>
    rw [inTransit, written, formatted, pending, linesOf_append, hth]
    by_cases heq : th = th'
    · subst heq
      rw [linesOf_self thread, Function.update_self, none, List.append_nil]
    · rw [linesOf_other thread heq, Function.update_of_ne heq, List.append_nil]
  | moves notPush notFputs pending inTransit written formatted =>
    rw [inTransit, written, formatted, pending, hth]
  | @pushes th' line room mine pending inTransit written formatted =>
    rw [inTransit, written, formatted, pending, linesOf_append, hth]
    by_cases heq : th = th'
    · subst heq
      rw [linesOf_self (h.mine mine).1, Function.update_self, mine, List.append_nil, List.append_assoc]
    · rw [linesOf_other (h.mine mine).1 heq, Function.update_of_ne heq, List.append_nil]
  | drops full => exact absurd full (Bool.eq_false_iff.1 hc)
  | @puts th' line mine pending inTransit written formatted =>
    rw [inTransit, written, formatted, pending, linesOf_append, hth]
    by_cases heq : th = th'
    · subst heq
      -- nothing of this thread is in the queue
      have hnone : linesOf th s.inTransit = [] := hc
      rw [linesOf_self (h.mine mine).1, Function.update_self, mine, hnone, List.append_nil, List.append_nil,
        List.append_nil]
    · rw [linesOf_other (h.mine mine).1 heq, Function.update_of_ne heq, List.append_nil]
  | @flushes line pending inTransit written formatted =>
    rw [written, formatted, pending, linesOf_append, hth, inTransit, linesOf_cons,
      List.append_assoc _ _ (linesOf th _)]

/-! ### Other runs -/

/-- A line is lost, or written too early. -/
def Broken (s : AsyncLog) : Prop :=
  ∃ th, s.accounted th < (linesOf th s.formatted).length ∨ ¬ linesOf th s.written <+: linesOf th s.formatted

/-- It stays so. -/
private theorem Effect.broken (h : Sound n s) (he : Effect s s' e) (hb : s.Broken) : s'.Broken := by
  obtain ⟨th, hth⟩ := hb
  refine ⟨th, ?_⟩
  rcases hth with hlost | hearly
  · have hbalance := (he.balance h th).1
    left
    omega
  · right
    intro hprefix
    apply hearly
    obtain ⟨hwritten, hformatted⟩ := he.grows
    have hle : (linesOf th s.written).length ≤ (linesOf th s.formatted).length := by
      have hcounted := h.counted th
      unfold accounted at hcounted
      omega
    exact List.prefix_of_prefix_length_le ((hwritten.filter _).trans hprefix) (hformatted.filter _) hle

/-- A `push` without room loses a line, and a line written too early comes before one of its thread. -/
private theorem Effect.breaks (h : Sound n s) (he : Effect s s' e) (hc : ¬ s.KeepsOrder e) : s'.Broken := by
  cases e with
  | push th =>
    have hfull : s.mLogQueue.full = true := by
      rw [KeepsOrder, Bool.not_eq_false] at hc
      exact hc
    have hbalance := (he.balance h th).2 rfl hfull
    have hcounted := h.counted th
    exact ⟨th, Or.inl (by omega)⟩
  | fputs th =>
    cases he with
    | moves _ notFputs => exact absurd rfl (notFputs th)
    | @puts _ line mine pending inTransit written formatted =>
      refine ⟨th, Or.inr fun hprefix => ?_⟩
      obtain ⟨y, hy⟩ := List.exists_mem_of_ne_nil _ hc
      -- the line `y` was formatted before `line`, and is not written yet
      obtain ⟨before, hbefore⟩ := h.last th
      rw [mine] at hbefore
      have hlen : (linesOf th s.written).length + (linesOf th s.inTransit).length + 1 ≤ before.length + 1 := by
        have hcounted := h.counted th
        rw [accounted, mine, ← hbefore, List.length_append] at hcounted
        exact hcounted
      have hpos : 0 < (linesOf th s.inTransit).length := List.length_pos_of_mem hy
      rw [written, formatted, linesOf_append, linesOf_self (h.mine mine).1, ← hbefore] at hprefix
      have hshort : linesOf th s.written ++ [line] <+: before := by
        refine List.prefix_of_prefix_length_le hprefix (List.prefix_append ..) ?_
        rw [List.length_append, List.length_singleton]
        omega
      have hmem : line ∈ before := hshort.subset (by simp)
      have hnodup := h.nodup th
      rw [← hbefore, List.nodup_append] at hnodup
      exact hnodup.2.2 line hmem line (by simp) rfl
  | call | count | fopen | format | full | pop | wake | flush => exact absurd trivial hc

/-- A step that is not orderly breaks it, or is undefined. -/
private theorem Sound.breaks (h : Sound n s) (hs : s.step e = some s') (hc : ¬ s.Orderly e) :
    s'.undefined = true ∨ s'.Broken := by
  obtain ⟨-, ⟨rfl, -⟩ | hp⟩ := step_cases h.queue h.named hs
  · exact Or.inl rfl
  · exact Or.inr (hp.effect.breaks h fun hk => hc ⟨hk, hp.finds⟩)

private theorem Sound.broken (h : Sound n s) (hs : s.step e = some s') (hb : s.undefined = true ∨ s.Broken) :
    s'.undefined = true ∨ s'.Broken := by
  obtain ⟨hdefined, ⟨rfl, -⟩ | hp⟩ := step_cases h.queue h.named hs
  · exact Or.inl rfl
  · refine Or.inr (hp.effect.broken h (hb.resolve_left fun hu => ?_))
    rw [hdefined] at hu
    cases hu

end AsyncLog

open AsyncLog in
/-- When all calls have returned and the queue is drained, or a step was undefined: every line has been written once
and in the order of the calls, and no step was undefined, exactly when every `push` has found room, no thread has
written a line to the file while another one of its lines was on its way through the queue, and `m_fp` was open
whenever it was written to or closed. -/
theorem AsyncLog.faithful_iff {n : Nat} (hn : 0 < n) {cells : List Line} (hc : cells.length = n)
    {fileName : List Byte} {splitLines : Nat} {d : Date} {s t : AsyncLog}
    (hs : AsyncLog.init fileName splitLines d n cells = some s) {es : List LogStep}
    (h : run AsyncLog.step s es = some t) (ht : t.Drained ∨ t.undefined = true) :
    t.Faithful ↔ Meets AsyncLog.step Orderly s es := by
  have hinit := Sound.init hn hc hs
  have hsound : Sound n t := run_invariant (fun s e s' h _ hs => h.step hs) hinit Meets.trivial h
  rw [hsound.faithful_iff_lines]
  have hdrained : t.undefined = false → (∀ th, linesOf th t.inTransit = []) ∧ ∀ th, t.pending th = [] := by
    intro hdefined
    have hd : t.Drained := ht.resolve_right (by simp [hdefined])
    exact ⟨fun th => by rw [hd.queue]; rfl, fun th => by rw [pending, hd.returned th]; rfl⟩
  constructor
  · rintro ⟨hdefined, heq⟩
    obtain ⟨hnone, hreturned⟩ := hdrained hdefined
    rcases @occurs_or_meets _ _ AsyncLog.step (fun s e => ¬ s.Orderly e) s es with ho | hm
    · have hbroken : t.undefined = true ∨ t.Broken :=
        Occurs.persists (P := Sound n) (fun s e s' h hs => h.step hs) (fun s e s' h hc hs => h.breaks hs hc)
          (fun s e s' h hb hs => h.broken hs hb) hinit ho h
      obtain ⟨th, hlost | hearly⟩ := hbroken.resolve_left (by simp [hdefined])
      · rw [accounted, hnone, hreturned, heq th] at hlost
        simp at hlost
      · rw [heq th] at hearly
        exact absurd List.prefix_rfl hearly
    · exact hm.imp fun s e => not_not.1
  · intro hm
    have hin : Sound n t ∧ t.InOrder ∧ t.undefined = false := by
      refine run_invariant (P := fun s => Sound n s ∧ s.InOrder ∧ s.undefined = false) ?_
        ⟨hinit, .init hn hc hs, (init_empty hn hc hs).2.2.1⟩ hm h
      intro s e s' ⟨hsound, hinOrder, hdefined⟩ hc hstep
      obtain ⟨-, ⟨-, hnot⟩ | hp⟩ := step_cases hsound.queue hsound.named hstep
      · exact absurd hc.2 hnot
      · exact ⟨hsound.step hstep, hp.effect.inOrder hsound hinOrder hc.1, hp.defined.trans hdefined⟩
    obtain ⟨-, hinOrder, hdefined⟩ := hin
    obtain ⟨hnone, hreturned⟩ := hdrained hdefined
    refine ⟨hdefined, fun th => ?_⟩
    have hth := hinOrder th
    rw [hnone, hreturned, List.append_nil, List.append_nil] at hth
    exact hth.symm

def someDay : Date := ⟨124, 2, 5⟩

/-- A first line goes through the queue of one element.  The second thread opens the next file, finds the queue full
and writes its line itself. -/
def bothRoutes : List LogStep :=
  [.call 0 someDay, .count 0, .format 0 (lit "a"), .full 0, .push 0,
    .call 1 someDay, .count 1, .fopen 1 true, .format 1 (lit "b"), .full 1, .fputs 1, .pop, .flush, .pop]

theorem AsyncLog.faithful_iff_bothRoutes :
    ∃ s, AsyncLog.init (lit "log") 2 someDay 1 [⟨0, 0, []⟩] = some s ∧
      ∃ t, run AsyncLog.step s bothRoutes = some t ∧ t.Faithful := by
  refine ⟨_, rfl, ?_⟩
  refine exists_run (by decide +kernel) fun t ht => ?_
  have hdrained : t.Drained := by
    obtain rfl := Option.some.inj ht
    refine ⟨fun th => ?_, rfl⟩
    match th with
    | 0 => rfl
    | 1 => rfl
    | _ + 2 => rfl
  have hiff := @AsyncLog.faithful_iff 1 Nat.one_pos [⟨0, 0, []⟩] rfl (lit "log") 2 someDay _ t rfl bothRoutes ht
    (Or.inl hdrained)
  exact hiff.2 (by decide +kernel)

/-- Both threads find the queue not full, and there is room for one line. -/
def secondDropped : List LogStep :=
  [.call 0 someDay, .count 0, .format 0 (lit "a"), .call 1 someDay, .count 1, .format 1 (lit "b"),
    .full 0, .full 1, .push 0, .push 1, .pop, .flush, .pop]

/-- The thread finds the queue full and writes its second line past the first one. -/
def secondOvertakes : List LogStep :=
  [.call 0 someDay, .count 0, .format 0 (lit "a"), .full 0, .push 0,
    .call 0 someDay, .count 0, .format 0 (lit "b"), .full 0, .fputs 0, .pop, .flush, .pop]

/-- The second call has closed the file and not opened the next one when the first line comes out of the queue. -/
def writesClosed : List LogStep :=
  [.call 0 someDay, .count 0, .format 0 (lit "a"), .full 0, .push 0, .pop,
    .call 1 someDay, .count 1, .flush]

/-- A line is lost in the first run; in the second one the two lines are written the other way round; in the third one
a line is written to a file that is closed. -/
theorem AsyncLog.secondDropped_not_faithful :
    (∃ s, AsyncLog.init (lit "log") 10 someDay 1 [⟨0, 0, []⟩] = some s ∧
      (∃ t, run AsyncLog.step s secondDropped = some t ∧ t.Drained ∧ ¬ t.Faithful) ∧
      ∃ t, run AsyncLog.step s secondOvertakes = some t ∧ t.Drained ∧ ¬ t.Faithful) ∧
    ∃ s, AsyncLog.init (lit "log") 2 someDay 1 [⟨0, 0, []⟩] = some s ∧
      ∃ t, run AsyncLog.step s writesClosed = some t ∧ t.undefined = true ∧ t.written = [] ∧ ¬ t.Faithful := by
  refine ⟨⟨_, rfl, ?_, ?_⟩, _, rfl, ?_⟩
  · refine ⟨_, rfl, ⟨fun th => ?_, rfl⟩, fun hf => ?_⟩
    · match th with
      | 0 => rfl
      | 1 => rfl
      | _ + 2 => rfl
    · have honce := hf.once ⟨1, 0, lit "b"⟩ (by decide +kernel)
      exact absurd honce (by decide +kernel)
  · refine ⟨_, rfl, ⟨fun th => ?_, rfl⟩, fun hf => ?_⟩
    · match th with
      | 0 => rfl
      | _ + 1 => rfl
    · exact absurd (hf.ordered 0) (by decide +kernel)
  · refine ⟨_, rfl, rfl, rfl, fun hf => ?_⟩
    exact absurd hf.defined (by decide +kernel)

end ImageServer
