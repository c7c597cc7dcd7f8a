import ImageServer.Log.Front

/-!
# Waiting with a timeout

`pop` with a timeout, called by one thread while the others work on the queue and the clock goes on.  The deadline has
the timeout's part of a second in microseconds where nanoseconds are due, and leaves the microseconds of the start time
out; behind its only wait the call tests the queue once, and after a time-out not at all.  So it can give up before its
time is over, and with an element in the queue.  `waitsFull_iff` says in which runs it does not.
-/

namespace ImageServer

open Monitor Transition

structure Timeval where
  tvSec : Int
  tvUsec : Int
  deriving DecidableEq

structure Timespec where
  tvSec : Int
  tvNsec : Int
  deriving DecidableEq

/-- The time of day at a number of nanoseconds. -/
def timeOfDay (clock : Nat) : Timeval := ⟨clock / 1000000000, clock % 1000000000 / 1000⟩

def Timespec.nanoseconds (t : Timespec) : Int := t.tvSec * 1000000000 + t.tvNsec

def Timeval.nanoseconds (t : Timeval) : Int := t.tvSec * 1000000000 + t.tvUsec * 1000

/-- What a wait returns when its time is over. -/
def ETIMEDOUT : Int := 110

/-- Where the call is. -/
inductive Popping (T : Type)
  /-- it calls `gettimeofday` next -/
  | entered
  /-- it takes the mutex next -/
  | started
  /-- in `pthread_cond_timedwait` -/
  | waiting
  /-- the wait is over and gives `ret`, as soon as it has the mutex again -/
  | woken (ret : Int)
  /-- it has returned, with the value of the reference argument or with `false` -/
  | returned (item : Option T)
  deriving DecidableEq

structure TimedPop (T : Type) where
  queue : BlockQueue T
  /-- in nanoseconds -/
  clock : Nat
  msTimeout : Int
  now : Timeval
  /-- the deadline, once the wait has been called -/
  t : Option Timespec
  pc : Popping T
  /-- when another thread last had the empty queue; this is not in the program -/
  filled : Nat

inductive TimedStep (T : Type)
  | tick (ns : Nat)
  /-- another thread's operation -/
  | other (op : QueueOp T)
  | gettimeofday
  /-- it takes the mutex, and goes on to its return or to the wait -/
  | lock
  /-- a signal, the deadline, or no reason at all ends the wait -/
  | wake
  /-- it has the mutex again, and goes on to its return -/
  | relock

namespace TimedPop

variable {T : Type}

/-- The call at a time on the clock. -/
def call (queue : BlockQueue T) (clock : Nat) (msTimeout : Int) : TimedPop T :=
  { queue, clock, msTimeout, now := ⟨0, 0⟩, t := none, pc := .entered, filled := clock }

/-- The value of `t` for the wait. -/
def timespec (s : TimedPop T) : Timespec := ⟨s.now.tvSec + s.msTimeout.tdiv 1000, s.msTimeout.tmod 1000 * 1000⟩

/-- How it goes on with the mutex. -/
def locked (s : TimedPop T) (out : BlockQueue T × Outcome (QueueResult T)) : TimedPop T :=
  match out.2 with
  | .waits => { s with queue := out.1, t := some s.timespec, pc := .waiting }
  | .returns (.item x) => { s with queue := out.1, pc := .returned x }
  | .returns _ => { s with queue := out.1, pc := .returned none }

/-- The wait ends with an error when the clock has reached the deadline. -/
def waitResult (s : TimedPop T) : Int :=
  if ∃ t ∈ s.t, t.nanoseconds ≤ s.clock then ETIMEDOUT else 0

/-- The steps up to the return of the call. -/
def step (s : TimedPop T) (e : TimedStep T) : Option (TimedPop T) :=
  match s.pc, e with
  | .returned _, _ => none
  | _, .tick ns => some { s with clock := s.clock + ns }
  | _, .other op =>
    (s.queue.change op).map fun queue =>
      { s with queue, filled := if s.queue.mSize ≤ 0 then s.clock else s.filled }
  | .entered, .gettimeofday => some { s with now := timeOfDay s.clock, pc := .started }
  | .started, .lock => s.queue.pop.map s.locked
  | .waiting, .wake => some { s with pc := .woken s.waitResult }
  | .woken ret, .relock => (BlockQueue.object.resume s.queue (.popTimed s.msTimeout) ret).map s.locked
  | _, _ => none

/-- The time the call has to wait for. -/
def deadline (s : TimedPop T) : Int := s.now.nanoseconds + s.msTimeout * 1000000

/-- The queue is empty at the time `d` or later. -/
def EmptyFrom (d : Int) (s : TimedPop T) (_ : TimedStep T) : Prop := s.queue.mSize ≤ 0 ∧ d ≤ s.clock

/-- The wait is given the right deadline. -/
def Passes (s : TimedPop T) : Prop :=
  ∀ t ∈ s.t, t.nanoseconds = s.deadline ∧ 0 ≤ t.tvNsec ∧ t.tvNsec < 1000000000

/-- The call waits its full time in the run `ls` from `s₀` to `s`. -/
structure WaitsFull (s₀ : TimedPop T) (ls : List (TimedStep T)) (s : TimedPop T) : Prop where
  passes : s.Passes
  /-- `false` is for a queue that has been empty when the time was over -/
  fails : s.pc = .returned none → Occurs step (EmptyFrom s.deadline) s₀ ls
  /-- what has been pushed before, and is not taken by another thread, is returned -/
  keeps : ∀ ls₁ ls₂ s₁, ls = ls₁ ++ ls₂ → run step s₀ ls₁ = some s₁ → 0 < s₁.queue.mSize → s₁.clock < s.deadline →
    (∀ op, .other op ∈ ls₂ → ∃ x, op = .push x) → s.pc ≠ .returned none

/-- The wait, if there is one, is from a full second on for full seconds.  Behind it there is an element, and the wait
has not failed; or the queue is empty and the time is over; or the queue was filled when the time was over. -/
def Undisturbed (s : TimedPop T) : TimedStep T → Prop
  | .lock => 0 < s.queue.mSize ∨ (s.now.tvUsec = 0 ∧ s.msTimeout % 1000 = 0)
  | .relock =>
    if 0 < s.queue.mSize then s.pc = .woken 0 ∨ s.deadline ≤ s.filled
    else s.deadline ≤ s.clock
  | _ => True

instance [DecidableEq T] (s : TimedPop T) : ∀ e, Decidable (s.Undisturbed e)
  | .lock => inferInstanceAs (Decidable (_ ∨ _))
  | .relock => inferInstanceAs (Decidable (ite _ _ _))
  | .tick _ | .other _ | .gettimeofday | .wake => .isTrue True.intro

/-! ### What a step does -/

/-- The steps one by one, as `step_moves` has them. -/
inductive Moves (s : TimedPop T) : TimedStep T → TimedPop T → Prop
  | tick (ns : Nat) : Moves s (.tick ns) { s with clock := s.clock + ns }
  | other (op : QueueOp T) (queue : BlockQueue T) (h : s.queue.change op = some queue) :
    Moves s (.other op) { s with queue, filled := if s.queue.mSize ≤ 0 then s.clock else s.filled }
  | gettimeofday (hpc : s.pc = .entered) : Moves s .gettimeofday { s with now := timeOfDay s.clock, pc := .started }
  | waits (hpc : s.pc = .started) (hsize : s.queue.mSize ≤ 0) :
    Moves s .lock { s with t := some s.timespec, pc := .waiting }
  | takes (hpc : s.pc = .started) (hsize : 0 < s.queue.mSize) (queue : BlockQueue T) (x : T) :
    Moves s .lock { s with queue, pc := .returned (some x) }
  | wake (hpc : s.pc = .waiting) : Moves s .wake { s with pc := .woken s.waitResult }
  | givesUp (ret : Int) (hpc : s.pc = .woken ret) (hout : ret ≠ 0 ∨ s.queue.mSize ≤ 0) :
    Moves s .relock { s with pc := .returned none }
  | takesAfter (hpc : s.pc = .woken 0) (hsize : 0 < s.queue.mSize) (queue : BlockQueue T) (x : T) :
    Moves s .relock { s with queue, pc := .returned (some x) }

private theorem step_moves {s s' : TimedPop T} {e : TimedStep T} (h : s.step e = some s') :
    Moves s e s' ∧ ∀ item, s.pc ≠ .returned item := by
  refine ⟨?_, fun item hpc => by simp [step, hpc] at h⟩
  unfold step at h
  split at h
  case h_1 => cases h
  case h_2 ns _ =>
    cases h
    exact .tick ns
  case h_3 op _ =>
    obtain ⟨queue, hq, rfl⟩ := Option.map_eq_some_iff.1 h
    exact .other op queue hq
  case h_4 hpc =>
    cases h
    exact .gettimeofday hpc
  case h_5 hpc =>
    obtain ⟨out, hout, rfl⟩ := Option.map_eq_some_iff.1 h
    unfold BlockQueue.pop at hout
    split at hout
    · rename_i hsize
      cases hout
      exact .waits hpc hsize
    · rename_i hsize
      obtain ⟨r, -, rfl⟩ := Option.map_eq_some_iff.1 hout
      exact .takes hpc (by omega) r.1 r.2
  case h_6 hpc =>
    cases h
    exact .wake hpc
  case h_7 ret hpc =>
    obtain ⟨out, hout, rfl⟩ := Option.map_eq_some_iff.1 h
    simp only [BlockQueue.object, BlockQueue.popAgain] at hout
    by_cases hret : ret = 0
    · subst hret
      rw [if_neg (not_not_intro rfl)] at hout
      split at hout
      · rename_i hsize
        cases hout
        exact .givesUp 0 hpc (.inr hsize)
      · rename_i hsize
        obtain ⟨r, -, rfl⟩ := Option.map_eq_some_iff.1 hout
        exact .takesAfter hpc (by omega) r.1 r.2
    · rw [if_pos hret] at hout
      cases hout
      exact .givesUp ret hpc (.inl hret)
  case h_8 => cases h

/-! ### What holds during the call -/

def InWait (s : TimedPop T) : Prop := s.pc = .waiting ∨ ∃ ret, s.pc = .woken ret

/-- What there is to know after the steps `ls` from `s₀` on. -/
structure Underway (s₀ : TimedPop T) (ls : List (TimedStep T)) (s : TimedPop T) : Prop where
  timeout : 0 ≤ s.msTimeout
  now : 0 ≤ s.now.tvUsec
  before : s.pc = .entered ∨ s.pc = .started → s.t = none
  passed : s.InWait → s.t = some s.timespec
  failed : ∀ ret, s.pc = .woken ret → ret ≠ 0 → s.timespec.nanoseconds ≤ s.clock
  reached : ∀ d, Occurs step (EmptyFrom d) s₀ ls → d ≤ s.clock
  /-- the queue has been empty in the wait, so it was filled after it has been empty last -/
  filled : s.InWait → 0 < s.queue.mSize → ∀ d, Occurs step (EmptyFrom d) s₀ ls ↔ d ≤ s.filled

private theorem underway_call (queue : BlockQueue T) (clock : Nat) {ms : Int} (hms : 0 ≤ ms) :
    Underway (.call queue clock ms) [] (.call queue clock ms) := by
  have hno : ¬ (call queue clock ms).InWait := by
    rintro (h | ⟨ret, h⟩) <;> cases h
  exact ⟨hms, le_rfl, fun _ => rfl, fun h => (hno h).elim, nofun, fun _ h => h.elim, fun h => (hno h).elim⟩

private theorem Underway.returned {s₀ s : TimedPop T} {ls ks : List (TimedStep T)} (h : Underway s₀ ls s)
    (hreach : ∀ d, Occurs step (EmptyFrom d) s₀ ks → d ≤ s.clock) (queue : BlockQueue T) (item : Option T) :
    Underway s₀ ks { s with queue, pc := .returned item } := by
  refine ⟨h.timeout, h.now, ?_, ?_, nofun, hreach, ?_⟩
  · rintro (hb | hb) <;> cases hb
  · rintro (hw | ⟨ret, hw⟩) <;> cases hw
  · rintro (hw | ⟨ret, hw⟩) <;> cases hw

private theorem Underway.step {s₀ s s' : TimedPop T} {ls : List (TimedStep T)} {e : TimedStep T} (h : Underway s₀ ls s)
    (hrun : run TimedPop.step s₀ ls = some s) (he : s.step e = some s') : Underway s₀ (ls ++ [e]) s' := by
  have hreach : ∀ d, Occurs TimedPop.step (EmptyFrom d) s₀ (ls ++ [e]) → d ≤ s.clock := by
    intro d ho
    rcases (occurs_concat e hrun).1 ho with ho | ho
    · exact h.reached d ho
    · exact ho.2
  have hsame : 0 < s.queue.mSize → ∀ d, Occurs TimedPop.step (EmptyFrom d) s₀ (ls ++ [e]) ↔
      Occurs TimedPop.step (EmptyFrom d) s₀ ls := by
    intro hsize d
    rw [occurs_concat e hrun]
    exact or_iff_left fun ho => absurd ho.1 (by omega)
  obtain ⟨hm, -⟩ := step_moves he
  cases hm with
  | tick ns =>
    refine ⟨h.timeout, h.now, h.before, h.passed, fun ret hpc hret => ?_, fun d ho => ?_, fun hw hsize d => ?_⟩
    · have hle := h.failed ret hpc hret
      change s.timespec.nanoseconds ≤ ((s.clock + ns : Nat) : Int)
      omega
    · have hle := hreach d ho
      change d ≤ ((s.clock + ns : Nat) : Int)
      omega
    · rw [hsame hsize d]
      exact h.filled hw hsize d
  | other op queue hq =>
    refine ⟨h.timeout, h.now, h.before, h.passed, h.failed, hreach, fun hw hsize d => ?_⟩
    by_cases hempty : s.queue.mSize ≤ 0
    · change _ ↔ d ≤ ((if s.queue.mSize ≤ 0 then s.clock else s.filled : Nat) : Int)
      rw [if_pos hempty, occurs_concat _ hrun]
      exact ⟨fun ho => ho.elim (h.reached d) And.right, fun hle => .inr ⟨hempty, hle⟩⟩
    · change _ ↔ d ≤ ((if s.queue.mSize ≤ 0 then s.clock else s.filled : Nat) : Int)
      rw [if_neg hempty, hsame (by omega) d]
      exact h.filled hw (by omega) d
  | gettimeofday hpc =>
    refine ⟨h.timeout, ?_, fun _ => h.before (.inl hpc), ?_, nofun, hreach, ?_⟩
    · change 0 ≤ ((s.clock : Int) % 1000000000 / 1000)
      omega
    · rintro (hw | ⟨ret, hw⟩) <;> cases hw
    · rintro (hw | ⟨ret, hw⟩) <;> cases hw
  | waits hpc hsize =>
    refine ⟨h.timeout, h.now, ?_, fun _ => rfl, nofun, hreach, fun _ hpos => absurd hpos (not_lt.2 hsize)⟩
    rintro (hb | hb) <;> cases hb
  | takes hpc hsize queue x => exact h.returned hreach queue (some x)
  | wake hpc =>
    have hw : s.InWait := .inl hpc
    refine ⟨h.timeout, h.now, ?_, fun _ => h.passed hw, ?_, hreach, fun _ hsize d => ?_⟩
    · rintro (hb | hb) <;> cases hb
    · intro ret hret hne
      cases hret
      unfold waitResult at hne
      split at hne
      · rename_i hex
        obtain ⟨t, ht, hle⟩ := hex
        cases (h.passed hw).symm.trans ht
        exact hle
      · exact absurd rfl hne
    · rw [hsame hsize d]
      exact h.filled hw hsize d
  | givesUp ret hpc hout => exact h.returned hreach s.queue none
  | takesAfter hpc hsize queue x => exact h.returned hreach queue (some x)

theorem underway_run {queue : BlockQueue T} {clock : Nat} {ms : Int} (hms : 0 ≤ ms) {ls : List (TimedStep T)}
    {s : TimedPop T} (h : run step (call queue clock ms) ls = some s) : Underway (call queue clock ms) ls s :=
  run_history (underway_call queue clock hms) (fun _ _ _ _ hrun hu he => hu.step hrun he) h

/-- The deadline is the right one without microseconds in the start time and a part of a second in the timeout. -/
private theorem timespec_right {s : TimedPop T} (hms : 0 ≤ s.msTimeout) (hnow : 0 ≤ s.now.tvUsec) :
    (s.timespec.nanoseconds = s.deadline ∧ 0 ≤ s.timespec.tvNsec ∧ s.timespec.tvNsec < 1000000000) ↔
      s.now.tvUsec = 0 ∧ s.msTimeout % 1000 = 0 := by
  simp only [timespec, Timespec.nanoseconds, deadline, Timeval.nanoseconds, Int.tdiv_eq_ediv_of_nonneg hms,
    Int.tmod_eq_emod_of_nonneg hms]
  omega

private theorem passes_of_none {s : TimedPop T} (h : s.t = none) : s.Passes := by
  intro t ht
  cases h.symm.trans ht

private theorem change_push_size {q q' : BlockQueue T} {x : T} (h : q.change (.push x) = some q') :
    q.mSize ≤ q'.mSize := by
  obtain ⟨⟨q₁, ok⟩, hpush, rfl⟩ := Option.map_eq_some_iff.1 h
  unfold BlockQueue.push at hpush
  split at hpush
  · cases hpush
    exact le_rfl
  · obtain ⟨i, -, he⟩ := Option.bind_eq_some_iff.1 hpush
    cases he
    change q.mSize ≤ q.mSize + 1
    omega

/-- While the other threads only push, a queue with an element stays so up to the return of the call. -/
private theorem not_emptyFrom {d : Int} {s t : TimedPop T} {ls : List (TimedStep T)} (h : run step s ls = some t)
    (hsize : 0 < s.queue.mSize) (hpush : ∀ op, .other op ∈ ls → ∃ x, op = .push x) :
    ¬ Occurs step (EmptyFrom d) s ls := by
  induction ls generalizing s with
  | nil => exact id
  | cons e ls ih =>
    obtain ⟨s', he, hrun⟩ := run_cons h
    rintro (ho | ⟨s'', he', ho⟩)
    · exact absurd ho.1 (not_le.2 hsize)
    · cases he.symm.trans he'
      have hrest : ∀ op, .other op ∈ ls → ∃ x, op = .push x := fun op hop => hpush op (.tail e hop)
      -- a run does not go on behind the return
      have hend : ∀ item, s'.pc = .returned item → False := by
        intro item hpc
        cases ls with
        | nil => exact ho
        | cons e' ls =>
          obtain ⟨s₂, he₂, -⟩ := run_cons hrun
          exact (step_moves he₂).2 item hpc
      obtain ⟨hm, -⟩ := step_moves he
      cases hm with
      | tick ns => exact ih hrun hsize hrest ho
      | other op queue hq =>
        obtain ⟨x, rfl⟩ := hpush op (.head ls)
        exact ih hrun (hsize.trans_le (change_push_size hq)) hrest ho
      | gettimeofday hpc => exact ih hrun hsize hrest ho
      | waits hpc hempty => exact ih hrun hsize hrest ho
      | takes hpc hpos queue x => exact hend (some x) rfl
      | wake hpc => exact ih hrun hsize hrest ho
      | givesUp ret hpc hout => exact hend none rfl
      | takesAfter hpc hpos queue x => exact hend (some x) rfl

/-- That an element pushed in time is returned follows from the rest. -/
private theorem waitsFull_iff_fails {queue : BlockQueue T} {clock : Nat} {ms : Int} (hms : 0 ≤ ms)
    {ls : List (TimedStep T)} {s : TimedPop T} (h : run step (call queue clock ms) ls = some s) :
    WaitsFull (call queue clock ms) ls s ↔
      s.Passes ∧ (s.pc = .returned none → Occurs step (EmptyFrom s.deadline) (call queue clock ms) ls) := by
  refine ⟨fun hw => ⟨hw.passes, hw.fails⟩, fun ⟨hpasses, hfails⟩ => ⟨hpasses, hfails, ?_⟩⟩
  intro ls₁ ls₂ s₁ hls h₁ hsize hclock hpush hpc
  subst hls
  have h₂ : run step s₁ ls₂ = some s := by
    rw [run_append, h₁] at h
    exact h
  rcases (occurs_append ls₂ h₁).1 (hfails hpc) with ho | ho
  · exact absurd ((underway_run hms h₁).reached _ ho) (not_le.2 hclock)
  · exact not_emptyFrom h₂ hsize hpush ho

/-- A call that gives up has had the empty queue in time exactly when it was undisturbed. -/
private theorem Underway.givesUp_iff {s₀ s : TimedPop T} {ls : List (TimedStep T)} (hu : Underway s₀ ls s)
    (h : run TimedPop.step s₀ ls = some s) {ret : Int} (hwoken : s.pc = .woken ret)
    (hout : ret ≠ 0 ∨ s.queue.mSize ≤ 0) :
    Occurs TimedPop.step (EmptyFrom s.deadline) s₀ (ls ++ [.relock]) ↔ s.Undisturbed .relock := by
  rw [occurs_concat .relock h]
  by_cases hsize : 0 < s.queue.mSize
  · -- so the wait has failed, and the queue was last empty when it was filled
    have hret : s.pc ≠ .woken 0 := by
      rw [hwoken]
      rintro ⟨⟩
      exact hout.elim (fun hne => hne rfl) (not_le.2 hsize)
    change _ ↔ if _ then _ else _
    rw [if_pos hsize, or_iff_right hret, ← hu.filled (.inr ⟨ret, hwoken⟩) hsize]
    exact or_iff_left fun ho => absurd ho.1 (not_le.2 hsize)
  · change _ ↔ if _ then _ else _
    rw [if_neg hsize]
    exact ⟨fun ho => ho.elim (hu.reached _) And.right, fun hle => .inr ⟨not_lt.1 hsize, hle⟩⟩

/-- One step more. -/
private theorem waitsFull_concat {queue : BlockQueue T} {clock : Nat} {ms : Int} (hms : 0 ≤ ms)
    {ls : List (TimedStep T)} {s s' : TimedPop T} {e : TimedStep T} (h : run step (call queue clock ms) ls = some s)
    (he : s.step e = some s') :
    WaitsFull (call queue clock ms) (ls ++ [e]) s' ↔ WaitsFull (call queue clock ms) ls s ∧ s.Undisturbed e := by
  have hu := underway_run hms h
  have h' : run step (call queue clock ms) (ls ++ [e]) = some s' := by
    rw [run_append, h]
    simp only [Option.bind_some, run, he]
  obtain ⟨hm, hpc⟩ := step_moves he
  rw [waitsFull_iff_fails hms h, waitsFull_iff_fails hms h', and_iff_left fun hnone => absurd hnone (hpc none)]
  cases hm with
  | tick ns =>
    exact and_congr_right fun _ => iff_of_true (fun hnone => absurd hnone (hpc none)) trivial
  | other op queue' hq =>
    exact and_congr_right fun _ => iff_of_true (fun hnone => absurd hnone (hpc none)) trivial
  | gettimeofday hentered =>
    have hnone : s.t = none := hu.before (.inl hentered)
    refine and_congr (iff_of_true ?_ (passes_of_none hnone)) (iff_of_true (fun hnone => by cases hnone) trivial)
    exact passes_of_none (s := { s with now := timeOfDay s.clock, pc := .started }) hnone
  | waits hstarted hsize =>
    have hpasses : s.Passes := passes_of_none (hu.before (.inr hstarted))
    have hright : Passes { s with t := some s.timespec, pc := .waiting } ↔
        s.now.tvUsec = 0 ∧ s.msTimeout % 1000 = 0 := by
      rw [← timespec_right hu.timeout hu.now]
      exact ⟨fun hp => hp _ rfl, fun hp t ht => Option.some.inj ht ▸ hp⟩
    rw [hright, and_iff_left (fun hnone => by cases hnone), and_iff_right hpasses]
    exact (or_iff_right (not_lt.2 hsize)).symm
  | takes hstarted hsize queue' x =>
    exact and_congr_right fun _ => iff_of_true (fun hnone => by cases hnone) (.inl hsize)
  | wake hwaiting => exact and_congr_right fun _ => iff_of_true (fun hnone => by cases hnone) trivial
  | givesUp ret hwoken hout =>
    refine and_congr_right fun _ => ?_
    rw [forall_prop_of_true rfl]
    exact hu.givesUp_iff h hwoken hout
  | takesAfter hwoken hsize queue' x =>
    refine and_congr_right fun _ => iff_of_true (fun hnone => by cases hnone) ?_
    change if _ then _ else _
    rw [if_pos hsize]
    exact .inl hwoken

/-- A run in which the call waits its full time. -/
theorem waitsFull_iff {queue : BlockQueue T} {clock : Nat} {ms : Int} (hms : 0 ≤ ms) {ls : List (TimedStep T)}
    {s : TimedPop T} (h : run step (call queue clock ms) ls = some s) :
    WaitsFull (call queue clock ms) ls s ↔ Meets step Undisturbed (call queue clock ms) ls := by
  refine run_history (P := fun ls s => WaitsFull (call queue clock ms) ls s ↔
    Meets step Undisturbed (call queue clock ms) ls) ?_ ?_ h
  · rw [waitsFull_iff_fails hms rfl]
    exact iff_of_true ⟨(fun t ht => by cases ht), fun hnone => by cases hnone⟩ trivial
  · intro ls u e u' hu ih he
    rw [waitsFull_concat hms hu he, ih, meets_concat e hu]

theorem waitsFull_iff_pushed : ∃ q s, BlockQueue.create 2 [0, 0] = some q ∧
    run step (call q 5000000000 2000) [.gettimeofday, .lock, .tick 1000000000, .other (.push 7), .wake, .relock] =
      some s ∧
    s.pc = .returned (some 7) ∧ WaitsFull (call q 5000000000 2000)
      [.gettimeofday, .lock, .tick 1000000000, .other (.push 7), .wake, .relock] s := by
  have hrun : run step (call (⟨[0, 0], 0, 2, -1, -1⟩ : BlockQueue Nat) 5000000000 2000)
      [.gettimeofday, .lock, .tick 1000000000, .other (.push 7), .wake, .relock] =
      some ⟨⟨[7, 0], 0, 2, 0, 0⟩, 6000000000, 2000, ⟨5, 0⟩, some ⟨7, 0⟩, .returned (some 7), 6000000000⟩ := rfl
  exact ⟨_, _, rfl, hrun, rfl, (waitsFull_iff (by decide) hrun).2 (by decide +kernel)⟩

/-- A call for a second and a half gives up after 1.1 seconds. -/
theorem not_waitsFull_partOfSecond : ∃ q s, BlockQueue.create 2 [0, 0] = some q ∧
    run step (call q 5000000000 1500) [.gettimeofday, .lock, .tick 1100000000, .wake, .relock] = some s ∧
    s.t = some ⟨6, 500000⟩ ∧ s.deadline = 6500000000 ∧ s.pc = .returned none ∧ s.clock = 6100000000 ∧
    ¬ WaitsFull (call q 5000000000 1500) [.gettimeofday, .lock, .tick 1100000000, .wake, .relock] s := by
  have hrun : run step (call (⟨[0, 0], 0, 2, -1, -1⟩ : BlockQueue Nat) 5000000000 1500)
      [.gettimeofday, .lock, .tick 1100000000, .wake, .relock] =
      some ⟨⟨[0, 0], 0, 2, -1, -1⟩, 6100000000, 1500, ⟨5, 0⟩, some ⟨6, 500000⟩, .returned none, 5000000000⟩ := rfl
  refine ⟨_, _, rfl, hrun, rfl, rfl, rfl, rfl, fun hw => ?_⟩
  exact absurd (hw.passes _ rfl).1 (by decide)

end TimedPop

end ImageServer
