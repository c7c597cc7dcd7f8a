import ImageServer.Server.IdleTimers

/-!
# The path of the alarm signal

An alarm is one byte that the handler of `SIGALRM` sends into `alarmfd[1]`; its arrival at `alarmfd[0]`, which is
registered with `EPOLLET`, is reported once, and `testing_` then calls `timeout` and sets the next alarm.  Nobody
receives the byte, so the bytes stay in the socket pair, and when it is full `send` fails without anybody noticing.
So there is one alarm on its way at any time until the handler has run once more than the socket pair holds bytes, and
from then on `timeout` is never called again (`alarmPath_run`).
-/

namespace ImageServer

open Transition

namespace Server

/-- The server with its alarm: `alarm` is set (`armed`), the bytes in the socket pair (`sent`), and an arrival that
epoll has not reported yet (`edge`).  The runs of the handler of `SIGALRM` and the returns of `timeout` are counted. -/
structure Signalled where
  server : Server
  armed : Bool
  sent : Nat
  edge : Bool
  signals : Nat
  timeouts : Nat

inductive SignalLabel
  /-- `SIGALRM` is delivered and `sig_handler` runs -/
  | sigalrm
  | server (l : Label)

/-- The alarms in the batch that is handled. -/
def alarmsWaiting (s : Server) : Nat := s.events.countP fun e => e.fd = s.alarmfd

/-- `epoll_wait` reports an arrival at `alarmfd[0]`. -/
def reportsAlarm (s : Server) : Label → Bool
  | .epollWait evs => evs.any fun e => e.fd = s.alarmfd
  | _ => false

/-- The state when `testing_` is called: the constructor of `ClientPool` has set the first alarm. -/
def Signalled.start (c : Setup) : Signalled := ⟨c.start, true, 0, false, 0, 0⟩

/-- `sig_handler` on `SIGALRM`, with room for `capacity` bytes in the socket pair. -/
def Signalled.sigHandler (capacity : Nat) (v : Signalled) : Signalled :=
  if v.sent < capacity then { v with armed := false, signals := v.signals + 1, sent := v.sent + 1, edge := true }
  else { v with armed := false, signals := v.signals + 1 }

/-- The server has made the step `l` to `s`: a reported arrival is not reported again, and behind `timeout` the next
alarm is set. -/
def Signalled.moved (v : Signalled) (l : Label) (s : Server) : Signalled :=
  { v with
    server := s
    edge := v.edge && !v.server.reportsAlarm l
    armed := v.armed || v.server.alarms l && s.stop.isNone
    timeouts := v.timeouts + (v.server.alarms l && s.stop.isNone).toNat }

def Signalled.step (rm : RemoveFd) (capacity : Nat) (v : Signalled) : SignalLabel → Option Signalled
  | .sigalrm => if v.armed = true ∧ v.server.stop = none then some (v.sigHandler capacity) else none
  | .server l =>
    if v.server.reportsAlarm l = true → v.edge = true then (v.server.step rm l).map (v.moved l) else none

/-! ### The invariant -/

/-- Each byte sent has led to a return of `timeout` or is on its way to one, and a signal whose byte is lost has found
the socket pair full.  The alarm is set, or its byte is on its way, unless the byte is lost. -/
structure OneAlarm (capacity : Nat) (v : Signalled) : Prop where
  distinct : v.server.own.Nodup
  room : v.sent ≤ capacity
  sent : v.sent = v.timeouts + v.edge.toNat + v.server.alarmsWaiting
  lost : v.signals = v.sent ∨ v.signals = v.sent + 1 ∧ v.sent = capacity
  one : v.armed.toNat + v.edge.toNat + v.server.alarmsWaiting + (v.signals - v.sent) = 1

private theorem oneAlarm_start (capacity : Nat) (c : Setup) : OneAlarm capacity (Signalled.start c) where
  distinct := c.distinct
  room := Nat.zero_le _
  sent := rfl
  lost := Or.inl rfl
  one := rfl

private theorem OneAlarm.sigHandler {capacity : Nat} {v : Signalled} (h : OneAlarm capacity v) (ha : v.armed = true) :
    OneAlarm capacity (v.sigHandler capacity) := by
  have hone := h.one
  have hsent := h.sent
  have hlost := h.lost
  have hroom := h.room
  rw [ha, Bool.toNat_true] at hone
  have hedge : v.edge = false := by
    cases he : v.edge with
    | false => rfl
    | true => rw [he, Bool.toNat_true] at hone; omega
  rw [hedge, Bool.toNat_false] at hone hsent
  unfold Signalled.sigHandler
  split
  · refine ⟨h.distinct, by dsimp only; omega, ?_, ?_, ?_⟩ <;> dsimp only
    · rw [Bool.toNat_true]; omega
    · omega
    · rw [Bool.toNat_true, Bool.toNat_false]; omega
  · refine ⟨h.distinct, hroom, ?_, ?_, ?_⟩ <;> dsimp only
    · rw [hedge, Bool.toNat_false]; omega
    · omega
    · rw [hedge, Bool.toNat_false]; omega

/-- The event loop takes the first event from the batch. -/
private theorem Step.dispatched {rm : RemoveFd} {s s' : Server} {o : Answers} (h : Step rm s (.dispatch o) s') :
    ∃ e es, s.events = e :: es ∧ s'.events = es := by
  cases h with
  | ignored he | opened he | sslFailed he | term he | hangUp he => exact ⟨_, _, he, rfl⟩
  | timeout he _ ht =>
    obtain ⟨_, _, _, _, rfl⟩ := timeout_frame ht
    exact ⟨_, _, he, rfl⟩
  | readable he =>
    unfold append
    split <;> exact ⟨_, _, he, rfl⟩

/-- A batch holds an alarm once at most. -/
private theorem countP_fd {evs : List Event} (h : (evs.map Event.fd).Nodup) (fd : Nat) :
    evs.countP (fun e => e.fd = fd) = (evs.any fun e => e.fd = fd).toNat := by
  have hcount : evs.countP (fun e => e.fd = fd) = (evs.map Event.fd).count fd := by
    rw [List.count, List.countP_map]
    exact List.countP_congr fun e _ => by simp
  rw [hcount, h.count]
  by_cases hm : fd ∈ evs.map Event.fd
  · obtain ⟨e, he, hfd⟩ := List.mem_map.1 hm
    rw [if_pos hm, List.any_eq_true.2 ⟨e, he, decide_eq_true hfd⟩, Bool.toNat_true]
  · have hany : (evs.any fun e => e.fd = fd) = false :=
      List.any_eq_false.2 fun e he hfd => hm (of_decide_eq_true hfd ▸ List.mem_map_of_mem he)
    rw [if_neg hm, hany, Bool.toNat_false]

/-- A step that does not end the process: what becomes of the alarms in the batch. -/
private theorem alarmsWaiting_step {rm : RemoveFd} {s s' : Server} {l : Label} (hd : s.own.Nodup)
    (h : Step rm s l s') :
    s'.alarmsWaiting + (s.alarms l).toNat = s.alarmsWaiting + (s.reportsAlarm l).toNat := by
  have hfd : s'.alarmfd = s.alarmfd := by
    have := h.batch.1
    simp only [own, List.cons.injEq] at this
    exact this.2.2.1
  cases l with
  | dispatch o =>
    obtain ⟨e, es, he, hes⟩ := h.dispatched
    have hhead : s.alarms (.dispatch o) = decide (e.fd = s.alarmfd) := by
      simp only [own, List.nodup_cons, List.mem_cons, not_or] at hd
      simp only [alarms, he, List.head?_cons, Option.any_some, decide_eq_decide, and_iff_left_iff_imp]
      intro ha
      exact ⟨fun hl => hd.1.2.1 (hl.symm.trans ha), fun hl => hd.2.1.1 (hl.symm.trans ha)⟩
    rw [hhead, alarmsWaiting, alarmsWaiting, hes, hfd, he, List.countP_cons]
    by_cases ha : e.fd = s.alarmfd <;> simp [ha, reportsAlarm]
  | epollWait evs =>
    cases h with
    | epollWait _ hev hnd _ =>
      show evs.countP (fun e => e.fd = s.alarmfd) + 0 = s.events.countP _ + (evs.any fun e => e.fd = s.alarmfd).toNat
      rw [countP_fd hnd, hev, List.countP_nil, Nat.add_zero, Nat.zero_add]
  | take | getConnection | process | releaseConnection =>
    have hev : s'.events = s.events := by cases h <;> rfl
    rw [alarmsWaiting, alarmsWaiting, hev, hfd]
    rfl

private theorem OneAlarm.moved {rm : RemoveFd} {capacity : Nat} {v : Signalled} {l : Label} {s : Server}
    (h : OneAlarm capacity v) (hreport : v.server.reportsAlarm l = true → v.edge = true)
    (hs : v.server.step rm l = some s) : OneAlarm capacity (v.moved l s) := by
  have hsent := h.sent
  have hlost := h.lost
  have hone := h.one
  obtain ⟨-, ⟨why, heff, rfl⟩ | ⟨-, hstep⟩⟩ := step_cases hs
  · -- the process ends, and nothing is reported or set
    have hl : v.server.reportsAlarm l = false := by
      obtain ⟨o, rfl⟩ | ⟨w, i, rfl⟩ := effect_error heff <;> rfl
    have hm : v.moved l { v.server with stop := some why } =
        { v with server := { v.server with stop := some why } } := by
      simp [Signalled.moved, hl]
    rw [hm]
    exact ⟨h.distinct, h.room, hsent, hlost, hone⟩
  · have hwaits := alarmsWaiting_step h.distinct hstep
    have hgo : s.stop.isNone = true := by
      rw [hstep.goesOn.1, (step_cases hs).1]
      rfl
    have hedge : (v.edge && !v.server.reportsAlarm l).toNat + (v.server.reportsAlarm l).toNat = v.edge.toNat := by
      cases hr : v.server.reportsAlarm l with
      | false => simp
      | true => rw [hreport hr]; rfl
    have harmed : (v.armed || v.server.alarms l).toNat = v.armed.toNat + (v.server.alarms l).toNat := by
      cases ha : v.server.alarms l with
      | false => simp
      | true =>
        -- the alarm that is handled was the one on its way
        have hr : v.server.reportsAlarm l = false := by
          obtain ⟨o, -, -, rfl, -⟩ := alarms_cases ha
          rfl
        rw [ha, hr, Bool.toNat_true, Bool.toNat_false] at hwaits
        have hnot : v.armed = false := Bool.toNat_eq_zero.1 (by omega)
        rw [hnot]
        rfl
    have hown : s.own.Nodup := hstep.batch.1 ▸ h.distinct
    unfold Signalled.moved
    rw [hgo, Bool.and_true]
    refine ⟨hown, h.room, ?_, hlost, ?_⟩ <;> dsimp only <;> omega

/-! ### Runs -/

private theorem OneAlarm.of_step {rm : RemoveFd} {capacity : Nat} {v v' : Signalled} {l : SignalLabel}
    (h : OneAlarm capacity v) (hs : v.step rm capacity l = some v') : OneAlarm capacity v' := by
  cases l with
  | sigalrm =>
    simp only [Signalled.step] at hs
    split at hs
    · rename_i ha
      exact Option.some.inj hs ▸ h.sigHandler ha.1
    · cases hs
  | server l =>
    simp only [Signalled.step] at hs
    split at hs
    · obtain ⟨s, hstep, rfl⟩ := Option.map_eq_some_iff.1 hs
      exact h.moved ‹_› hstep
    · cases hs

theorem oneAlarm_run {rm : RemoveFd} {capacity : Nat} {c : Setup} {ls : List SignalLabel} {v : Signalled}
    (h : run (Signalled.step rm capacity) (Signalled.start c) ls = some v) : OneAlarm capacity v :=
  run_invariant (P := OneAlarm capacity) (fun _ _ _ hv _ hs => hv.of_step hs) (oneAlarm_start capacity c)
    Meets.trivial h

/-- Whatever happens, `timeout` returns no more often than the socket pair holds bytes.  As long as the handler of
`SIGALRM` has not run more often than that, there is one alarm set or on its way; after that there is none, no
signal comes any more and no alarm is handled. -/
theorem alarmPath_run {rm : RemoveFd} {capacity : Nat} {c : Setup} {ls : List SignalLabel} {v : Signalled}
    (h : run (Signalled.step rm capacity) (Signalled.start c) ls = some v) :
    v.timeouts ≤ capacity ∧ v.signals ≤ capacity + 1 ∧
      (v.signals ≤ capacity → v.armed.toNat + v.edge.toNat + v.server.alarmsWaiting = 1) ∧
      (v.signals = capacity + 1 → v.step rm capacity .sigalrm = none ∧ ∀ l, v.server.alarms l = false) := by
  have hv := oneAlarm_run h
  have hroom := hv.room
  have hsent := hv.sent
  have hlost := hv.lost
  have hone := hv.one
  refine ⟨by omega, by omega, fun _ => by omega, fun hall => ⟨?_, fun l => ?_⟩⟩
  · have hnot : v.armed = false := Bool.toNat_eq_zero.1 (by omega)
    unfold Signalled.step
    exact if_neg (by simp [hnot])
  · rw [Bool.eq_false_iff]
    intro ha
    obtain ⟨o, e, es, rfl, he, hfd, -⟩ := alarms_cases ha
    have hwaits : 0 < v.server.alarmsWaiting :=
      List.countP_pos_iff.2 ⟨e, he ▸ List.mem_cons_self .., decide_eq_true hfd⟩
    omega

/-- A socket pair with room for one byte: the second alarm is lost. -/
def losesAlarm : List SignalLabel :=
  [.sigalrm, .server (.epollWait [.input 15 none]), .server (.dispatch ⟨5, none, .succeeds⟩), .sigalrm]

theorem alarmPath_run_lost :
    ∃ v, run (Signalled.step .returning 1) (Signalled.start .default) losesAlarm = some v ∧
      v.timeouts ≤ 1 ∧ v.signals ≤ 1 + 1 ∧
      (v.signals ≤ 1 → v.armed.toNat + v.edge.toNat + v.server.alarmsWaiting = 1) ∧
      (v.signals = 1 + 1 → v.step .returning 1 .sigalrm = none ∧ ∀ l, v.server.alarms l = false) :=
  exists_run (by decide +kernel) fun _ hv => alarmPath_run hv

end Server

end ImageServer
