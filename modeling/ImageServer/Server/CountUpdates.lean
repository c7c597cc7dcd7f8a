import ImageServer.Server.UserCount
import Mathlib.Algebra.BigOperators.Group.List.Basic
import Mathlib.Algebra.Order.Group.Int
import Mathlib.Data.Int.Basic

/-!
# The updates of the count

`m_user_count` is a static `int` that the event loop and the workers change without a lock, and a `++` or `--` is a
load and a store.  `Counting` lets a step of the server leave its updates to be made, each by the thread of the step
before it does anything else (`Counting.step`).  When nobody stores between the load and the store of an update
(`Undisturbed`), the count is the number of open connections as soon as no update is left (`userCount_run`).
-/

namespace ImageServer

open Transition

/-- The thread of the step: a worker, or the one of `testing_`. -/
def Label.thread : Label → Option Nat
  | .epollWait _ => none
  | .dispatch _ => none
  | .take w => some w
  | .getConnection w => some w
  | .process w _ => some w
  | .releaseConnection w => some w

/-- A `m_user_count++` or `m_user_count--` that a thread has still to make. -/
structure CountUpdate where
  thread : Option Nat
  delta : Int
deriving DecidableEq

/-- The updates that change the count by `n`. -/
def CountUpdate.by (thread : Option Nat) (n : Int) : List CountUpdate :=
  List.replicate n.natAbs ⟨thread, n.sign⟩

private theorem CountUpdate.sum_by (thread : Option Nat) (n : Int) :
    ((CountUpdate.by thread n).map CountUpdate.delta).sum = n := by
  rw [CountUpdate.by, List.map_replicate, List.sum_replicate, nsmul_eq_mul, mul_comm]
  exact Int.sign_mul_natAbs n

/-- The server with the updates of `m_user_count` as loads and stores. -/
structure Counting where
  /-- its `userCount` is what the memory holds -/
  server : Server
  /-- the updates that are not stored yet -/
  updates : List CountUpdate
  /-- what a thread has loaded for its first update -/
  loaded : Option Nat → Option Int

inductive CountLabel
  | server (l : Label)
  | load (thread : Option Nat)
  | store (thread : Option Nat)

namespace Counting

def start (c : Setup) : Counting := ⟨c.start, [], fun _ => none⟩

/-- The server when the memory holds `n`. -/
def holding (s : Server) (n : Int) : Server := { s with userCount := n }

def step (s : Counting) : CountLabel → Option Counting
  | .server l =>
    if ∀ u ∈ s.updates, u.thread ≠ l.thread then
      (s.server.step .onOpen l).map fun t =>
        { s with
          server := holding t s.server.userCount
          updates := s.updates ++ CountUpdate.by l.thread (t.userCount - s.server.userCount) }
    else none
  | .load th =>
    if s.server.stop = none ∧ (∃ u ∈ s.updates, u.thread = th) ∧ s.loaded th = none then
      some { s with loaded := Function.update s.loaded th (some s.server.userCount) }
    else none
  | .store th =>
    match s.updates.find? (·.thread = th), s.loaded th with
    | some u, some n =>
      if s.server.stop = none then
        some
          { server := holding s.server (n + u.delta)
            updates := s.updates.erase u
            loaded := Function.update s.loaded th none }
      else none
    | _, _ => none

/-- When an update is stored, the count is still what was loaded for it. -/
def Undisturbed (s : Counting) : CountLabel → Prop
  | .store th => s.loaded th = some s.server.userCount
  | _ => True

instance (s : Counting) (l : CountLabel) : Decidable (s.Undisturbed l) := by
  cases l <;> unfold Undisturbed <;> infer_instance

/-- What the updates that are left come to. -/
def due (s : Counting) : Int := (s.updates.map CountUpdate.delta).sum

/-- The count is right but for the updates that are left. -/
structure Balanced (s : Counting) : Prop where
  wellFormed : s.server.WellFormed
  balance : s.server.userCount + s.due = s.server.openConns.length

private theorem wellFormed_holding {s : Server} (h : s.WellFormed) (n : Int) : (holding s n).WellFormed :=
  h.mono (h.toSockets.frame rfl rfl fun _ => rfl) (fun _ => id) h.timers h.queue (fun _ => Or.inl) (fun _ => id) rfl

private theorem Balanced.start (c : Setup) : (Counting.start c).Balanced where
  wellFormed := Server.wellFormed_start c
  balance := rfl

/-- What a step of the server does to the number of open connections is left to be added to the count. -/
private theorem Balanced.server {s s' : Counting} {l : Label} (h : s.Balanced) (hs : s.step (.server l) = some s') :
    s'.Balanced := by
  simp only [step] at hs
  split at hs
  · obtain ⟨t, ht, rfl⟩ := Option.map_eq_some_iff.1 hs
    refine ⟨wellFormed_holding (h.wellFormed.of_step ht) _, ?_⟩
    have hdeficit := Server.deficit_step h.wellFormed ht
    have hbalance := h.balance
    have hconns : (holding t s.server.userCount).openConns = t.openConns := rfl
    simp only [due, List.map_append, List.sum_append, CountUpdate.sum_by, hconns] at hbalance ⊢
    unfold Server.deficit at hdeficit
    show s.server.userCount + _ = _
    omega
  · cases hs

private theorem Balanced.load {s s' : Counting} {th : Option Nat} (h : s.Balanced) (hs : s.step (.load th) = some s') :
    s'.Balanced := by
  simp only [step] at hs
  split at hs
  · cases hs
    exact ⟨h.wellFormed, h.balance⟩
  · cases hs

/-- An update of which nobody has disturbed the load is made as if it were one step. -/
private theorem Balanced.store {s s' : Counting} {th : Option Nat} (h : s.Balanced) (hu : s.Undisturbed (.store th))
    (hs : s.step (.store th) = some s') : s'.Balanced := by
  simp only [step] at hs
  split at hs
  · rename_i u n hfind hloaded
    split at hs
    · cases hs
      cases hloaded.symm.trans hu
      refine ⟨wellFormed_holding h.wellFormed _, ?_⟩
      have hmem : u ∈ s.updates := List.mem_of_find?_eq_some hfind
      have hsum := List.sum_map_erase CountUpdate.delta hmem
      have hbalance := h.balance
      have hconns : ∀ n, (holding s.server n).openConns = s.server.openConns := fun _ => rfl
      simp only [due, hconns] at hbalance ⊢
      show s.server.userCount + u.delta + _ = _
      omega
    · cases hs
  · cases hs

theorem Balanced.step {s s' : Counting} {l : CountLabel} (h : s.Balanced) (hu : s.Undisturbed l)
    (hs : s.step l = some s') : s'.Balanced := by
  cases l with
  | server l => exact h.server hs
  | load th => exact h.load hs
  | store th => exact h.store hu hs

/-- In a run in which no update is disturbed the count is that of the open connections whenever no update is left. -/
theorem userCount_run {c : Setup} {ls : List CountLabel} {t : Counting} (h : run step (start c) ls = some t)
    (hu : Meets step Undisturbed (start c) ls) (hleft : t.updates = []) :
    t.server.userCount = t.server.openConns.length := by
  have hb : t.Balanced := run_invariant (fun _ _ _ hb hu hs => hb.step hu hs) (Balanced.start c) hu h
  have hbalance := hb.balance
  rw [due, hleft] at hbalance
  simpa using hbalance

end Counting

namespace Server

/-- A call of `process()` on an open connection closes it once and is silent from then on exactly when it does not
close it in `read_`; and over a run in which no update of `m_user_count` is disturbed it is the number of open
connections whenever no update is under way. -/
theorem closesOnce_iff {h : HttpHandler} {users : Users} {n : Int} {is : List ProcInput} {call : Call} {c : Setup}
    {ls : List CountLabel} {t : Counting} (hio : h.ioFd ≠ none)
    (hcall : run Call.step (Call.start h users n) is = some call) (hbegun : call.phase ≠ some .enter)
    (hend : call.phase ≠ some .parse) (hrun : run Counting.step (Counting.start c) ls = some t) :
    (call.ClosedOnce n ↔ h.readIdx < READ_BUFFER_SIZE ∧ ∀ i ∈ is, i.endsRead = false) ∧
      (Meets Counting.step Counting.Undisturbed (Counting.start c) ls → t.updates = [] →
        t.server.userCount = t.server.openConns.length) := by
  constructor
  · exact Call.closedOnce_of_call hio hcall hbegun hend
  · exact Counting.userCount_run hrun

/-- Two workers answer the first two connections, on which `x` has been sent, and both write calls fail. -/
def bothRefused : List Label :=
  [.take 0, .getConnection 0] ++ HttpHandler.badRequest.map (.process 0) ++
    [.take 1, .getConnection 1] ++ HttpHandler.badRequest.map (.process 1) ++
    [.process 0 (.wrote .fail), .process 1 (.wrote .fail)]

/-- Two clients connect and send `x`, and both connections are closed at the same time. -/
def bothClose : List CountLabel :=
  [.server (.epollWait [.input 14 none]), .server (.dispatch ⟨0, some 19, .succeeds⟩), .load none, .store none,
    .server (.epollWait [.input 14 none]), .server (.dispatch ⟨0, some 20, .succeeds⟩), .load none, .store none,
    .server (.epollWait [.input 19 (some 0), .input 20 (some 1)]),
    .server (.dispatch ⟨1, none, .succeeds⟩), .server (.dispatch ⟨1, none, .succeeds⟩)] ++
  bothRefused.map .server

/-- One of the calls by itself, and both with one update of the count after the other. -/
theorem closesOnce_iff_bothClose :
    (∃ c, run Call.step (Call.start (.fresh 19 (some 0) .httpClient none) (fun _ => none) 2)
        (HttpHandler.badRequest ++ [.wrote .fail]) = some c ∧ c.ClosedOnce 2) ∧
      ∃ t, run Counting.step (Counting.start .default)
          (bothClose ++ [.load (some 0), .store (some 0), .load (some 1), .store (some 1)]) = some t ∧
        t.server.userCount = t.server.openConns.length := by
  have hcall : ((run Call.step (Call.start (.fresh 19 (some 0) .httpClient none) (fun _ => none) 2)
      (HttpHandler.badRequest ++ [.wrote .fail])).map Call.phase) = some (some .done) := by decide +kernel
  obtain ⟨call, hcall, hphase⟩ := Option.map_eq_some_iff.1 hcall
  have hrun : ((run Counting.step (Counting.start .default)
      (bothClose ++ [.load (some 0), .store (some 0), .load (some 1), .store (some 1)])).map Counting.updates) =
        some [] := by decide +kernel
  obtain ⟨t, ht, hleft⟩ := Option.map_eq_some_iff.1 hrun
  obtain ⟨honce, hcount⟩ := closesOnce_iff (by decide +kernel) hcall (by simp [hphase]) (by simp [hphase]) ht
  exact ⟨⟨call, hcall, honce.2 (by decide +kernel)⟩, t, ht, hcount (by decide +kernel) hleft⟩

/-- The client shuts the connection down before it sends anything. -/
def shutDown : List ProcInput := [.tau, .recv .eof, .parse noFiles .eagain, .tau, .wrote .fail]

/-- A connection closed while it is read is parsed and answered all the same; and of two workers that close their
connections at the same time one update of the count is lost. -/
theorem shutDown_notSilent :
    (∃ c, run Call.step (Call.start (.fresh 19 (some 0) .httpClient none) (fun _ => none) 1) shutDown = some c ∧
        c.log = [.recv, .close, .parse, .prepare, .write] ∧ ¬ c.ClosedOnce 1) ∧
      ∃ t, run Counting.step (Counting.start .default)
          (bothClose ++ [.load (some 0), .load (some 1), .store (some 0), .store (some 1)]) = some t ∧
        t.updates = [] ∧ t.server.userCount = 1 ∧ t.server.openConns = [] := by
  constructor
  · refine exists_run_map (f := Call.log) (a := [.recv, .close, .parse, .prepare, .write]) (by decide +kernel) ?_
    intro c hlog
    refine ⟨hlog, fun hc => ?_⟩
    have hsilent := hc.silent
    rw [hlog] at hsilent
    exact hsilent (by decide)
  · refine exists_run_map (f := fun t => (t.updates, t.server.userCount, t.server.openConns)) (a := ([], 1, []))
      (by decide +kernel) ?_
    intro t ht
    exact ⟨congrArg Prod.fst ht, congrArg (fun x => x.2.1) ht, congrArg (fun x => x.2.2) ht⟩

end Server

end ImageServer
