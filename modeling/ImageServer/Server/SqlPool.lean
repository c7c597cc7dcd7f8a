import ImageServer.Server.Step

/-!
# The database connections

A worker takes a connection with `get_connection`, stores it in `mysql` of the handler it serves, and gives back what
it finds there after `process()`.  `Conserved` says that this conserves the connections.  It does as long as nothing
else writes to that field in between (`KeepsHandles`, `conserved_run`); but `init_` does, and `write_to_fd_` calls it
for every response whose connection is kept alive, so each of these loses a connection (`keepAlive_losesConnection`).
-/

namespace ImageServer

open Transition CLib

/-- The slot of a worker between `get_connection` and `release_connection`. -/
def Worker.slot : Worker → Option Nat
  | .processing job _ _ => some job.slot
  | _ => none

namespace Server

/-- The slots whose `mysql` a worker is going to give back. -/
def inUse (s : Server) : List Nat := s.workers.filterMap Worker.slot

/-- The slot for which the step takes a database connection. -/
def acquires (s : Server) : Label → Option Nat
  | .getConnection w =>
    match s.workers[w]? with
    | some (.taken job) => some job.slot
    | _ => none
  | _ => none

/-- Every database connection is in `_conn_list` or held by one worker, once; what a worker is going to give back is
what it was given; and with connections for all workers none of them is given a null pointer. -/
structure Conserved (c : Setup) (s : Server) : Prop where
  once : (s.connList ++ s.workers.filterMap Worker.held).Perm (List.range c.maxConn)
  handle : ∀ job held ph, Worker.processing job held ph ∈ s.workers → (s.users_ job.slot).mysql = held
  notNull : c.threads ≤ c.maxConn → ∀ job ph, Worker.processing job none ph ∉ s.workers

/-- The step does not write to the `mysql` of a handler between `get_connection` and `release_connection`: it does not
complete a response whose connection is kept alive, and neither accepts a connection on the slot nor takes a database
connection for it. -/
def KeepsHandles (s : Server) (l : Label) : Prop :=
  s.keepsAlive l = false ∧ (∀ slot ∈ s.opens l, slot ∉ s.inUse) ∧ ∀ slot ∈ s.acquires l, slot ∉ s.inUse

instance (s : Server) (l : Label) : Decidable (s.KeepsHandles l) :=
  inferInstanceAs (Decidable (s.keepsAlive l = false ∧ (∀ slot ∈ s.opens l, slot ∉ s.inUse) ∧
    ∀ slot ∈ s.acquires l, slot ∉ s.inUse))

private theorem mem_inUse {s : Server} {job : Job} {held : Option Nat} {ph : Phase}
    (h : Worker.processing job held ph ∈ s.workers) : job.slot ∈ s.inUse :=
  List.mem_filterMap.2 ⟨_, h, rfl⟩

/-- The invariant: the connections are conserved, and the number of workers stays. -/
structure Balanced (c : Setup) (s : Server) : Prop extends Conserved c s where
  threads : s.workers.length = c.threads

private theorem balanced_start (c : Setup) : Balanced c c.start where
  once := by
    have h : (List.replicate c.threads Worker.idle).filterMap Worker.held = [] := by simp [Worker.held]
    simp [Setup.start, h]
  handle := by simp [Setup.start, List.mem_replicate]
  notNull := by simp [Setup.start, List.mem_replicate]
  threads := by simp [Setup.start]

/-- A step that touches neither the workers nor the list, nor `mysql` in a slot in use. -/
private theorem Balanced.frame {c : Setup} {s s' : Server} (hb : Balanced c s) (hl : s'.connList = s.connList)
    (hw : s'.workers = s.workers) (hm : ∀ slot ∈ s.inUse, (s'.users_ slot).mysql = (s.users_ slot).mysql) :
    Balanced c s' where
  once := by rw [hl, hw]; exact hb.once
  handle := by
    intro job held ph hx
    rw [hw] at hx
    rw [hm _ (mem_inUse hx)]
    exact hb.handle job held ph hx
  notNull := by rw [hw]; exact hb.notNull
  threads := by rw [hw]; exact hb.threads

/-- A step of a worker that keeps its connection, and `mysql` in every slot in use. -/
private theorem Balanced.worker {c : Setup} {s s' : Server} {w : Nat} {x y : Worker} (hb : Balanced c s)
    (hx : s.workers[w]? = some x) (hl : s'.connList = s.connList) (hw : s'.workers = s.workers.set w y)
    (hheld : y.held = x.held) (hslot : ∀ job held ph, y = .processing job held ph →
      (s'.users_ job.slot).mysql = held ∧ (c.threads ≤ c.maxConn → held ≠ none))
    (hm : ∀ slot ∈ s.inUse, (s'.users_ slot).mysql = (s.users_ slot).mysql) : Balanced c s' where
  once := by
    obtain ⟨others, hold, hnew⟩ := filterMap_set Worker.held hx y
    rw [hheld] at hnew
    rw [hl, hw]
    exact ((hnew.trans hold.symm).append_left _).trans hb.once
  handle := by
    intro job held ph hy
    rw [hw] at hy
    rcases List.mem_or_eq_of_mem_set hy with hy | hy
    · rw [hm _ (mem_inUse hy)]
      exact hb.handle job held ph hy
    · exact (hslot job held ph hy.symm).1
  notNull := by
    intro hc job ph hy
    rw [hw] at hy
    rcases List.mem_or_eq_of_mem_set hy with hy | hy
    · exact hb.notNull hc job ph hy
    · exact (hslot job none ph hy.symm).2 hc rfl
  threads := by rw [hw, List.length_set]; exact hb.threads

/-- A step of `process()` that leaves `mysql` in every slot. -/
private theorem Balanced.serve {c : Setup} {s s' : Server} {w : Nat} {job : Job} {held : Option Nat} {ph ph' : Phase}
    (hb : Balanced c s) (hw : s.workers[w]? = some (.processing job held ph)) (hl : s'.connList = s.connList)
    (hw' : s'.workers = s.workers.set w (.processing job held ph'))
    (hm : ∀ slot, (s'.users_ slot).mysql = (s.users_ slot).mysql) : Balanced c s' := by
  refine hb.worker hw hl hw' rfl (fun job' held' ph'' hy => ?_) fun slot _ => hm slot
  cases hy
  have hmem := List.mem_of_getElem? hw
  exact ⟨(hm job.slot).trans (hb.handle job held ph hmem), fun hc hn => hb.notNull hc job ph (hn ▸ hmem)⟩

/-- `get_connection`, for a slot that is not in use. -/
private theorem Balanced.acquire {c : Setup} {s : Server} {w : Nat} {job : Job} (hb : Balanced c s)
    (hw : s.workers[w]? = some (.taken job)) (hslot : job.slot ∉ s.inUse) : Balanced c (s.connected w job) where
  once := by
    obtain ⟨others, hold, hnew⟩ := filterMap_set Worker.held hw (.processing job s.connList.head? .enter)
    have hlist : (s.connList.tail ++ s.connList.head?.toList).Perm s.connList := by
      cases s.connList with
      | nil => exact List.Perm.refl _
      | cons con rest => exact List.perm_append_singleton con rest
    calc List.Perm (s.connList.tail ++ (s.workers.set w _).filterMap Worker.held)
          (s.connList.tail ++ (s.connList.head?.toList ++ others)) := hnew.append_left _
      List.Perm _ (s.connList ++ others) := by rw [← List.append_assoc]; exact hlist.append_right _
      List.Perm _ (s.connList ++ s.workers.filterMap Worker.held) := hold.symm.append_left _
      List.Perm _ (List.range c.maxConn) := hb.once
  handle := by
    intro job' held ph hy
    rcases List.mem_or_eq_of_mem_set hy with hy | hy
    · have hne : job'.slot ≠ job.slot := fun he => hslot (he ▸ mem_inUse hy)
      show (Function.update s.users_ job.slot _ job'.slot).mysql = held
      rw [Function.update_of_ne hne]
      exact hb.handle job' held ph hy
    · cases hy
      show (Function.update s.users_ job.slot _ job.slot).mysql = _
      rw [Function.update_self]
  notNull := by
    intro hc job' ph hy
    rcases List.mem_or_eq_of_mem_set hy with hy | hy
    · exact hb.notNull hc job' ph hy
    · -- the worker that asks holds none, so fewer than all connections are out
      have hlt : (s.workers.filterMap Worker.held).length < s.workers.length :=
        List.length_filterMap_lt_length_iff_exists.2 ⟨_, List.mem_of_getElem? hw, rfl⟩
      have hlen := hb.once.length_eq
      rw [List.length_append, List.length_range] at hlen
      have hthreads := hb.threads
      have hnil : s.connList = [] := List.head?_eq_none_iff.1 (Worker.processing.inj hy).2.1.symm
      rw [hnil, List.length_nil] at hlen
      omega
  threads := (List.length_set ..).trans hb.threads

/-- `release_connection`. -/
private theorem Balanced.release {c : Setup} {s : Server} {w : Nat} {job : Job} {held : Option Nat} (hb : Balanced c s)
    (hw : s.workers[w]? = some (.processing job held .done)) :
    Balanced c { s with
      connList := s.connList ++ (s.users_ job.slot).mysql.toList, workers := s.workers.set w .idle } where
  once := by
    obtain ⟨others, hold, hnew⟩ := filterMap_set Worker.held hw .idle
    rw [hb.handle job held .done (List.mem_of_getElem? hw)]
    show ((s.connList ++ held.toList) ++ (s.workers.set w .idle).filterMap Worker.held).Perm _
    rw [List.append_assoc]
    exact (((hnew.append_left _).trans hold.symm).append_left _).trans hb.once
  handle := by
    intro job' held' ph hy
    rcases List.mem_or_eq_of_mem_set hy with hy | hy
    · exact hb.handle job' held' ph hy
    · cases hy
  notNull := by
    intro hc job' ph hy
    rcases List.mem_or_eq_of_mem_set hy with hy | hy
    · exact hb.notNull hc job' ph hy
    · cases hy
  threads := by simpa using hb.threads

/-- What a step that keeps the handles preserves. -/
private theorem Balanced.step {rm : RemoveFd} {c : Setup} {s s' : Server} {l : Label} (hb : Balanced c s)
    (hk : s.KeepsHandles l) (h : Step rm s l s') : Balanced c s' := by
  cases h with
  | epollWait | ignored | sslFailed | term => exact hb.frame rfl rfl fun _ _ => rfl
  | readable =>
    unfold append
    split <;> exact hb.frame rfl rfl fun _ _ => rfl
  | @opened o e es ssls n fd type content _ _ _ ho =>
    refine hb.frame rfl rfl fun slot hslot => ?_
    have hne : slot ≠ fd := fun he => hk.2.1 fd ho (he ▸ hslot)
    show (Function.update s.users_ fd _ slot).mysql = _
    rw [Function.update_of_ne hne]
  | timeout _ _ ht =>
    obtain ⟨_, _, _, _, hs'⟩ := timeout_frame ht
    exact hb.frame (by rw [hs']) (by rw [hs']) fun slot _ =>
      timeout_field (f := fun h => h.mysql) (fun _ => rfl) ht slot
  | hangUp => exact hb.frame rfl rfl fun slot _ => closed_field (f := fun h => h.mysql) (fun _ => rfl) _ _ slot
  | take hw => exact hb.worker hw rfl rfl rfl (by simp) fun _ _ => rfl
  | getConnection hw => exact hb.acquire hw (hk.2.2 _ (by simp [acquires, hw]))
  | @process w i job held ph ph' h users hw _ hs =>
    have hka := keepsAlive_process (i := i) hw ▸ hk.1
    exact hb.serve hw rfl rfl fun slot => congrArg Outside.mysql (served_outside hs hka slot)
  | @close w i job held ph ph' h users hw _ hs =>
    have hka := keepsAlive_process (i := i) hw ▸ hk.1
    exact hb.serve hw rfl rfl fun slot =>
      (closed_field (f := fun h => h.mysql) (fun _ => rfl) _ job.slot slot).trans
        (congrArg Outside.mysql (served_outside hs hka slot))
  | releaseConnection hw => exact hb.release hw

/-- In every run whose steps keep the handles, the database connections are conserved. -/
theorem conserved_run {rm : RemoveFd} {c : Setup} {ls : List Label} {t : Server}
    (h : run (step rm) c.start ls = some t) (hk : Meets (step rm) KeepsHandles c.start ls) : Conserved c t := by
  refine (run_invariant (P := Balanced c) (fun s l s' hb hc hs' => ?_) (balanced_start c) hk h).toConserved
  obtain ⟨-, ⟨why, -, rfl⟩ | ⟨-, hs⟩⟩ := step_cases hs'
  · exact hb.frame rfl rfl fun _ _ => rfl
  · exact hb.step hc hs

/-- The response cannot be written, and the connection is closed. -/
theorem conserved_run_failedWrite :
    ∃ t, run (step .returning) Setup.default.start
        (serveBadRequest ++ [.process 0 (.wrote .fail), .releaseConnection 0]) = some t ∧
      Conserved Setup.default t :=
  exists_run (by decide +kernel) fun _ ht => conserved_run ht (by decide +kernel)

/-- Once the response is written, the database connection is lost. -/
theorem keepAlive_losesConnection :
    ∃ t, run (step .asWritten) Setup.default.start
        (serveBadRequest ++ [.process 0 (.wrote (.count 138)), .releaseConnection 0]) = some t ∧
      ¬ Conserved Setup.default t := by
  refine exists_run_map (f := fun t => t.connList ++ t.workers.filterMap Worker.held) (a := [1, 2, 3, 4, 5, 6, 7])
    (by decide +kernel) ?_
  intro t hlist hc
  have hlen := hc.once.length_eq
  rw [hlist] at hlen
  exact absurd hlen (by decide)

end Server

end ImageServer
