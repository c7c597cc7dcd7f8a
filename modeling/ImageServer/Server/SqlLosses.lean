import ImageServer.Server.AsWritten
import ImageServer.Server.SqlPool

/-!
# The database connections of the program as written

A response whose connection is kept alive wipes `mysql` before the worker gives it back.  As written every response
that is completed is of this kind, for the others end the process; so the pool is used up.  `SqlTally` keeps the
database connections that are lost in this way: in every run each connection is free, in the hands of one worker, or
lost, once; and when all of them are lost every further request is served with a null pointer (`sqlLost_run`).
-/

namespace ImageServer

open Transition

/-- A response whose connection is kept alive leaves the handler without a database connection. -/
private theorem HttpHandler.ProcStep.mysql_keptAlive {h h' : HttpHandler} {users users' : Users} {ph ph' : Phase}
    {i : ProcInput} {close : Bool} (hs : ProcStep h users ph i h' users' ph' close) (hk : h.keepsAlive ph i = true) :
    h'.mysql = none := by
  cases hs with
  | full | enter | data | eof | fail | triedOut | again | parse | prepare | refuse => cases hk
  | @write newadd newadd' r _ hw ho =>
    have hkind := writeStep_kind ho newadd r
    rw [hw] at hkind
    cases hkind.2.symm.trans hk
  | finish hw =>
    obtain ⟨-, w, rfl, -⟩ := writeStep_finished hw
    rfl
  | @close newadd r _ hw ho =>
    have hkind := writeStep_kind ho newadd r
    rw [hw] at hkind
    cases hkind.2.symm.trans hk

namespace Server

/-- What the workers are going to give back. -/
def handles (s : Server) : List Nat := s.inUse.filterMap fun slot => (s.users_ slot).mysql

/-- The database connection of a response that is completed in the step and whose connection is kept alive. -/
def loses (s : Server) (l : Label) : List Nat :=
  if s.keepsAlive l then ((s.serves l).bind fun x => (s.users_ x.1.slot).mysql).toList else []

/-- The server as written, and the database connections lost so far. -/
structure SqlTally where
  server : Server
  lost : List Nat

def SqlTally.start (c : Setup) : SqlTally := ⟨c.start, []⟩

/-- A step; the one that ends the process loses nothing. -/
def SqlTally.step (v : SqlTally) (l : Label) : Option SqlTally :=
  (v.server.step .asWritten l).map fun s => ⟨s, if s.stop = none then v.lost ++ v.server.loses l else v.lost⟩

/-! ### The slots in use -/

/-- No two workers use one slot, and a slot in use has neither a request to come nor one that waits. -/
structure OneWorker (s : Server) : Prop where
  once : s.inUse.Nodup
  used : ∀ k ∈ s.inUse, s.Used k
  queued : ∀ job ∈ s.workqueue, job.slot ∉ s.inUse
  taken : ∀ job, Worker.taken job ∈ s.workers → job.slot ∉ s.inUse
  unserved : ∀ x, s.Unserved x → x.fd ∉ s.inUse

private theorem oneWorker_start (c : Setup) : OneWorker c.start := by
  have hnil : c.start.inUse = [] := by simp [inUse, Setup.start, Worker.slot]
  refine ⟨?_, ?_, ?_, ?_, ?_⟩ <;> simp [hnil]

/-- The slots in use when one worker goes on. -/
private theorem inUse_set {s : Server} (s' : Server) {w : Nat} {x y : Worker} (hw : s.workers[w]? = some x)
    (hs : s'.workers = s.workers.set w y) :
    ∃ others, s.inUse.Perm (x.slot.toList ++ others) ∧ s'.inUse.Perm (y.slot.toList ++ others) := by
  obtain ⟨others, hold, hnew⟩ := filterMap_set Worker.slot hw y
  exact ⟨others, hold, by rw [inUse, hs]; exact hnew⟩

/-- A step in which no worker goes on and no request is made. -/
private theorem OneWorker.frame {s s' : Server} (h : OneWorker s) (hw : s'.workers = s.workers)
    (hq : ∀ job ∈ s'.workqueue, job ∈ s.workqueue ∨ job.slot ∉ s.inUse) (hu : ∀ k, s.Used k → s'.Used k)
    (hx : ∀ x, s'.Unserved x → x.fd ∉ s.inUse) : OneWorker s' := by
  have hin : s'.inUse = s.inUse := by rw [inUse, inUse, hw]
  refine ⟨hin ▸ h.once, fun k hk => hu k (h.used k (hin ▸ hk)), fun job hj => ?_, fun job hj => ?_, ?_⟩ <;> rw [hin]
  · exact (hq job hj).elim (h.queued job) id
  · exact h.taken job (hw ▸ hj)
  · exact hx

/-- A worker goes on with the same slot, or gives it back. -/
private theorem OneWorker.goesOn {s s' : Server} (h : OneWorker s) {w : Nat} {x y : Worker}
    (hw : s.workers[w]? = some x) (hs : s'.workers = s.workers.set w y) (hslot : y.slot = x.slot ∨ y.slot = none)
    (hy : ∀ job, y = .taken job → job.slot ∉ s.inUse) (hq : ∀ job ∈ s'.workqueue, job ∈ s.workqueue)
    (hu : ∀ k, s'.Used k ↔ s.Used k) (hx : ∀ x, s'.Unserved x → s.Unserved x) : OneWorker s' := by
  obtain ⟨others, hold, hnew⟩ := inUse_set s' hw hs
  have hsub : ∀ k ∈ s'.inUse, k ∈ s.inUse := by
    intro k hk
    rcases List.mem_append.1 (hnew.mem_iff.1 hk) with hk | hk
    · rcases hslot with he | he
      · exact hold.mem_iff.2 (List.mem_append_left _ (he ▸ hk))
      · rw [he] at hk
        cases hk
    · exact hold.mem_iff.2 (List.mem_append_right _ hk)
  have honce := hold.nodup_iff.1 h.once
  refine ⟨hnew.nodup_iff.2 ?_, fun k hk => (hu k).2 (h.used k (hsub k hk)),
    fun job hj hk => h.queued job (hq job hj) (hsub _ hk), fun job hj hk => ?_,
    fun x hx' hk => h.unserved x (hx x hx') (hsub _ hk)⟩
  · rcases hslot with he | he
    · rwa [he]
    · rw [he]
      exact (List.nodup_append.1 honce).2.1
  · rw [hs] at hj
    rcases List.mem_or_eq_of_mem_set hj with hj | hj
    · exact h.taken job hj (hsub _ hk)
    · exact hy job hj.symm (hsub _ hk)

/-- A worker takes a database connection for its request, and uses the slot from then on. -/
private theorem OneWorker.connect {s : Server} (h : OneWorker s) (h1 : OneRequest s) {w : Nat} {job : Job}
    (hw : s.workers[w]? = some (.taken job)) : OneWorker (s.connected w job) := by
  have hmem := List.mem_of_getElem? hw
  have hj : job ∈ s.pending := List.mem_append_right _ (List.mem_filterMap.2 ⟨_, hmem, rfl⟩)
  obtain ⟨others, hold, hnew⟩ := inUse_set (s.connected w job) hw rfl
  have hcases : ∀ k ∈ (s.connected w job).inUse, k = job.slot ∨ k ∈ s.inUse := by
    intro k hk
    rcases List.mem_cons.1 (hnew.mem_iff.1 hk) with hk | hk
    · exact Or.inl hk
    · exact Or.inr (hold.mem_iff.2 hk)
  refine ⟨?_, fun k hk => ?_, fun job' hj' hk => ?_, fun job' hj' hk => ?_, fun x hx hk => ?_⟩
  · refine hnew.nodup_iff.2 (List.nodup_cons.2 ⟨fun hk => ?_, hold.nodup_iff.1 h.once⟩)
    exact h.taken job hmem (hold.mem_iff.2 hk)
  · rw [Used.congr (connected_socket s w job k)]
    rcases hcases k hk with rfl | hk
    · exact h1.toWellFormed.used_of_pending hj
    · exact h.used k hk
  · rcases hcases _ hk with he | hk
    · exact h1.queue_slot hmem rfl hj' he
    · exact h.queued job' hj' hk
  · rcases hcases _ hk with he | hk
    · rcases h1.ne_slot hw rfl hj' rfl with hnew | hne
      · cases hnew
      · exact hne he
    · exact h.taken job' ((List.mem_or_eq_of_mem_set hj').resolve_right fun hnew => by cases hnew) hk
  · rcases hcases _ hk with he | hk
    · exact h1.quiet (s := s) hx job hj he.symm
    · exact h.unserved x hx hk

private theorem OneWorker.step {s s' : Server} {l : Label} (h : OneWorker s) (hu : Unclosed s)
    (heff : s.effect .asWritten l = some (.ok s')) : OneWorker s' := by
  have hused : ∀ k, s.Used k → s'.Used k := by
    intro k hk
    cases effect_slot heff k with
    | opened _ _ _ hinit htimer =>
      unfold Used
      rw [hinit]
      exact htimer
    | kept hsock => exact (Used.congr hsock).2 hk
  have hkeep := (hu.keepsApart heff).1
  have hclosing := closing_asWritten heff
  cases effect_cases heff with
  | epollWait _ _ _ hr =>
    refine h.frame rfl (fun job hj => Or.inl hj) hused fun x hx => ?_
    obtain ⟨y, hy, hfd⟩ := hx.of_report hr
    exact hfd ▸ h.unserved y hy
  | ignored he | term he =>
    exact h.frame rfl (fun job hj => Or.inl hj) hused fun x hx => h.unserved x
      (hx.mono (fun _ hy _ => hy) fun e hm => he ▸ List.mem_cons_of_mem _ hm)
  | @opened o e es ssls n fd type content he hown hfree ho ht =>
    refine h.frame rfl (fun job hj => Or.inl hj) hused fun x hx hk => ?_
    rcases List.mem_cons.1 hx.1 with rfl | hm
    · obtain ⟨y, hy, hfd, -⟩ := hu.usedOpen fd (h.used fd hk)
      exact hfree.2.1 ⟨y, hy, hfd⟩
    · have hold : Unserved { s with events := es } x := ⟨hm, hx.2⟩
      exact h.unserved x (hold.mono (fun _ hy _ => hy) fun e hm => he ▸ List.mem_cons_of_mem _ hm) hk
  | sslFailed he =>
    refine h.frame rfl (fun job hj => Or.inl hj) hused fun x hx => h.unserved x
      (hx.mono (fun y hy hreg => ?_) fun e hm => he ▸ List.mem_cons_of_mem _ hm)
    rcases List.mem_cons.1 hy with rfl | hy
    · cases hreg
    · exact hy
  | timeout he _ ht =>
    rw [timeout_asWritten ht] at hused ⊢
    exact h.frame rfl (fun job hj => Or.inl hj) hused fun x hx => h.unserved x
      (hx.mono (fun _ hy _ => hy) fun e hm => he ▸ List.mem_cons_of_mem _ hm)
  | @readable o e es id he hown hin _ _ =>
    obtain ⟨x, hx, hreg, hof⟩ := hkeep.2 e (by simp [connEvent, he, hown]) hin
    have hslot : e.fd ∉ s.inUse := hof.1 ▸ h.unserved x ⟨hx, hreg, Or.inr ⟨e, he ▸ List.mem_cons_self .., hof⟩⟩
    have hless : ∀ y, Unserved { s with events := es } y → s.Unserved y :=
      fun y hy => hy.mono (fun _ hz _ => hz) fun e hm => he ▸ List.mem_cons_of_mem _ hm
    unfold append at hused ⊢
    split at hused
    · rw [if_pos ‹_›]
      exact h.frame rfl (fun job hj => Or.inl hj) hused fun y hy => h.unserved y (hless y hy)
    · rw [if_neg ‹_›]
      refine h.frame rfl (fun job hj => ?_) hused fun y hy => h.unserved y (hless y hy)
      rcases List.mem_append.1 hj with hj | hj
      · exact Or.inl hj
      · rw [List.mem_singleton.1 hj]
        exact Or.inr hslot
  | hangUp he hown hin =>
    rw [closing_conn he hown, hin] at hclosing
    cases hclosing
  | take hw hq =>
    refine h.goesOn hw rfl (Or.inl rfl) (fun job hj => ?_) (fun job hj => hq ▸ List.mem_cons_of_mem _ hj)
      (fun _ => Iff.rfl) fun _ hx => hx
    cases hj
    exact h.queued _ (hq ▸ List.mem_cons_self ..)
  | getConnection hw => exact h.connect hu.toOneRequest hw
  | process hw _ hs =>
    exact h.goesOn hw rfl (Or.inl rfl) (fun job hj => by cases hj) (fun job hj => hj)
      (fun k => Used.congr (served_socket hs k)) fun _ hx => hx
  | close hw _ hs =>
    cases open_of_asWritten heff hw hs
  | releaseConnection hw =>
    exact h.goesOn hw rfl (Or.inr rfl) (fun job hj => by cases hj) (fun job hj => hj) (fun _ => Iff.rfl) fun _ hx => hx

/-! ### The database connections -/

/-- The handlers of the slots in use have the same database connections. -/
private theorem handles_congr {s s' : Server} (hp : s'.inUse.Perm s.inUse)
    (hm : ∀ k ∈ s.inUse, (s'.users_ k).mysql = (s.users_ k).mysql) : s'.handles.Perm s.handles := by
  unfold handles
  rw [← List.filterMap_congr hm]
  exact hp.filterMap _

/-- One slot less is in use, or its handler has lost its database connection. -/
private theorem handles_cons {s : Server} (s' : Server) {k : Nat} {others : List Nat} (hp : s.inUse.Perm (k :: others))
    (hm : ∀ j ∈ others, (s'.users_ j).mysql = (s.users_ j).mysql)
    (hp' : s'.inUse.Perm others ∨ s'.inUse.Perm (k :: others) ∧ (s'.users_ k).mysql = none) :
    s.handles.Perm ((s.users_ k).mysql.toList ++ s'.handles) := by
  have hothers : s'.handles.Perm (others.filterMap fun j => (s.users_ j).mysql) := by
    rw [← List.filterMap_congr hm]
    rcases hp' with hp' | ⟨hp', hnone⟩
    · exact hp'.filterMap _
    · refine (hp'.filterMap _).trans ?_
      rw [List.filterMap_cons, hnone]
  have hold : s.handles.Perm ((k :: others).filterMap fun j => (s.users_ j).mysql) := hp.filterMap _
  refine hold.trans ?_
  rw [List.filterMap_cons]
  cases (s.users_ k).mysql with
  | none => exact hothers.symm
  | some con => exact hothers.symm.cons con

/-- A step of the server, and what it loses. -/
private theorem handles_step {s s' : Server} {l : Label} (h : OneWorker s) (hu : Unclosed s)
    (heff : s.effect .asWritten l = some (.ok s')) :
    (s'.connList ++ s'.handles ++ s.loses l).Perm (s.connList ++ s.handles) := by
  have same : s.loses l = [] → s'.connList = s.connList → s'.workers = s.workers →
      (∀ k ∈ s.inUse, (s'.users_ k).mysql = (s.users_ k).mysql) →
      (s'.connList ++ s'.handles ++ s.loses l).Perm (s.connList ++ s.handles) := by
    intro hl hc hw hm
    rw [hl, List.append_nil, hc]
    exact (handles_congr (by rw [inUse, inUse, hw]) hm).append_left _
  cases effect_cases heff with
  | epollWait | ignored | sslFailed | term => exact same rfl rfl rfl fun _ _ => rfl
  | readable => refine same rfl ?_ ?_ fun _ _ => ?_ <;> unfold append <;> split <;> rfl
  | timeout _ _ ht =>
    rw [timeout_asWritten ht] at same ⊢
    exact same rfl rfl rfl fun _ _ => rfl
  | @opened o e es ssls n fd type content he hown hfree =>
    refine same rfl rfl rfl fun k hk => ?_
    have hne : k ≠ fd := by
      rintro rfl
      obtain ⟨y, hy, hfd, -⟩ := hu.usedOpen k (h.used k hk)
      exact hfree.2.1 ⟨y, hy, hfd⟩
    have hk := openConn_users_ne { s with events := es, ssls := ssls, nextSsl := n } hne o.now type content
    exact congrArg (fun h : HttpHandler => h.mysql) hk
  | hangUp he hown hin =>
    have hclosing := closing_asWritten heff
    rw [closing_conn he hown, hin] at hclosing
    cases hclosing
  | @take w job jobs hw hq =>
    obtain ⟨others, hold, hnew⟩ := inUse_set
      { s with workqueue := jobs, workers := s.workers.set w (.taken job) } hw rfl
    rw [show s.loses (.take w) = [] from rfl, List.append_nil]
    exact (handles_congr (hnew.trans hold.symm) fun _ _ => rfl).append_left _
  | @getConnection w job hw =>
    obtain ⟨others, hold, hnew⟩ := inUse_set (s.connected w job) hw rfl
    have hnot : job.slot ∉ others := fun hk => h.taken job (List.mem_of_getElem? hw) (hold.mem_iff.2 hk)
    have hsplit : (s.connected w job).handles.Perm (((s.connected w job).users_ job.slot).mysql.toList ++ s.handles) :=
      handles_cons s hnew (fun j hj => by
        have hne : j ≠ job.slot := fun he => hnot (he ▸ hj)
        exact congrArg (fun h : HttpHandler => h.mysql) (Function.update_of_ne hne ..).symm) (Or.inl hold)
    have hmysql : ((s.connected w job).users_ job.slot).mysql = s.connList.head? := by
      show (Function.update s.users_ job.slot _ job.slot).mysql = _
      rw [Function.update_self]
    rw [show s.loses (.getConnection w) = [] from rfl, List.append_nil]
    rw [hmysql] at hsplit
    show (s.connList.tail ++ _).Perm _
    refine (hsplit.append_left _).trans ?_
    cases s.connList with
    | nil => exact List.Perm.refl _
    | cons con rest => exact List.perm_middle
  | @process w i job held ph ph' hd users hw ha hs =>
    obtain ⟨others, hold, hnew⟩ := inUse_set (s.served w job held ph' hd users) hw rfl
    have hserves : s.serves (.process w i) = some (job, ph, i) := by simp [serves, hw]
    cases hk : (s.users_ job.slot).keepsAlive ph i with
    | false =>
      have hloses : s.loses (.process w i) = [] := by
        rw [loses, keepsAlive_process hw, hk]
        rfl
      rw [hloses, List.append_nil]
      exact (handles_congr (hnew.trans hold.symm) fun k _ =>
        congrArg Outside.mysql (served_outside hs hk k)).append_left _
    | true =>
      have hloses : s.loses (.process w i) = (s.users_ job.slot).mysql.toList := by
        rw [loses, keepsAlive_process hw, hk, if_pos rfl, hserves]
        rfl
      have hnot : job.slot ∉ others := (List.nodup_cons.1 (hold.nodup_iff.1 h.once)).1
      have hsplit := handles_cons (s.served w job held ph' hd users) hold (fun j hj => by
        have hne : j ≠ job.slot := fun he => hnot (he ▸ hj)
        exact congrArg (fun h : HttpHandler => h.mysql) (Function.update_of_ne hne ..)) (Or.inr ⟨hnew, by
          show (Function.update s.users_ job.slot hd job.slot).mysql = none
          rw [Function.update_self]
          exact hs.mysql_keptAlive hk⟩)
      rw [hloses, List.append_assoc]
      exact (List.perm_append_comm.trans hsplit.symm).append_left _
  | close hw _ hs => cases open_of_asWritten heff hw hs
  | @releaseConnection w job held hw =>
    obtain ⟨others, hold, hnew⟩ := inUse_set { s with
      connList := s.connList ++ (s.users_ job.slot).mysql.toList, workers := s.workers.set w .idle } hw rfl
    have hsplit := handles_cons { s with
      connList := s.connList ++ (s.users_ job.slot).mysql.toList, workers := s.workers.set w .idle } hold
      (fun _ _ => rfl) (Or.inl hnew)
    rw [show s.loses (.releaseConnection w) = [] from rfl, List.append_nil]
    show (s.connList ++ _ ++ _).Perm _
    rw [List.append_assoc]
    exact hsplit.symm.append_left _

/-- The invariant of the tally. -/
structure SqlTally.Accounted (c : Setup) (v : SqlTally) : Prop where
  perm : (v.server.connList ++ v.server.handles ++ v.lost).Perm (List.range c.maxConn)
  unclosed : v.server.stop = none → v.server.Unclosed
  oneWorker : v.server.stop = none → v.server.OneWorker

private theorem SqlTally.Accounted.step {c : Setup} {v v' : SqlTally} {l : Label} (h : v.Accounted c)
    (hs : v.step l = some v') : v'.Accounted c := by
  obtain ⟨s', hs', rfl⟩ := Option.map_eq_some_iff.1 hs
  obtain ⟨hrun, ⟨why, -, rfl⟩ | ⟨heff, hstep⟩⟩ := step_cases hs'
  · exact ⟨h.perm, fun hstop => (by cases hstop), fun hstop => by cases hstop⟩
  · have hu := h.unclosed hrun
    have hw := h.oneWorker hrun
    refine ⟨?_, fun _ => hu.step heff hs', fun _ => hw.step hu heff⟩
    rw [if_pos (hstep.goesOn.1.trans hrun)]
    have hcomm : (s'.connList ++ s'.handles ++ (v.lost ++ v.server.loses l)).Perm
        (s'.connList ++ s'.handles ++ v.server.loses l ++ v.lost) := by
      rw [List.append_assoc _ _ v.lost]
      exact List.perm_append_comm.append_left _
    exact hcomm.trans (((handles_step hw hu heff).append_right _).trans h.perm)

/-- In every run of the program as written each database connection is free, in the handler of one worker, or lost,
once; and when all are lost there is none left for any request. -/
theorem sqlLost_run {c : Setup} {ls : List Label} {v : SqlTally}
    (h : run SqlTally.step (SqlTally.start c) ls = some v) :
    (v.server.connList ++ v.server.handles ++ v.lost).Perm (List.range c.maxConn) ∧
      (v.lost.length = c.maxConn → v.server.connList = [] ∧ v.server.handles = []) := by
  have h0 : (SqlTally.start c).Accounted c := by
    refine ⟨?_, fun _ => unclosed_start c, fun _ => oneWorker_start c⟩
    have hnil : c.start.handles = [] := by simp [handles, inUse, Setup.start, Worker.slot]
    show (c.start.connList ++ c.start.handles ++ []).Perm _
    rw [hnil, List.append_nil, List.append_nil]
    exact List.Perm.refl _
  have hperm := (run_invariant (P := SqlTally.Accounted c) (fun _ _ _ hv _ hs => hv.step hs) h0 Meets.trivial h).perm
  refine ⟨hperm, fun hall => ?_⟩
  have hlen := hperm.length_eq
  simp only [List.length_append, List.length_range] at hlen
  exact ⟨List.length_eq_zero_iff.1 (by omega), List.length_eq_zero_iff.1 (by omega)⟩

/-- A server with one database connection. -/
def oneConnection : Setup := { Setup.default with maxConn := 1 }

/-- It is lost with the first response, and the next request is served without. -/
theorem sqlLost_run_oneConnection :
    ∃ v, run SqlTally.step (SqlTally.start oneConnection) (serveBadRequest ++
        [.process 0 (.wrote (.count 138)), .releaseConnection 0, .epollWait [.input 14 none],
          .dispatch ⟨3, some 20, .succeeds⟩, .epollWait [.input 20 (some 1)], .dispatch ⟨4, none, .succeeds⟩,
          .take 0, .getConnection 0]) = some v ∧
      (v.server.workers[0]? = some (.processing ⟨20, some 1⟩ none .enter) ∧ v.lost = [0]) ∧
      v.server.connList = [] ∧ v.server.handles = [] := by
  have hrun : (run SqlTally.step (SqlTally.start oneConnection) (serveBadRequest ++
      [.process 0 (.wrote (.count 138)), .releaseConnection 0, .epollWait [.input 14 none],
        .dispatch ⟨3, some 20, .succeeds⟩, .epollWait [.input 20 (some 1)], .dispatch ⟨4, none, .succeeds⟩,
        .take 0, .getConnection 0])).map (fun v => (v.server.workers[0]?, v.lost)) =
      some (some (.processing ⟨20, some 1⟩ none .enter), [0]) := by
    decide +kernel
  obtain ⟨v, hv, hpair⟩ := Option.map_eq_some_iff.1 hrun
  obtain ⟨hw, hlost⟩ := Prod.mk.inj hpair
  exact ⟨v, hv, ⟨hw, hlost⟩, (sqlLost_run hv).2 (by rw [hlost]; rfl)⟩

end Server

end ImageServer
