import ImageServer.Server.Invariant
import Mathlib.Data.List.Perm.Subperm
import Mathlib.Data.List.Nodup

/-!
# One request for a slot

An event disarms its connection and nothing arms it again, so a slot has at most one request in the queue and with the
workers together (`OneRequest`), as long as no connection is accepted onto a slot that still has one, and no request
is made of the event of a connection that has been closed (`KeepsSlots`).
-/

namespace ImageServer

open Transition

/-- It is an event of the connection. -/
def Event.Of (e : Event) (x : Conn) : Prop := x.fd = e.fd ∧ some x.id = e.conn

instance (e : Event) (x : Conn) : Decidable (e.Of x) := inferInstanceAs (Decidable (x.fd = e.fd ∧ some x.id = e.conn))

namespace Server

/-- The requests that wait for a worker or are being served. -/
def pending (s : Server) : List Job := s.workqueue ++ s.workers.filterMap Worker.serving

/-- The slot has no request pending. -/
def Quiet (s : Server) (slot : Nat) : Prop := ∀ job ∈ s.pending, job.slot ≠ slot

/-- The step accepts no connection onto a slot with a request pending, and makes no request of the event of a
connection that has been closed. -/
def KeepsSlots (s : Server) (l : Label) : Prop :=
  (∀ fd ∈ s.opens l, ∀ job ∈ s.pending, job.slot ≠ fd) ∧
    ∀ e ∈ s.connEvent l, e.epollin = true → ∃ x ∈ s.conns, x.registered = true ∧ e.Of x

instance (s : Server) (l : Label) : Decidable (s.KeepsSlots l) :=
  inferInstanceAs (Decidable ((∀ fd ∈ s.opens l, ∀ job ∈ s.pending, job.slot ≠ fd) ∧
    ∀ e ∈ s.connEvent l, e.epollin = true → ∃ x ∈ s.conns, x.registered = true ∧ e.Of x))

/-- The invariant: an armed connection has neither an event nor a request, one with an event has no request, and the
request of a slot is of the connection that is open there, if one is. -/
structure OneRequest (s : Server) : Prop extends WellFormed s where
  once : (s.pending.map Job.slot).Nodup
  eventOnce : (s.events.map Event.fd).Nodup
  armed : ∀ x ∈ s.conns, x.registered = true → x.armed = true → s.Quiet x.fd ∧ ∀ e ∈ s.events, ¬ e.Of x
  waiting : ∀ x ∈ s.conns, x.registered = true → ∀ e ∈ s.events, e.Of x → s.Quiet x.fd
  owner : ∀ x ∈ s.conns, x.registered = true → ∀ job ∈ s.pending, job.slot = x.fd → job.conn = some x.id
  connIds : ∀ x ∈ s.conns, x.registered = true → x.id < s.nextConn
  eventIds : ∀ e ∈ s.events, ∀ id ∈ e.conn, id < s.nextConn

theorem oneRequest_start (c : Setup) : OneRequest c.start where
  toWellFormed := wellFormed_start c
  once := by
    have h : (List.replicate c.threads Worker.idle).filterMap Worker.serving = [] := by simp [Worker.serving]
    simp [pending, Setup.start, h]
  eventOnce := List.nodup_nil
  armed := by simp [Setup.start]
  waiting := by simp [Setup.start]
  owner := by simp [Setup.start]
  connIds := by simp [Setup.start]
  eventIds := by simp [Setup.start]

/-! ### Pending requests -/

/-- A step of one worker that goes on with its request or returns from it. -/
private theorem pending_set {s s' : Server} {w : Nat} {x y : Worker} (hw : s.workers[w]? = some x)
    (hq : s'.workqueue = s.workqueue) (hs : s'.workers = s.workers.set w y)
    (hy : y.serving = x.serving ∨ y.serving = none) : s'.pending.Subperm s.pending := by
  obtain ⟨others, hold, hnew⟩ := filterMap_set Worker.serving hw y
  unfold pending
  rw [hq, hs]
  refine (List.subperm_append_left _).2 (List.Subperm.trans ?_ hold.symm.subperm)
  refine hnew.subperm.trans ?_
  rcases hy with hy | hy
  · rw [hy]
  · rw [hy]
    exact (List.sublist_append_right _ _).subperm

theorem mem_pending_set {s s' : Server} {job : Job} (hj : job ∈ s'.pending) {w : Nat} {x y : Worker}
    (hw : s.workers[w]? = some x) (hq : s'.workqueue = s.workqueue) (hs : s'.workers = s.workers.set w y)
    (hy : y.serving = x.serving ∨ y.serving = none) : job ∈ s.pending :=
  (pending_set hw hq hs hy).subset hj

/-- A worker that takes a request from the queue. -/
theorem pending_take {s : Server} {w : Nat} {job : Job} {jobs : List Job} (hw : s.workers[w]? = some .idle)
    (hq : s.workqueue = job :: jobs) :
    (pending { s with workqueue := jobs, workers := s.workers.set w (.taken job) }).Perm s.pending := by
  obtain ⟨others, hold, hnew⟩ := filterMap_set Worker.serving hw (.taken job)
  have hold : (s.workers.filterMap Worker.serving).Perm others := hold
  have hnew : ((s.workers.set w (.taken job)).filterMap Worker.serving).Perm (job :: others) := hnew
  unfold pending
  rw [hq]
  have hmove : (jobs ++ job :: others).Perm (job :: (jobs ++ others)) := List.perm_middle
  exact (hnew.append_left jobs).trans (hmove.trans ((hold.symm.append_left jobs).cons job))

/-- A worker in `process()` has its request pending. -/
theorem mem_pending {s : Server} {job : Job} {held : Option Nat} {ph : Phase}
    (hw : Worker.processing job held ph ∈ s.workers) (hph : ph ≠ .done) : job ∈ s.pending :=
  List.mem_append_right _ (List.mem_filterMap.2 ⟨_, hw, Worker.serving_of_ne_done hph⟩)

/-- No two workers serve one slot. -/
theorem OneRequest.ne_slot {s : Server} (h : OneRequest s) {w : Nat} {x y new : Worker} {job job' : Job}
    (hw : s.workers[w]? = some x) (hx : x.serving = some job) (hy : y ∈ s.workers.set w new)
    (hj : y.serving = some job') : y = new ∨ job'.slot ≠ job.slot := by
  obtain ⟨hlt, hxw⟩ := List.getElem?_eq_some_iff.1 hw
  obtain ⟨l₁, l₂, hl, -, hset⟩ := @List.exists_of_set _ _ new _ hlt
  rw [hset] at hy
  rcases List.mem_cons.1 (List.perm_middle.mem_iff.1 hy) with hy | hy
  · exact Or.inl hy
  · right
    have hnd : ((s.workers.filterMap Worker.serving).map Job.slot).Nodup :=
      ((List.sublist_append_right _ _).map Job.slot).nodup h.once
    rw [hl, hxw] at hnd
    have hmid : (l₁ ++ x :: l₂).Perm (x :: (l₁ ++ l₂)) := List.perm_middle
    have hnd := ((hmid.filterMap Worker.serving).map Job.slot).nodup_iff.1 hnd
    rw [List.filterMap_cons_some hx, List.map_cons, List.nodup_cons] at hnd
    exact fun hslot => hnd.1 (hslot ▸ List.mem_map_of_mem (List.mem_filterMap.2 ⟨y, hy, hj⟩))

/-- A pending request is determined by its slot. -/
theorem OneRequest.eq_of_slot {s : Server} (h : OneRequest s) {job job' : Job} (hj : job ∈ s.pending)
    (hj' : job' ∈ s.pending) (hslot : job.slot = job'.slot) : job = job' :=
  List.inj_on_of_nodup_map h.once hj hj' hslot

/-- A step that makes no request, accepts no connection and reports no event. -/
theorem OneRequest.mono {s s' : Server} (h : OneRequest s) (hw : WellFormed s') (hp : s'.pending.Subperm s.pending)
    (hc : ∀ x ∈ s'.conns, x.registered = true → x ∈ s.conns) (he : s'.events.Sublist s.events)
    (hn : s.nextConn ≤ s'.nextConn) : OneRequest s' where
  toWellFormed := hw
  once := by
    obtain ⟨l, hl, hsub⟩ := hp
    exact (hl.map Job.slot).nodup_iff.1 ((hsub.map Job.slot).nodup h.once)
  eventOnce := (he.map Event.fd).nodup h.eventOnce
  armed := by
    intro x hx hreg harm
    obtain ⟨hquiet, hev⟩ := h.armed x (hc x hx hreg) hreg harm
    exact ⟨fun job hj => hquiet job (hp.subset hj), fun e hem => hev e (he.subset hem)⟩
  waiting := by
    intro x hx hreg e hem hof job hj
    exact h.waiting x (hc x hx hreg) hreg e (he.subset hem) hof job (hp.subset hj)
  owner := fun x hx hreg job hj => h.owner x (hc x hx hreg) hreg job (hp.subset hj)
  connIds := fun x hx hreg => (h.connIds x (hc x hx hreg) hreg).trans_le hn
  eventIds := fun e hem id hid => (h.eventIds e (he.subset hem) id hid).trans_le hn

/-! ### The steps that add an event, a connection or a request -/

private theorem OneRequest.report {s : Server} (h : OneRequest s) {evs : List Event}
    (hnd : (evs.map Event.fd).Nodup) (hr : ∀ e ∈ evs, s.Reports e)
    (hw : WellFormed { s with events := evs, conns := s.disarm evs }) :
    OneRequest { s with events := evs, conns := s.disarm evs } where
  toWellFormed := hw
  once := h.once
  eventOnce := hnd
  armed := by
    intro x hx hreg harm
    obtain ⟨y, hy, rfl⟩ := List.mem_map.1 hx
    split at hreg
    · -- its event has just disarmed it
      rename_i hmem
      rw [if_pos hmem] at harm
      cases harm
    · rename_i hmem
      rw [if_neg hmem] at harm ⊢
      refine ⟨(h.armed y hy hreg harm).1, fun e he hof => hmem ?_⟩
      exact hof.1 ▸ List.mem_map_of_mem he
  waiting := by
    intro x hx hreg e he hof
    obtain ⟨y, hy, hid, hfd, hyr⟩ := mem_disarm hx
    rcases hr e he with ⟨hnc, -⟩ | ⟨z, hz, hzfd, -, hzr, hza⟩
    · rw [← hof.2] at hnc
      cases hnc
    · have hzx : z.fd = x.fd := hzfd.trans hof.1.symm
      exact hzx ▸ (h.armed z hz hzr hza).1
  owner := by
    intro x hx hreg job hj hslot
    obtain ⟨y, hy, hid, hfd, hyr⟩ := mem_disarm hx
    rw [hid]
    exact h.owner y hy (hyr ▸ hreg) job hj (hslot.trans hfd)
  connIds := by
    intro x hx hreg
    obtain ⟨y, hy, hid, -, hyr⟩ := mem_disarm hx
    rw [hid]
    exact h.connIds y hy (hyr ▸ hreg)
  eventIds := by
    intro e he id hid
    rcases hr e he with ⟨hnc, -⟩ | ⟨z, hz, -, hzc, hzr, -⟩
    · rw [hnc] at hid
      cases hid
    · rw [← hzc] at hid
      cases hid
      exact h.connIds z hz hzr

private theorem OneRequest.accept {s : Server} (h : OneRequest s) {fd now : Nat} {type : ClientType}
    {content : Option Ssl} (hquiet : s.Quiet fd) (hw : WellFormed (s.openConn fd now type content)) :
    OneRequest (s.openConn fd now type content) where
  toWellFormed := hw
  once := h.once
  eventOnce := h.eventOnce
  armed := by
    intro x hx hreg harm
    rcases List.mem_cons.1 hx with rfl | hx
    · -- the event of an earlier connection with this descriptor has a smaller number
      refine ⟨hquiet, fun e he hof => ?_⟩
      have hlt := h.eventIds e he s.nextConn hof.2.symm
      omega
    · exact h.armed x hx hreg harm
  waiting := by
    intro x hx hreg e he hof
    rcases List.mem_cons.1 hx with rfl | hx
    · exact hquiet
    · exact h.waiting x hx hreg e he hof
  owner := by
    intro x hx hreg job hj hslot
    rcases List.mem_cons.1 hx with rfl | hx
    · exact absurd hslot (hquiet job hj)
    · exact h.owner x hx hreg job hj hslot
  connIds := by
    intro x hx hreg
    rcases List.mem_cons.1 hx with rfl | hx
    · exact Nat.lt_succ_self _
    · exact (h.connIds x hx hreg).trans (Nat.lt_succ_self _)
  eventIds := fun e he id hid => (h.eventIds e he id hid).trans (Nat.lt_succ_self _)

/-- Two registered connections with the same descriptor are one. -/
theorem Sockets.eq_of_fd {s : Server} (h : Sockets s) {x y : Conn} (hx : x ∈ s.conns) (hy : y ∈ s.conns)
    (hfd : x.fd = y.fd) : x = y :=
  List.inj_on_of_nodup_map h.nodup hx hy hfd

private theorem OneRequest.request {s : Server} (h : OneRequest s) {e : Event} {es : List Event}
    (he : s.events = e :: es) {x : Conn} (hx : x ∈ s.conns) (hreg : x.registered = true) (hof : e.Of x)
    {l : SortedTimerList}
    (hw : WellFormed { s with events := es, timerLst := l, workqueue := s.workqueue ++ [⟨e.fd, e.conn⟩] }) :
    OneRequest { s with events := es, timerLst := l, workqueue := s.workqueue ++ [⟨e.fd, e.conn⟩] } := by
  have hmem : e ∈ s.events := he ▸ List.mem_cons_self ..
  have hsub : ∀ e' ∈ es, e' ∈ s.events := fun e' he' => he ▸ List.mem_cons_of_mem _ he'
  have hquiet : s.Quiet e.fd := hof.1 ▸ h.waiting x hx hreg e hmem hof
  have hnd : e.fd ∉ es.map Event.fd ∧ (es.map Event.fd).Nodup := by
    have := h.eventOnce
    rw [he] at this
    exact List.nodup_cons.1 this
  have hpend : ∀ job, job ∈ pending { s with
        events := es, timerLst := l, workqueue := s.workqueue ++ [⟨e.fd, e.conn⟩] } ↔
      job = ⟨e.fd, e.conn⟩ ∨ job ∈ s.pending := by
    intro job
    simp only [pending, List.mem_append, List.mem_singleton]
    tauto
  refine ⟨hw, ?_, hnd.2, ?_, ?_, ?_, h.connIds, fun e' he' => h.eventIds e' (hsub e' he')⟩
  · have hperm : (pending { s with events := es, timerLst := l, workqueue := s.workqueue ++ [⟨e.fd, e.conn⟩] }).Perm
        (⟨e.fd, e.conn⟩ :: s.pending) := by
      unfold pending
      rw [List.append_assoc]
      exact List.perm_middle
    refine (hperm.map Job.slot).nodup_iff.2 (List.nodup_cons.2 ⟨fun hm => ?_, h.once⟩)
    obtain ⟨job, hj, hslot⟩ := List.mem_map.1 hm
    exact hquiet job hj hslot
  · intro y hy hyr hya
    obtain ⟨hyq, hye⟩ := h.armed y hy hyr hya
    refine ⟨fun job hj => ?_, fun e' he' => hye e' (hsub e' he')⟩
    rcases (hpend job).1 hj with rfl | hj
    · -- the connection of the request is not armed: it has the event
      intro hfd
      have hxy : x = y := h.eq_of_fd hx hy (hof.1.trans hfd)
      exact hye e hmem (hxy ▸ hof)
    · exact hyq job hj
  · intro y hy hyr e' he' hof' job hj
    rcases (hpend job).1 hj with rfl | hj
    · intro hfd
      exact hnd.1 (List.mem_map.2 ⟨e', he', (hof'.1.symm.trans hfd.symm)⟩)
    · exact h.waiting y hy hyr e' (hsub e' he') hof' job hj
  · intro y hy hyr job hj hslot
    rcases (hpend job).1 hj with rfl | hj
    · have hxy : x = y := h.eq_of_fd hx hy (hof.1.trans hslot)
      exact hxy ▸ hof.2.symm
    · exact h.owner y hy hyr job hj hslot

/-! ### Steps -/

theorem OneRequest.step {rm : RemoveFd} {s s' : Server} {l : Label} (h : OneRequest s) (hk : s.KeepsSlots l)
    (hs : Step rm s l s') : OneRequest s' := by
  have hw := h.toWellFormed.step hs
  cases hs with
  | epollWait _ _ hnd hr => exact h.report hnd hr hw
  | ignored he => exact h.mono hw (List.Subperm.refl _) (fun _ hx _ => hx) (he ▸ List.sublist_cons_self ..) le_rfl
  | term he => exact h.mono hw (List.Subperm.refl _) (fun _ hx _ => hx) (he ▸ List.sublist_cons_self ..) le_rfl
  | @opened o e es ssls n fd type content he hown hfree hopens ht =>
    have hw' : WellFormed { s with events := es, ssls := ssls, nextSsl := n } :=
      h.toWellFormed.mono (h.toSockets.frame rfl rfl fun _ => rfl) (fun _ => id) h.timers h.queue (fun _ => Or.inl)
        (fun e hm => he ▸ List.mem_cons_of_mem _ hm) rfl
    have h' : OneRequest { s with events := es, ssls := ssls, nextSsl := n } :=
      h.mono hw' (List.Subperm.refl _) (fun _ hx _ => hx) (he ▸ List.sublist_cons_self ..) le_rfl
    exact h'.accept (hk.1 fd hopens) hw
  | @sslFailed o e es fd he =>
    refine h.mono hw (List.Subperm.refl _) (fun x hx hreg => ?_) (he ▸ List.sublist_cons_self ..) (Nat.le_succ _)
    rcases List.mem_cons.1 hx with rfl | hx
    · cases hreg
    · exact hx
  | timeout he _ ht =>
    have hsub := timeout_conns ht
    obtain ⟨_, _, _, _, rfl⟩ := timeout_frame ht
    exact h.mono hw (List.Subperm.refl _) (fun x hx _ => hsub x hx) (he ▸ List.sublist_cons_self ..) le_rfl
  | @readable o e es id he hown hin _ _ =>
    obtain ⟨x, hx, hreg, hof⟩ := hk.2 e (by simp [connEvent, he, hown]) hin
    unfold append at hw ⊢
    split at hw
    · rename_i hfull
      rw [if_pos hfull]
      exact h.mono hw (List.Subperm.refl _) (fun _ hx _ => hx) (he ▸ List.sublist_cons_self ..) le_rfl
    · rename_i hroom
      rw [if_neg hroom]
      exact h.request he hx hreg hof hw
  | hangUp he =>
    exact h.mono hw (List.Subperm.refl _) (fun x hx _ => (mem_closed_conns.1 hx).1) (he ▸ List.sublist_cons_self ..)
      le_rfl
  | take hwk hq => exact h.mono hw (pending_take hwk hq).subperm (fun _ hx _ => hx) (List.Sublist.refl _) le_rfl
  | getConnection hwk =>
    exact h.mono hw (pending_set hwk rfl rfl (Or.inl rfl)) (fun _ hx _ => hx) (List.Sublist.refl _) le_rfl
  | @process w i job held ph ph' hd users hwk _ hs =>
    exact h.mono hw (pending_set hwk rfl rfl (Worker.serving_procStep hs)) (fun _ hx _ => hx) (List.Sublist.refl _)
      le_rfl
  | @close w i job held ph ph' hd users hwk _ hs =>
    exact h.mono hw (pending_set hwk rfl rfl (Worker.serving_procStep hs)) (fun x hx _ => (mem_closed_conns.1 hx).1)
      (List.Sublist.refl _) le_rfl
  | releaseConnection hwk =>
    exact h.mono hw (pending_set hwk rfl rfl (Or.inr rfl)) (fun _ hx _ => hx) (List.Sublist.refl _) le_rfl

end Server

end ImageServer
