import ImageServer.Lib.Mutex
import ImageServer.Server.Pending

/-!
# The handler of a request

While a request is on its way from its connection through the queue to a worker nobody touches the slot, and while the
worker is in `process()` nobody but the worker does, as long as slots are kept (`KeepsSlots`).  So what is said of one
request can be proved along the calls of its worker: `RequestProps` is a property of a handler that waits and one of a
handler that is served, by the position of the worker, and `Serving.step` is the rule for a step of the server.
-/

namespace ImageServer

/-- The fields that nobody but the worker changes while a request is served. -/
def HttpHandler.inner (h : HttpHandler) : Parser × Resource × Writer := (h.toParser, h.toResource, h.toWriter)

/-- What is said of a handler until a worker enters `process()` for it, and from then on by the worker, the request and
where the worker is.  It does not depend on the fields set from outside, and nothing is said at the end. -/
structure RequestProps where
  waits : HttpHandler → Prop
  stage : Nat → Job → Phase → HttpHandler → Prop
  waits_congr : ∀ {h h' : HttpHandler}, h'.inner = h.inner → waits h → waits h'
  stage_congr : ∀ {w : Nat} {job : Job} {ph : Phase} {h h' : HttpHandler}, h'.inner = h.inner → stage w job ph h →
    stage w job ph h'
  stage_done : ∀ {w : Nat} {job : Job} {h : HttpHandler}, stage w job .done h

/-- The worker that goes on with its request. -/
def Label.worker : Label → Option Nat
  | .getConnection w => some w
  | .process w _ => some w
  | _ => none

namespace Server

/-- The connection has not been served: it is armed, or its event is still to be handled. -/
def Unserved (s : Server) (x : Conn) : Prop :=
  x ∈ s.conns ∧ x.registered = true ∧ (x.armed = true ∨ ∃ e ∈ s.events, e.Of x)

/-- The same connections, or fewer, with the same events, or fewer. -/
theorem Unserved.mono {s s' : Server} {x : Conn} (h : s'.Unserved x)
    (hc : ∀ y ∈ s'.conns, y.registered = true → y ∈ s.conns) (he : ∀ e ∈ s'.events, e ∈ s.events) : s.Unserved x :=
  ⟨hc x h.1 h.2.1, h.2.1, h.2.2.imp_right fun ⟨e, hm, hof⟩ => ⟨e, he e hm, hof⟩⟩

/-- A connection whose event is reported has been armed. -/
theorem Unserved.of_report {s : Server} {evs : List Event} (hr : ∀ e ∈ evs, s.Reports e) {x : Conn}
    (h : Unserved { s with events := evs, conns := s.disarm evs } x) : ∃ y, s.Unserved y ∧ y.fd = x.fd := by
  obtain ⟨hm, hreg, harm | ⟨e, he, hof⟩⟩ := h
  · obtain ⟨y, hy, rfl⟩ := List.mem_map.1 hm
    split at harm
    · cases harm
    · rename_i hne
      rw [if_neg hne] at hreg ⊢
      exact ⟨y, ⟨hy, hreg, Or.inl harm⟩, rfl⟩
  · rcases hr e he with ⟨hnone, -⟩ | ⟨z, hz, hzfd, -, hzr, hza⟩
    · cases hof.2.trans hnone
    · exact ⟨z, ⟨hz, hzr, Or.inl hza⟩, hzfd.trans hof.1.symm⟩

/-- Another worker in `process()` serves another slot. -/
private theorem OneRequest.other_slot {s : Server} (h : OneRequest s) {w k : Nat} {x y : Worker} {job job' : Job}
    (hw : s.workers[w]? = some x) (hx : x.serving = some job) (hk : s.workers[k]? = some y)
    (hy : y.serving = some job') (hne : k ≠ w) : job'.slot ≠ job.slot := by
  have hmem : y ∈ s.workers.set w .idle := by
    refine List.mem_of_getElem? (i := k) ?_
    rw [List.getElem?_set_ne hne.symm]
    exact hk
  rcases h.ne_slot hw hx hmem hy with rfl | hslot
  · cases hy
  · exact hslot

/-- A request in the queue is for another slot than one with a worker. -/
theorem OneRequest.queue_slot {s : Server} (h : OneRequest s) {x : Worker} {job job' : Job} (hx : x ∈ s.workers)
    (hj : x.serving = some job) (hq : job' ∈ s.workqueue) : job'.slot ≠ job.slot := by
  have hnd := h.once
  rw [pending, List.map_append] at hnd
  intro he
  exact List.disjoint_of_nodup_append hnd (List.mem_map_of_mem hq)
    (he ▸ List.mem_map_of_mem (List.mem_filterMap.2 ⟨x, hx, hj⟩))

/-- A connection that has not been served has no request. -/
theorem OneRequest.quiet {s : Server} (h : OneRequest s) {x : Conn} (hx : s.Unserved x) : s.Quiet x.fd := by
  obtain ⟨hm, hreg, harm | ⟨e, he, hof⟩⟩ := hx
  · exact (h.armed x hm hreg harm).1
  · exact h.waiting x hm hreg e he hof

private theorem connected_inner (s : Server) (w : Nat) (job : Job) (k : Nat) :
    ((s.connected w job).users_ k).inner = (s.users_ k).inner := by
  show (Function.update s.users_ job.slot _ k).inner = _
  by_cases hk : k = job.slot
  · subst hk
    rw [Function.update_self]
    rfl
  · rw [Function.update_of_ne hk]

/-- The handlers of all requests have the properties. -/
structure Serving (P : RequestProps) (s : Server) : Prop where
  unserved : ∀ x, s.Unserved x → P.waits (s.users_ x.fd)
  queued : ∀ job ∈ s.workqueue, P.waits (s.users_ job.slot)
  taken : ∀ job, Worker.taken job ∈ s.workers → P.waits (s.users_ job.slot)
  stages : ∀ w job held ph, s.workers[w]? = some (.processing job held ph) → P.stage w job ph (s.users_ job.slot)

/-- What is to be shown of a step to go from the properties `P` to `P'`: of a new connection, of a worker that enters
`process()` and one that goes on, and that nothing changes for the other workers. -/
structure Serves (P P' : RequestProps) (s : Server) (l : Label) : Prop where
  waits : ∀ h, P.waits h → P'.waits h
  others : ∀ k job ph h, l.worker ≠ some k → P.stage k job ph h → P'.stage k job ph h
  init : ∀ fd timer type content, s.opens l = some fd → s.LowestFree fd →
    P'.waits ((s.users_ fd).init fd timer type content)
  begins : ∀ w job h, l = .getConnection w → P.waits h → P'.stage w job .enter h
  goesOn : ∀ w i job held ph ph' h users close, l = .process w i →
    s.workers[w]? = some (.processing job held ph) → job ∈ s.pending → s.Answered (s.users_ job.slot) i →
    HttpHandler.ProcStep (s.users_ job.slot) s.accounts ph i h users ph' close →
    P.stage w job ph (s.users_ job.slot) → P'.stage w job ph' h

theorem serving_start (P : RequestProps) (c : Setup) : Serving P c.start where
  unserved := fun x hx => by cases hx.1
  queued := fun job hj => by cases hj
  taken := by simp [Setup.start, List.mem_replicate]
  stages := by
    intro w job held ph hw
    have hm : Worker.processing job held ph ∈ List.replicate c.threads Worker.idle := List.mem_of_getElem? hw
    cases List.eq_of_mem_replicate hm

variable {P P' : RequestProps} {s s' : Server} {l : Label}

/-- A step that accepts no connection and makes no request, and in which no worker goes on. -/
private theorem Serving.frame (h : Serving P s) (hc : ∀ x, s'.Unserved x → ∃ y, s.Unserved y ∧ y.fd = x.fd)
    (hq : s'.workqueue = s.workqueue) (hw : s'.workers = s.workers)
    (hu : ∀ k, (s'.users_ k).inner = (s.users_ k).inner) : Serving P s' where
  unserved := by
    intro x hx
    obtain ⟨y, hy, hfd⟩ := hc x hx
    exact hfd ▸ P.waits_congr (hfd ▸ hu y.fd) (h.unserved y hy)
  queued := fun job hj => P.waits_congr (hu job.slot) (h.queued job (hq ▸ hj))
  taken := fun job hj => P.waits_congr (hu job.slot) (h.taken job (hw ▸ hj))
  stages := fun w job held ph hm => P.stage_congr (hu job.slot) (h.stages w job held ph (hw ▸ hm))

/-- A step that is no worker's. -/
private theorem Serving.imp (h : Serving P s) (hs : Serves P P' s l) (hl : l.worker = none) : Serving P' s where
  unserved := fun x hx => hs.waits _ (h.unserved x hx)
  queued := fun job hj => hs.waits _ (h.queued job hj)
  taken := fun job hj => hs.waits _ (h.taken job hj)
  stages := fun w job held ph hm => hs.others w job ph _ (by simp [hl]) (h.stages w job held ph hm)

/-- A connection is accepted onto a slot without a request. -/
private theorem Serving.accept (h : Serving P s) {fd now : Nat} {type : ClientType} {content : Option Ssl}
    (hfree : s.LowestFree fd) (hquiet : s.Quiet fd)
    (hinit : P.waits ((s.users_ fd).init fd (some s.nextTimer) type content)) :
    Serving P (s.openConn fd now type content) where
  unserved := by
    intro x hx
    rcases List.mem_cons.1 hx.1 with rfl | hm
    · rw [openConn_users_self]
      exact hinit
    · have hne : x.fd ≠ fd := fun he => hfree.2.1 ⟨x, hm, he⟩
      rw [openConn_users_ne s hne]
      exact h.unserved x ⟨hm, hx.2⟩
  queued := by
    intro job hj
    rw [openConn_users_ne s (hquiet job (List.mem_append_left _ hj))]
    exact h.queued job hj
  taken := by
    intro job hj
    rw [openConn_users_ne s (hquiet job (List.mem_append_right _ (List.mem_filterMap.2 ⟨_, hj, rfl⟩)))]
    exact h.taken job hj
  stages := by
    intro w job held ph hm
    by_cases hph : ph = .done
    · subst hph
      exact P.stage_done
    · rw [openConn_users_ne s (hquiet job (mem_pending (List.mem_of_getElem? hm) hph))]
      exact h.stages w job held ph hm

/-- A step of `process()`, but for the `close()` at its end. -/
private theorem Serving.served (h : Serving P s) (h1 : OneRequest s) {w : Nat} {i : ProcInput} {job : Job}
    {held : Option Nat} {ph ph' : Phase} {hd : HttpHandler} {users : Users} {close : Bool}
    (hs : Serves P P' s (.process w i)) (hw : s.workers[w]? = some (.processing job held ph))
    (ha : s.Answered (s.users_ job.slot) i)
    (hp : HttpHandler.ProcStep (s.users_ job.slot) s.accounts ph i hd users ph' close) :
    Serving P' (s.served w job held ph' hd users) := by
  have hserving : (Worker.processing job held ph).serving = some job := Worker.serving_of_procStep hp
  have hmem := List.mem_of_getElem? hw
  have hj : job ∈ s.pending := List.mem_append_right _ (List.mem_filterMap.2 ⟨_, hmem, hserving⟩)
  have hne : ∀ {k : Nat}, k ≠ job.slot → (s.served w job held ph' hd users).users_ k = s.users_ k :=
    fun hk => Function.update_of_ne hk ..
  refine ⟨fun x hx => ?_, fun job' hj' => ?_, fun job' hj' => ?_, fun k job' held' ph'' hk => ?_⟩
  · rw [hne fun he => h1.quiet (s := s) hx job hj he.symm]
    exact hs.waits _ (h.unserved x hx)
  · rw [hne (h1.queue_slot hmem hserving hj')]
    exact hs.waits _ (h.queued job' hj')
  · rcases h1.ne_slot hw hserving hj' rfl with hnew | hslot
    · cases hnew
    · rw [hne hslot]
      exact hs.waits _ (h.taken job' ((List.mem_or_eq_of_mem_set hj').resolve_right fun hnew => by cases hnew))
  · rcases Mutex.getElem?_set_some hw hk with ⟨rfl, hnew⟩ | ⟨hkw, hold⟩
    · cases hnew
      show P'.stage _ _ _ (Function.update s.users_ job.slot hd job.slot)
      rw [Function.update_self]
      exact hs.goesOn _ _ _ _ _ _ _ _ _ rfl hw hj ha hp (h.stages _ _ _ _ hw)
    · by_cases hph : ph'' = .done
      · subst hph
        exact P'.stage_done
      · rw [hne (h1.other_slot hw hserving hold (Worker.serving_of_ne_done hph) hkw)]
        refine hs.others _ _ _ _ (fun he => ?_) (h.stages k job' held' ph'' hold)
        exact hkw (Option.some.inj he).symm

/-- The rule: a step that keeps slots goes from `P` to `P'` when it does so for its own request. -/
theorem Serving.step {rm : RemoveFd} (h : Serving P s) (h1 : OneRequest s) (hk : s.KeepsSlots l)
    (hv : Serves P P' s l) (hs : Step rm s l s') : Serving P' s' := by
  cases hs with
  | epollWait hrun hev hnd hr =>
    exact (h.imp hv rfl).frame (fun x hx => hx.of_report hr) rfl rfl fun _ => rfl
  | ignored he | term he =>
    exact (h.imp hv rfl).frame
      (fun x hx => ⟨x, hx.mono (fun _ hy _ => hy) fun e hm => he ▸ List.mem_cons_of_mem _ hm, rfl⟩) rfl rfl
      fun _ => rfl
  | @opened o e es ssls n fd type content he hown hfree ho ht =>
    have h' : Serving P' { s with events := es, ssls := ssls, nextSsl := n } := (h.imp hv rfl).frame
      (fun x hx => ⟨x, hx.mono (fun _ hy _ => hy) fun e hm => he ▸ List.mem_cons_of_mem _ hm, rfl⟩) rfl rfl
      fun _ => rfl
    exact h'.accept hfree (hk.1 fd ho) (hv.init fd _ type content ho hfree)
  | sslFailed he =>
    refine (h.imp hv rfl).frame
      (fun x hx => ⟨x, hx.mono (fun y hy hreg => ?_) fun e hm => he ▸ List.mem_cons_of_mem _ hm, rfl⟩) rfl rfl
      fun _ => rfl
    rcases List.mem_cons.1 hy with rfl | hy
    · cases hreg
    · exact hy
  | timeout he _ ht =>
    have hsub := timeout_conns ht
    have hinner := timeout_field (f := HttpHandler.inner) (fun _ => rfl) ht
    obtain ⟨_, _, _, _, rfl⟩ := timeout_frame ht
    exact (h.imp hv rfl).frame
      (fun x hx => ⟨x, hx.mono (fun y hy _ => hsub y hy) fun e hm => he ▸ List.mem_cons_of_mem _ hm, rfl⟩)
      rfl rfl hinner
  | @readable o e es id he hown hin _ _ =>
    obtain ⟨x, hx, hreg, hof⟩ := hk.2 e (by simp [connEvent, he, hown]) hin
    have hwaits : P'.waits (s.users_ e.fd) :=
      hv.waits _ (hof.1 ▸ h.unserved x ⟨hx, hreg, Or.inr ⟨e, he ▸ List.mem_cons_self .., hof⟩⟩)
    have hless : ∀ y, Unserved { s with events := es } y → s.Unserved y :=
      fun y hy => hy.mono (fun _ hz _ => hz) fun e hm => he ▸ List.mem_cons_of_mem _ hm
    have h' := h.imp hv rfl
    unfold append
    split
    · exact h'.frame (fun y hy => ⟨y, hless y hy, rfl⟩) rfl rfl fun _ => rfl
    · refine ⟨fun y hy => h'.unserved y (hless y hy), fun job hj => ?_, h'.taken, h'.stages⟩
      rcases List.mem_append.1 hj with hj | hj
      · exact h'.queued job hj
      · rw [List.mem_singleton.1 hj]
        exact hwaits
  | hangUp he =>
    refine (h.imp hv rfl).frame (fun x hx => ⟨x, hx.mono (fun y hy _ => (mem_closed_conns.1 hy).1)
      fun e hm => he ▸ List.mem_cons_of_mem _ hm, rfl⟩) rfl rfl ?_
    exact closed_field (f := HttpHandler.inner) (fun _ => rfl) { s with events := _ } _
  | @take w job jobs hw hq =>
    have h' := h.imp hv rfl
    refine ⟨h'.unserved, fun j hj => h'.queued j (hq ▸ List.mem_cons_of_mem _ hj), fun j hj => ?_,
      fun k j held ph hm => ?_⟩
    · rcases List.mem_or_eq_of_mem_set hj with hj | hj
      · exact h'.taken j hj
      · cases hj
        exact h'.queued job (hq ▸ List.mem_cons_self ..)
    · rcases Mutex.getElem?_set_some hw hm with ⟨-, hnew⟩ | ⟨-, hold⟩
      · cases hnew
      · exact h'.stages k j held ph hold
  | @getConnection w job hw =>
    have hinner := connected_inner s w job
    refine ⟨fun x hx => hv.waits _ (P.waits_congr (hinner _) (h.unserved x hx)),
      fun j hj => hv.waits _ (P.waits_congr (hinner _) (h.queued j hj)), fun j hj => ?_, fun k j held ph hm => ?_⟩
    · have hj : Worker.taken j ∈ s.workers := (List.mem_or_eq_of_mem_set hj).resolve_right fun hnew => by cases hnew
      exact hv.waits _ (P.waits_congr (hinner _) (h.taken j hj))
    · rcases Mutex.getElem?_set_some hw hm with ⟨rfl, hnew⟩ | ⟨hne, hold⟩
      · cases hnew
        exact hv.begins _ _ _ rfl (P.waits_congr (hinner _) (h.taken job (List.mem_of_getElem? hw)))
      · refine hv.others _ _ _ _ (fun he => ?_) (P.stage_congr (hinner _) (h.stages k j held ph hold))
        exact hne (Option.some.inj he).symm
  | process hw ha hp => exact h.served h1 hv hw ha hp
  | close hw ha hp =>
    refine (h.served h1 hv hw ha hp).frame
      (fun x hx => ⟨x, hx.mono (fun y hy _ => (mem_closed_conns.1 hy).1) fun _ he => he, rfl⟩) rfl rfl ?_
    exact closed_field (f := HttpHandler.inner) (fun _ => rfl) _ _
  | releaseConnection hw =>
    have h' := h.imp hv rfl
    refine ⟨h'.unserved, h'.queued, fun j hj => ?_, fun k j held ph hm => ?_⟩
    · exact h'.taken j ((List.mem_or_eq_of_mem_set hj).resolve_right fun hnew => by cases hnew)
    · rcases Mutex.getElem?_set_some hw hm with ⟨-, hnew⟩ | ⟨-, hold⟩
      · cases hnew
      · exact h'.stages k j held ph hold

end Server

end ImageServer
