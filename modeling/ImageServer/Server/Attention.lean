import ImageServer.Server.Invariant

/-!
# No connection is forgotten

A connection is registered with `EPOLLONESHOT`: after one event it is disarmed until `mod_fd` arms it again, which no
code does.  `NoneForgotten` says that nevertheless every open connection is armed, waits for a worker or is being
served.  This holds as long as every connection is closed at the end of its `process()`, none of its events is
refused by a full queue, and every accepted connection gets as far as `init` (`KeepsAttention`,
`noneForgotten_run`).  A response whose connection is kept alive is the normal way to lose a connection
(`keepAlive_forgets`).
-/

namespace ImageServer

open Transition CLib

namespace Server

/-- The connection is armed in epoll, its handler is in the queue, or a worker has taken it from there and has not
returned from its `process()`. -/
def Attended (s : Server) (x : Conn) : Prop :=
  x.armed = true ∨ (∃ job ∈ s.workqueue, job.slot = x.fd) ∨
    ∃ y ∈ s.workers, ∃ job, y.serving = some job ∧ job.slot = x.fd

/-- Every open connection is attended to, but for one whose event is still waiting in `events_` to be handled. -/
def NoneForgotten (s : Server) : Prop := ∀ x ∈ s.conns, (∀ e ∈ s.events, e.fd ≠ x.fd) → s.Attended x

/-- The step hands a connection to a queue that is full. -/
def refuses (s : Server) (l : Label) : Bool :=
  (s.connEvent l).any fun e => e.epollin ∧ s.maxRequests < s.workqueue.length

/-- The step completes no response whose connection is kept alive, has no event refused, and does not fail to set up
SSL on a connection it has accepted. -/
def KeepsAttention (s : Server) (l : Label) : Prop :=
  s.keepsAlive l = false ∧ s.refuses l = false ∧ s.failsHandshake l = false

instance (s : Server) (l : Label) : Decidable (s.KeepsAttention l) :=
  inferInstanceAs (Decidable (s.keepsAlive l = false ∧ s.refuses l = false ∧ s.failsHandshake l = false))

/-- The invariant: besides, all connections are registered, and the own descriptors are open. -/
structure Attentive (s : Server) : Prop extends WellFormed s where
  attended : NoneForgotten s
  all : ∀ x ∈ s.conns, x.registered = true
  own_mem : ∀ fd ∈ s.own, fd ∈ s.reserved

private theorem attentive_start (c : Setup) : Attentive c.start where
  toWellFormed := wellFormed_start c
  attended := by simp [NoneForgotten, Setup.start]
  all := by simp [Setup.start]
  own_mem := c.isOpen

private theorem Attended.mono {s s' : Server} {x : Conn} (h : s.Attended x)
    (hq : ∀ job ∈ s.workqueue, job ∈ s'.workqueue)
    (hw : ∀ y ∈ s.workers, ∀ job, y.serving = some job → job.slot = x.fd →
      ∃ y' ∈ s'.workers, y'.serving = some job) : s'.Attended x := by
  rcases h with h | ⟨job, hj, hs⟩ | ⟨y, hy, job, hj, hs⟩
  · exact Or.inl h
  · exact Or.inr (Or.inl ⟨job, hq job hj, hs⟩)
  · obtain ⟨y', hy', hj'⟩ := hw y hy job hj hs
    exact Or.inr (Or.inr ⟨y', hy', job, hj', hs⟩)

/-- Handling the event of an own descriptor, or none, on the same connections, queue and workers. -/
private theorem NoneForgotten.frame {s s' : Server} (h : NoneForgotten s) (hc : ∀ x ∈ s'.conns, x ∈ s.conns)
    (hq : s'.workqueue = s.workqueue) (hw : s'.workers = s.workers)
    (he : ∀ e ∈ s.events, e ∈ s'.events ∨ ∀ x ∈ s'.conns, e.fd ≠ x.fd) : NoneForgotten s' := by
  intro x hx hne
  refine (h x (hc x hx) fun e hes => ?_).mono (fun job hj => hq ▸ hj) fun y hy job hj _ => ⟨y, hw ▸ hy, hj⟩
  exact (he e hes).elim (hne e) fun ha => ha x hx

/-- The event of an own descriptor is no connection's. -/
private theorem Attentive.own_ne {s : Server} (h : Attentive s) {fd : Nat} (hfd : fd ∈ s.own) {x : Conn}
    (hx : x ∈ s.conns) :
    fd ≠ x.fd := by
  rintro rfl
  exact h.apart x hx (h.own_mem _ hfd)

/-- With the event of an own descriptor handled, the events of the connections are still the same. -/
private theorem Attentive.pop_own {s : Server} (h : Attentive s) {e : Event} {es : List Event}
    (he : s.events = e :: es) (hown : e.fd ∈ s.own) : ∀ e' ∈ s.events, e' ∈ es ∨ ∀ x ∈ s.conns, e'.fd ≠ x.fd := by
  intro e' he'
  rw [he] at he'
  rcases List.mem_cons.1 he' with rfl | he'
  · exact Or.inr fun x hx => h.own_ne hown hx
  · exact Or.inl he'

/-- Changing one worker loses at most what that worker attended to. -/
private theorem serving_set {l : List Worker} {w : Nat} {old : Worker} (new : Worker) (hw : l[w]? = some old)
    {y : Worker} (hy : y ∈ l) {job : Job} (hj : y.serving = some job)
    (hnew : old.serving = some job → new.serving = some job) :
    ∃ y' ∈ l.set w new, y'.serving = some job := by
  obtain ⟨k, hk, rfl⟩ := List.mem_iff_getElem.1 hy
  by_cases hkw : w = k
  · subst hkw
    obtain ⟨_, hold⟩ := List.getElem?_eq_some_iff.1 hw
    exact ⟨new, List.mem_set hk .., hnew (hold ▸ hj)⟩
  · refine ⟨l[k], List.mem_iff_getElem.2 ⟨k, by simpa using hk, ?_⟩, hj⟩
    rw [List.getElem_set_ne hkw]

/-- What a step that keeps attention preserves. -/
private theorem Attentive.attended_step {rm : RemoveFd} {s s' : Server} {l : Label} (h : Attentive s)
    (hk : s.KeepsAttention l) (hs : Step rm s l s') : NoneForgotten s' := by
  cases hs with
  | @epollWait evs hrun hev _ hr =>
    intro x hx hne
    obtain ⟨y, hy, rfl⟩ := List.mem_map.1 hx
    split at hne
    · rename_i hmem
      obtain ⟨e, he, hfd⟩ := List.mem_map.1 hmem
      exact absurd hfd (hne e he)
    · rename_i hmem
      rw [if_neg hmem]
      exact (h.attended y hy (by simp [hev])).mono (fun _ => id) fun y' hy' job hj _ => ⟨y', hy', hj⟩
  | ignored he hown => exact h.attended.frame (fun _ => id) rfl rfl (h.pop_own he hown)
  | @opened o e es ssls n fd type content he hown _ _ _ =>
    intro x hx hne
    rcases List.mem_cons.1 hx with rfl | hx
    · exact Or.inl rfl
    · refine (h.attended x hx fun e' he' => ?_).mono (fun _ => id) fun y hy job hj _ => ⟨y, hy, hj⟩
      exact (h.pop_own he hown e' he').elim (hne e') fun ha => ha x hx
  | sslFailed _ _ _ hf => exact absurd hf (by simp [hk.2.2])
  | timeout he hown ht =>
    have hsub := timeout_conns ht
    obtain ⟨_, _, _, _, rfl⟩ := timeout_frame ht
    exact h.attended.frame hsub rfl rfl fun e' he' =>
      (h.pop_own he hown e' he').imp_right fun ha x hx => ha x (hsub x hx)
  | term he hfd => exact h.attended.frame (fun _ => id) rfl rfl (h.pop_own he (by simp [own, hfd]))
  | @readable o e es id he hown hin _ _ =>
    have hroom : ¬ s.maxRequests < s.workqueue.length := by simpa [refuses, connEvent, he, hown, hin] using hk.2.1
    unfold append
    rw [if_neg hroom]
    intro x hx hne
    by_cases hfd : e.fd = x.fd
    · exact Or.inr (Or.inl ⟨⟨e.fd, e.conn⟩, List.mem_append_right _ (List.mem_singleton_self _), hfd⟩)
    · refine (h.attended x hx fun e' he' => ?_).mono (fun job hj => List.mem_append_left _ hj)
        fun y hy job hj _ => ⟨y, hy, hj⟩
      rw [he] at he'
      rcases List.mem_cons.1 he' with rfl | he'
      · exact hfd
      · exact hne e' he'
  | @hangUp o e es he hown hin =>
    -- what is still open is not the connection of the event
    intro x hx hne
    have hxs : x ∈ s.conns := (mem_closed_conns.1 hx).1
    have hfd : x.fd ≠ e.fd := h.ne_of_mem_closed (s := s) (mem_closed_conns.2 (mem_closed_conns.1 hx)) (h.all x hxs)
    refine (h.attended x hxs fun e' he' => ?_).mono (fun _ => id) fun y hy job hj _ => ⟨y, hy, hj⟩
    rw [he] at he'
    rcases List.mem_cons.1 he' with rfl | he'
    · exact hfd.symm
    · exact hne e' he'
  | @take w job jobs hw hq =>
    intro x hx hne
    rcases h.attended x hx hne with ha | ⟨j, hj, hs⟩ | ⟨y, hy, j, hj, hs⟩
    · exact Or.inl ha
    · rw [hq] at hj
      rcases List.mem_cons.1 hj with rfl | hj
      · exact Or.inr (Or.inr ⟨_, List.mem_set (List.getElem?_eq_some_iff.1 hw).1 .., j, rfl, hs⟩)
      · exact Or.inr (Or.inl ⟨j, hj, hs⟩)
    · obtain ⟨y', hy', hj'⟩ := serving_set (.taken job) hw hy hj fun hidle => by cases hidle
      exact Or.inr (Or.inr ⟨y', hy', j, hj', hs⟩)
  | getConnection hw =>
    intro x hx hne
    exact (h.attended x hx hne).mono (fun _ => id) fun y hy j hj _ => serving_set _ hw hy hj id
  | @process w i job held ph ph' hd users hw _ hs =>
    -- without a response kept alive, `process()` has not returned
    have hka := keepsAlive_process (i := i) hw ▸ hk.1
    have hserving : (Worker.processing job held ph').serving = some job := by
      cases ph' with
      | done => exact absurd hs.done (by simp [hka])
      | _ => rfl
    intro x hx hne
    refine (h.attended x hx hne).mono (fun _ => id) fun y hy j hj _ => serving_set _ hw hy hj fun hold => ?_
    rw [Worker.serving_processing hold]
    exact hserving
  | @close w i job held ph ph' hd users hw _ hs =>
    -- the worker loses its request, but the connection of that slot is closed
    intro x hx hne
    have hxs : x ∈ s.conns := (mem_closed_conns.1 hx).1
    have hss : Sockets (s.served w job held ph' hd users) := h.toSockets.frame rfl rfl (served_socket hs)
    have hfd : x.fd ≠ job.slot := hss.ne_of_mem_closed hx (h.all x hxs)
    refine (h.attended x hxs hne).mono (fun _ => id) fun y hy j hj hslot => serving_set _ hw hy hj fun hold => ?_
    exact absurd (hslot.symm.trans (congrArg Job.slot (Worker.serving_processing hold))) hfd
  | releaseConnection hw =>
    intro x hx hne
    exact (h.attended x hx hne).mono (fun _ => id) fun y hy j hj _ =>
      serving_set _ hw hy hj fun hdone => by cases hdone

/-- As long as no handshake fails, all connections are registered and the own descriptors stay open. -/
private theorem Attentive.registered_step {rm : RemoveFd} {s s' : Server} {l : Label} (h : Attentive s)
    (hk : s.KeepsAttention l) (hs : Step rm s l s') :
    (∀ x ∈ s'.conns, x.registered = true) ∧ ∀ fd ∈ s'.own, fd ∈ s'.reserved := by
  cases hs with
  | epollWait =>
    refine ⟨fun x hx => ?_, h.own_mem⟩
    obtain ⟨y, hy, -, -, hreg⟩ := mem_disarm hx
    exact hreg.trans (h.all y hy)
  | ignored | term | take | getConnection | process | releaseConnection => exact ⟨h.all, h.own_mem⟩
  | opened =>
    refine ⟨fun x hx => ?_, h.own_mem⟩
    rcases List.mem_cons.1 hx with rfl | hx
    · rfl
    · exact h.all x hx
  | sslFailed _ _ _ hf => exact absurd hf (by simp [hk.2.2])
  | timeout _ _ ht =>
    have hsub := timeout_conns ht
    obtain ⟨_, _, _, _, rfl⟩ := timeout_frame ht
    exact ⟨fun x hx => h.all x (hsub x hx), h.own_mem⟩
  | readable =>
    unfold append
    split <;> exact ⟨h.all, h.own_mem⟩
  | hangUp => exact ⟨fun x hx => h.all x (mem_closed_conns.1 hx).1, h.own_mem⟩
  | close => exact ⟨fun x hx => h.all x (mem_closed_conns.1 hx).1, h.own_mem⟩

/-- In every run whose steps keep attention, no connection is forgotten. -/
theorem noneForgotten_run {rm : RemoveFd} {c : Setup} {ls : List Label} {t : Server}
    (h : run (step rm) c.start ls = some t) (hk : Meets (step rm) KeepsAttention c.start ls) : NoneForgotten t := by
  refine (run_invariant (P := Attentive) (fun s l s' ha hc hs' => ?_) (attentive_start c) hk h).attended
  have hw := ha.toWellFormed.of_step hs'
  obtain ⟨-, ⟨why, -, rfl⟩ | ⟨-, hs⟩⟩ := step_cases hs'
  · exact ⟨hw, ha.attended, ha.all, ha.own_mem⟩
  · obtain ⟨hall, hown⟩ := ha.registered_step hc hs
    exact ⟨hw, ha.attended_step hc hs, hall, hown⟩

/-- Two clients connect; the event of one is handled, and the other connection is still armed. -/
theorem noneForgotten_run_twoClients :
    ∃ t, run (step .asWritten) Setup.default.start
        [.epollWait [.input 14 none], .dispatch ⟨0, some 19, .succeeds⟩,
          .epollWait [.input 14 none], .dispatch ⟨0, some 20, .succeeds⟩,
          .epollWait [.input 19 (some 0)], .dispatch ⟨1, none, .succeeds⟩, .take 3] = some t ∧ NoneForgotten t :=
  exists_run (by decide +kernel) fun _ ht => noneForgotten_run ht (by decide +kernel)

/-- Once the response is written, the connection that is kept alive is forgotten. -/
theorem keepAlive_forgets :
    ∃ t, run (step .asWritten) Setup.default.start
        (serveBadRequest ++ [.process 0 (.wrote (.count 138)), .releaseConnection 0]) = some t ∧
      ¬ NoneForgotten t := by
  refine exists_run_map (f := fun t => (t.conns, t.events, t.workqueue, t.workers.filterMap Worker.serving))
    (a := ([⟨0, 19, true, false⟩], [], [], [])) (by decide +kernel) ?_
  intro t hx hn
  simp only [Prod.mk.injEq] at hx
  obtain ⟨hconns, hevents, hqueue, hworkers⟩ := hx
  rcases hn ⟨0, 19, true, false⟩ (by simp [hconns]) (by simp [hevents]) with h | ⟨job, hj, -⟩ | ⟨y, hy, job, hj, -⟩
  · cases h
  · simp [hqueue] at hj
  · have hmem := List.mem_filterMap.2 ⟨y, hy, hj⟩
    simp [hworkers] at hmem

end Server

end ImageServer
