import ImageServer.Server.Pending

/-!
# A connection is served once

`add_fd` registers a connection with `EPOLLONESHOT`, and nothing the server does arms it again.  So a connection has
one ticket: it is armed, or has an event that is still to be handled, or its handler is in the queue; and when a worker
takes the handler the ticket is gone.  In every run each connection is taken by a worker once at most, whatever the
responses promise of keeping it alive (`servedOnce_run`).
-/

namespace ImageServer

open Transition

namespace Server

/-- The connections that a worker may still be given: armed, with an event to be handled, or in the queue. -/
def tickets (s : Server) : List (Option Nat) :=
  (s.conns.filter Conn.armed).map (fun x => some x.id) ++
    ((s.events.filter fun e => e.conn.isSome).map Event.conn ++ s.workqueue.map Job.conn)

/-- The connection whose handler the step takes from the queue. -/
def takes (s : Server) : Label → List (Option Nat)
  | .take _ => (s.workqueue.head?.map Job.conn).toList
  | _ => []

/-- The server, and the connections the workers have taken so far. -/
structure Tallied where
  server : Server
  served : List (Option Nat)

def Tallied.start (c : Setup) : Tallied := ⟨c.start, []⟩

def Tallied.step (rm : RemoveFd) (v : Tallied) (l : Label) : Option Tallied :=
  (v.server.step rm l).map fun s => ⟨s, v.served ++ v.server.takes l⟩

/-- The invariant: a connection has one ticket or has been taken, and the number of the next one is new. -/
structure OneTicket (s : Server) (served : List (Option Nat)) : Prop where
  once : (s.tickets ++ served).Nodup
  known : ∀ c ∈ s.tickets ++ served, ∃ id < s.nextConn, c = some id
  ids : (s.conns.map Conn.id).Nodup
  below : ∀ x ∈ s.conns, x.id < s.nextConn
  events : ∀ e ∈ s.events, e.fd ∈ s.own ∨ e.conn ≠ none

private theorem oneTicket_start (c : Setup) : OneTicket c.start [] where
  once := List.nodup_nil
  known := fun c hc => by cases hc
  ids := List.nodup_nil
  below := fun x hx => by cases hx
  events := fun e he => by cases he

/-- A step that gives out no new ticket. -/
private theorem OneTicket.mono {s s' : Server} {served served' : List (Option Nat)} (h : OneTicket s served)
    (ht : (s'.tickets ++ served').Subperm (s.tickets ++ served))
    (hc : (s'.conns.map Conn.id).Sublist (s.conns.map Conn.id))
    (hn : s'.nextConn = s.nextConn) (he : ∀ e ∈ s'.events, e.fd ∈ s'.own ∨ e.conn ≠ none) : OneTicket s' served' where
  once := by
    obtain ⟨l, hl, hsub⟩ := ht
    exact hl.nodup_iff.1 (hsub.nodup h.once)
  known := fun c hm => hn ▸ h.known c (ht.subset hm)
  ids := hc.nodup h.ids
  below := by
    intro x hx
    obtain ⟨y, hy, hid⟩ := List.mem_map.1 (hc.subset (List.mem_map_of_mem hx))
    exact hn ▸ hid ▸ h.below y hy
  events := he

/-- What is left of the connections and of the events has the tickets that are left. -/
private theorem tickets_sublist {s s' : Server} (hc : s'.conns.Sublist s.conns) (he : s'.events.Sublist s.events)
    (hq : s'.workqueue = s.workqueue) : s'.tickets.Sublist s.tickets := by
  unfold tickets
  rw [hq]
  exact ((hc.filter _).map _).append (((he.filter _).map _).append (List.Sublist.refl _))

/-- A step of the event loop that accepts nothing and makes no request. -/
private theorem OneTicket.frame {s s' : Server} {served : List (Option Nat)} (h : OneTicket s served)
    (hc : s'.conns.Sublist s.conns) (he : s'.events.Sublist s.events) (hq : s'.workqueue = s.workqueue)
    (hn : s'.nextConn = s.nextConn) (ho : s'.own = s.own) : OneTicket s' served :=
  h.mono ((tickets_sublist hc he hq).append_right _).subperm (hc.map _) hn
    fun e hm => ho ▸ h.events e (he.subset hm)

/-- A new connection gets a ticket, unless it is left unregistered. -/
private theorem OneTicket.newConn {s s' : Server} {served : List (Option Nat)} (h : OneTicket s served) {x : Conn}
    (hid : x.id = s.nextConn) (hc : s'.conns = x :: s.conns) (hn : s'.nextConn = s.nextConn + 1)
    (he : s'.events = s.events) (hq : s'.workqueue = s.workqueue) (ho : s'.own = s.own) : OneTicket s' served := by
  have ht : s'.tickets = if x.armed then some s.nextConn :: s.tickets else s.tickets := by
    unfold tickets
    rw [hc, he, hq, List.filter_cons]
    split
    · rw [← hid]
      rfl
    · rfl
  have hnew : some s.nextConn ∉ s.tickets ++ served := by
    intro hm
    obtain ⟨id, hlt, he⟩ := h.known _ hm
    exact absurd (Option.some.inj he) hlt.ne'
  have hknown : ∀ c ∈ s.tickets ++ served, ∃ id < s.nextConn + 1, c = some id := by
    intro c hm
    obtain ⟨id, hlt, rfl⟩ := h.known c hm
    exact ⟨id, Nat.lt_succ_of_lt hlt, rfl⟩
  refine ⟨?_, ?_, ?_, fun y hy => ?_, fun e hm => ?_⟩
  · rw [ht]
    split
    · exact List.nodup_cons.2 ⟨hnew, h.once⟩
    · exact h.once
  · rw [ht, hn]
    split
    · exact List.forall_mem_cons.2 ⟨⟨_, Nat.lt_succ_self _, rfl⟩, hknown⟩
    · exact hknown
  · rw [hc, List.map_cons, hid]
    refine List.nodup_cons.2 ⟨fun hm => ?_, h.ids⟩
    obtain ⟨y, hy, hyid⟩ := List.mem_map.1 hm
    exact absurd hyid (h.below y hy).ne
  · rw [hn]
    rw [hc] at hy
    rcases List.mem_cons.1 hy with rfl | hy
    · exact hid.trans_lt (Nat.lt_succ_self _)
    · exact Nat.lt_succ_of_lt (h.below y hy)
  · rw [ho]
    exact h.events e (he ▸ hm)

/-- Events are reported: the tickets of the armed connections pass to their events. -/
private theorem OneTicket.report {s : Server} {served : List (Option Nat)} (h : OneTicket s served) {evs : List Event}
    (hev : s.events = []) (hnd : (evs.map Event.fd).Nodup) (hr : ∀ e ∈ evs, s.Reports e) :
    OneTicket { s with events := evs, conns := s.disarm evs } served := by
  -- the connection of an event, which the event disarms
  have hconn : ∀ e ∈ evs, e.conn.isSome = true → ∃ x ∈ s.conns, x.fd = e.fd ∧ some x.id = e.conn ∧ x.armed = true := by
    intro e he hsome
    rcases hr e he with ⟨hnone, -⟩ | ⟨x, hx, hfd, hid, -, harm⟩
    · rw [hnone] at hsome
      cases hsome
    · exact ⟨x, hx, hfd, hid, harm⟩
  have hsame : ∀ {x y : Conn}, x ∈ s.conns → y ∈ s.conns → x.id = y.id → x = y :=
    fun hx hy he => List.inj_on_of_nodup_map h.ids hx hy he
  have hids : (s.disarm evs).map Conn.id = s.conns.map Conn.id := by
    rw [disarm, List.map_map]
    refine List.map_congr_left fun x _ => ?_
    dsimp only [Function.comp]
    split <;> rfl
  have harmed : ∀ {x : Conn}, x ∈ (s.disarm evs).filter Conn.armed →
      x ∈ s.conns.filter Conn.armed ∧ x.fd ∉ evs.map Event.fd := by
    intro x hx
    obtain ⟨hm, harm⟩ := List.mem_filter.1 hx
    obtain ⟨y, hy, rfl⟩ := List.mem_map.1 hm
    split at harm
    · cases harm
    · rename_i hfd
      rw [if_neg hfd]
      exact ⟨List.mem_filter.2 ⟨hy, harm⟩, hfd⟩
  have hA : (((s.disarm evs).filter Conn.armed).map fun x => some x.id).Nodup := by
    have hnd : (((s.disarm evs).filter Conn.armed).map Conn.id).Nodup :=
      (List.filter_sublist.map Conn.id).nodup (hids ▸ h.ids)
    have hmap : ((s.disarm evs).filter Conn.armed).map (fun x => some x.id) =
        (((s.disarm evs).filter Conn.armed).map Conn.id).map some := (List.map_map ..).symm
    rw [hmap]
    exact hnd.map (Option.some_injective _)
  have hE : ((evs.filter fun e => e.conn.isSome).map Event.conn).Nodup := by
    refine List.Nodup.map_on (fun e he e' he' heq => ?_) ((List.Nodup.of_map _ hnd).filter _)
    obtain ⟨hm, hs⟩ := List.mem_filter.1 he
    obtain ⟨hm', hs'⟩ := List.mem_filter.1 he'
    obtain ⟨x, hx, hfd, hid, -⟩ := hconn e hm hs
    obtain ⟨x', hx', hfd', hid', -⟩ := hconn e' hm' hs'
    have hxx : x = x' := hsame hx hx' (Option.some.inj ((hid.trans heq).trans hid'.symm))
    exact List.inj_on_of_nodup_map hnd hm hm' (hfd.symm.trans ((congrArg Conn.fd hxx).trans hfd'))
  have hAE : ((((s.disarm evs).filter Conn.armed).map fun x => some x.id) ++
      (evs.filter fun e => e.conn.isSome).map Event.conn).Subperm
        ((s.conns.filter Conn.armed).map fun x => some x.id) := by
    refine List.subperm_of_subset (List.nodup_append.2 ⟨hA, hE, ?_⟩) fun c hc => ?_
    · rintro c hc c' hc' rfl
      obtain ⟨x, hx, rfl⟩ := List.mem_map.1 hc
      obtain ⟨e, he, heq⟩ := List.mem_map.1 hc'
      obtain ⟨hm, hs⟩ := List.mem_filter.1 he
      obtain ⟨y, hy, hfd, hid, -⟩ := hconn e hm hs
      have hxy : x = y := hsame (List.mem_filter.1 (harmed hx).1).1 hy (Option.some.inj (hid.trans heq).symm)
      exact (harmed hx).2 (hxy ▸ hfd ▸ List.mem_map_of_mem hm)
    · rcases List.mem_append.1 hc with hc | hc
      · obtain ⟨x, hx, rfl⟩ := List.mem_map.1 hc
        exact List.mem_map.2 ⟨x, (harmed hx).1, rfl⟩
      · obtain ⟨e, he, rfl⟩ := List.mem_map.1 hc
        obtain ⟨hm, hs⟩ := List.mem_filter.1 he
        obtain ⟨y, hy, -, hid, harm⟩ := hconn e hm hs
        exact List.mem_map.2 ⟨y, List.mem_filter.2 ⟨hy, harm⟩, hid⟩
  refine h.mono ?_ (hids ▸ List.Sublist.refl _) rfl fun e he => ?_
  · refine (List.subperm_append_right _).2 ?_
    unfold tickets
    dsimp only
    rw [hev, List.filter_nil, List.map_nil, List.nil_append, ← List.append_assoc]
    exact (List.subperm_append_right _).2 hAE
  · rcases hr e he with ⟨-, hown, -⟩ | ⟨x, -, -, hid, -⟩
    · exact Or.inl hown
    · exact Or.inr fun hnone => by
        rw [← hid] at hnone
        cases hnone

/-- The handler of a connection is put into the queue: the ticket passes to it. -/
private theorem OneTicket.request {s : Server} {served : List (Option Nat)} (h : OneTicket s served) {e : Event}
    {es : List Event} (he : s.events = e :: es) (hown : e.fd ∉ s.own) {l : SortedTimerList} :
    OneTicket { s with events := es, timerLst := l, workqueue := s.workqueue ++ [⟨e.fd, e.conn⟩] } served := by
  have hsome : e.conn.isSome = true := by
    rw [Option.isSome_iff_ne_none]
    exact (h.events e (he ▸ List.mem_cons_self ..)).resolve_left hown
  refine h.mono ?_ (List.Sublist.refl _) rfl fun e' he' => h.events e' (he ▸ List.mem_cons_of_mem _ he')
  refine ((List.perm_append_right_iff _).2 ?_).subperm
  unfold tickets
  dsimp only
  have hfilter : (e :: es).filter (fun e => e.conn.isSome) = e :: es.filter fun e => e.conn.isSome :=
    List.filter_cons_of_pos hsome
  rw [he, hfilter, List.map_cons, List.map_append, List.map_singleton, List.cons_append]
  refine List.Perm.append_left _ ?_
  rw [← List.append_assoc]
  exact List.perm_append_singleton ..

/-- A worker takes a handler: the ticket is gone. -/
private theorem OneTicket.take {s : Server} {served : List (Option Nat)} (h : OneTicket s served) {job : Job}
    {jobs : List Job} (hq : s.workqueue = job :: jobs) (workers : List Worker) :
    OneTicket { s with workqueue := jobs, workers := workers } (served ++ [job.conn]) := by
  refine h.mono (List.Perm.subperm ?_) (List.Sublist.refl _) rfl h.events
  unfold tickets
  dsimp only
  rw [hq, List.map_cons]
  simp only [List.append_assoc]
  refine List.Perm.append_left _ (List.Perm.append_left _ ?_)
  rw [← List.append_assoc]
  exact List.perm_append_singleton ..

private theorem timeout_conns_sublist {rm : RemoveFd} {cur : Nat} {l : SortedTimerList} {s s' : Server}
    (h : Server.timeout rm cur l s = some s') : s'.conns.Sublist s.conns := by
  obtain ⟨l', t, ht, rfl⟩ := timeout_induction (P := fun _ t => t.conns.Sublist s.conns)
    (fun t rest s₁ hs _ => List.filter_sublist.trans hs) (List.Sublist.refl _) h
  exact ht

private theorem OneTicket.step {rm : RemoveFd} {s s' : Server} {l : Label} {served : List (Option Nat)}
    (h : OneTicket s served) (hs : Step rm s l s') : OneTicket s' (served ++ s.takes l) := by
  have same : ∀ {u : Server}, s.takes l = [] → OneTicket u served → OneTicket u (served ++ s.takes l) := by
    intro u ht hu
    rwa [ht, List.append_nil]
  cases hs with
  | epollWait _ hev hnd hr => exact same rfl (h.report hev hnd hr)
  | ignored he | term he =>
    exact same rfl (h.frame (List.Sublist.refl _) (he ▸ List.sublist_cons_self ..) rfl rfl rfl)
  | @opened o e es ssls n fd type content he =>
    have h' : OneTicket { s with events := es, ssls := ssls, nextSsl := n } served :=
      h.frame (List.Sublist.refl _) (he ▸ List.sublist_cons_self ..) rfl rfl rfl
    exact same rfl (h'.newConn rfl rfl rfl rfl rfl rfl)
  | @sslFailed o e es fd he =>
    have h' : OneTicket { s with events := es } served :=
      h.frame (List.Sublist.refl _) (he ▸ List.sublist_cons_self ..) rfl rfl rfl
    exact same rfl (h'.newConn rfl rfl rfl rfl rfl rfl)
  | timeout he _ ht =>
    have hsub := timeout_conns_sublist ht
    obtain ⟨_, _, _, _, rfl⟩ := timeout_frame ht
    exact same rfl (h.frame hsub (he ▸ List.sublist_cons_self ..) rfl rfl rfl)
  | @readable o e es id he hown =>
    refine same rfl ?_
    unfold append
    split
    · exact h.frame (List.Sublist.refl _) (he ▸ List.sublist_cons_self ..) rfl rfl rfl
    · exact h.request he hown
  | hangUp he => exact same rfl (h.frame List.filter_sublist (he ▸ List.sublist_cons_self ..) rfl rfl rfl)
  | @take w job jobs hw hq =>
    have ht : s.takes (.take w) = [job.conn] := by simp [takes, hq]
    rw [ht]
    exact h.take hq _
  | getConnection | process | releaseConnection =>
    exact same rfl (h.frame (List.Sublist.refl _) (List.Sublist.refl _) rfl rfl rfl)
  | close => exact same rfl (h.frame List.filter_sublist (List.Sublist.refl _) rfl rfl rfl)

/-- In every run each connection is taken by a worker once at most; and then it has no event to come, none that waits,
and no place in the queue. -/
theorem servedOnce_run {rm : RemoveFd} {c : Setup} {ls : List Label} {v : Tallied}
    (h : run (Tallied.step rm) (Tallied.start c) ls = some v) :
    v.served.Nodup ∧ (∀ con ∈ v.served, con ≠ none) ∧ ∀ con ∈ v.served,
      (∀ x ∈ v.server.conns, some x.id = con → x.armed = false) ∧ (∀ e ∈ v.server.events, e.conn ≠ con) ∧
        ∀ job ∈ v.server.workqueue, job.conn ≠ con := by
  have hv : OneTicket v.server v.served := by
    refine run_invariant (P := fun v : Tallied => OneTicket v.server v.served) (fun u l u' hu _ hs => ?_)
      (oneTicket_start c) Meets.trivial h
    obtain ⟨s', hs', rfl⟩ := Option.map_eq_some_iff.1 hs
    obtain ⟨-, ⟨why, hr, rfl⟩ | ⟨-, hstep⟩⟩ := step_cases hs'
    · have ht : u.server.takes l = [] := by
        rcases effect_error hr with ⟨o, rfl⟩ | ⟨w, i, rfl⟩ <;> rfl
      rw [ht, List.append_nil]
      exact hu.frame (List.Sublist.refl _) (List.Sublist.refl _) rfl rfl rfl
    · exact hu.step hstep
  have hsome : ∀ con ∈ v.served, con ≠ none := by
    intro con hm
    obtain ⟨id, -, rfl⟩ := hv.known con (List.mem_append_right _ hm)
    exact Option.some_ne_none id
  obtain ⟨-, hserved, hdisj⟩ := List.nodup_append.1 hv.once
  have hticket : ∀ con ∈ v.served, con ∉ v.server.tickets := fun con hm ht => hdisj con ht con hm rfl
  refine ⟨hserved, hsome, fun con hm => ⟨fun x hx hid => ?_, fun e he heq => ?_, fun job hj heq => ?_⟩⟩
  · rw [Bool.eq_false_iff]
    intro harm
    exact hticket con hm (List.mem_append_left _ (List.mem_map.2 ⟨x, List.mem_filter.2 ⟨hx, harm⟩, hid⟩))
  · have hconn : e.conn.isSome = true := Option.isSome_iff_ne_none.2 (heq ▸ hsome con hm)
    exact hticket con hm (List.mem_append_right _ (List.mem_append_left _
      (List.mem_map.2 ⟨e, List.mem_filter.2 ⟨he, hconn⟩, heq⟩)))
  · exact hticket con hm (List.mem_append_right _ (List.mem_append_right _ (List.mem_map.2 ⟨job, hj, heq⟩)))

/-- Two connections are served, the second one by the worker that has kept the first one alive. -/
theorem servedOnce_run_keptAlive :
    ∃ v, run (Tallied.step .asWritten) (Tallied.start .default)
        (serveBadRequest ++ [.process 0 (.wrote (.count 138)), .releaseConnection 0,
          .epollWait [.input 14 none], .dispatch ⟨3, some 20, .succeeds⟩,
          .epollWait [.input 20 (some 1)], .dispatch ⟨4, none, .succeeds⟩, .take 0]) = some v ∧
      v.served = [some 0, some 1] ∧ v.served.Nodup ∧ (∀ con ∈ v.served, con ≠ none) ∧ ∀ con ∈ v.served,
        (∀ x ∈ v.server.conns, some x.id = con → x.armed = false) ∧ (∀ e ∈ v.server.events, e.conn ≠ con) ∧
          ∀ job ∈ v.server.workqueue, job.conn ≠ con := by
  have hrun : (run (Tallied.step .asWritten) (Tallied.start .default)
      (serveBadRequest ++ [.process 0 (.wrote (.count 138)), .releaseConnection 0,
        .epollWait [.input 14 none], .dispatch ⟨3, some 20, .succeeds⟩,
        .epollWait [.input 20 (some 1)], .dispatch ⟨4, none, .succeeds⟩, .take 0])).map Tallied.served =
      some [some 0, some 1] := by decide +kernel
  obtain ⟨v, hv, hserved⟩ := Option.map_eq_some_iff.1 hrun
  exact ⟨v, hv, hserved, servedOnce_run hv⟩

end Server

end ImageServer
