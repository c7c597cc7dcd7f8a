import ImageServer.Server.Invariant
import Mathlib.Data.List.Nodup

/-!
# Timers and connections

`TimersMatch` says that the timers of `timer_lst_` and the open connections are in bijection: `m_timer` of each is in
the list, and each timer points to the connection it was made for.  The event loop keeps this up: it deletes the
timer of a connection it hangs up, and closes the connection of a timer that expires.  The workers do not: `close()`
does not touch the timer list.  So with `remove_fd` returning, the bijection holds as long as no worker closes a
connection, and the event loop handles no event of a connection it has just closed, whose timer is freed
(`KeepsTimers`, `timersMatch_run`).
-/

namespace ImageServer

open Transition CLib

namespace Server

/-- The timers of the list `l` and the connections given to a handler are in bijection. -/
structure Matched (l : SortedTimerList) (s : Server) : Prop where
  ids : (l.map Timer.id).Nodup
  ofConn : ∀ x ∈ s.conns, x.registered = true → ∃ t ∈ l, (s.users_ x.fd).timer = some t.id ∧ t.data = x.fd
  ofTimer : ∀ t ∈ l, (s.users_ t.data).timer = some t.id ∧
    ∃ x ∈ s.conns, x.registered = true ∧ x.fd = t.data ∧ x.id = t.conn

/-- Timers and connections are in bijection, and `m_timer` has not been used when it was null or freed. -/
structure TimersMatch (s : Server) : Prop where
  matched : Matched s.timerLst s
  notFreed : s.stop ≠ some (.undefined .timer)

/-- A worker closes a connection, whose timer stays in the list. -/
def leavesTimer (s : Server) (l : Label) : Bool :=
  (s.serves l).any fun (job, ph, i) => (s.users_ job.slot).closes ph i ∧ s.Open job.slot

/-- The step closes no connection from a worker, and handles no event of a connection that is closed, unless its slot
has another one. -/
def KeepsTimers (s : Server) (l : Label) : Prop := s.leavesTimer l = false ∧ ∀ e ∈ s.connEvent l, s.Open e.fd

instance (s : Server) (l : Label) : Decidable (s.KeepsTimers l) :=
  inferInstanceAs (Decidable (s.leavesTimer l = false ∧ ∀ e ∈ s.connEvent l, s.Open e.fd))

/-! ### The operations on connections -/

/-- The same connections, timers and fields `m_timer`. -/
private theorem Matched.frame {l l' : SortedTimerList} {s s' : Server} (h : Matched l s)
    (hl : SortedTimerList.SameTimers l' l) (hu : ∀ slot, (s'.users_ slot).timer = (s.users_ slot).timer)
    (hc : ∀ x ∈ s'.conns, x.registered = true → ∃ y ∈ s.conns, y.registered = true ∧ y.fd = x.fd)
    (hc' : ∀ y ∈ s.conns, ∃ x ∈ s'.conns, x.id = y.id ∧ x.fd = y.fd ∧ x.registered = y.registered) :
    Matched l' s' where
  ids := hl.ids.nodup_iff.2 h.ids
  ofConn := by
    intro x hx hreg
    obtain ⟨y, hy, hyreg, hyfd⟩ := hc x hx hreg
    obtain ⟨t, ht, htimer, hdata⟩ := h.ofConn y hy hyreg
    obtain ⟨t', ht', hid, hdata', -⟩ := hl.symm.mem ht
    rw [hu, ← hyfd]
    exact ⟨t', ht', hid ▸ htimer, hdata'.trans hdata⟩
  ofTimer := by
    intro t ht
    obtain ⟨t', ht', hid, hdata, hconn⟩ := hl.mem ht
    obtain ⟨htimer, y, hy, hreg, hfd, hyid⟩ := h.ofTimer t' ht'
    obtain ⟨x, hx, hxid, hxfd, hxreg⟩ := hc' y hy
    rw [hu, ← hid, ← hdata, ← hconn]
    exact ⟨htimer, x, hx, hxreg.trans hreg, hxfd.trans hfd, hxid.trans hyid⟩

/-- A new connection, with a new timer. -/
private theorem Matched.openConn {s : Server} (h : Matched s.timerLst s) (hs : ∀ t ∈ s.timerLst, t.id < s.nextTimer)
    {fd : Nat} (hfree : s.LowestFree fd) (now : Nat) (type : ClientType) (content : Option Ssl) :
    Matched (s.openConn fd now type content).timerLst (s.openConn fd now type content) := by
  have hp := SortedTimerList.addTimer_perm ⟨s.nextTimer, fd, now + 3 * TIMESLOT, s.nextConn⟩ s.timerLst
  refine ⟨?_, ?_, ?_⟩
  · refine (hp.map Timer.id).nodup_iff.2 (List.nodup_cons.2 ⟨fun hm => ?_, h.ids⟩)
    obtain ⟨t, ht, hid⟩ := List.mem_map.1 hm
    exact absurd hid (Nat.ne_of_lt (hs t ht))
  · intro x hx hreg
    rcases List.mem_cons.1 hx with rfl | hx
    · rw [openConn_users_self]
      exact ⟨_, hp.mem_iff.2 (List.mem_cons_self ..), rfl, rfl⟩
    · have hne : x.fd ≠ fd := fun he => hfree.2.1 ⟨x, hx, he⟩
      rw [openConn_users_ne s hne]
      obtain ⟨t, ht, htimer⟩ := h.ofConn x hx hreg
      exact ⟨t, hp.mem_iff.2 (List.mem_cons_of_mem _ ht), htimer⟩
  · intro t ht
    rcases List.mem_cons.1 (hp.mem_iff.1 ht) with rfl | ht
    · rw [openConn_users_self]
      exact ⟨rfl, _, List.mem_cons_self .., rfl, rfl, rfl⟩
    · obtain ⟨htimer, x, hx, hreg, hfd, hid⟩ := h.ofTimer t ht
      have hne : t.data ≠ fd := fun he => hfree.2.1 ⟨x, hx, hfd.trans he⟩
      rw [openConn_users_ne s hne]
      exact ⟨htimer, x, List.mem_cons_of_mem _ hx, hreg, hfd, hid⟩

/-- A slot is closed, and the timers that point to it go. -/
private theorem Matched.closed {l l' : SortedTimerList} {s : Server} (h : Matched l s) (hs : Sockets s) {slot : Nat}
    (hu : s.Used slot) (hsub : l'.Sublist l) (hkeep : ∀ t ∈ l, t.data ≠ slot → t ∈ l')
    (hdrop : ∀ t ∈ l', t.data ≠ slot) : Matched l' (s.closed slot) where
  ids := (hsub.map Timer.id).nodup h.ids
  ofConn := by
    intro x hx hreg
    have hne := hs.ne_of_mem_closed hx hreg
    obtain ⟨t, ht, htimer, hdata⟩ := h.ofConn x (mem_closed_conns.1 hx).1 hreg
    rw [closed_timer]
    exact ⟨t, hkeep t ht (hdata ▸ hne), htimer, hdata⟩
  ofTimer := by
    intro t ht
    obtain ⟨htimer, x, hx, hreg, hfd, hid⟩ := h.ofTimer t (hsub.subset ht)
    rw [closed_timer]
    exact ⟨htimer, x, hs.mem_closed hu hx (hfd ▸ hdrop t ht), hreg, hfd, hid⟩

/-- Two timers of the list do not point to one slot. -/
theorem Matched.data_inj {l : SortedTimerList} {s : Server} (h : Matched l s) {t t' : Timer} (ht : t ∈ l)
    (ht' : t' ∈ l) (hd : t.data = t'.data) : t = t' := by
  have h₁ := (h.ofTimer t ht).1
  rw [hd, (h.ofTimer t' ht').1] at h₁
  exact (List.inj_on_of_nodup_map h.ids ht' ht (Option.some.inj h₁)).symm

/-- The loop of `timeout` keeps the bijection. -/
private theorem Matched.timeout {rm : RemoveFd} {cur : Nat} {l : SortedTimerList} {s s' : Server} (h : Matched l s)
    (hs : Sockets s) (ht : Server.timeout rm cur l s = some s') : Matched s'.timerLst s' := by
  obtain ⟨l', t, ⟨h₁, -⟩, rfl⟩ := timeout_induction (P := fun l t => Matched l t ∧ Sockets t)
    (by
      rintro x rest t ⟨h₁, h₂⟩ -
      obtain ⟨htimer, -⟩ := h₁.ofTimer x (List.mem_cons_self ..)
      have hu : t.Used x.data := by
        unfold Used
        rw [htimer]
        exact Option.some_ne_none _
      refine ⟨h₁.closed h₂ hu (List.sublist_cons_self ..) (fun y hy hne => ?_) (fun y hy he => ?_), h₂.closed hu⟩
      · exact (List.mem_cons.1 hy).resolve_left fun he => hne (congrArg Timer.data he)
      · have hyx := h₁.data_inj (List.mem_cons_of_mem _ hy) (List.mem_cons_self ..) he
        have hnodup := h₁.ids
        rw [List.map_cons, List.nodup_cons] at hnodup
        exact hnodup.1 (hyx ▸ List.mem_map_of_mem hy))
    ⟨h, hs⟩ ht
  exact ⟨h₁.ids, h₁.ofConn, h₁.ofTimer⟩

/-- With the connection of a slot hung up, its timer is deleted. -/
private theorem Matched.hangUp {l : SortedTimerList} {s : Server} (h : Matched l s) (hs : Sockets s) {slot : Nat}
    (ho : s.Open slot) :
    Matched ((s.users_ slot).timer.elim l fun id => l.delTimer id) (s.closed slot) := by
  obtain ⟨x, hx, rfl, hreg⟩ := ho
  obtain ⟨t, ht, htimer, hdata⟩ := h.ofConn x hx hreg
  rw [htimer]
  refine h.closed hs (hs.registered x hx hreg).1 (List.filter_sublist ..) (fun y hy hne => ?_) fun y hy he => ?_
  · refine List.mem_filter.2 ⟨hy, decide_eq_true fun hid => hne ?_⟩
    rw [List.inj_on_of_nodup_map h.ids hy ht hid, hdata]
  · obtain ⟨hy, hne⟩ := List.mem_filter.1 hy
    exact of_decide_eq_true hne (congrArg Timer.id (h.data_inj hy ht (he.trans hdata.symm)))

/-- A worker's closing a slot that has no open connection is of no account. -/
private theorem Matched.closed_closed {l : SortedTimerList} {s : Server} (h : Matched l s) (hs : Sockets s)
    {slot : Nat} (hu : s.Used slot) (ho : ¬ s.Open slot) : Matched l (s.closed slot) := by
  refine h.closed hs hu (List.Sublist.refl l) (fun t ht _ => ht) fun t ht he => ?_
  obtain ⟨-, x, hx, hreg, hfd, -⟩ := h.ofTimer t ht
  exact ho ⟨x, hx, hfd.trans he, hreg⟩

/-! ### Runs -/

/-- The invariant: besides, the addresses of new timers are new. -/
structure Timed (s : Server) : Prop extends WellFormed s where
  matched : Matched s.timerLst s
  fresh : ∀ t ∈ s.timerLst, t.id < s.nextTimer

theorem timed_start (c : Setup) : Timed c.start where
  toWellFormed := wellFormed_start c
  matched := ⟨List.nodup_nil, by simp [Setup.start], by simp [Setup.start]⟩
  fresh := by simp [Setup.start]

theorem Matched.same {l : SortedTimerList} {s s' : Server} (h : Matched l s)
    (hu : ∀ slot, (s'.users_ slot).timer = (s.users_ slot).timer) (hc : s'.conns = s.conns) : Matched l s' := by
  refine h.frame (List.Perm.refl _) hu (fun x hx hreg => ⟨x, hc ▸ hx, hreg, rfl⟩) fun y hy => ?_
  exact ⟨y, hc ▸ hy, rfl, rfl, rfl⟩

/-- `timeout` only takes timers away. -/
private theorem timeout_timers {rm : RemoveFd} {cur : Nat} {l : SortedTimerList} {s s' : Server}
    (h : Server.timeout rm cur l s = some s') : ∀ t ∈ s'.timerLst, t ∈ l := by
  obtain ⟨l', t, ht, rfl⟩ := timeout_induction (P := fun l' _ => ∀ t ∈ l', t ∈ l)
    (fun t rest _ hs _ x hx => hs x (List.mem_cons_of_mem _ hx)) (fun _ => id) h
  exact ht

/-- What a step that keeps the timers preserves. -/
theorem Timed.matched_step {rm : RemoveFd} {s s' : Server} {l : Label} (h : Timed s) (hk : s.KeepsTimers l)
    (hs : Step rm s l s') : Matched s'.timerLst s' := by
  cases hs with
  | epollWait =>
    refine h.matched.frame (List.Perm.refl _) (fun _ => rfl) (fun x hx hreg => ?_) fun y hy => disarm_mem _ hy
    obtain ⟨y, hy, -, hfd, hr⟩ := mem_disarm hx
    exact ⟨y, hy, hr ▸ hreg, hfd.symm⟩
  | ignored | term | take | releaseConnection => exact h.matched.same (fun _ => rfl) rfl
  | @opened o e es ssls n fd type content _ _ hfree _ _ =>
    have hm : Matched s.timerLst { s with events := es, ssls := ssls, nextSsl := n } :=
      h.matched.same (fun _ => rfl) rfl
    exact Matched.openConn (s := { s with events := es, ssls := ssls, nextSsl := n }) hm h.fresh hfree o.now type
      content
  | sslFailed =>
    refine h.matched.frame (List.Perm.refl _) (fun _ => rfl) (fun x hx hreg => ?_)
      fun y hy => ⟨y, List.mem_cons_of_mem _ hy, rfl, rfl, rfl⟩
    rcases List.mem_cons.1 hx with rfl | hx
    · cases hreg
    · exact ⟨x, hx, hreg, rfl⟩
  | @timeout o e es s' _ _ ht =>
    have hm : Matched s.timerLst { s with events := es } := h.matched.same (fun _ => rfl) rfl
    exact hm.timeout (h.toSockets.frame rfl rfl fun _ => rfl) ht
  | @readable o e es id _ _ _ _ _ =>
    have hl := SortedTimerList.sameTimers_adjust id (o.now + 3 * TIMESLOT) s.timerLst
    unfold append
    split <;> exact h.matched.frame hl (fun _ => rfl) (fun x hx hreg => ⟨x, hx, hreg, rfl⟩)
      fun y hy => ⟨y, hy, rfl, rfl, rfl⟩
  | @hangUp o e es he hown _ =>
    have ho : s.Open e.fd := hk.2 e (by simp [connEvent, he, hown])
    have hm : Matched s.timerLst { s with events := es } := h.matched.same (fun _ => rfl) rfl
    have hh := hm.hangUp (h.toSockets.frame rfl rfl fun _ => rfl) ho
    exact ⟨hh.ids, hh.ofConn, hh.ofTimer⟩
  | getConnection =>
    exact h.matched.same (fun slot => (congrArg Outside.timer (connected_socket ..) :)) rfl
  | process _ _ hs => exact h.matched.same (fun slot => (congrArg Outside.timer (served_socket hs slot) :)) rfl
  | @close w i job held ph ph' hd users hw _ hs =>
    have hclose := hs.close_eq
    have ho : ¬ s.Open job.slot := by simpa [leavesTimer, serves, hw, ← hclose] using hk.1
    have hused : s.Used job.slot := h.workers _ (List.mem_of_getElem? hw) job (Worker.serving_of_procStep hs)
    have hm : Matched s.timerLst (s.served w job held ph' hd users) :=
      h.matched.same (fun slot => (congrArg Outside.timer (served_socket hs slot) :)) rfl
    exact hm.closed_closed (h.toSockets.frame rfl rfl (served_socket hs))
      ((Used.congr (served_socket hs _)).2 hused) ho

/-- The addresses of the timers stay below that of the next one. -/
theorem fresh_step {rm : RemoveFd} {s s' : Server} {l : Label} (h : ∀ t ∈ s.timerLst, t.id < s.nextTimer)
    (hs : Step rm s l s') : ∀ t ∈ s'.timerLst, t.id < s'.nextTimer := by
  cases hs with
  | epollWait | ignored | sslFailed | term | take | getConnection | process | close | releaseConnection =>
    exact h
  | opened =>
    intro t ht
    rcases List.mem_cons.1 ((SortedTimerList.addTimer_perm _ _).mem_iff.1 ht) with rfl | ht
    · exact Nat.lt_succ_self _
    · exact Nat.lt_succ_of_lt (h t ht)
  | @timeout o e es s' _ _ ht =>
    have hsub := timeout_timers ht
    obtain ⟨_, _, _, _, rfl⟩ := timeout_frame ht
    exact fun t htm => h t (hsub t htm)
  | @readable o e es id _ _ _ _ _ =>
    have hl := SortedTimerList.sameTimers_adjust id (o.now + 3 * TIMESLOT) s.timerLst
    have hlt : ∀ t ∈ (s.timerLst.setExpire id (o.now + 3 * TIMESLOT)).adjustTimer id, t.id < s.nextTimer := by
      intro t ht
      obtain ⟨t', ht', hid, -⟩ := hl.mem ht
      exact hid ▸ h t' ht'
    unfold append
    split <;> exact hlt
  | @hangUp o e es _ _ _ =>
    intro t ht
    refine h t ?_
    dsimp only at ht
    cases htimer : (s.users_ e.fd).timer with
    | none => rw [htimer] at ht; exact ht
    | some id => rw [htimer] at ht; exact (List.mem_filter.1 ht).1

/-- Only the event of a connection makes the event loop use `m_timer`. -/
private theorem handle_timer {rm : RemoveFd} {s : Server} {e : Event} {o : Answers}
    (h : s.handle rm e o = some (.error (.undefined .timer))) :
    e.fd ∉ s.own ∧ ∀ id, (s.users_ e.fd).timer = some id → ¬ s.timerLst.Live id := by
  have hb := handle_branch rm s e o
  rw [h] at hb
  cases hb with
  | listen _ hr =>
    obtain ⟨-, hr⟩ | ⟨fd, -, -, hr⟩ := addClient_result hr
    · cases hr
    · cases addUser_error hr
  | ssl _ _ hr =>
    obtain ⟨-, hr⟩ | ⟨fd, -, -, ⟨-, hr⟩ | ⟨-, ⟨-, hr⟩ | ⟨-, hr⟩⟩⟩ := addSslClient_result hr
    · cases hr
    · cases hr
    · cases addUser_error hr
    · cases hr
  | exits _ _ _ hr | alarm _ _ _ hr | term _ _ _ hr => cases hr
  | input hown _ hr =>
    refine ⟨hown, fun id hid hlive => ?_⟩
    simp [Server.readable, hid, hlive] at hr
  | hup hown _ hr =>
    refine ⟨hown, fun id hid hlive => ?_⟩
    have hr := Option.some.inj hr
    unfold Server.hangUp at hr
    split at hr
    · cases hr
    · rename_i s₁ hc
      have hs₁ := close_eq_some hc
      have htimer : (s₁.users_ e.fd).timer = some id := by rw [hs₁, closed_timer, hid]
      have hlive₁ : s₁.timerLst.Live id := by rw [hs₁]; exact hlive
      simp [htimer, hlive₁] at hr

private theorem processStep_ne_timer {rm : RemoveFd} {s : Server} {w : Nat} {i : ProcInput} :
    s.processStep rm w i ≠ some (.error (.undefined .timer)) := by
  intro h
  obtain ⟨job, held, ph, -, ⟨-, hr⟩ | ⟨-, -, ⟨-, hr⟩ | ⟨h', users, ph', close, -, hr⟩⟩⟩ := processStep_result h
  · cases hr
  · cases hr
  · cases close with
    | false => cases hr
    | true =>
      rw [if_pos rfl] at hr
      cases hc : (s.served w job held ph' h' users).close rm job.slot <;> rw [hc] at hr <;> cases hr

/-- A step that keeps the timers does not use `m_timer` when it is null or freed. -/
private theorem Timed.effect_ne {rm : RemoveFd} {s : Server} {l : Label} (h : Timed s) (hk : s.KeepsTimers l) :
    s.effect rm l ≠ some (.error (.undefined .timer)) := by
  intro he
  obtain ⟨o, rfl⟩ | ⟨w, i, rfl⟩ := effect_error he
  · obtain ⟨e, es, hev, hh⟩ := effect_dispatch he
    obtain ⟨hown, hlive⟩ := handle_timer hh
    obtain ⟨x, hx, hfd, hreg⟩ := hk.2 e (by simp only [connEvent, hev]; simp; exact hown)
    obtain ⟨t, ht, htimer, -⟩ := h.matched.ofConn x hx hreg
    exact hlive t.id (hfd ▸ htimer) ⟨t, ht, rfl⟩
  · exact processStep_ne_timer he

/-- With `remove_fd` returning, in every run whose steps keep the timers, timers and connections match. -/
theorem timersMatch_run {c : Setup} {ls : List Label} {t : Server} (h : run (step .returning) c.start ls = some t)
    (hk : Meets (step .returning) KeepsTimers c.start ls) : TimersMatch t := by
  have key : Timed t ∧ t.stop ≠ some (.undefined .timer) := by
    refine run_invariant (P := fun s => Timed s ∧ s.stop ≠ some (.undefined .timer)) (fun s l s' ht hc hs' => ?_)
      ⟨timed_start c, by simp [Setup.start]⟩ hk h
    have hw := ht.1.toWellFormed.of_step hs'
    obtain ⟨hstop, ⟨why, he, rfl⟩ | ⟨-, hs⟩⟩ := step_cases hs'
    · refine ⟨⟨hw, ht.1.matched.same (fun _ => rfl) rfl, ht.1.fresh⟩, fun hwhy => ?_⟩
      cases hwhy
      exact ht.1.effect_ne hc he
    · exact ⟨⟨hw, ht.1.matched_step hc hs, fresh_step ht.1.fresh hs⟩, by rw [hs.goesOn.1]; exact ht.2⟩
  exact ⟨key.1.matched, key.2⟩

/-- A client is served and then idle until its timer expires. -/
theorem timersMatch_run_idle :
    ∃ t, run (step .returning) Setup.default.start
        (serveBadRequest ++ [.process 0 (.wrote (.count 138)), .releaseConnection 0,
          .epollWait [.input 15 none], .dispatch ⟨16, none, .succeeds⟩]) = some t ∧ TimersMatch t :=
  exists_run (by decide +kernel) fun _ ht => timersMatch_run ht (by decide +kernel)

/-- A worker that reads the end of the stream closes the connection and leaves its timer. -/
theorem endOfFile_leavesTimer :
    ∃ t, run (step .returning) Setup.default.start
        [.epollWait [.input 14 none], .dispatch ⟨0, some 19, .succeeds⟩,
          .epollWait [⟨19, true, false, true, some 0, by decide⟩], .dispatch ⟨1, none, .succeeds⟩,
          .take 0, .getConnection 0, .process 0 .tau, .process 0 (.recv .eof)] = some t ∧ ¬ TimersMatch t := by
  refine exists_run_map (f := fun t => (t.conns, t.timerLst)) (a := ([], [⟨0, 19, 16, 0⟩])) (by decide +kernel) ?_
  intro t hx hm
  obtain ⟨hconns, htimers⟩ := Prod.mk.inj hx
  obtain ⟨-, x, hxm, -⟩ := hm.matched.ofTimer ⟨0, 19, 16, 0⟩ (by simp [htimers])
  simp [hconns] at hxm

end Server

end ImageServer
