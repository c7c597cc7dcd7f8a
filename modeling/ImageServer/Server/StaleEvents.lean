import ImageServer.Server.UserCount
import ImageServer.Server.Pending
import ImageServer.Server.Timers

/-!
# Stale events

`epoll_wait` reports a batch of events, and `testing_` handles them one by one.  `m_timer` of an open connection is
always in the timer list (`timersLive_run`), so the event of a connection that is still open is handled on the right
connection and on a timer that is not freed.  But handling one event can close the connection of a later one: a timer
expires, or a worker gives the connection up.  When no step does that, no stale event is handled; and when a batch is
handled to its end without a stale event, no step of it has done that (`dispatchesLive_iff`).
-/

namespace ImageServer

open Transition

namespace Server

/-- The connection event the step handles is of the connection open on its slot, and `m_timer` of the slot is in the
timer list. -/
def DispatchesLive (s : Server) (l : Label) : Prop :=
  ∀ e ∈ s.connEvent l, (∃ x ∈ s.conns, x.registered = true ∧ e.Of x) ∧
    ∃ id ∈ (s.users_ e.fd).timer, s.timerLst.Live id

/-- The events that wait when the step is done. -/
def waiting (s : Server) : Label → List Event
  | .dispatch _ => s.events.tail
  | _ => s.events

/-- The step closes no connection of which an event is waiting. -/
def KeepsWaiting (s : Server) (l : Label) : Prop := ∀ e ∈ s.waiting l, e.fd ∉ s.own → e.fd ∉ s.closing l

instance (s : Server) (l : Label) : Decidable (s.DispatchesLive l) :=
  inferInstanceAs (Decidable (∀ e ∈ s.connEvent l, (∃ x ∈ s.conns, x.registered = true ∧ e.Of x) ∧
    ∃ id ∈ (s.users_ e.fd).timer, s.timerLst.Live id))

instance (s : Server) (l : Label) : Decidable (s.KeepsWaiting l) :=
  inferInstanceAs (Decidable (∀ e ∈ s.waiting l, e.fd ∉ s.own → e.fd ∉ s.closing l))

private theorem mem_of_mem_waiting {s : Server} {l : Label} {e : Event} (h : e ∈ s.waiting l) : e ∈ s.events := by
  cases l with
  | dispatch => exact List.mem_of_mem_tail h
  | _ => exact h

/-! ### The timers of the open connections -/

/-- With the timers `l` left in the list: an address names the timer of one slot only, and `m_timer` of an open
connection is in the list. -/
structure LiveTimers (l : SortedTimerList) (s : Server) : Prop where
  owner : ∀ slot, ∀ id ∈ (s.users_ slot).timer, ∀ t ∈ l, t.id = id → t.data = slot
  live : ∀ x ∈ s.conns, x.registered = true → ∃ t ∈ l, (s.users_ x.fd).timer = some t.id

/-- The invariant: besides, the addresses of new timers are new. -/
structure TimersLive (s : Server) : Prop extends WellFormed s where
  timersLive : LiveTimers s.timerLst s
  freshTimer : ∀ t ∈ s.timerLst, t.id < s.nextTimer
  freshSlot : ∀ slot, ∀ id ∈ (s.users_ slot).timer, id < s.nextTimer

theorem timersLive_start (c : Setup) : TimersLive c.start where
  toWellFormed := wellFormed_start c
  timersLive := ⟨by simp [Setup.start], by simp [Setup.start]⟩
  freshTimer := by simp [Setup.start]
  freshSlot := by
    intro slot id hid
    cases hid

/-- The same timers and fields `m_timer`, and no new connection. -/
private theorem LiveTimers.frame {l l' : SortedTimerList} {s s' : Server} (h : LiveTimers l s)
    (hl : SortedTimerList.SameTimers l' l) (hu : ∀ slot, (s'.users_ slot).timer = (s.users_ slot).timer)
    (hc : ∀ x ∈ s'.conns, x.registered = true → ∃ y ∈ s.conns, y.registered = true ∧ y.fd = x.fd) :
    LiveTimers l' s' where
  owner := by
    intro slot id hid t ht htid
    rw [hu] at hid
    obtain ⟨t', ht', hid', hdata, -⟩ := hl.mem ht
    rw [← hdata]
    exact h.owner slot id hid t' ht' (hid'.trans htid)
  live := by
    intro x hx hreg
    obtain ⟨y, hy, hyreg, hyfd⟩ := hc x hx hreg
    obtain ⟨t, ht, htimer⟩ := h.live y hy hyreg
    obtain ⟨t', ht', hid, -⟩ := hl.symm.mem ht
    rw [hu, ← hyfd]
    exact ⟨t', ht', by rw [htimer, hid]⟩

/-- A slot is closed, and only timers of this slot go. -/
theorem LiveTimers.closed {l l' : SortedTimerList} {s : Server} (h : LiveTimers l s) (hs : Sockets s) {slot : Nat}
    (hsub : ∀ t ∈ l', t ∈ l) (hkeep : ∀ t ∈ l, t.data ≠ slot → t ∈ l') : LiveTimers l' (s.closed slot) where
  owner := by
    intro k id hid t ht htid
    rw [closed_timer] at hid
    exact h.owner k id hid t (hsub t ht) htid
  live := by
    intro x hx hreg
    have hne := hs.ne_of_mem_closed hx hreg
    obtain ⟨t, ht, htimer⟩ := h.live x (mem_closed_conns.1 hx).1 hreg
    have hdata : t.data = x.fd := h.owner x.fd t.id htimer t ht rfl
    rw [closed_timer]
    exact ⟨t, hkeep t ht (hdata ▸ hne), htimer⟩

/-- A new connection, with a new timer. -/
private theorem LiveTimers.openConn {s : Server} (h : LiveTimers s.timerLst s)
    (ht : ∀ t ∈ s.timerLst, t.id < s.nextTimer) (hs : ∀ slot, ∀ id ∈ (s.users_ slot).timer, id < s.nextTimer)
    {fd : Nat} (hfree : s.LowestFree fd) (now : Nat) (type : ClientType) (content : Option Ssl) :
    LiveTimers (s.openConn fd now type content).timerLst (s.openConn fd now type content) := by
  have hp := SortedTimerList.addTimer_perm ⟨s.nextTimer, fd, now + 3 * TIMESLOT, s.nextConn⟩ s.timerLst
  constructor
  · intro slot id hid t htm htid
    by_cases hslot : slot = fd
    · subst hslot
      rw [openConn_users_self] at hid
      have hnew : id = s.nextTimer := (Option.some.inj hid).symm
      rcases List.mem_cons.1 (hp.mem_iff.1 htm) with rfl | htm
      · rfl
      · have := ht t htm
        omega
    · rw [openConn_users_ne s hslot] at hid
      rcases List.mem_cons.1 (hp.mem_iff.1 htm) with rfl | htm
      · have hlt := hs slot id hid
        dsimp only at htid
        omega
      · exact h.owner slot id hid t htm htid
  · intro x hx hreg
    rcases List.mem_cons.1 hx with rfl | hx
    · rw [openConn_users_self]
      exact ⟨_, hp.mem_iff.2 (List.mem_cons_self ..), rfl⟩
    · have hne : x.fd ≠ fd := fun he => hfree.2.1 ⟨x, hx, he⟩
      rw [openConn_users_ne s hne]
      obtain ⟨t, htm, htimer⟩ := h.live x hx hreg
      exact ⟨t, hp.mem_iff.2 (List.mem_cons_of_mem _ htm), htimer⟩

/-- The loop of `timeout` closes the connection of each timer it deletes. -/
private theorem LiveTimers.timeout {rm : RemoveFd} {cur : Nat} {l : SortedTimerList} {s s' : Server}
    (h : LiveTimers l s) (hs : Sockets s) (hu : ∀ t ∈ l, s.Used t.data) (ht : Server.timeout rm cur l s = some s') :
    LiveTimers s'.timerLst s' := by
  obtain ⟨l', t, ⟨h₁, -, -⟩, rfl⟩ := timeout_induction
    (P := fun l t => LiveTimers l t ∧ Sockets t ∧ ∀ x ∈ l, t.Used x.data)
    (by
      rintro x rest t ⟨h₁, h₂, h₃⟩ -
      refine ⟨h₁.closed h₂ (fun y hy => List.mem_cons_of_mem _ hy) (fun y hy hne => ?_),
        h₂.closed (h₃ x (List.mem_cons_self ..)), fun y hy => closed_used.2 (h₃ y (List.mem_cons_of_mem _ hy))⟩
      exact (List.mem_cons.1 hy).resolve_left fun he => hne (congrArg Timer.data he))
    ⟨h, hs, hu⟩ ht
  exact ⟨h₁.owner, h₁.live⟩

theorem LiveTimers.same {l : SortedTimerList} {s s' : Server} (h : LiveTimers l s)
    (hu : ∀ slot, (s'.users_ slot).timer = (s.users_ slot).timer) (hc : s'.conns = s.conns) : LiveTimers l s' :=
  h.frame (List.Perm.refl _) hu fun x hx hreg => ⟨x, hc ▸ hx, hreg, rfl⟩

theorem served_timer {s : Server} {w : Nat} {i : ProcInput} {job : Job} {held : Option Nat} {ph ph' : Phase}
    {h : HttpHandler} {users : Users} {close : Bool}
    (hs : HttpHandler.ProcStep (s.users_ job.slot) s.accounts ph i h users ph' close) (slot : Nat) :
    ((s.served w job held ph' h users).users_ slot).timer = (s.users_ slot).timer :=
  (congrArg Outside.timer (served_socket hs slot) :)

/-- The timers of the open connections stay in the list. -/
private theorem TimersLive.liveTimers_step {rm : RemoveFd} {s s' : Server} {l : Label} (h : TimersLive s)
    (hs : Step rm s l s') : LiveTimers s'.timerLst s' := by
  cases hs with
  | epollWait =>
    refine h.timersLive.frame (List.Perm.refl _) (fun _ => rfl) fun x hx hreg => ?_
    obtain ⟨y, hy, -, hfd, hr⟩ := mem_disarm hx
    exact ⟨y, hy, hr ▸ hreg, hfd.symm⟩
  | ignored | term | take | releaseConnection => exact h.timersLive.same (fun _ => rfl) rfl
  | @opened o e es ssls n fd type content _ _ hfree =>
    have hl : LiveTimers s.timerLst { s with events := es, ssls := ssls, nextSsl := n } :=
      h.timersLive.same (fun _ => rfl) rfl
    exact LiveTimers.openConn (s := { s with events := es, ssls := ssls, nextSsl := n }) hl h.freshTimer h.freshSlot
      hfree o.now type content
  | sslFailed =>
    refine h.timersLive.frame (List.Perm.refl _) (fun _ => rfl) fun x hx hreg => ?_
    rcases List.mem_cons.1 hx with rfl | hx
    · cases hreg
    · exact ⟨x, hx, hreg, rfl⟩
  | @timeout o e es s' he hown ht =>
    have hl : LiveTimers s.timerLst { s with events := es } := h.timersLive.same (fun _ => rfl) rfl
    exact hl.timeout (h.toSockets.frame rfl rfl fun _ => rfl) h.timers ht
  | @readable o e es id _ _ _ _ _ =>
    have hl := SortedTimerList.sameTimers_adjust id (o.now + 3 * TIMESLOT) s.timerLst
    unfold append
    split <;> exact h.timersLive.frame hl (fun _ => rfl) fun x hx hreg => ⟨x, hx, hreg, rfl⟩
  | @hangUp o e es _ _ _ =>
    have hs : Sockets { s with events := es } := h.toSockets.frame rfl rfl fun _ => rfl
    have hl : LiveTimers s.timerLst { s with events := es } := h.timersLive.same (fun _ => rfl) rfl
    -- `m_timer` of the slot is no timer of another one
    have hdel : LiveTimers ((s.users_ e.fd).timer.elim s.timerLst fun id => s.timerLst.delTimer id)
        (closed { s with events := es } e.fd) := by
      cases htimer : (s.users_ e.fd).timer with
      | none => exact hl.closed hs (fun _ ht => ht) fun _ ht _ => ht
      | some id =>
        refine hl.closed hs (fun t ht => (List.mem_filter.1 ht).1) fun t ht hne => ?_
        refine List.mem_filter.2 ⟨ht, decide_eq_true fun hid => hne ?_⟩
        exact h.timersLive.owner e.fd id htimer t ht hid
    exact ⟨hdel.owner, hdel.live⟩
  | getConnection =>
    exact h.timersLive.same (fun slot => (congrArg Outside.timer (connected_socket ..) :)) rfl
  | process _ _ hs => exact h.timersLive.same (served_timer hs) rfl
  | @close w i job held ph ph' hd users _ _ hs =>
    have hl : LiveTimers s.timerLst (s.served w job held ph' hd users) := h.timersLive.same (served_timer hs) rfl
    exact hl.closed (h.toSockets.frame rfl rfl (served_socket hs)) (fun _ ht => ht) fun _ ht _ => ht

/-- The addresses in the slots stay below that of the next timer. -/
private theorem TimersLive.freshSlot_step {rm : RemoveFd} {s s' : Server} {l : Label} (h : TimersLive s)
    (hs : Step rm s l s') : ∀ slot, ∀ id ∈ (s'.users_ slot).timer, id < s'.nextTimer := by
  have hsame : ∀ t : Server, (∀ slot, (t.users_ slot).timer = (s.users_ slot).timer) → t.nextTimer = s.nextTimer →
      ∀ slot, ∀ id ∈ (t.users_ slot).timer, id < t.nextTimer := by
    intro t hu hn slot id hid
    rw [hu] at hid
    rw [hn]
    exact h.freshSlot slot id hid
  cases hs with
  | epollWait | ignored | sslFailed | term | take | releaseConnection => exact hsame _ (fun _ => rfl) rfl
  | @opened o e es ssls n fd type content =>
    intro slot id hid
    by_cases hslot : slot = fd
    · subst hslot
      rw [openConn_users_self] at hid
      exact Option.some.inj hid ▸ Nat.lt_succ_self _
    · rw [openConn_users_ne _ hslot] at hid
      exact Nat.lt_succ_of_lt (h.freshSlot slot id hid)
  | timeout _ _ ht =>
    have hu := timeout_field (f := fun h => h.timer) (fun _ => rfl) ht
    obtain ⟨_, _, _, _, rfl⟩ := timeout_frame ht
    exact hsame _ hu rfl
  | readable =>
    unfold append
    split <;> exact hsame _ (fun _ => rfl) rfl
  | @hangUp o e es => exact hsame _ (closed_timer { s with events := es } e.fd) rfl
  | getConnection => exact hsame _ (fun slot => (congrArg Outside.timer (connected_socket ..) :)) rfl
  | process _ _ hs => exact hsame _ (served_timer hs) rfl
  | close _ _ hs => exact hsame _ (fun slot => (closed_timer _ _ slot).trans (served_timer hs slot)) rfl

theorem TimersLive.of_step {rm : RemoveFd} {s s' : Server} {l : Label} (h : TimersLive s)
    (hs : s.step rm l = some s') : TimersLive s' := by
  have hw := h.toWellFormed.of_step hs
  obtain ⟨-, ⟨why, -, rfl⟩ | ⟨-, hs⟩⟩ := step_cases hs
  · exact ⟨hw, h.timersLive.same (fun _ => rfl) rfl, h.freshTimer, h.freshSlot⟩
  · exact ⟨hw, h.liveTimers_step hs, fresh_step h.freshTimer hs, h.freshSlot_step hs⟩

/-! ### The events that wait -/

/-- The waiting events of connections are of connections still open. -/
def WaitingOpen (s : Server) : Prop :=
  ∀ e ∈ s.events, e.fd ∉ s.own → ∃ id, e.conn = some id ∧ (id, e.fd) ∈ s.openConns

/-- No two open connections have one number, and that of the next one is new. -/
structure Numbered (s : Server) : Prop where
  ids : (s.openConns.map Prod.fst).Nodup
  below : ∀ x ∈ s.openConns, x.1 < s.nextConn

/-- The invariant of the batches. -/
structure BatchOpen (s : Server) : Prop extends TimersLive s, Numbered s where
  open_ : WaitingOpen s

private theorem batchOpen_start (c : Setup) : BatchOpen c.start where
  toTimersLive := timersLive_start c
  toNumbered := ⟨List.nodup_nil, by simp [Setup.start, openConns]⟩
  open_ := by
    intro e he
    cases he

private theorem OnlyCloses.numbered {s s' : Server} {closing : List Nat} (h : s.OnlyCloses s' closing)
    (hn : Numbered s) :
    Numbered s' where
  ids := by
    rw [h.conns]
    exact (List.filter_sublist.map Prod.fst).nodup hn.ids
  below := by
    intro x hx
    rw [h.conns] at hx
    exact (hn.below x (List.mem_filter.1 hx).1).trans_le h.nextConn

private theorem OnlyOpens.numbered {s s' : Server} {closing : List Nat} (h : s.OnlyOpens s' closing)
    (hn : Numbered s) :
    Numbered s' := by
  obtain ⟨fd, hconns⟩ := h.conns
  constructor
  · rw [hconns, List.map_cons, List.nodup_cons]
    refine ⟨fun hm => ?_, hn.ids⟩
    obtain ⟨x, hx, hid⟩ := List.mem_map.1 hm
    have hlt := hn.below x hx
    omega
  · intro x hx
    rw [hconns] at hx
    rw [h.nextConn]
    rcases List.mem_cons.1 hx with rfl | hx
    · exact Nat.lt_succ_self _
    · exact Nat.lt_succ_of_lt (hn.below x hx)

/-- An event is only taken from the batch by being handled, and a new batch is only asked for when there is none
left. -/
theorem Step.batch {rm : RemoveFd} {s s' : Server} {l : Label} (h : Step rm s l s') :
    s'.own = s.own ∧ (s'.events = s.waiting l ∨
      s.events = [] ∧ s'.conns = s.disarm s'.events ∧ ∀ e ∈ s'.events, s.Reports e) := by
  cases h with
  | epollWait _ hev _ hr => exact ⟨rfl, Or.inr ⟨hev, rfl, hr⟩⟩
  | ignored he | opened he | sslFailed he | term he | hangUp he =>
    refine ⟨rfl, Or.inl ?_⟩
    unfold waiting
    rw [he]
    rfl
  | timeout he _ ht =>
    obtain ⟨_, _, _, _, rfl⟩ := timeout_frame ht
    exact ⟨rfl, Or.inl (by simp [waiting, he])⟩
  | readable he =>
    unfold append
    split <;> exact ⟨rfl, Or.inl (by simp [waiting, he])⟩
  | take | getConnection | process | close | releaseConnection => exact ⟨rfl, Or.inl rfl⟩

/-- A step that closes no connection of which an event is waiting. -/
theorem WaitingOpen.step {s s' : Server} {l : Label} (hwf : WellFormed s) (h : s.WaitingOpen) (hk : s.KeepsWaiting l)
    (heff : s.effect .returning l = some (.ok s')) : s'.WaitingOpen := by
  obtain ⟨hown, hev | ⟨hev, hconns, hr⟩⟩ := (effect_cases heff).batch
  · intro e he hne
    rw [hev] at he
    rw [hown] at hne
    obtain ⟨id, hid, hopen⟩ := h e (mem_of_mem_waiting he) hne
    refine ⟨id, hid, ?_⟩
    rcases effect_openConns hwf heff with ho | hc
    · obtain ⟨fd, hconns⟩ := ho.conns
      exact hconns ▸ List.mem_cons_of_mem _ hopen
    · rw [hc.conns]
      exact List.mem_filter.2 ⟨hopen, decide_eq_true (hk e he hne)⟩
  · intro e he hne
    rw [hown] at hne
    rcases hr e he with ⟨-, hmem, -⟩ | ⟨x, hx, hfd, hid, hreg, -⟩
    · exact absurd hmem hne
    · refine ⟨x.id, hid.symm, ?_⟩
      obtain ⟨y, hy, hyid, hyfd, hyr⟩ := disarm_mem s'.events hx
      exact mem_openConns.2 ⟨y, hconns ▸ hy, hyr.trans hreg, by rw [hyid, hyfd, hfd]⟩

private theorem BatchOpen.of_step {s s' : Server} {l : Label} (h : BatchOpen s) (hk : s.KeepsWaiting l)
    (hs : s.step .returning l = some s') : BatchOpen s' := by
  have ht := h.toTimersLive.of_step hs
  obtain ⟨-, ⟨why, -, rfl⟩ | ⟨heff, -⟩⟩ := step_cases hs
  · exact ⟨ht, ⟨h.ids, h.below⟩, h.open_⟩
  · refine ⟨ht, ?_, h.open_.step h.toWellFormed hk heff⟩
    rcases effect_openConns h.toWellFormed heff with ho | hc
    · exact ho.numbered h.toNumbered
    · exact hc.numbered h.toNumbered

private theorem connEvent_eq_some {s : Server} {l : Label} {e : Event} (h : s.connEvent l = some e) :
    e ∈ s.events ∧ e.fd ∉ s.own := by
  cases l with
  | dispatch o =>
    obtain ⟨hhead, hne⟩ := Option.filter_eq_some_iff.1 h
    exact ⟨List.mem_of_mem_head? hhead, of_decide_eq_true hne⟩
  | _ => cases h

/-- As long as the waiting events are of open connections, none that is handled is stale. -/
private theorem BatchOpen.dispatchesLive {s : Server} (h : BatchOpen s) (l : Label) : s.DispatchesLive l := by
  intro e he
  obtain ⟨hmem, hne⟩ := connEvent_eq_some he
  obtain ⟨id, hid, hopen⟩ := h.open_ e hmem hne
  obtain ⟨x, hx, hreg, hpair⟩ := mem_openConns.1 hopen
  simp only [Prod.mk.injEq] at hpair
  obtain ⟨t, ht, htimer⟩ := h.timersLive.live x hx hreg
  refine ⟨⟨x, hx, hreg, hpair.2, ?_⟩, t.id, ?_, t, ht, rfl⟩
  · rw [hpair.1, hid]
  · rw [← hpair.2]
    exact htimer

/-! ### The event of a closed connection -/

/-- The connection of a waiting event is closed. -/
structure Stale (e : Event) (s : Server) : Prop where
  waits : e ∈ s.events
  conn : e.fd ∉ s.own
  old : ∃ id, e.conn = some id ∧ id < s.nextConn ∧ ∀ x ∈ s.openConns, x.1 ≠ id

private theorem Stale.of_step {e : Event} {s s' : Server} {l : Label} (h : Stale e s) (hwf : WellFormed s)
    (hs : s.step .returning l = some s') (hne : s.connEvent l ≠ some e) : Stale e s' := by
  obtain ⟨-, ⟨why, -, rfl⟩ | ⟨heff, -⟩⟩ := step_cases hs
  · exact ⟨h.waits, h.conn, h.old⟩
  · obtain ⟨id, hid, hlt, hold⟩ := h.old
    obtain ⟨hown, hev | ⟨hev, -⟩⟩ := (effect_cases heff).batch
    · refine ⟨?_, hown ▸ h.conn, id, hid, ?_, ?_⟩
      · rw [hev]
        cases l with
        | dispatch o =>
          have hwaits := h.waits
          cases hcons : s.events with
          | nil =>
            rw [hcons] at hwaits
            cases hwaits
          | cons e' es =>
            rw [hcons] at hwaits
            rcases List.mem_cons.1 hwaits with rfl | hmem
            · exact absurd (by simp [connEvent, hcons, h.conn]) hne
            · simpa [waiting, hcons] using hmem
        | _ => exact h.waits
      · rcases effect_openConns hwf heff with ho | hc
        · have := ho.nextConn
          omega
        · exact hlt.trans_le hc.nextConn
      · intro x hx
        rcases effect_openConns hwf heff with ho | hc
        · obtain ⟨fd, hconns⟩ := ho.conns
          rw [hconns] at hx
          rcases List.mem_cons.1 hx with rfl | hx
          · exact Nat.ne_of_gt hlt
          · exact hold x hx
        · rw [hc.conns] at hx
          exact hold x (List.mem_filter.1 hx).1
    · have hwaits := h.waits
      rw [hev] at hwaits
      cases hwaits

/-- When the batch is handled to its end, the event of a closed connection has been handled. -/
private theorem Stale.run {e : Event} {ls : List Label} {s t : Server} (h : Stale e s) (hwf : WellFormed s)
    (hr : Transition.run (step .returning) s ls = some t) (hend : t.events = []) :
    ¬ Meets (step .returning) DispatchesLive s ls := by
  induction ls generalizing s with
  | nil =>
    cases hr
    have hwaits := h.waits
    rw [hend] at hwaits
    cases hwaits
  | cons l ls ih =>
    obtain ⟨s₁, hs₁, hr⟩ := run_cons hr
    intro hm
    by_cases he : s.connEvent l = some e
    · obtain ⟨⟨x, hx, hreg, -, hconn⟩, -⟩ := hm.1 e he
      obtain ⟨id, hid, -, hold⟩ := h.old
      refine hold (x.id, x.fd) (mem_openConns.2 ⟨x, hx, hreg, rfl⟩) ?_
      rw [hid] at hconn
      exact Option.some.inj hconn
    · exact ih (h.of_step hwf hs₁ he) (hwf.of_step hs₁) hr (hm.2 s₁ hs₁)

/-- A step that closes the connection of a waiting event leaves the event stale. -/
private theorem BatchOpen.stale {s s' : Server} {l : Label} (h : BatchOpen s) (hk : ¬ s.KeepsWaiting l)
    (heff : s.effect .returning l = some (.ok s')) : ∃ e, Stale e s' := by
  unfold KeepsWaiting at hk
  push Not at hk
  obtain ⟨e, he, hne, hclosing⟩ := hk
  have hmem : e ∈ s.events := mem_of_mem_waiting he
  obtain ⟨id, hid, hopen⟩ := h.open_ e hmem hne
  rcases effect_openConns h.toWellFormed heff with ho | hc
  · rw [ho.none] at hclosing
    cases hclosing
  · obtain ⟨hown, hev | ⟨hev, -⟩⟩ := (effect_cases heff).batch
    · refine ⟨e, hev ▸ he, hown ▸ hne, id, hid, ?_, ?_⟩
      · exact (h.below _ hopen).trans_le hc.nextConn
      · intro x hx hxid
        rw [hc.conns] at hx
        obtain ⟨hx, hxc⟩ := List.mem_filter.1 hx
        have hxe : x = (id, e.fd) := List.inj_on_of_nodup_map h.ids hx hopen hxid
        rw [hxe] at hxc
        exact of_decide_eq_true hxc hclosing
    · rw [hev] at hmem
      cases hmem

/-- In every run no stale event is handled as long as no step closes a connection of which an event is waiting; and
when a batch has been handled to its end without a stale event, no step has done so. -/
theorem dispatchesLive_iff {c : Setup} {ls : List Label} {t : Server}
    (h : run (step .returning) c.start ls = some t) :
    (Meets (step .returning) KeepsWaiting c.start ls → Meets (step .returning) DispatchesLive c.start ls) ∧
      (t.events = [] →
        Meets (step .returning) DispatchesLive c.start ls → Meets (step .returning) KeepsWaiting c.start ls) := by
  have hmain : ∀ (ls : List Label) (s : Server), BatchOpen s → run (step .returning) s ls = some t →
      (Meets (step .returning) KeepsWaiting s ls → Meets (step .returning) DispatchesLive s ls) ∧
        (t.events = [] →
          Meets (step .returning) DispatchesLive s ls → Meets (step .returning) KeepsWaiting s ls) := by
    intro ls
    induction ls with
    | nil => exact fun s _ _ => ⟨fun _ => True.intro, fun _ _ => True.intro⟩
    | cons l ls ih =>
      intro s hs hr
      obtain ⟨s₁, hs₁, hr⟩ := run_cons hr
      rw [meets_cons hs₁, meets_cons hs₁]
      refine ⟨fun hk => ⟨hs.dispatchesLive l, (ih s₁ (hs.of_step hk.1 hs₁) hr).1 hk.2⟩, fun hend hd => ?_⟩
      have hk : s.KeepsWaiting l := by
        by_contra hk
        obtain ⟨-, ⟨why, -, rfl⟩ | ⟨heff, -⟩⟩ := step_cases hs₁
        · -- the process has ended in the middle of the batch
          have hlast : t.events = s.events := by
            cases ls with
            | nil => cases hr; rfl
            | cons => cases hr
          refine hk fun e he => ?_
          have hmem := mem_of_mem_waiting he
          rw [← hlast, hend] at hmem
          cases hmem
        · obtain ⟨e, he⟩ := hs.stale hk heff
          exact he.run (hs.toWellFormed.of_step hs₁) hr hend hd.2
      exact ⟨hk, (ih s₁ (hs.of_step hk hs₁) hr).2 hend hd.2⟩
  exact hmain ls c.start (batchOpen_start c) h

/-- A client connects and sends `x`, and its event is handled before the alarm. -/
def inTime : List Label :=
  [.epollWait [.input 14 none], .dispatch ⟨0, some 19, .succeeds⟩,
    .epollWait [.input 19 (some 0), .input 15 none], .dispatch ⟨1, none, .succeeds⟩, .dispatch ⟨5, none, .succeeds⟩]

theorem dispatchesLive_iff_inTime :
    Meets (step .returning) DispatchesLive Setup.default.start inTime := by
  have hrun : (run (step .returning) Setup.default.start inTime).isSome = true := by decide +kernel
  obtain ⟨t, ht⟩ := Option.isSome_iff_exists.1 hrun
  exact (dispatchesLive_iff ht).1 (by decide +kernel)

/-- The alarm and the data of the client are reported together, the alarm first, when the timer has expired; with
`between` another event is handled in between. -/
def tooLate (between : List (Event × Answers)) : List Label :=
  [.epollWait [.input 14 none], .dispatch ⟨0, some 19, .succeeds⟩,
    .epollWait (.input 15 none :: (between.map Prod.fst ++ [.input 19 (some 0)])), .dispatch ⟨15, none, .succeeds⟩] ++
    between.map (fun x => .dispatch x.2) ++ [.dispatch ⟨15, none, .succeeds⟩]

/-- `adjust_timer` is called for a timer that is freed, or for the timer of the client accepted onto the slot. -/
theorem tooLate_stale :
    (∃ t, run (step .returning) Setup.default.start (tooLate []) = some t ∧ t.stop = some (.undefined .timer)) ∧
      ¬ Meets (step .returning) DispatchesLive Setup.default.start (tooLate []) ∧
      (∃ t, run (step .returning) Setup.default.start (tooLate [(.input 14 none, ⟨15, some 19, .succeeds⟩)]) = some t ∧
        t.stop = none ∧ t.workqueue = [⟨19, some 0⟩] ∧ t.openConns = [(1, 19)]) ∧
      ¬ Meets (step .returning) DispatchesLive Setup.default.start
        (tooLate [(.input 14 none, ⟨15, some 19, .succeeds⟩)]) := by
  refine ⟨?_, by decide +kernel, ?_, by decide +kernel⟩
  · exact exists_run_map (f := Server.stop) (a := some (.undefined .timer)) (by decide +kernel) fun t ht => ht
  · refine exists_run_map (f := fun t => (t.stop, t.workqueue, t.openConns)) (a := (none, [⟨19, some 0⟩], [(1, 19)]))
      (by decide +kernel) fun t ht => ?_
    simp only [Prod.mk.injEq] at ht
    exact ht

end Server

end ImageServer
