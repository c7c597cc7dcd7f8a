import ImageServer.Server.Timers
import ImageServer.Server.StaleEvents
import ImageServer.Server.Isolation

/-!
# Idle connections

A connection is given a timer of three time slots when it is accepted, and whenever data is reported on it the timer
starts anew; at an alarm `timeout` closes what has expired.  `Watched` is the server with a clock that does not go
back, and with the time at which each slot was last active.  The timer of every open connection expires three slots
after that and the list is in the order of its times, so no connection that has been idle as long survives an alarm
(`noneIdle_run`).  As long as the steps keep timers and connections together, an alarm closes those connections and
no others (`idleClosed_run`).
-/

namespace ImageServer

open Transition

namespace SortedTimerList

/-- No address twice, in the order of `expire`, and no time later than three slots from the clock. -/
structure Ordered (clock : Nat) (l : SortedTimerList) : Prop where
  ids : (l.map Timer.id).Nodup
  sorted : Sorted l
  bound : ∀ t ∈ l, t.expire ≤ clock + 3 * TIMESLOT

private theorem Ordered.mono {clock clock' : Nat} {l : SortedTimerList} (h : Ordered clock l) (hc : clock ≤ clock') :
    Ordered clock' l :=
  ⟨h.ids, h.sorted, fun t ht => (h.bound t ht).trans (Nat.add_le_add_right hc _)⟩

private theorem Ordered.sublist {clock : Nat} {l l' : SortedTimerList} (h : Ordered clock l) (hl : l'.Sublist l) :
    Ordered clock l' :=
  ⟨(hl.map Timer.id).nodup h.ids, List.Pairwise.sublist hl h.sorted, fun t ht => h.bound t (hl.subset ht)⟩

private theorem Ordered.addTimer {clock : Nat} {l : SortedTimerList} (h : Ordered clock l) {t : Timer}
    (hnew : ∀ t' ∈ l, t'.id ≠ t.id) (ht : t.expire ≤ clock + 3 * TIMESLOT) : Ordered clock (l.addTimer t) := by
  have hp := addTimer_perm t l
  refine ⟨(hp.map Timer.id).nodup_iff.2 (List.nodup_cons.2 ⟨fun hm => ?_, h.ids⟩), h.sorted.addTimer, fun x hx => ?_⟩
  · obtain ⟨t', ht', hid⟩ := List.mem_map.1 hm
    exact hnew t' ht' hid
  · rcases List.mem_cons.1 (hp.mem_iff.1 hx) with rfl | hx
    · exact ht
    · exact h.bound x hx

/-- The timer whose `expire` is assigned, and the ones before and behind it. -/
theorem setExpire_split {l : SortedTimerList} (hids : (l.map Timer.id).Nodup) {id : Nat} (hlive : l.Live id)
    (expire : Nat) :
    ∃ a t b, l = a ++ t :: b ∧ t.id = id ∧ id ∉ a.map Timer.id ∧
      l.setExpire id expire = a ++ { t with expire := expire } :: b := by
  obtain ⟨t, ht, rfl⟩ := hlive
  obtain ⟨a, b, rfl⟩ := List.append_of_mem ht
  rw [List.map_append, List.map_cons, List.nodup_append, List.nodup_cons] at hids
  obtain ⟨-, ⟨hb, -⟩, hdisj⟩ := hids
  have ha : t.id ∉ a.map Timer.id := fun hm => hdisj _ hm _ (List.mem_cons_self ..) rfl
  have hsame : ∀ c : SortedTimerList, t.id ∉ c.map Timer.id → c.setExpire t.id expire = c := by
    intro c hc
    refine (List.map_congr_left fun x hx => if_neg fun he => ?_).trans (List.map_id c)
    exact hc (he ▸ List.mem_map_of_mem hx)
  refine ⟨a, t, b, rfl, rfl, ha, ?_⟩
  have h₁ := hsame a ha
  have h₂ := hsame b hb
  unfold setExpire at h₁ h₂ ⊢
  rw [List.map_append, List.map_cons, h₁, h₂, if_pos rfl]

private theorem Ordered.adjust {clock : Nat} {l : SortedTimerList} (h : Ordered clock l) {id : Nat}
    (hlive : l.Live id) :
    Ordered clock ((l.setExpire id (clock + 3 * TIMESLOT)).adjustTimer id) := by
  have hsame := sameTimers_adjust id (clock + 3 * TIMESLOT) l
  refine ⟨hsame.ids.nodup_iff.2 h.ids, ?_, fun x hx => ?_⟩
  · obtain ⟨a, t, b, hl, rfl, ha, hset⟩ := setExpire_split h.ids hlive (clock + 3 * TIMESLOT)
    rw [hset]
    have hsorted := h.sorted
    rw [hl] at hsorted
    exact hsorted.adjustTimer ha (h.bound t (by simp [hl]))
  · obtain ⟨y, hy, rfl⟩ := List.mem_map.1 ((adjustTimer_perm id _).mem_iff.1 hx)
    split
    · exact le_rfl
    · exact h.bound y hy

end SortedTimerList

open SortedTimerList

/-- The time after the step: `time(NULL)` is called for events only. -/
def Label.time (clock : Nat) : Label → Nat
  | .dispatch o => o.now
  | _ => clock

namespace Server

/-- The slot that is given a connection, or on which data is reported. -/
def touched (s : Server) (l : Label) : Option Nat :=
  (s.opens l).or (((s.connEvent l).filter Event.epollin).map Event.fd)

/-- The step handles an alarm. -/
def alarms (s : Server) : Label → Bool
  | .dispatch _ => s.events.head?.any fun e => e.fd = s.alarmfd ∧ e.fd ≠ s.listenfd ∧ e.fd ≠ s.sslFd
  | _ => false

/-- With the timers `l` left, that of each open connection expires three slots after its slot was last active. -/
def Deadlines (active : Nat → Nat) (l : SortedTimerList) (s : Server) : Prop :=
  ∀ x ∈ s.conns, x.registered = true →
    ∃ t ∈ l, (s.users_ x.fd).timer = some t.id ∧ t.expire = active x.fd + 3 * TIMESLOT

/-- The server with the clock, and for each slot when it was last active. -/
structure Watched where
  server : Server
  clock : Nat
  active : Nat → Nat

def Watched.start (c : Setup) : Watched := ⟨c.start, 0, fun _ => 0⟩

/-- A step of the server at a time that is not before the last one. -/
def Watched.step (rm : RemoveFd) (v : Watched) (l : Label) : Option Watched :=
  if v.clock ≤ l.time v.clock then
    (v.server.step rm l).map fun s => ⟨s, l.time v.clock,
      (v.server.touched l).elim v.active fun fd => Function.update v.active fd (l.time v.clock)⟩
  else none

/-! ### The timers -/

/-- What `timeout` leaves is what is behind the expired timers. -/
theorem timeout_dropWhile {rm : RemoveFd} {cur : Nat} {l : SortedTimerList} {s s' : Server}
    (h : Server.timeout rm cur l s = some s') : s'.timerLst = l.dropWhile fun t => t.expire ≤ cur := by
  induction l generalizing s with
  | nil =>
    cases h
    rfl
  | cons t rest ih =>
    unfold Server.timeout at h
    split at h
    · rename_i hlt
      cases h
      rw [List.dropWhile_cons_of_neg (by simpa using hlt)]
    · rename_i hle
      obtain ⟨s₁, -, h⟩ := Option.bind_eq_some_iff.1 h
      rw [ih h, List.dropWhile_cons_of_pos (by simpa using hle)]

theorem timeout_sublist {rm : RemoveFd} {cur : Nat} {l : SortedTimerList} {s s' : Server}
    (h : Server.timeout rm cur l s = some s') : s'.timerLst.Sublist l := by
  rw [timeout_dropWhile h]
  exact List.dropWhile_sublist _

/-- What `timeout` leaves of a sorted list has not expired. -/
private theorem timeout_later {rm : RemoveFd} {cur : Nat} {l : SortedTimerList} {s s' : Server} (hl : Sorted l)
    (h : Server.timeout rm cur l s = some s') : ∀ t ∈ s'.timerLst, cur < t.expire := by
  rw [timeout_dropWhile h]
  clear h
  induction l with
  | nil => exact fun t ht => absurd ht List.not_mem_nil
  | cons t rest ih =>
    obtain ⟨hrest, hsorted⟩ := List.pairwise_cons.1 hl
    by_cases hlt : cur < t.expire
    · rw [List.dropWhile_cons_of_neg (by simpa using hlt)]
      intro x hx
      rcases List.mem_cons.1 hx with rfl | hx
      · exact hlt
      · exact hlt.trans_le (hrest x hx)
    · rw [List.dropWhile_cons_of_pos (by simpa using hlt)]
      exact ih hsorted

private theorem ordered_step {rm : RemoveFd} {s s' : Server} {l : Label} {clock : Nat} (h : Ordered clock s.timerLst)
    (hfresh : ∀ t ∈ s.timerLst, t.id < s.nextTimer) (hc : clock ≤ l.time clock) (hs : Step rm s l s') :
    Ordered (l.time clock) s'.timerLst := by
  have h := h.mono hc
  cases hs with
  | epollWait | ignored | sslFailed | term | take | getConnection | process | close | releaseConnection => exact h
  | opened => exact h.addTimer (fun t ht => (hfresh t ht).ne) le_rfl
  | timeout _ _ ht => exact h.sublist (timeout_sublist ht)
  | @readable o e es id _ _ _ _ hlive =>
    have hadj := h.adjust hlive
    unfold append
    split <;> exact hadj
  | @hangUp o e es =>
    show Ordered _ ((s.users_ e.fd).timer.elim s.timerLst fun id => s.timerLst.delTimer id)
    cases (s.users_ e.fd).timer with
    | none => exact h
    | some id => exact h.sublist List.filter_sublist

/-! ### The deadlines -/

/-- The same timers, connections and fields `m_timer`. -/
private theorem Deadlines.same {active : Nat → Nat} {l : SortedTimerList} {s s' : Server} (h : Deadlines active l s)
    (hu : ∀ slot, (s'.users_ slot).timer = (s.users_ slot).timer)
    (hc : ∀ x ∈ s'.conns, x.registered = true → ∃ y ∈ s.conns, y.registered = true ∧ y.fd = x.fd) :
    Deadlines active l s' := by
  intro x hx hreg
  obtain ⟨y, hy, hyreg, hfd⟩ := hc x hx hreg
  rw [hu, ← hfd]
  exact h y hy hyreg

/-- A slot is closed, and only timers of this slot go. -/
private theorem Deadlines.closed {active : Nat → Nat} {l l' : SortedTimerList} {s : Server} (h : Deadlines active l s)
    (ho : LiveTimers l s) (hs : Sockets s) {slot : Nat} (hkeep : ∀ t ∈ l, t.data ≠ slot → t ∈ l') :
    Deadlines active l' (s.closed slot) := by
  intro x hx hreg
  have hne := hs.ne_of_mem_closed hx hreg
  obtain ⟨t, ht, htimer, hexp⟩ := h x (mem_closed_conns.1 hx).1 hreg
  have hdata : t.data = x.fd := ho.owner x.fd t.id htimer t ht rfl
  rw [closed_timer]
  exact ⟨t, hkeep t ht (hdata ▸ hne), htimer, hexp⟩

private theorem Deadlines.openConn {active : Nat → Nat} {s : Server} (h : Deadlines active s.timerLst s) {fd : Nat}
    (hfree : s.LowestFree fd) (now : Nat) (type : ClientType) (content : Option Ssl) :
    Deadlines (Function.update active fd now) (s.openConn fd now type content).timerLst
      (s.openConn fd now type content) := by
  have hp := addTimer_perm ⟨s.nextTimer, fd, now + 3 * TIMESLOT, s.nextConn⟩ s.timerLst
  intro x hx hreg
  rcases List.mem_cons.1 hx with rfl | hx
  · rw [openConn_users_self, Function.update_self]
    exact ⟨_, hp.mem_iff.2 (List.mem_cons_self ..), rfl, rfl⟩
  · have hne : x.fd ≠ fd := fun he => hfree.2.1 ⟨x, hx, he⟩
    obtain ⟨t, ht, htimer, hexp⟩ := h x hx hreg
    rw [openConn_users_ne s hne, Function.update_of_ne hne]
    exact ⟨t, hp.mem_iff.2 (List.mem_cons_of_mem _ ht), htimer, hexp⟩

/-- The timer of a slot starts anew. -/
private theorem Deadlines.adjust {active : Nat → Nat} {s : Server} (h : Deadlines active s.timerLst s)
    (ho : LiveTimers s.timerLst s) {slot id : Nat} (hid : (s.users_ slot).timer = some id) (now : Nat) :
    Deadlines (Function.update active slot now)
      ((s.timerLst.setExpire id (now + 3 * TIMESLOT)).adjustTimer id) s := by
  intro x hx hreg
  obtain ⟨t, ht, htimer, hexp⟩ := h x hx hreg
  have hmem : ∀ y ∈ s.timerLst.setExpire id (now + 3 * TIMESLOT),
      y ∈ (s.timerLst.setExpire id (now + 3 * TIMESLOT)).adjustTimer id :=
    fun y hy => (adjustTimer_perm id _).mem_iff.2 hy
  have hset := List.mem_map_of_mem
    (f := fun y : Timer => if y.id = id then { y with expire := now + 3 * TIMESLOT } else y) ht
  by_cases hfd : x.fd = slot
  · have hti : t.id = id := Option.some.inj (htimer.symm.trans (hfd ▸ hid))
    rw [if_pos hti] at hset
    rw [hfd, Function.update_self]
    exact ⟨_, hmem _ hset, by rw [hid, ← hti], rfl⟩
  · -- another slot has another timer
    have hti : t.id ≠ id := by
      intro he
      have h₁ : t.data = x.fd := ho.owner x.fd t.id htimer t ht rfl
      have h₂ : t.data = slot := ho.owner slot id hid t ht he
      exact hfd (h₁.symm.trans h₂)
    rw [if_neg hti] at hset
    rw [Function.update_of_ne hfd]
    exact ⟨t, hmem t hset, htimer, hexp⟩

theorem Deadlines.timeout {active : Nat → Nat} {rm : RemoveFd} {cur : Nat} {l : SortedTimerList} {s s' : Server}
    (h : Deadlines active l s) (ho : LiveTimers l s) (hs : Sockets s) (hu : ∀ t ∈ l, s.Used t.data)
    (ht : Server.timeout rm cur l s = some s') : Deadlines active s'.timerLst s' := by
  obtain ⟨l', t, ⟨h₁, -, -, -⟩, rfl⟩ := timeout_induction
    (P := fun l t => Deadlines active l t ∧ LiveTimers l t ∧ Sockets t ∧ ∀ x ∈ l, t.Used x.data)
    (by
      rintro x rest t ⟨h₁, h₂, h₃, h₄⟩ -
      have hkeep : ∀ y ∈ x :: rest, y.data ≠ x.data → y ∈ rest :=
        fun y hy hne => (List.mem_cons.1 hy).resolve_left fun he => hne (congrArg Timer.data he)
      exact ⟨h₁.closed h₂ h₃ hkeep, h₂.closed h₃ (fun y hy => List.mem_cons_of_mem _ hy) hkeep,
        h₃.closed (h₄ x (List.mem_cons_self ..)), fun y hy => closed_used.2 (h₄ y (List.mem_cons_of_mem _ hy))⟩)
    ⟨h, ho, hs, hu⟩ ht
  exact h₁

/-- The event of an own descriptor is of no connection. -/
private theorem connEvent_own {s : Server} {e : Event} {es : List Event} {o : Answers} (he : s.events = e :: es)
    (hown : e.fd ∈ s.own) : s.connEvent (.dispatch o) = none := by
  simp [connEvent, he, hown]

private theorem touched_own {s : Server} {e : Event} {es : List Event} {o : Answers} (he : s.events = e :: es)
    (hown : e.fd ∈ s.own) (ho : s.opens (.dispatch o) = none) : s.touched (.dispatch o) = none := by
  rw [touched, ho, connEvent_own he hown]
  rfl

private theorem touched_conn {s : Server} {e : Event} {es : List Event} {o : Answers} (he : s.events = e :: es)
    (hown : e.fd ∉ s.own) : s.touched (.dispatch o) = if e.epollin then some e.fd else none := by
  have hc : s.connEvent (.dispatch o) = some e := by simp [connEvent, he, hown]
  rw [touched, opens_of_not_own he hown, hc, Option.none_or, Option.filter_some]
  split <;> rfl

private theorem deadlines_step {active : Nat → Nat} {rm : RemoveFd} {s s' : Server} {l : Label}
    (h : Deadlines active s.timerLst s) (hw : TimersLive s) (hs : Step rm s l s') (clock : Nat) :
    Deadlines ((s.touched l).elim active fun fd => Function.update active fd (l.time clock)) s'.timerLst s' := by
  have hfields : ∀ t : Server, t.conns = s.conns →
      ∀ x ∈ t.conns, x.registered = true → ∃ y ∈ s.conns, y.registered = true ∧ y.fd = x.fd :=
    fun t ht x hx hreg => ⟨x, ht ▸ hx, hreg, rfl⟩
  cases hs with
  | epollWait =>
    refine h.same (fun _ => rfl) fun x hx hreg => ?_
    obtain ⟨y, hy, -, hfd, hr⟩ := mem_disarm hx
    exact ⟨y, hy, hr ▸ hreg, hfd.symm⟩
  | ignored he hown ho =>
    rw [touched_own he hown ho]
    exact h.same (fun _ => rfl) (hfields _ rfl)
  | term he hfd ho =>
    rw [touched_own he (by simp [own, hfd]) ho]
    exact h.same (fun _ => rfl) (hfields _ rfl)
  | take | releaseConnection => exact h.same (fun _ => rfl) (hfields _ rfl)
  | @opened o e es ssls n fd type content he hown hfree ho _ =>
    have hb : Deadlines active s.timerLst { s with events := es, ssls := ssls, nextSsl := n } :=
      h.same (fun _ => rfl) (hfields _ rfl)
    have ht : s.touched (.dispatch o) = some fd := by rw [touched, ho]; rfl
    rw [ht]
    exact Deadlines.openConn (s := { s with events := es, ssls := ssls, nextSsl := n }) hb hfree o.now type content
  | @sslFailed o e es fd he hfd _ hf =>
    rw [touched_own he (by simp [own, hfd]) (opens_of_failsHandshake he hf)]
    refine h.same (fun _ => rfl) fun x hx hreg => ?_
    rcases List.mem_cons.1 hx with rfl | hx
    · cases hreg
    · exact ⟨x, hx, hreg, rfl⟩
  | @timeout o e es s' he hown ht ho =>
    rw [touched_own he hown ho]
    have hb : Deadlines active s.timerLst { s with events := es } := h.same (fun _ => rfl) (hfields _ rfl)
    have hl : LiveTimers s.timerLst { s with events := es } := hw.timersLive.same (fun _ => rfl) rfl
    exact hb.timeout hl (hw.toSockets.frame rfl rfl fun _ => rfl) hw.timers ht
  | @readable o e es id he hown hin hid _ =>
    rw [touched_conn he hown, if_pos hin]
    have hadj := h.adjust hw.timersLive hid o.now
    unfold append
    split <;> exact hadj.same (fun _ => rfl) (hfields _ rfl)
  | @hangUp o e es he hown hin =>
    have hbase : Sockets { s with events := es } := hw.toSockets.frame rfl rfl fun _ => rfl
    have hl : LiveTimers s.timerLst { s with events := es } := hw.timersLive.same (fun _ => rfl) rfl
    have hb : Deadlines active s.timerLst { s with events := es } := h.same (fun _ => rfl) (hfields _ rfl)
    rw [touched_conn he hown, if_neg (by simp [hin])]
    have hdel : Deadlines active ((s.users_ e.fd).timer.elim s.timerLst fun id => s.timerLst.delTimer id)
        (Server.closed { s with events := es } e.fd) := by
      refine hb.closed hl hbase fun t ht hne => ?_
      cases htimer : (s.users_ e.fd).timer with
      | none => exact ht
      | some id =>
        refine List.mem_filter.2 ⟨ht, decide_eq_true fun hid => hne ?_⟩
        exact hw.timersLive.owner e.fd id htimer t ht hid
    exact hdel
  | getConnection =>
    exact h.same (fun slot => (congrArg Outside.timer (connected_socket ..) :)) (hfields _ rfl)
  | process _ _ hs => exact h.same (served_timer hs) (hfields _ rfl)
  | @close w i job held ph ph' hd users _ _ hs =>
    have hl : LiveTimers s.timerLst (s.served w job held ph' hd users) := hw.timersLive.same (served_timer hs) rfl
    have hb : Deadlines active s.timerLst (s.served w job held ph' hd users) :=
      h.same (served_timer hs) (hfields _ rfl)
    exact hb.closed hl (hw.toSockets.frame rfl rfl (served_socket hs)) fun _ ht _ => ht

/-! ### Runs -/

/-- The invariant of the server with its clock. -/
structure Clocked (v : Watched) : Prop extends TimersLive v.server where
  ordered : Ordered v.clock v.server.timerLst
  deadlines : Deadlines v.active v.server.timerLst v.server

private theorem clocked_start (c : Setup) : Clocked (Watched.start c) where
  toTimersLive := timersLive_start c
  ordered := ⟨List.nodup_nil, List.Pairwise.nil, fun _ ht => absurd ht List.not_mem_nil⟩
  deadlines := fun _ hx => absurd hx List.not_mem_nil

private theorem Watched.step_eq_some {rm : RemoveFd} {v v' : Watched} {l : Label} (h : v.step rm l = some v') :
    v.clock ≤ l.time v.clock ∧ v.server.step rm l = some v'.server ∧ v'.clock = l.time v.clock ∧
      v'.active = (v.server.touched l).elim v.active fun fd => Function.update v.active fd (l.time v.clock) := by
  unfold Watched.step at h
  split at h
  · obtain ⟨s, hs, rfl⟩ := Option.map_eq_some_iff.1 h
    exact ⟨‹_›, hs, rfl, rfl⟩
  · cases h

private theorem Clocked.of_step {rm : RemoveFd} {v v' : Watched} {l : Label} (h : Clocked v)
    (hs : v.step rm l = some v') (hstop : v'.server.stop = none) : Clocked v' := by
  obtain ⟨hc, hstep, hclock, hactive⟩ := Watched.step_eq_some hs
  have hw := h.toTimersLive.of_step hstep
  obtain ⟨-, ⟨why, -, hs'⟩ | ⟨-, hs'⟩⟩ := step_cases hstep
  · rw [hs'] at hstop
    cases hstop
  · refine ⟨hw, ?_, ?_⟩
    · rw [hclock]
      exact ordered_step h.ordered h.freshTimer hc hs'
    · rw [hactive]
      exact deadlines_step h.deadlines h.toTimersLive hs' v.clock

theorem clocked_run {rm : RemoveFd} {c : Setup} {ls : List Label} {v : Watched}
    (h : run (Watched.step rm) (Watched.start c) ls = some v) : v.server.stop = none → Clocked v := by
  refine run_invariant (P := fun v => v.server.stop = none → Clocked v) (fun v l v' hv _ hs hstop => ?_)
    (fun _ => clocked_start c) Meets.trivial h
  exact (hv (step_cases (Watched.step_eq_some hs).2.1).1).of_step hs hstop

theorem alarms_cases {s : Server} {l : Label} (h : s.alarms l = true) :
    ∃ o e es, l = .dispatch o ∧ s.events = e :: es ∧ e.fd = s.alarmfd ∧ e.fd ≠ s.listenfd ∧ e.fd ≠ s.sslFd := by
  cases l with
  | dispatch o =>
    obtain ⟨e, he, hfd⟩ := (Option.any_eq_true _ _).1 h
    obtain ⟨es, hes⟩ := List.head?_eq_some_iff.1 he
    exact ⟨o, e, es, rfl, hes, of_decide_eq_true hfd⟩
  | _ => cases h

/-- An alarm is `timeout`, and unless that returns the process ends. -/
private theorem alarm_step {rm : RemoveFd} {s s' : Server} {l : Label} (ha : s.alarms l = true)
    (hs : s.step rm l = some s') :
    ∃ o e es, l = .dispatch o ∧ s.events = e :: es ∧ e.fd ∈ s.own ∧ s.opens l = none ∧
      (Server.timeout rm o.now s.timerLst { s with events := es } = some s' ∨
        Server.timeout rm o.now s.timerLst { s with events := es } = none ∧ s'.stop = some .exited) := by
  obtain ⟨o, e, es, rfl, he, halarm, hlisten, hssl⟩ := alarms_cases ha
  have ho : s.opens (.dispatch o) = none :=
    opens_eq_none he (Or.inr (Or.inr fun h => h.elim hlisten fun h => hssl h.1))
  refine ⟨o, e, es, rfl, he, by simp [own, halarm], ho, ?_⟩
  have heff : s.effect rm (.dispatch o) =
      (Server.timeout rm o.now s.timerLst { s with events := es }).elim (some (.error .exited))
        fun t => some (.ok t) := by
    unfold effect
    rw [he]
    unfold handle
    dsimp only
    rw [if_neg hlisten, if_neg hssl, if_pos halarm]
    cases Server.timeout rm o.now s.timerLst { s with events := es } <;> rfl
  unfold step at hs
  split at hs
  · cases hs
  · rw [heff] at hs
    cases ht : Server.timeout rm o.now s.timerLst { s with events := es } with
    | none =>
      rw [ht] at hs
      cases hs
      exact Or.inr ⟨rfl, rfl⟩
    | some t =>
      rw [ht] at hs
      cases hs
      exact Or.inl rfl

/-- No connection that has been idle for three time slots survives an alarm. -/
theorem noneIdle_run {rm : RemoveFd} {c : Setup} {ls : List Label} {l : Label} {v v' : Watched}
    (h : run (Watched.step rm) (Watched.start c) ls = some v) (hs : v.step rm l = some v')
    (ha : v.server.alarms l = true) (hstop : v'.server.stop = none) :
    ∀ x ∈ v'.server.conns, x.registered = true → v'.clock < v'.active x.fd + 3 * TIMESLOT := by
  obtain ⟨-, hstep, hclock, -⟩ := Watched.step_eq_some hs
  have hv := clocked_run h (step_cases hstep).1
  have hv' := hv.of_step hs hstop
  obtain ⟨o, e, es, rfl, -, -, -, ht | ⟨-, hexit⟩⟩ := alarm_step ha hstep
  · intro x hx hreg
    obtain ⟨t, htm, -, hexp⟩ := hv'.deadlines x hx hreg
    rw [← hexp, hclock]
    exact timeout_later hv.ordered.sorted ht t htm
  · rw [hstop] at hexit
    cases hexit

/-- Two clients, and an alarm that finds the first one idle. -/
def acceptsTwice : List Label :=
  [.epollWait [.input 14 none], .dispatch ⟨0, some 19, .succeeds⟩,
    .epollWait [.input 14 none], .dispatch ⟨10, some 20, .succeeds⟩, .epollWait [.input 15 none]]

private theorem acceptsTwice_alarm :
    ∃ v v', run (Watched.step .returning) (Watched.start .default) acceptsTwice = some v ∧
      v.step .returning (.dispatch ⟨16, none, .succeeds⟩) = some v' ∧
      v.server.alarms (.dispatch ⟨16, none, .succeeds⟩) = true ∧ v'.server.stop = none := by
  have hrun : ((run (Watched.step .returning) (Watched.start .default) acceptsTwice).bind fun v =>
      (v.step .returning (.dispatch ⟨16, none, .succeeds⟩)).map fun v' =>
        (v.server.alarms (.dispatch ⟨16, none, .succeeds⟩), v'.server.stop)) = some (true, none) := by decide +kernel
  obtain ⟨v, hv, hrun⟩ := Option.bind_eq_some_iff.1 hrun
  obtain ⟨v', hv', hrun⟩ := Option.map_eq_some_iff.1 hrun
  obtain ⟨ha, hstop⟩ := Prod.mk.inj hrun
  exact ⟨v, v', hv, hv', ha, hstop⟩

theorem noneIdle_run_second :
    ∃ v v', run (Watched.step .returning) (Watched.start .default) acceptsTwice = some v ∧
      v.step .returning (.dispatch ⟨16, none, .succeeds⟩) = some v' ∧
      ∀ x ∈ v'.server.conns, x.registered = true → v'.clock < v'.active x.fd + 3 * TIMESLOT := by
  obtain ⟨v, v', hv, hv', ha, hstop⟩ := acceptsTwice_alarm
  exact ⟨v, v', hv, hv', noneIdle_run hv hv' ha hstop⟩

/-! ### With timers and connections in bijection -/

private theorem Timed.of_step {rm : RemoveFd} {s s' : Server} {l : Label} (h : Timed s) (hk : s.KeepsTimers l)
    (hs : s.step rm l = some s') : Timed s' := by
  have hw := h.toWellFormed.of_step hs
  obtain ⟨-, ⟨why, -, rfl⟩ | ⟨-, hs⟩⟩ := step_cases hs
  · exact ⟨hw, h.matched.same (fun _ => rfl) rfl, h.fresh⟩
  · exact ⟨hw, h.matched_step hk hs, fresh_step h.fresh hs⟩

/-- A connection whose timer has not expired is left open. -/
private theorem timeout_keeps {rm : RemoveFd} {cur : Nat} {l : SortedTimerList} {s s' : Server} (h : Matched l s)
    (hs : Sockets s) (hu : ∀ t ∈ l, s.Used t.data) {x : Conn} (hx : x ∈ s.conns) {t : Timer} (ht : t ∈ l)
    (hdata : t.data = x.fd) (hlt : cur < t.expire) (htime : Server.timeout rm cur l s = some s') :
    x ∈ s'.conns := by
  obtain ⟨l', u, ⟨-, hxu, -, -⟩, rfl⟩ := timeout_induction
    (P := fun l' u => (∀ y ∈ l', y ∈ l) ∧ x ∈ u.conns ∧ Sockets u ∧ ∀ y ∈ l', u.Used y.data)
    (by
      rintro y rest u ⟨h₁, h₂, h₃, h₄⟩ hexp
      have hused := h₄ y (List.mem_cons_self ..)
      have hne : x.fd ≠ y.data := by
        intro he
        have hyt := h.data_inj (h₁ y (List.mem_cons_self ..)) ht (he.symm.trans hdata.symm)
        rw [hyt] at hexp
        omega
      exact ⟨fun z hz => h₁ z (List.mem_cons_of_mem _ hz), h₃.mem_closed hused h₂ hne, h₃.closed hused,
        fun z hz => closed_used.2 (h₄ z (List.mem_cons_of_mem _ hz))⟩)
    ⟨fun _ hy => hy, hx, hs, hu⟩ htime
  exact hxu

/-- As long as timers and connections are kept together, an alarm closes the connections that have been idle for three
time slots, and no others. -/
theorem idleClosed_run {c : Setup} {ls : List Label} {l : Label} {v v' : Watched}
    (h : run (Watched.step .returning) (Watched.start c) ls = some v)
    (hk : Meets (Watched.step .returning) (fun v l => v.server.KeepsTimers l) (Watched.start c) ls)
    (hs : v.step .returning l = some v') (ha : v.server.alarms l = true) (hstop : v'.server.stop = none) :
    ∀ x ∈ v.server.conns, x.registered = true →
      (x ∈ v'.server.conns ↔ v'.clock < v'.active x.fd + 3 * TIMESLOT) := by
  intro x hx hreg
  refine ⟨fun hx' => noneIdle_run h hs ha hstop x hx' hreg, fun hlt => ?_⟩
  obtain ⟨-, hstep, hclock, hactive⟩ := Watched.step_eq_some hs
  have hv := clocked_run h (step_cases hstep).1
  have hm : Timed v.server := run_invariant (P := fun v : Watched => Timed v.server)
    (fun u l u' hu hc hs => hu.of_step hc (Watched.step_eq_some hs).2.1) (timed_start c) hk h
  obtain ⟨o, e, es, rfl, he, hown, ho, ht | ⟨-, hexit⟩⟩ := alarm_step ha hstep
  · rw [hactive, touched_own he hown ho, Option.elim_none, hclock] at hlt
    obtain ⟨t, htm, htimer, hexp⟩ := hv.deadlines x hx hreg
    rw [← hexp] at hlt
    have hdata : t.data = x.fd := hv.timersLive.owner x.fd t.id htimer t htm rfl
    have hmatched : Matched v.server.timerLst { v.server with events := es } := hm.matched.same (fun _ => rfl) rfl
    exact timeout_keeps hmatched (hv.toSockets.frame rfl rfl fun _ => rfl) hv.timers hx htm hdata hlt ht
  · rw [hstop] at hexit
    cases hexit

theorem idleClosed_run_second :
    ∃ v v', run (Watched.step .returning) (Watched.start .default) acceptsTwice = some v ∧
      v.step .returning (.dispatch ⟨16, none, .succeeds⟩) = some v' ∧
      ∀ x ∈ v.server.conns, x.registered = true →
        (x ∈ v'.server.conns ↔ v'.clock < v'.active x.fd + 3 * TIMESLOT) := by
  obtain ⟨v, v', hv, hv', ha, hstop⟩ := acceptsTwice_alarm
  exact ⟨v, v', hv, hv', idleClosed_run hv (by decide +kernel) hv' ha hstop⟩

end Server

end ImageServer
