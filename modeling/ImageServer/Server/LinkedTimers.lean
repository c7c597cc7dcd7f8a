import ImageServer.Server.IdleTimers
import ImageServer.Server.TimerInvariant

/-!
# The server with its timers in memory

The model of the server keeps its timers as a list.  Here every step performs the operation of `SortedTimerList` it
calls on nodes with pointers as well (`Linked`).  Every run of the server is one of this system, and the pointers
represent the list all the time (`linked_run`): whatever the order of the steps, no operation follows a null or
dangling pointer, and none goes round in a circle.
-/

namespace ImageServer

open Transition SortedTimerList

namespace Server

/-- The operation on the timer list that the handling of the next event comes to. -/
def timerOp (s : Server) : Label → Option TimerOp
  | .dispatch o =>
    match s.opens (.dispatch o) with
    | some fd => some (.add ⟨s.nextTimer, fd, o.now + 3 * TIMESLOT, s.nextConn⟩)
    | none =>
      if s.alarms (.dispatch o) then some (.timeout o.now)
      else
        (s.connEvent (.dispatch o)).bind fun e =>
          (s.users_ e.fd).timer.map fun id => if e.epollin then .adjust id (o.now + 3 * TIMESLOT) else .del id
  | _ => none

/-- The server, and the nodes of its timer list. -/
structure Linked where
  server : Server
  timers : LinkedTimerList

def Linked.start (c : Setup) : Linked := ⟨c.start, .empty⟩

/-- A step of the server, with its operation on the nodes unless it ends the process; there is no result when the
operation has none. -/
def Linked.step (rm : RemoveFd) (fuel : Nat) (v : Linked) (l : Label) : Option Linked :=
  (v.server.step rm l).bind fun s =>
    if s.stop = none then ((v.server.timerOp l).elim (some v.timers) (v.timers.apply fuel)).map (Linked.mk s)
    else some ⟨s, v.timers⟩

/-! ### The operation of a step -/

private theorem timerOp_opens {s : Server} {o : Answers} {fd : Nat} (h : s.opens (.dispatch o) = some fd) :
    s.timerOp (.dispatch o) = some (.add ⟨s.nextTimer, fd, o.now + 3 * TIMESLOT, s.nextConn⟩) := by
  unfold timerOp
  dsimp only
  rw [h]

private theorem timerOp_own {s : Server} {e : Event} {es : List Event} {o : Answers} (he : s.events = e :: es)
    (hown : e.fd ∈ s.own) (ho : s.opens (.dispatch o) = none) (ha : s.alarms (.dispatch o) = false) :
    s.timerOp (.dispatch o) = none := by
  have hc : s.connEvent (.dispatch o) = none := by simp [connEvent, he, hown]
  unfold timerOp
  dsimp only
  rw [ho, ha, hc]
  rfl

private theorem timerOp_alarm {s : Server} {o : Answers} (ha : s.alarms (.dispatch o) = true) :
    s.timerOp (.dispatch o) = some (.timeout o.now) := by
  obtain ⟨o', e, es, hl, he, halarm, hlisten, hssl⟩ := alarms_cases ha
  have ho : s.opens (.dispatch o) = none :=
    opens_eq_none he (Or.inr (Or.inr fun h => h.elim hlisten fun h => hssl h.1))
  unfold timerOp
  dsimp only
  rw [ho, ha]
  rfl

private theorem timerOp_conn {s : Server} {e : Event} {es : List Event} {o : Answers} (he : s.events = e :: es)
    (hown : e.fd ∉ s.own) :
    s.timerOp (.dispatch o) =
      (s.users_ e.fd).timer.map fun id => if e.epollin then .adjust id (o.now + 3 * TIMESLOT) else .del id := by
  have hc : s.connEvent (.dispatch o) = some e := by simp [connEvent, he, hown]
  have ha : s.alarms (.dispatch o) = false := by
    rw [Bool.eq_false_iff]
    intro ha
    obtain ⟨-, e', es', -, he', halarm, -, -⟩ := alarms_cases ha
    cases he.symm.trans he'
    exact hown (by simp [own, halarm])
  unfold timerOp
  dsimp only
  rw [opens_of_not_own he hown, ha, hc]
  rfl

/-! ### The operation on the nodes -/

/-- The nodes have the operation, and represent the timers of the next state. -/
def Follows (m : LinkedTimerList) (fuel : Nat) (op : Option TimerOp) (l : SortedTimerList) : Prop :=
  ∃ m', op.elim (some m) (m.apply fuel) = some m' ∧ m'.Represents l

section Operations

variable {m : LinkedTimerList} {l : SortedTimerList} {fuel : Nat}

private theorem follows_add (h : m.Represents l) (hfuel : l.length < fuel) {t : Timer}
    (hnew : ∀ t' ∈ l, t'.id < t.id) :
    Follows m fuel (some (.add t)) (l.addTimer t) := by
  refine h.addTimer (fun hm => ?_) hfuel.le
  obtain ⟨t', ht', hid⟩ := List.mem_map.1 hm
  exact (hnew t' ht').ne hid

private theorem follows_adjust (h : m.Represents l) (hfuel : l.length < fuel) {id : Nat} (hlive : l.Live id)
    (expire : Nat) :
    Follows m fuel (some (.adjust id expire)) ((l.setExpire id expire).adjustTimer id) := by
  obtain ⟨a, t, b, rfl, rfl, -, hset⟩ := setExpire_split h.nodup hlive expire
  obtain ⟨m₁, hm₁, h₁⟩ := h.setExpire expire
  rw [List.length_append, List.length_cons] at hfuel
  have hroom : b.length ≤ fuel := by omega
  obtain ⟨m₂, hm₂, h₂⟩ := h₁.adjustTimer hroom
  rw [hset]
  refine ⟨m₂, ?_, h₂⟩
  show (m.setExpire t.id expire).bind (fun m => m.adjustTimer fuel (some t.id)) = some m₂
  rw [hm₁]
  exact hm₂

private theorem follows_del (h : m.Represents l) {id : Nat} (hlive : l.Live id) :
    Follows m fuel (some (.del id)) (l.delTimer id) := by
  obtain ⟨t, ht, rfl⟩ := hlive
  obtain ⟨a, b, rfl⟩ := List.append_of_mem ht
  obtain ⟨m', hm', h'⟩ := h.delTimer
  have hnd := h.nodup
  rw [List.map_append, List.map_cons, List.nodup_middle, List.nodup_cons, List.mem_append, not_or] at hnd
  have hkeep : ∀ c : SortedTimerList, t.id ∉ c.map Timer.id → c.delTimer t.id = c := by
    intro c hc
    refine List.filter_eq_self.2 fun x hx => decide_eq_true fun he => hc ?_
    exact he ▸ List.mem_map_of_mem hx
  have hdel : SortedTimerList.delTimer t.id (a ++ t :: b) = a ++ b := by
    have ha := hkeep a hnd.1.1
    have hb := hkeep b hnd.1.2
    unfold delTimer at ha hb ⊢
    rw [List.filter_append, List.filter_cons_of_neg (by simp), ha, hb]
  rw [hdel]
  exact ⟨m', hm', h'⟩

private theorem follows_timeout (h : m.Represents l) (hfuel : l.length < fuel) (cur : Nat) :
    Follows m fuel (some (.timeout cur)) (l.dropWhile fun t => t.expire ≤ cur) := by
  obtain ⟨m', hm', h'⟩ := h.timeout cur hfuel
  refine ⟨m', ?_, h'⟩
  show (m.timeout fuel cur).map Prod.fst = some m'
  rw [hm']
  rfl

end Operations

private theorem addUser_timers {s s' : Server} {fd now : Nat} {type : ClientType} {content : Option Ssl}
    (h : s.addUser fd now type content = .ok s') :
    s.userCount = MAX_FD ∧ s'.timerLst = s.timerLst ∨
      s.userCount ≠ MAX_FD ∧
        s'.timerLst = s.timerLst.addTimer ⟨s.nextTimer, fd, now + 3 * TIMESLOT, s.nextConn⟩ := by
  obtain ⟨hcount, rfl⟩ | ⟨hcount, rfl⟩ := addUser_ok h
  · exact Or.inl ⟨hcount, rfl⟩
  · exact Or.inr ⟨hcount, rfl⟩

/-- A step of the event loop that does not end the process. -/
private theorem follows_handle {rm : RemoveFd} {s s' : Server} {e : Event} {es : List Event} {o : Answers}
    {m : LinkedTimerList} {fuel : Nat} (h : m.Represents s.timerLst) (hfuel : s.timerLst.length < fuel)
    (hfresh : ∀ t ∈ s.timerLst, t.id < s.nextTimer) (he : s.events = e :: es)
    (hs : handle rm { s with events := es } e o = some (.ok s')) :
    Follows m fuel (s.timerOp (.dispatch o)) s'.timerLst := by
  have hb := handle_branch rm { s with events := es } e o
  rw [hs] at hb
  -- an accepted connection, unless it is one too many
  have accepted : ∀ {fd : Nat} {type : ClientType} {content : Option Ssl} {s₁ : Server}, e.fd ∈ s.own →
      s.alarms (.dispatch o) = false → (e.fd = s.listenfd ∨ e.fd = s.sslFd ∧ o.handshake = .succeeds) →
      o.accepted = some fd → s₁.addUser fd o.now type content = .ok s' → s₁.timerLst = s.timerLst →
      s₁.userCount = s.userCount → s₁.nextTimer = s.nextTimer → s₁.nextConn = s.nextConn →
      Follows m fuel (s.timerOp (.dispatch o)) s'.timerLst := by
    intro fd type content s₁ hown ha hfd hacc hadd hl hc hn hconn
    rcases addUser_timers hadd with ⟨hcount, ht⟩ | ⟨hcount, ht⟩
    · rw [timerOp_own he hown (opens_eq_none he (Or.inr (Or.inl (hc ▸ hcount)))) ha, ht, hl]
      exact ⟨m, rfl, h⟩
    · rw [timerOp_opens ((opens_eq he hfd (hc ▸ hcount)).trans hacc), ht, hl, hn, hconn]
      exact follows_add h hfuel hfresh
  cases hb with
  | listen hfd hr =>
    have hown : e.fd ∈ s.own := by simp [own, show e.fd = s.listenfd from hfd]
    have ha : s.alarms (.dispatch o) = false := by simp [alarms, he, show e.fd = s.listenfd from hfd]
    obtain ⟨hacc, hok⟩ | ⟨fd, hacc, -, hok⟩ := addClient_result hr
    · cases hok
      rw [timerOp_own he hown (opens_eq_none he (Or.inl hacc)) ha]
      exact ⟨m, rfl, h⟩
    · exact accepted hown ha (Or.inl hfd) hacc hok rfl rfl rfl rfl
  | ssl hne hfd hr =>
    have hown : e.fd ∈ s.own := by simp [own, show e.fd = s.sslFd from hfd]
    have ha : s.alarms (.dispatch o) = false := by simp [alarms, he, show e.fd = s.sslFd from hfd]
    obtain ⟨hacc, hok⟩ | ⟨fd, hacc, -, ⟨-, hok⟩ | ⟨-, ⟨hsucc, hok⟩ | ⟨hbad, hok⟩⟩⟩ := addSslClient_result hr
    · cases hok
      rw [timerOp_own he hown (opens_eq_none he (Or.inl hacc)) ha]
      exact ⟨m, rfl, h⟩
    · cases hok
    · exact accepted hown ha (Or.inr ⟨hfd, hsucc⟩) hacc hok rfl rfl rfl rfl
    · cases hok
      rw [timerOp_own he hown (opens_eq_none he (Or.inr (Or.inr fun h => h.elim hne fun h => hbad h.2))) ha]
      exact ⟨m, rfl, h⟩
  | exits _ _ _ hr => cases hr
  | alarm hne hfd ht hr =>
    cases hr
    have ha : s.alarms (.dispatch o) = true := by
      simp [alarms, he, show e.fd = s.alarmfd from hfd, show s.alarmfd ≠ s.listenfd ∧ s.alarmfd ≠ s.sslFd from
        ⟨fun h => hne (Or.inl (hfd.trans h)), fun h => hne (Or.inr (hfd.trans h))⟩]
    rw [timerOp_alarm ha, timeout_dropWhile ht]
    exact follows_timeout h hfuel o.now
  | term hne hna hfd hr =>
    cases hr
    have hown : e.fd ∈ s.own := by simp [own, show e.fd = s.intfd from hfd]
    have ha : s.alarms (.dispatch o) = false := by simp [alarms, he, show e.fd ≠ s.alarmfd from hna]
    have ho := opens_eq_none (o := o) he (Or.inr (Or.inr fun hc => hne (hc.imp_right And.left)))
    rw [timerOp_own he hown ho ha]
    exact ⟨m, rfl, h⟩
  | input hown hin hr =>
    have hr := Option.some.inj hr
    unfold Server.readable at hr
    split at hr
    · cases hr
    · rename_i id hid
      split at hr
      · rename_i hlive
        cases hr
        have hid : (s.users_ e.fd).timer = some id := hid
        have happend : ∀ (u : Server) (job : Job), (u.append job).timerLst = u.timerLst := by
          intro u job
          unfold append
          split <;> rfl
        rw [timerOp_conn he hown, hid, Option.map_some, if_pos hin, happend]
        exact follows_adjust h hfuel hlive _
      · cases hr
  | hup hown hin hr =>
    have hr := Option.some.inj hr
    unfold Server.hangUp at hr
    split at hr
    · cases hr
    · rename_i s₁ hc
      have ht : ((closed { s with events := es } e.fd).users_ e.fd).timer = (s.users_ e.fd).timer := by
        rw [closed_users_self]
        rfl
      rw [close_eq_some hc, ht] at hr
      rw [timerOp_conn he hown]
      split at hr
      · rename_i hnone
        cases hr
        rw [hnone]
        exact ⟨m, rfl, h⟩
      · rename_i id hid
        split at hr
        · rename_i hlive
          cases hr
          rw [hid, Option.map_some, if_neg (by rw [hin]; decide)]
          exact follows_del h hlive
        · cases hr

/-- A step that does not end the process. -/
private theorem follows_step {rm : RemoveFd} {s s' : Server} {l : Label} {m : LinkedTimerList} {fuel : Nat}
    (h : m.Represents s.timerLst) (hfuel : s.timerLst.length < fuel) (hfresh : ∀ t ∈ s.timerLst, t.id < s.nextTimer)
    (hr : s.effect rm l = some (.ok s')) : Follows m fuel (s.timerOp l) s'.timerLst := by
  cases l with
  | dispatch o =>
    obtain ⟨e, es, he, hh⟩ := effect_dispatch hr
    exact follows_handle h hfuel hfresh he hh
  | epollWait | take | getConnection | process | releaseConnection =>
    cases effect_cases hr <;> exact ⟨m, rfl, h⟩

/-- A step adds one timer at most. -/
private theorem Step.timers_le {rm : RemoveFd} {s s' : Server} {l : Label} (hs : Step rm s l s') :
    s'.timerLst.length ≤ s.timerLst.length + 1 := by
  cases hs with
  | epollWait | ignored | sslFailed | term | take | getConnection | process | close | releaseConnection =>
    exact Nat.le_succ _
  | opened => exact (addTimer_perm _ _).length_eq.le
  | timeout _ _ ht => exact (timeout_sublist ht).length_le.trans (Nat.le_succ _)
  | @readable o e es id =>
    have hlen := (sameTimers_adjust id (o.now + 3 * TIMESLOT) s.timerLst).length_eq
    rw [List.length_map, List.length_map] at hlen
    unfold append
    split <;> exact hlen.le.trans (Nat.le_succ _)
  | @hangUp o e es =>
    show ((s.users_ e.fd).timer.elim s.timerLst fun id => s.timerLst.delTimer id).length ≤ _
    cases (s.users_ e.fd).timer with
    | none => exact Nat.le_succ _
    | some id => exact (List.length_filter_le ..).trans (Nat.le_succ _)

/-- Every run of the server is one with its timers in memory, and the nodes always represent the timer list. -/
theorem linked_run {rm : RemoveFd} {c : Setup} {ls : List Label} {t : Server} {fuel : Nat}
    (h : run (step rm) c.start ls = some t) (hfuel : ls.length < fuel) :
    ∃ m, run (Linked.step rm fuel) (Linked.start c) ls = some ⟨t, m⟩ ∧ m.Represents t.timerLst := by
  have key : ls.length < fuel → TimersLive t ∧ t.timerLst.length ≤ ls.length ∧
      ∃ m, run (Linked.step rm fuel) (Linked.start c) ls = some ⟨t, m⟩ ∧ m.Represents t.timerLst := by
    refine run_history (P := fun ls t => ls.length < fuel → TimersLive t ∧ t.timerLst.length ≤ ls.length ∧
      ∃ m, run (Linked.step rm fuel) (Linked.start c) ls = some ⟨t, m⟩ ∧ m.Represents t.timerLst)
      (fun _ => ⟨timersLive_start c, Nat.le_refl _, .empty, rfl, LinkedTimerList.represents_empty⟩) ?_ h
    intro ls s l s' _ ih hs hlen
    rw [List.length_append, List.length_singleton] at hlen ⊢
    obtain ⟨hlive, hle, m, hrun, hrep⟩ := ih (by omega)
    have next : ∀ m', Linked.step rm fuel ⟨s, m⟩ l = some ⟨s', m'⟩ →
        run (Linked.step rm fuel) (Linked.start c) (ls ++ [l]) = some ⟨s', m'⟩ := by
      intro m' hm'
      rw [run_append, hrun, Option.bind_some, run, hm']
      rfl
    refine ⟨hlive.of_step hs, ?_⟩
    obtain ⟨hnone, ⟨why, -, rfl⟩ | ⟨hr, hstep⟩⟩ := step_cases hs
    · refine ⟨by show s.timerLst.length ≤ _; omega, m, next m ?_, hrep⟩
      rw [Linked.step, hs]
      rfl
    · have hle' := hstep.timers_le
      have hfollows : Follows m fuel (s.timerOp l) s'.timerLst := follows_step hrep (by omega) hlive.freshTimer hr
      obtain ⟨m', hop, hrep'⟩ := hfollows
      refine ⟨by omega, m', next m' ?_, hrep'⟩
      rw [Linked.step, hs, Option.bind_some, if_pos (hstep.goesOn.1.trans hnone), hop]
      rfl
  exact (key hfuel).2.2

/-- Two clients; the first one sends data and its timer moves to the end, the time of the second one is out, and the
first one goes away. -/
def movesTimers : List Label :=
  [.epollWait [.input 14 none], .dispatch ⟨0, some 19, .succeeds⟩,
    .epollWait [.input 14 none, .input 19 (some 0)], .dispatch ⟨1, some 20, .succeeds⟩, .dispatch ⟨4, none, .succeeds⟩,
    .epollWait [.input 15 none, .input 14 none], .dispatch ⟨16, none, .succeeds⟩, .dispatch ⟨16, some 20, .succeeds⟩,
    .epollWait [.gone 20 (some 2)], .dispatch ⟨17, none, .succeeds⟩]

theorem linked_run_moves :
    ∃ t, run (step .returning) Setup.default.start movesTimers = some t ∧ t.timerLst = [⟨0, 19, 19, 0⟩] ∧
      ∃ m, run (Linked.step .returning 11) (Linked.start .default) movesTimers = some ⟨t, m⟩ ∧
        m.Represents t.timerLst := by
  have hrun : (run (step .returning) Setup.default.start movesTimers).map Server.timerLst =
      some [⟨0, 19, 19, 0⟩] := by decide +kernel
  obtain ⟨t, ht, hl⟩ := Option.map_eq_some_iff.1 hrun
  exact ⟨t, ht, hl, linked_run ht (by decide)⟩

end Server

end ImageServer
