import ImageServer.Lib.Transition
import ImageServer.Server.State

/-!
# The steps of the server

`testing_` with `add_client_`, `add_ssl_client_` and what they call runs in one thread, and each iteration of its
inner loop is a step (`dispatch`); the loop `run` of the workers is cut at its calls and at the system calls of
`process()`.  A run is any interleaving of these steps, with any answers of the operating system and of the clients
(`Answers`, `ProcInput`).  `Step` lists what a step that does not end the process can do.
-/

namespace ImageServer

/-- What `SSL_new`, `SSL_set_fd` and `SSL_accept` answer. -/
inductive Handshake
  | newFails
  | setFdFails
  | acceptFails
  | succeeds
deriving DecidableEq

/-- The answers to the calls of one iteration: the clock, the result of `accept`, and the handshake. -/
structure Answers where
  now : Nat
  accepted : Option Nat
  handshake : Handshake
deriving DecidableEq

inductive Label
  /-- `epoll_wait` reports events -/
  | epollWait (evs : List Event)
  /-- the next event is handled -/
  | dispatch (o : Answers)
  /-- the worker pops a request -/
  | take (w : Nat)
  | getConnection (w : Nat)
  /-- a step of its `process()` -/
  | process (w : Nat) (i : ProcInput)
  | releaseConnection (w : Nat)

namespace Server

/-! ### The event loop -/

/-- The event may be reported: on an own descriptor that is open, or on an armed connection. -/
def Reports (s : Server) (e : Event) : Prop :=
  e.conn = none ∧ e.fd ∈ s.own ∧ e.fd ∈ s.reserved ∨
    ∃ c ∈ s.conns, c.fd = e.fd ∧ some c.id = e.conn ∧ c.registered = true ∧ c.armed = true

instance (s : Server) (e : Event) : Decidable (s.Reports e) :=
  inferInstanceAs (Decidable (e.conn = none ∧ e.fd ∈ s.own ∧ e.fd ∈ s.reserved ∨
    ∃ c ∈ s.conns, c.fd = e.fd ∧ some c.id = e.conn ∧ c.registered = true ∧ c.armed = true))

/-- A reported event disarms its descriptor. -/
def disarm (s : Server) (evs : List Event) : List Conn :=
  s.conns.map fun c => if c.fd ∈ evs.map Event.fd then { c with armed := false } else c

/-- The end of `add_client_` and `add_ssl_client_`: the timer, and `HttpHandler::init` with its `add_fd`. -/
def openConn (s : Server) (fd now : Nat) (type : ClientType) (content : Option Ssl) : Server :=
  { s with
    timerLst := s.timerLst.addTimer ⟨s.nextTimer, fd, now + 3 * TIMESLOT, s.nextConn⟩
    nextTimer := s.nextTimer + 1
    conns := ⟨s.nextConn, fd, true, true⟩ :: s.conns
    nextConn := s.nextConn + 1
    users_ := Function.update s.users_ fd ((s.users_ fd).init fd (some s.nextTimer) type content)
    userCount := s.userCount + 1 }

/-- The test on `m_user_count`, and what follows it; a client too many is sent a line and closed. -/
def addUser (s : Server) (fd now : Nat) (type : ClientType) (content : Option Ssl) : Except Stop Server :=
  if s.userCount = MAX_FD then .ok s
  else if MAX_FD ≤ fd then .error (.undefined .slot)
  else .ok (s.openConn fd now type content)

/-- `add_client_`. -/
def addClient_ (s : Server) (o : Answers) : Option (Except Stop Server) :=
  match o.accepted with
  | none => some (.ok s)
  | some fd => if s.LowestFree fd then some (s.addUser fd o.now .httpClient none) else none

/-- `SSL_new` and `SSL_set_fd` on `fd`. -/
def sslNew (s : Server) (fd : Nat) : Server := { s with ssls := ⟨s.nextSsl, fd⟩ :: s.ssls, nextSsl := s.nextSsl + 1 }

/-- The three failing branches of `add_ssl_client_`: what is closed is `ssl_fd_`, and `connfd` stays open. -/
def sslFailed (s : Server) (fd : Nat) : Server :=
  { s with
    reserved := s.reserved.filter (· ≠ s.sslFd)
    sslContext := false
    conns := ⟨s.nextConn, fd, false, false⟩ :: s.conns
    nextConn := s.nextConn + 1 }

/-- `add_ssl_client_`: `accept` can only succeed as long as `ssl_fd_` is the listening socket. -/
def addSslClient_ (s : Server) (o : Answers) : Option (Except Stop Server) :=
  match o.accepted with
  | none => some (.ok s)
  | some fd =>
    if s.sslFd ∈ s.reserved ∧ s.LowestFree fd then
      -- an earlier failure has freed `ssl_context_`
      if s.sslContext = false then some (.error (.undefined .ssl))
      else
        match o.handshake with
        | .succeeds => some ((s.sslNew fd).addUser fd o.now .httpsClient (some ⟨s.nextSsl, fd⟩))
        | _ => some (.ok (s.sslFailed fd))
    else none

/-- `append`; its result is ignored by the caller. -/
def append (s : Server) (job : Job) : Server :=
  -- the test is on the length before the request is added, so one more than `m_max_requests` get in
  if s.maxRequests < s.workqueue.length then s else { s with workqueue := s.workqueue ++ [job] }

/-- The branch on `EPOLLIN`: the timer of the slot is given a later expiry, and the handler goes to the workers. -/
def readable (s : Server) (e : Event) (now : Nat) : Except Stop Server :=
  match (s.users_ e.fd).timer with
  | none => .error (.undefined .timer)
  | some id =>
    if s.timerLst.Live id then
      .ok ({ s with
        timerLst := (s.timerLst.setExpire id (now + 3 * TIMESLOT)).adjustTimer id }.append ⟨e.fd, e.conn⟩)
    else .error (.undefined .timer)

/-- The branch on `EPOLLRDHUP | EPOLLHUP | EPOLLERR`. -/
def hangUp (rm : RemoveFd) (s : Server) (e : Event) : Except Stop Server :=
  match s.close rm e.fd with
  | none => .error .exited
  | some s =>
    -- `m_timer` is read after `close`, which leaves it; `del_timer` ignores a null pointer
    match (s.users_ e.fd).timer with
    | none => .ok s
    | some id =>
      if s.timerLst.Live id then .ok { s with timerLst := s.timerLst.delTimer id } else .error (.undefined .timer)

/-- One iteration of the inner loop of `testing_`, on the event `e`. -/
def handle (rm : RemoveFd) (s : Server) (e : Event) (o : Answers) : Option (Except Stop Server) :=
  if e.fd = s.listenfd then s.addClient_ o
  else if e.fd = s.sslFd then s.addSslClient_ o
  else if e.fd = s.alarmfd then
    match s.timeout rm o.now s.timerLst with
    | none => some (.error .exited)
    | some s => some (.ok s)
  else if e.fd = s.intfd then some (.ok { s with serverState := .stopped })
  -- a hang-up is looked at only when there is nothing left to read
  else if e.epollin then some (s.readable e o.now)
  else if e.epollout then some (.ok s)
  else if e.hangup then some (s.hangUp rm e)
  else some (.ok s)

/-! ### The workers -/

/-- The result of a call on a descriptor that is no connection is an error. -/
def Answered (s : Server) (h : HttpHandler) : ProcInput → Prop
  | .recv r => r = .fail ∨ ∃ c ∈ s.conns, h.ioFd = some (c.fd : Int)
  | .wrote r => r = .fail ∨ ∃ c ∈ s.conns, h.ioFd = some (c.fd : Int)
  | _ => True

instance (s : Server) (h : HttpHandler) (i : ProcInput) : Decidable (s.Answered h i) := by
  unfold Answered
  split <;> infer_instance

/-- The step is a call on the `SSL` of the handler, which is null. -/
def NullSsl (h : HttpHandler) : ProcInput → Prop
  | .recv _ => h.ioFd = none
  | .wrote _ => h.ioFd = none
  | _ => False

instance (h : HttpHandler) (i : ProcInput) : Decidable (NullSsl h i) := by
  unfold NullSsl
  split <;> infer_instance

/-- `request->mysql = m_connPool->get_connection()`: the first connection of the list, or a null pointer. -/
def connected (s : Server) (w : Nat) (job : Job) : Server :=
  { s with
    users_ := Function.update s.users_ job.slot { s.users_ job.slot with mysql := s.connList.head? }
    connList := s.connList.tail
    workers := s.workers.set w (.processing job s.connList.head? .enter) }

/-- The worker is in its new position, and the slot as a step of `process()` leaves it. -/
def served (s : Server) (w : Nat) (job : Job) (held : Option Nat) (ph : Phase) (h : HttpHandler) (users : Users) :
    Server :=
  { s with
    users_ := Function.update s.users_ job.slot h
    accounts := users
    workers := s.workers.set w (.processing job held ph) }

/-- A step of the worker `w` inside `process()`. -/
def processStep (rm : RemoveFd) (s : Server) (w : Nat) (i : ProcInput) : Option (Except Stop Server) :=
  match s.workers[w]? with
  | some (.processing job held ph) =>
    match (s.users_ job.slot).procStep s.accounts ph i with
    | none => none
    | some r =>
      if NullSsl (s.users_ job.slot) i then some (.error (.undefined .ssl))
      else if s.Answered (s.users_ job.slot) i then
        match r with
        | .undefined => some (.error (.undefined .handler))
        | .next h users ph close =>
          if close then
            match (s.served w job held ph h users).close rm job.slot with
            | none => some (.error .exited)
            | some s => some (.ok s)
          else some (.ok (s.served w job held ph h users))
      else none
  | _ => none

/-- What a step does; there is no result when it is not enabled. -/
def effect (rm : RemoveFd) (s : Server) : Label → Option (Except Stop Server)
  | .epollWait evs =>
    if s.serverState = .running ∧ s.events = [] ∧ evs.length ≤ MAX_EVENT_NUMBER ∧ (evs.map Event.fd).Nodup ∧
        ∀ e ∈ evs, s.Reports e then
      some (.ok { s with events := evs, conns := s.disarm evs })
    else none
  | .dispatch o =>
    match s.events with
    | [] => none
    | e :: es => { s with events := es }.handle rm e o
  | .take w =>
    match s.workers[w]?, s.workqueue with
    | some .idle, job :: jobs => some (.ok { s with workqueue := jobs, workers := s.workers.set w (.taken job) })
    | _, _ => none
  | .getConnection w =>
    match s.workers[w]? with
    | some (.taken job) =>
      some (.ok (s.connected w job))
    | _ => none
  | .process w i => s.processStep rm w i
  | .releaseConnection w =>
    match s.workers[w]? with
    | some (.processing job _ .done) =>
      some (.ok { s with
        connList := s.connList ++ (s.users_ job.slot).mysql.toList, workers := s.workers.set w .idle })
    | _ => none

/-- A step of the server.  When it ends the process the rest of the state is left as it was. -/
def step (rm : RemoveFd) (s : Server) (l : Label) : Option Server :=
  match s.stop with
  | some _ => none
  | none =>
    (s.effect rm l).map fun
      | .ok s' => s'
      | .error why => { s with stop := some why }

/-! ### What a step can do -/

/-- The slot the step initialises for a connection it accepts. -/
def opens (s : Server) : Label → Option Nat
  | .dispatch o =>
    match s.events with
    | [] => none
    | e :: _ =>
      if (e.fd = s.listenfd ∨ e.fd = s.sslFd ∧ o.handshake = .succeeds) ∧ s.userCount ≠ MAX_FD then o.accepted
      else none
  | _ => none

/-- The step accepts a connection on `ssl_fd_` and fails to set up SSL on it. -/
def failsHandshake (s : Server) : Label → Bool
  | .dispatch o =>
    match s.events with
    | [] => false
    | e :: _ => e.fd ≠ s.listenfd ∧ e.fd = s.sslFd ∧ o.accepted ≠ none ∧ o.handshake ≠ .succeeds
  | _ => false

/-- The event of a connection the step handles. -/
def connEvent (s : Server) : Label → Option Event
  | .dispatch _ => s.events.head?.filter fun e => e.fd ∉ s.own
  | _ => none

/-- The worker of the step, with its request, and where it is in `process()`. -/
def serves (s : Server) : Label → Option (Job × Phase × ProcInput)
  | .process w i =>
    match s.workers[w]? with
    | some (.processing job _ ph) => some (job, ph, i)
    | _ => none
  | _ => none

/-- The step completes a response whose connection is kept alive. -/
def keepsAlive (s : Server) (l : Label) : Bool :=
  (s.serves l).any fun (job, ph, i) => (s.users_ job.slot).keepsAlive ph i

/-- The steps that do not end the process. -/
inductive Step (rm : RemoveFd) (s : Server) : Label → Server → Prop
  | epollWait {evs : List Event} : s.serverState = .running → s.events = [] → (evs.map Event.fd).Nodup →
    (∀ e ∈ evs, s.Reports e) → Step rm s (.epollWait evs) { s with events := evs, conns := s.disarm evs }
  | ignored {o : Answers} {e : Event} {es : List Event} {ssls : List Ssl} {n : Nat} :
    s.events = e :: es → e.fd ∈ s.own → s.opens (.dispatch o) = none →
    Step rm s (.dispatch o) { s with events := es, ssls := ssls, nextSsl := n }
  | opened {o : Answers} {e : Event} {es : List Event} {ssls : List Ssl} {n fd : Nat} {type : ClientType}
    {content : Option Ssl} : s.events = e :: es → e.fd ∈ s.own → s.LowestFree fd →
    s.opens (.dispatch o) = some fd →
    (type = .httpClient ∧ content = none ∨ type = .httpsClient ∧ ∃ id, content = some ⟨id, fd⟩) →
    Step rm s (.dispatch o) (openConn { s with events := es, ssls := ssls, nextSsl := n } fd o.now type content)
  | sslFailed {o : Answers} {e : Event} {es : List Event} {fd : Nat} : s.events = e :: es → e.fd = s.sslFd →
    s.LowestFree fd → s.failsHandshake (.dispatch o) = true →
    Step rm s (.dispatch o) (sslFailed { s with events := es } fd)
  | timeout {o : Answers} {e : Event} {es : List Event} {s' : Server} : s.events = e :: es → e.fd ∈ s.own →
    timeout rm o.now s.timerLst { s with events := es } = some s' → s.opens (.dispatch o) = none →
    Step rm s (.dispatch o) s'
  | term {o : Answers} {e : Event} {es : List Event} : s.events = e :: es → e.fd = s.intfd →
    s.opens (.dispatch o) = none → Step rm s (.dispatch o) { s with events := es, serverState := .stopped }
  | readable {o : Answers} {e : Event} {es : List Event} {id : Nat} : s.events = e :: es → e.fd ∉ s.own →
    e.epollin = true → (s.users_ e.fd).timer = some id → s.timerLst.Live id →
    Step rm s (.dispatch o) (append { s with
      events := es, timerLst := (s.timerLst.setExpire id (o.now + 3 * TIMESLOT)).adjustTimer id } ⟨e.fd, e.conn⟩)
  | hangUp {o : Answers} {e : Event} {es : List Event} : s.events = e :: es → e.fd ∉ s.own → e.epollin = false →
    Step rm s (.dispatch o) { closed { s with events := es } e.fd with
      timerLst := (s.users_ e.fd).timer.elim s.timerLst fun id => s.timerLst.delTimer id }
  | take {w : Nat} {job : Job} {jobs : List Job} : s.workers[w]? = some .idle → s.workqueue = job :: jobs →
    Step rm s (.take w) { s with workqueue := jobs, workers := s.workers.set w (.taken job) }
  | getConnection {w : Nat} {job : Job} : s.workers[w]? = some (.taken job) →
    Step rm s (.getConnection w) (s.connected w job)
  | process {w : Nat} {i : ProcInput} {job : Job} {held : Option Nat} {ph ph' : Phase} {h : HttpHandler}
    {users : Users} : s.workers[w]? = some (.processing job held ph) → s.Answered (s.users_ job.slot) i →
    HttpHandler.ProcStep (s.users_ job.slot) s.accounts ph i h users ph' false →
    Step rm s (.process w i) (s.served w job held ph' h users)
  | close {w : Nat} {i : ProcInput} {job : Job} {held : Option Nat} {ph ph' : Phase} {h : HttpHandler}
    {users : Users} : s.workers[w]? = some (.processing job held ph) → s.Answered (s.users_ job.slot) i →
    HttpHandler.ProcStep (s.users_ job.slot) s.accounts ph i h users ph' true →
    Step rm s (.process w i) ((s.served w job held ph' h users).closed job.slot)
  | releaseConnection {w : Nat} {job : Job} {held : Option Nat} :
    s.workers[w]? = some (.processing job held .done) →
    Step rm s (.releaseConnection w) { s with
      connList := s.connList ++ (s.users_ job.slot).mysql.toList, workers := s.workers.set w .idle }

/-- What the calls behind `accept` come to when the client is one too many, and when it is not. -/
private theorem addUser_result (s : Server) (fd now : Nat) (type : ClientType) (content : Option Ssl) :
    s.userCount = MAX_FD ∧ s.addUser fd now type content = .ok s ∨
      s.userCount ≠ MAX_FD ∧ (s.addUser fd now type content = .error (.undefined .slot) ∨
        s.addUser fd now type content = .ok (s.openConn fd now type content)) := by
  unfold addUser
  split
  · exact Or.inl ⟨‹_›, rfl⟩
  · refine Or.inr ⟨‹_›, ?_⟩
    split
    · exact Or.inl rfl
    · exact Or.inr rfl

theorem addUser_ok {s s' : Server} {fd now : Nat} {type : ClientType} {content : Option Ssl}
    (h : s.addUser fd now type content = .ok s') :
    s.userCount = MAX_FD ∧ s' = s ∨ s.userCount ≠ MAX_FD ∧ s' = s.openConn fd now type content := by
  obtain ⟨hcount, hr⟩ | ⟨hcount, hr | hr⟩ := s.addUser_result fd now type content
  · exact Or.inl ⟨hcount, Except.ok.inj (h.symm.trans hr)⟩
  · cases h.symm.trans hr
  · exact Or.inr ⟨hcount, Except.ok.inj (h.symm.trans hr)⟩

theorem addUser_error {s : Server} {fd now : Nat} {type : ClientType} {content : Option Ssl} {why : Stop}
    (h : s.addUser fd now type content = .error why) : why = .undefined .slot := by
  obtain ⟨-, hr⟩ | ⟨-, hr | hr⟩ := s.addUser_result fd now type content
  · cases h.symm.trans hr
  · cases h.symm.trans hr
    rfl
  · cases h.symm.trans hr

/-- The results of `add_client_`. -/
theorem addClient_result {s : Server} {o : Answers} {r : Except Stop Server} (h : s.addClient_ o = some r) :
    o.accepted = none ∧ r = .ok s ∨
      ∃ fd, o.accepted = some fd ∧ s.LowestFree fd ∧ s.addUser fd o.now .httpClient none = r := by
  unfold addClient_ at h
  split at h
  · cases h
    exact Or.inl ⟨‹_›, rfl⟩
  · split at h
    · exact Or.inr ⟨_, ‹_›, ‹_›, Option.some.inj h⟩
    · cases h

/-- The results of `add_ssl_client_`. -/
theorem addSslClient_result {s : Server} {o : Answers} {r : Except Stop Server} (h : s.addSslClient_ o = some r) :
    o.accepted = none ∧ r = .ok s ∨
      ∃ fd, o.accepted = some fd ∧ s.LowestFree fd ∧
        (s.sslContext = false ∧ r = .error (.undefined .ssl) ∨
          s.sslContext = true ∧
            (o.handshake = .succeeds ∧
                (s.sslNew fd).addUser fd o.now .httpsClient (some ⟨s.nextSsl, fd⟩) = r ∨
              o.handshake ≠ .succeeds ∧ r = .ok (s.sslFailed fd))) := by
  unfold addSslClient_ at h
  split at h
  · cases h
    exact Or.inl ⟨‹_›, rfl⟩
  · rename_i fd hacc
    split at h
    · rename_i hfree
      refine Or.inr ⟨fd, hacc, hfree.2, ?_⟩
      split at h
      · cases h
        exact Or.inl ⟨‹_›, rfl⟩
      · refine Or.inr ⟨Bool.eq_true_of_not_eq_false ‹_›, ?_⟩
        split at h
        · exact Or.inl ⟨‹_›, Option.some.inj h⟩
        · cases h
          exact Or.inr ⟨‹_›, rfl⟩
    · cases h

theorem notMem_own {s : Server} {fd : Nat} :
    fd ∉ s.own ↔ fd ≠ s.listenfd ∧ fd ≠ s.sslFd ∧ fd ≠ s.alarmfd ∧ fd ≠ s.intfd := by
  simp [own]

/-- The branches of `handle`, and what they give. -/
inductive Branch (rm : RemoveFd) (s : Server) (e : Event) (o : Answers) (r : Option (Except Stop Server)) : Prop
  | listen (fd : e.fd = s.listenfd) (eq : s.addClient_ o = r)
  | ssl (ne : e.fd ≠ s.listenfd) (fd : e.fd = s.sslFd) (eq : s.addSslClient_ o = r)
  | exits (ne : ¬ (e.fd = s.listenfd ∨ e.fd = s.sslFd)) (fd : e.fd = s.alarmfd)
    (timeout : s.timeout rm o.now s.timerLst = none) (eq : some (.error .exited) = r)
  | alarm {s' : Server} (ne : ¬ (e.fd = s.listenfd ∨ e.fd = s.sslFd)) (fd : e.fd = s.alarmfd)
    (timeout : s.timeout rm o.now s.timerLst = some s') (eq : some (.ok s') = r)
  | term (ne : ¬ (e.fd = s.listenfd ∨ e.fd = s.sslFd)) (notAlarm : e.fd ≠ s.alarmfd) (fd : e.fd = s.intfd)
    (eq : some (.ok { s with serverState := .stopped }) = r)
  | input (own : e.fd ∉ s.own) (epollin : e.epollin = true) (eq : some (s.readable e o.now) = r)
  | hup (own : e.fd ∉ s.own) (epollin : e.epollin = false) (eq : some (s.hangUp rm e) = r)

theorem handle_branch (rm : RemoveFd) (s : Server) (e : Event) (o : Answers) :
    Branch rm s e o (s.handle rm e o) := by
  unfold handle
  split
  · exact .listen ‹_› rfl
  split
  · exact .ssl ‹_› ‹_› rfl
  rename_i h1 h2
  have hne := not_or.2 ⟨h1, h2⟩
  split
  · rename_i hfd
    split
    · exact .exits hne hfd ‹_› rfl
    · exact .alarm hne hfd ‹_› rfl
  rename_i h3
  split
  · exact .term hne h3 ‹_› rfl
  rename_i h4
  have hown : e.fd ∉ s.own := notMem_own.2 ⟨h1, h2, h3, h4⟩
  split
  · exact .input hown ‹_› rfl
  · rename_i hin
    rw [Bool.not_eq_true] at hin
    -- what is reported is the input, or else a hang-up and no output
    have hask := e.asked
    simp only [hin, Bool.false_eq_true, false_or] at hask
    rw [hask.1, hask.2]
    exact .hup hown hin rfl

/-- The results of a step of a worker inside `process()`. -/
theorem processStep_result {rm : RemoveFd} {s : Server} {w : Nat} {i : ProcInput} {r : Except Stop Server}
    (h : s.processStep rm w i = some r) :
    ∃ job held ph, s.workers[w]? = some (.processing job held ph) ∧
      (NullSsl (s.users_ job.slot) i ∧ r = .error (.undefined .ssl) ∨
        ¬ NullSsl (s.users_ job.slot) i ∧ s.Answered (s.users_ job.slot) i ∧
          ((s.users_ job.slot).procStep s.accounts ph i = some .undefined ∧ r = .error (.undefined .handler) ∨
            ∃ h' users ph' close,
              HttpHandler.ProcStep (s.users_ job.slot) s.accounts ph i h' users ph' close ∧
                r = if close then ((s.served w job held ph' h' users).close rm job.slot).elim (.error .exited) .ok
                  else .ok (s.served w job held ph' h' users))) := by
  unfold processStep at h
  split at h
  · rename_i job held ph hw
    refine ⟨job, held, ph, hw, ?_⟩
    split at h
    · cases h
    · rename_i res hres
      split at h
      · cases h
        exact Or.inl ⟨‹_›, rfl⟩
      · rename_i hnull
        split at h
        · rename_i ha
          refine Or.inr ⟨hnull, ha, ?_⟩
          cases res with
          | undefined =>
            cases h
            exact Or.inl ⟨hres, rfl⟩
          | next h' users ph' close =>
            refine Or.inr ⟨h', users, ph', close, HttpHandler.procStep_cases hres, ?_⟩
            cases close with
            | false => exact (Option.some.inj h).symm
            | true =>
              dsimp only at h ⊢
              rw [if_pos rfl] at h ⊢
              cases hc : (s.served w job held ph' h' users).close rm job.slot with
              | none => rw [hc] at h; exact (Option.some.inj h).symm
              | some s₁ => rw [hc] at h; exact (Option.some.inj h).symm
        · cases h
  · cases h

/-- The event loop takes the first event of the batch. -/
theorem effect_dispatch {rm : RemoveFd} {s : Server} {o : Answers} {r : Except Stop Server}
    (h : s.effect rm (.dispatch o) = some r) :
    ∃ e es, s.events = e :: es ∧ handle rm { s with events := es } e o = some r := by
  simp only [effect] at h
  split at h
  · cases h
  · exact ⟨_, _, ‹_›, h⟩

/-- Only the event loop, on an event, and a worker inside `process()` can end the process. -/
theorem effect_error {rm : RemoveFd} {s : Server} {l : Label} {why : Stop} (h : s.effect rm l = some (.error why)) :
    (∃ o, l = .dispatch o) ∨ ∃ w i, l = .process w i := by
  cases l with
  | dispatch o => exact Or.inl ⟨o, rfl⟩
  | process w i => exact Or.inr ⟨w, i, rfl⟩
  | epollWait | take | getConnection | releaseConnection =>
    simp only [effect] at h
    split at h <;> cases h

theorem opens_eq {s : Server} {e : Event} {es : List Event} {o : Answers} (he : s.events = e :: es)
    (hfd : e.fd = s.listenfd ∨ e.fd = s.sslFd ∧ o.handshake = .succeeds) (hc : s.userCount ≠ MAX_FD) :
    s.opens (.dispatch o) = o.accepted := by
  simp only [opens, he]
  exact if_pos ⟨hfd, hc⟩

theorem opens_eq_none {s : Server} {e : Event} {es : List Event} {o : Answers} (he : s.events = e :: es)
    (h : o.accepted = none ∨ s.userCount = MAX_FD ∨ ¬ (e.fd = s.listenfd ∨ e.fd = s.sslFd ∧ o.handshake = .succeeds)) :
    s.opens (.dispatch o) = none := by
  simp only [opens, he]
  split
  · rename_i hc
    exact h.resolve_right fun h => h.elim hc.2 fun h => h hc.1
  · rfl

private theorem addClient_cases {rm : RemoveFd} {s s' : Server} {e : Event} {es : List Event} {o : Answers}
    (he : s.events = e :: es) (hfd : e.fd = s.listenfd)
    (h : addClient_ { s with events := es } o = some (.ok s')) : Step rm s (.dispatch o) s' := by
  have hown : e.fd ∈ s.own := by simp [own, hfd]
  obtain ⟨hacc, hr⟩ | ⟨fd, hacc, hfree, hr⟩ := addClient_result h
  · cases hr
    exact .ignored he hown (opens_eq_none he (Or.inl hacc))
  · obtain ⟨hcount, rfl⟩ | ⟨hcount, rfl⟩ := addUser_ok hr
    · exact .ignored he hown (opens_eq_none he (Or.inr (Or.inl hcount)))
    · exact .opened he hown hfree ((opens_eq he (Or.inl hfd) hcount).trans hacc) (Or.inl ⟨rfl, rfl⟩)

private theorem addSslClient_cases {rm : RemoveFd} {s s' : Server} {e : Event} {es : List Event} {o : Answers}
    (he : s.events = e :: es) (hne : e.fd ≠ s.listenfd) (hfd : e.fd = s.sslFd)
    (h : addSslClient_ { s with events := es } o = some (.ok s')) : Step rm s (.dispatch o) s' := by
  have hown : e.fd ∈ s.own := by simp [own, hfd]
  obtain ⟨hacc, hr⟩ | ⟨fd, hacc, hfree, ⟨-, hr⟩ | ⟨-, ⟨hok, hr⟩ | ⟨hbad, hr⟩⟩⟩ := addSslClient_result h
  · cases hr
    exact .ignored he hown (opens_eq_none he (Or.inl hacc))
  · cases hr
  · obtain ⟨hcount, rfl⟩ | ⟨hcount, rfl⟩ := addUser_ok hr
    · exact .ignored he hown (opens_eq_none he (Or.inr (Or.inl hcount)))
    · exact .opened he hown hfree ((opens_eq he (Or.inr ⟨hfd, hok⟩) hcount).trans hacc) (Or.inr ⟨rfl, _, rfl⟩)
  · cases hr
    refine .sslFailed he hfd hfree ?_
    simp only [failsHandshake, he]
    exact decide_eq_true ⟨hne, hfd, by simp [hacc], hbad⟩

private theorem hangUp_cases {rm : RemoveFd} {s s' : Server} {e : Event} {es : List Event} {o : Answers}
    (he : s.events = e :: es) (hown : e.fd ∉ s.own) (hin : e.epollin = false)
    (h : hangUp rm { s with events := es } e = .ok s') : Step rm s (.dispatch o) s' := by
  unfold Server.hangUp at h
  split at h
  · cases h
  · rename_i s₁ hc
    have ht : ((closed { s with events := es } e.fd).users_ e.fd).timer = (s.users_ e.fd).timer := by
      rw [closed_users_self]
      rfl
    have key : Step rm s (.dispatch o) _ := .hangUp he hown hin
    rw [close_eq_some hc, ht] at h
    split at h
    · rename_i hn
      cases h
      rw [hn] at key
      exact key
    · rename_i id hid
      split at h
      · cases h
        rw [hid] at key
        exact key
      · cases h

/-- The event loop's part of `Step`. -/
private theorem handle_cases {rm : RemoveFd} {s s' : Server} {e : Event} {es : List Event} {o : Answers}
    (he : s.events = e :: es) (h : handle rm { s with events := es } e o = some (.ok s')) :
    Step rm s (.dispatch o) s' := by
  have hno : ¬ (e.fd = s.listenfd ∨ e.fd = s.sslFd) → s.opens (.dispatch o) = none :=
    fun hne => opens_eq_none he (Or.inr (Or.inr fun hc => hne (hc.imp_right And.left)))
  have hb := handle_branch rm { s with events := es } e o
  rw [h] at hb
  cases hb with
  | listen hfd hr => exact addClient_cases he hfd hr
  | ssl hne hfd hr => exact addSslClient_cases he hne hfd hr
  | exits _ _ _ hr => cases hr
  | alarm hne hfd ht hr =>
    cases hr
    have hown : e.fd ∈ s.own := by simp [own, show e.fd = s.alarmfd from hfd]
    exact .timeout he hown ht (hno hne)
  | term hne _ hfd hr =>
    cases hr
    exact .term he hfd (hno hne)
  | input hown hin hr =>
    have hr := Option.some.inj hr
    unfold Server.readable at hr
    split at hr
    · cases hr
    · split at hr
      · cases hr
        exact .readable he hown hin ‹_› ‹_›
      · cases hr
  | hup hown hin hr => exact hangUp_cases he hown hin (Option.some.inj hr)

/-- The workers' part of `Step`. -/
private theorem processStep_cases {rm : RemoveFd} {s s' : Server} {w : Nat} {i : ProcInput}
    (h : s.processStep rm w i = some (.ok s')) : Step rm s (.process w i) s' := by
  obtain ⟨job, held, ph, hw, ⟨-, hr⟩ | ⟨-, ha, ⟨-, hr⟩ | ⟨h', users, ph', close, hs, hr⟩⟩⟩ := processStep_result h
  · cases hr
  · cases hr
  · cases close with
    | false =>
      cases hr
      exact .process hw ha hs
    | true =>
      rw [if_pos rfl] at hr
      cases hc : (s.served w job held ph' h' users).close rm job.slot with
      | none => rw [hc] at hr; cases hr
      | some s₁ =>
        rw [hc] at hr
        cases hr
        rw [close_eq_some hc]
        exact .close hw ha hs

theorem effect_cases {rm : RemoveFd} {s s' : Server} {l : Label} (h : s.effect rm l = some (.ok s')) :
    Step rm s l s' := by
  cases l with
  | epollWait evs =>
    simp only [effect] at h
    split at h
    · rename_i hc
      cases h
      exact .epollWait hc.1 hc.2.1 hc.2.2.2.1 hc.2.2.2.2
    · cases h
  | dispatch o =>
    obtain ⟨e, es, he, hh⟩ := effect_dispatch h
    exact handle_cases he hh
  | take w =>
    simp only [effect] at h
    split at h
    · cases h
      exact .take ‹_› ‹_›
    · cases h
  | getConnection w =>
    simp only [effect] at h
    split at h
    · cases h
      exact .getConnection ‹_›
    · cases h
  | process w i => exact processStep_cases h
  | releaseConnection w =>
    simp only [effect] at h
    split at h
    · cases h
      exact .releaseConnection ‹_›
    · cases h

/-- What a step can do: it ends the process, or is in the list. -/
theorem step_cases {rm : RemoveFd} {s s' : Server} {l : Label} (h : s.step rm l = some s') :
    s.stop = none ∧ ((∃ why, s.effect rm l = some (.error why) ∧ s' = { s with stop := some why }) ∨
      s.effect rm l = some (.ok s') ∧ Step rm s l s') := by
  unfold step at h
  split at h
  · cases h
  · obtain ⟨r, hr, h⟩ := Option.map_eq_some_iff.1 h
    refine ⟨‹_›, ?_⟩
    cases r with
    | error why => exact Or.inl ⟨why, hr, h.symm⟩
    | ok s₁ =>
      cases h
      exact Or.inr ⟨hr, effect_cases hr⟩

theorem keepsAlive_process {s : Server} {w : Nat} {i : ProcInput} {job : Job} {held : Option Nat} {ph : Phase}
    (hw : s.workers[w]? = some (.processing job held ph)) :
    s.keepsAlive (.process w i) = (s.users_ job.slot).keepsAlive ph i := by
  simp [keepsAlive, serves, hw]

/-- A step of `process()` that does not complete a response kept alive leaves the fields set from outside, in every
slot. -/
theorem served_outside {s : Server} {w : Nat} {i : ProcInput} {job : Job} {held : Option Nat} {ph ph' : Phase}
    {h : HttpHandler} {users : Users} {close : Bool}
    (hs : HttpHandler.ProcStep (s.users_ job.slot) s.accounts ph i h users ph' close)
    (hk : (s.users_ job.slot).keepsAlive ph i = false) (slot : Nat) :
    ((s.served w job held ph' h users).users_ slot).toOutside = (s.users_ slot).toOutside := by
  show (Function.update s.users_ job.slot h slot).toOutside = _
  by_cases hslot : slot = job.slot
  · subst hslot
    rw [Function.update_self]
    exact hs.outside.resolve_right fun hc => by simp [hk] at hc
  · rw [Function.update_of_ne hslot]

/-- The step handles the termination signal. -/
def terminates (s : Server) : Label → Bool
  | .dispatch _ => s.events.head?.any fun e => e.fd = s.intfd
  | _ => false

/-- A step that does not end the process neither stops it nor, but for the signal, the loop. -/
theorem Step.goesOn {rm : RemoveFd} {s s' : Server} {l : Label} (h : Step rm s l s') :
    s'.stop = s.stop ∧ (s'.serverState = s.serverState ∨ s.terminates l = true) := by
  cases h with
  | epollWait | ignored | opened | sslFailed | hangUp | take | getConnection | process | close | releaseConnection =>
    exact ⟨rfl, Or.inl rfl⟩
  | timeout _ _ ht =>
    obtain ⟨_, _, _, _, rfl⟩ := timeout_frame ht
    exact ⟨rfl, Or.inl rfl⟩
  | term he hfd => exact ⟨rfl, Or.inr (by simp [terminates, he, hfd])⟩
  | readable =>
    unfold append
    split <;> exact ⟨rfl, Or.inl rfl⟩

/-- A client connects, and its request `x` is served by the first worker up to the write call. -/
def serveBadRequest : List Label :=
  [.epollWait [.input 14 none], .dispatch ⟨0, some 19, .succeeds⟩,
    .epollWait [.input 19 (some 0)], .dispatch ⟨1, none, .succeeds⟩,
    .take 0, .getConnection 0] ++ HttpHandler.badRequest.map (.process 0)

end Server

end ImageServer
