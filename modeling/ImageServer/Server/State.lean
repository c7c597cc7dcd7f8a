import ImageServer.Http.Process
import ImageServer.Server.TimerList

/-!
# The state of the server

What `ClientPool`, its worker threads, the pool of database connections and the kernel keep: the slots `users_`,
the timer list and the events the last `epoll_wait` has reported and the loop has not handled yet; the queue of the
workers and where each worker is; the free database connections; the descriptors in use.

Descriptor numbers and slots are used again, so connections and SSL objects have an `id` besides.  The fields that
hold the `id` of a connection (`Event.conn`, `Job.conn`, `Timer.conn`) have no counterpart in the source: nothing
the server does depends on them, they are there to say for which connection it does it.

Two things end the process: `exit(0)` in `CONSOLE_LOG_ERROR`, and an access C gives no meaning to (`Stop`).
-/

namespace ImageServer

def MAX_FD : Nat := 30000

def MAX_EVENT_NUMBER : Nat := 10000

def TIMESLOT : Nat := 5

inductive ServerState
  | stopped
  | running
  | sleeping
deriving DecidableEq

/-- A connection whose descriptor is open: registered with epoll by `add_fd`, and armed as long as no event has been
reported for it (`EPOLLONESHOT`). -/
structure Conn where
  id : Nat
  fd : Nat
  registered : Bool
  armed : Bool
deriving DecidableEq

/-- An element of `events_`.  The registrations ask for `EPOLLIN` and `EPOLLRDHUP` only, and the kernel adds `EPOLLHUP`
and `EPOLLERR`; the three together are `hangup`. -/
structure Event where
  fd : Nat
  epollin : Bool
  epollout : Bool
  hangup : Bool
  conn : Option Nat
  asked : epollout = false ∧ (epollin = true ∨ hangup = true)
deriving DecidableEq

/-- `EPOLLIN` on a descriptor. -/
def Event.input (fd : Nat) (conn : Option Nat) : Event :=
  { fd := fd, epollin := true, epollout := false, hangup := false, conn := conn, asked := ⟨rfl, Or.inl rfl⟩ }

/-- The client has gone, and nothing of it is left to read. -/
def Event.gone (fd : Nat) (conn : Option Nat) : Event :=
  { fd := fd, epollin := false, epollout := false, hangup := true, conn := conn, asked := ⟨rfl, Or.inr rfl⟩ }

/-- A pointer into `users_` in `m_workqueue`. -/
structure Job where
  slot : Nat
  conn : Option Nat
deriving DecidableEq

/-- Where a worker is in the loop of `run`. -/
inductive Worker
  /-- waiting for a request -/
  | idle
  /-- `request` is popped -/
  | taken (job : Job)
  /-- `get_connection` has answered `held`; in `process()` until it is `done`, then before `release_connection` -/
  | processing (job : Job) (held : Option Nat) (ph : Phase)
deriving DecidableEq

/-- The request of a worker that has not returned from `process()`. -/
def Worker.serving : Worker → Option Job
  | .idle => none
  | .taken job => some job
  | .processing _ _ .done => none
  | .processing job _ _ => some job

/-- The database connection of a worker between `get_connection` and `release_connection`. -/
def Worker.held : Worker → Option Nat
  | .processing _ held _ => held
  | _ => none

/-- What makes a step undefined. -/
inductive Undefined
  /-- a slot outside `users_` -/
  | slot
  /-- `m_timer` null or freed -/
  | timer
  /-- a null `SSL` or a freed `SSL_CTX` -/
  | ssl
  /-- an access of the handler outside its buffers, or through a null pointer -/
  | handler
deriving DecidableEq

/-- How the process ends. -/
inductive Stop
  | exited
  | undefined (why : Undefined)
deriving DecidableEq

structure Server where
  stop : Option Stop
  serverState : ServerState
  /-- `m_user_count` -/
  userCount : Int
  /-- the descriptors `testing_` compares with: `listenfd_`, `ssl_fd_`, `alarmfd[0]` and `intfd[0]` -/
  listenfd : Nat
  sslFd : Nat
  alarmfd : Nat
  intfd : Nat
  /-- the open descriptors that are not connections -/
  reserved : List Nat
  conns : List Conn
  nextConn : Nat
  /-- `ssl_context_` is allocated -/
  sslContext : Bool
  ssls : List Ssl
  nextSsl : Nat
  events : List Event
  users_ : Nat → HttpHandler
  timerLst : SortedTimerList
  nextTimer : Nat
  /-- `HttpHandler::users` -/
  accounts : Users
  workqueue : List Job
  maxRequests : Nat
  workers : List Worker
  /-- `_conn_list` -/
  connList : List Nat

/-- The arguments of the constructors, and the descriptors the operating system has given them. -/
structure Setup where
  listenfd : Nat
  sslFd : Nat
  alarmfd : Nat
  intfd : Nat
  reserved : List Nat
  threads : Nat
  maxRequests : Nat
  maxConn : Nat
  accounts : Users
  distinct : [listenfd, sslFd, alarmfd, intfd].Nodup
  isOpen : ∀ fd ∈ [listenfd, sslFd, alarmfd, intfd], fd ∈ reserved

/-- The server when `testing_` is called. -/
def Setup.start (c : Setup) : Server :=
  { stop := none, serverState := .running, userCount := 0, listenfd := c.listenfd, sslFd := c.sslFd,
    alarmfd := c.alarmfd, intfd := c.intfd, reserved := c.reserved, conns := [], nextConn := 0, sslContext := true,
    ssls := [], nextSsl := 0, events := [], users_ := fun _ => .zero, timerLst := [], nextTimer := 0,
    accounts := c.accounts, workqueue := [], maxRequests := c.maxRequests,
    workers := List.replicate c.threads .idle, connList := List.range c.maxConn }

/-- The server of the tests: the default arguments of `ProcessThreadPool`, and descriptors in the order
in which the constructor of `ClientPool` opens them, after a log file and eight database connections. -/
def Setup.default : Setup :=
  { listenfd := 14, sslFd := 13, alarmfd := 15, intfd := 17, reserved := List.range 19, threads := 8,
    maxRequests := 10000, maxConn := 8, accounts := fun _ => none, distinct := by decide, isOpen := by decide }

/-- Whether `remove_fd` returns: `asWritten` follows its two tests, with `returning` it closes the descriptor and
returns whatever they say, and with `onOpen` it does so on an open descriptor and ends the process on any other. -/
inductive RemoveFd
  | asWritten
  | returning
  | onOpen
deriving DecidableEq

namespace Server

/-! ### Descriptors -/

/-- The descriptors of `ClientPool` itself that are registered with epoll. -/
def own (s : Server) : List Nat := [s.listenfd, s.sslFd, s.alarmfd, s.intfd]

/-- A connection has the descriptor. -/
def IsConn (s : Server) (fd : Nat) : Prop := ∃ c ∈ s.conns, c.fd = fd

/-- A connection that has been given to the handler of its slot. -/
def Open (s : Server) (fd : Nat) : Prop := ∃ c ∈ s.conns, c.fd = fd ∧ c.registered = true

instance (s : Server) (fd : Nat) : Decidable (s.IsConn fd) := inferInstanceAs (Decidable (∃ c ∈ s.conns, c.fd = fd))

instance (s : Server) (fd : Nat) : Decidable (s.Open fd) :=
  inferInstanceAs (Decidable (∃ c ∈ s.conns, c.fd = fd ∧ c.registered = true))

/-- The descriptor `accept` returns: the lowest one not in use. -/
def LowestFree (s : Server) (fd : Nat) : Prop :=
  fd ∉ s.reserved ∧ ¬ s.IsConn fd ∧ ∀ k < fd, k ∈ s.reserved ∨ s.IsConn k

instance (s : Server) (fd : Nat) : Decidable (s.LowestFree fd) :=
  inferInstanceAs (Decidable (fd ∉ s.reserved ∧ ¬ s.IsConn fd ∧ ∀ k < fd, k ∈ s.reserved ∨ s.IsConn k))

/-- `epoll_ctl(epollfd, EPOLL_CTL_DEL, fd, 0)`: it succeeds on a registered descriptor. -/
def epollDel (s : Server) (fd : Int) : Int :=
  if s.conns.any fun c => (c.fd : Int) = fd ∧ c.registered then 0 else -1

/-- `close(fd)`: it succeeds on an open descriptor. -/
def closeFd (s : Server) (fd : Int) : Int :=
  if s.conns.any fun c => (c.fd : Int) = fd then 0 else -1

/-- The descriptor is no more. -/
def dropFd (s : Server) (fd : Int) : Server := { s with conns := s.conns.filter fun c => (c.fd : Int) ≠ fd }

/-- `remove_fd`; there is no result when one of its tests ends in `CONSOLE_LOG_ERROR`, which calls `exit(0)`. -/
def removeFd (rm : RemoveFd) (s : Server) (fd : Int) : Option Server :=
  match rm with
  | .asWritten =>
    -- `close` returns 0 or -1, and both are `<= 1`
    if s.epollDel fd < 0 then none else if s.closeFd fd ≤ 1 then none else some (s.dropFd fd)
  | .returning => some (s.dropFd fd)
  | .onOpen => if s.epollDel fd < 0 then none else if s.closeFd fd < 0 then none else some (s.dropFd fd)

/-! ### Handlers -/

/-- What `HttpHandler::close` leaves behind when `remove_fd` returns. -/
def closed (s : Server) (slot : Nat) : Server :=
  { s.dropFd (s.users_ slot).sockfd with
    users_ := Function.update s.users_ slot (s.users_ slot).closeFields, userCount := s.userCount - 1 }

/-- `HttpHandler::close` on the handler of the slot. -/
def close (rm : RemoveFd) (s : Server) (slot : Nat) : Option Server :=
  (s.removeFd rm (s.users_ slot).sockfd).map fun s' =>
    { s' with
      users_ := Function.update s'.users_ slot (s'.users_ slot).closeFields, userCount := s'.userCount - 1 }

/-- `remove_fd` as written never returns: `close(fd) <= 1` holds of success too. -/
theorem close_asWritten (s : Server) (slot : Nat) : s.close .asWritten slot = none := by
  have h : s.closeFd (s.users_ slot).sockfd ≤ 1 := by
    unfold closeFd
    split <;> decide
  unfold close removeFd
  dsimp only
  rw [if_pos h, ite_self]
  rfl

theorem close_returning (s : Server) (slot : Nat) : s.close .returning slot = some (s.closed slot) := rfl

/-- With `onOpen`, `close` returns when the descriptor of the slot is registered. -/
theorem close_onOpen (s : Server) (slot : Nat) :
    s.close .onOpen slot = if 0 ≤ s.epollDel (s.users_ slot).sockfd then some (s.closed slot) else none := by
  unfold close removeFd
  dsimp only
  by_cases hdel : s.epollDel (s.users_ slot).sockfd < 0
  · rw [if_pos hdel, if_neg (not_le.2 hdel)]
    rfl
  · -- a registered descriptor is open
    have hclose : ¬ s.closeFd (s.users_ slot).sockfd < 0 := by
      unfold epollDel at hdel
      unfold closeFd
      split at hdel
      · rename_i hany
        have hopen : s.conns.any (fun c => (c.fd : Int) = (s.users_ slot).sockfd) = true := by
          simp only [List.any_eq_true, Bool.decide_and, Bool.and_eq_true, decide_eq_true_eq] at hany ⊢
          obtain ⟨c, hc, hfd, -⟩ := hany
          exact ⟨c, hc, hfd⟩
        rw [if_pos hopen]
        decide
      · exact absurd (by decide) hdel
    rw [if_neg hdel, if_neg hclose, if_pos (not_lt.1 hdel)]
    rfl

theorem close_eq_some {rm : RemoveFd} {s s' : Server} {slot : Nat} (h : s.close rm slot = some s') :
    s' = s.closed slot := by
  cases rm with
  | asWritten => rw [close_asWritten] at h; cases h
  | returning => rw [close_returning] at h; exact (Option.some.inj h).symm
  | onOpen =>
    rw [close_onOpen] at h
    split at h
    · exact (Option.some.inj h).symm
    · cases h

theorem closed_users_self (s : Server) (slot : Nat) :
    (s.closed slot).users_ slot = (s.users_ slot).closeFields := Function.update_self ..

theorem closed_users_ne (s : Server) {slot k : Nat} (hk : k ≠ slot) : (s.closed slot).users_ k = s.users_ k :=
  Function.update_of_ne hk ..

/-- What `close` does not assign is the same in every slot. -/
theorem closed_field {α : Type} {f : HttpHandler → α} (hf : ∀ h, f h.closeFields = f h) (s : Server) (slot k : Nat) :
    f ((s.closed slot).users_ k) = f (s.users_ k) := by
  by_cases hk : k = slot
  · subst hk
    rw [closed_users_self, hf]
  · rw [closed_users_ne s hk]

/-! ### Timers -/

/-- The loop of `SortedTimerList::timeout` on the nodes `l` that are left, at the clock `cur`. -/
def timeout (rm : RemoveFd) (cur : Nat) : SortedTimerList → Server → Option Server
  | [], s => some { s with timerLst := [] }
  | tmp :: rest, s =>
    if cur < tmp.expire then some { s with timerLst := tmp :: rest }
    -- the callback closes the connection, then the node is unlinked and deleted
    else (s.close rm tmp.data).bind (timeout rm cur rest)

/-- The induction rule for `timeout`: `P` holds before each iteration, of what is left and the state. -/
theorem timeout_induction {rm : RemoveFd} {cur : Nat} {P : SortedTimerList → Server → Prop}
    (hstep : ∀ t rest s, P (t :: rest) s → t.expire ≤ cur → P rest (s.closed t.data)) {l : SortedTimerList}
    {s s' : Server} (hs : P l s) (h : timeout rm cur l s = some s') :
    ∃ l' t, P l' t ∧ s' = { t with timerLst := l' } := by
  induction l generalizing s with
  | nil =>
    cases h
    exact ⟨[], s, hs, rfl⟩
  | cons t rest ih =>
    unfold timeout at h
    split at h
    · cases h
      exact ⟨t :: rest, s, hs, rfl⟩
    · obtain ⟨s₁, hc, h⟩ := Option.bind_eq_some_iff.1 h
      rw [close_eq_some hc] at h
      exact ih (hstep t rest s hs (by omega)) h

/-- `timeout` changes the slots, the connections, their count and the timers only. -/
theorem timeout_frame {rm : RemoveFd} {cur : Nat} {l : SortedTimerList} {s s' : Server}
    (h : timeout rm cur l s = some s') :
    ∃ conns users_ userCount timerLst, s' = { s with
      conns := conns, users_ := users_, userCount := userCount, timerLst := timerLst } := by
  obtain ⟨l', t, ⟨conns, users_, userCount, rfl⟩, rfl⟩ := timeout_induction
    (P := fun _ t => ∃ conns users_ userCount, t = { s with
      conns := conns, users_ := users_, userCount := userCount })
    (by
      rintro t rest _ ⟨conns, users_, userCount, rfl⟩ -
      exact ⟨_, _, _, rfl⟩)
    ⟨_, _, _, rfl⟩ h
  exact ⟨_, _, _, _, rfl⟩

/-- `timeout` too leaves what `close` does not assign. -/
theorem timeout_field {α : Type} {f : HttpHandler → α} (hf : ∀ h, f h.closeFields = f h) {rm : RemoveFd} {cur : Nat}
    {l : SortedTimerList} {s s' : Server} (h : timeout rm cur l s = some s') (k : Nat) :
    f (s'.users_ k) = f (s.users_ k) := by
  obtain ⟨l', t, ht, rfl⟩ := timeout_induction (P := fun _ t => f (t.users_ k) = f (s.users_ k))
    (fun x _ t ht _ => (closed_field hf t x.data k).trans ht) rfl h
  exact ht

end Server

end ImageServer
