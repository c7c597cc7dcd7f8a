import ImageServer.Server.Step

/-!
# Descriptors and slots

What holds in every reachable state, whatever the workers and the clients do and whether `remove_fd` returns or not:
no descriptor is open twice; the handler of an open connection has its descriptor in `m_sockfd`; a handler does its
calls on the connection of its own slot or on none; and the timers, requests and events point to slots that have been
given a connection before (`Used`), whose `m_sockfd` is the slot or -1.
-/

namespace ImageServer

open Transition

/-- The fields set from outside, other than `mysql`. -/
def HttpHandler.socket (h : HttpHandler) : Outside := { h.toOutside with mysql := none }

theorem HttpHandler.ioFd_congr {h h' : HttpHandler} (hs : h'.socket = h.socket) : h'.ioFd = h.ioFd := by
  have htype : h'.type = h.type := (congrArg Outside.type hs :)
  have hfd : h'.sockfd = h.sockfd := (congrArg Outside.sockfd hs :)
  have hssl : h'.sslcontent = h.sslcontent := (congrArg Outside.sslcontent hs :)
  unfold ioFd
  rw [htype, hfd, hssl]

theorem HttpHandler.init_ioFd {h : HttpHandler} {fd : Nat} {timer : Option Nat} {type : ClientType}
    {content : Option Ssl}
    (ht : type = .httpClient ∧ content = none ∨ type = .httpsClient ∧ ∃ id, content = some ⟨id, fd⟩) :
    (h.init fd timer type content).ioFd = some (fd : Int) := by
  rcases ht with ⟨rfl, rfl⟩ | ⟨rfl, id, rfl⟩ <;> rfl

private theorem HttpHandler.closeFields_ioFd (h : HttpHandler) : h.closeFields.ioFd = none := rfl

namespace Server

/-- The slot has been given a connection before. -/
def Used (s : Server) (slot : Nat) : Prop := (s.users_ slot).timer ≠ none

/-- Descriptors, connections and handlers fit together. -/
structure Sockets (s : Server) : Prop where
  nodup : (s.conns.map Conn.fd).Nodup
  apart : ∀ x ∈ s.conns, x.fd ∉ s.reserved
  sockfd : ∀ slot, s.Used slot → (s.users_ slot).sockfd = slot ∨ (s.users_ slot).sockfd = -1
  registered : ∀ x ∈ s.conns, x.registered = true → s.Used x.fd ∧ (s.users_ x.fd).sockfd = x.fd
  io : ∀ slot fd, (s.users_ slot).ioFd = some fd → fd = slot ∧ s.Open slot

/-- The slots the event loop and the workers refer to are used. -/
structure Pointers (s : Server) : Prop where
  timers : ∀ t ∈ s.timerLst, s.Used t.data
  queue : ∀ job ∈ s.workqueue, s.Used job.slot
  workers : ∀ x ∈ s.workers, ∀ job, x.serving = some job → s.Used job.slot
  events : ∀ e ∈ s.events, e.fd ∈ s.own ∨ s.Used e.fd

structure WellFormed (s : Server) : Prop extends Sockets s, Pointers s

theorem wellFormed_start (c : Setup) : WellFormed c.start where
  nodup := List.nodup_nil
  apart := by simp [Setup.start]
  sockfd := fun slot hu => absurd rfl hu
  registered := by simp [Setup.start]
  io := by
    intro slot fd hfd
    cases hfd
  timers := by simp [Setup.start]
  queue := by simp [Setup.start]
  workers := by simp [Setup.start, List.mem_replicate, Worker.serving]
  events := by simp [Setup.start]

/-! ### The operations on connections -/

theorem Used.congr {s s' : Server} {slot : Nat} (h : (s'.users_ slot).socket = (s.users_ slot).socket) :
    s'.Used slot ↔ s.Used slot := by
  have htimer : (s'.users_ slot).timer = (s.users_ slot).timer := (congrArg Outside.timer h :)
  unfold Used
  rw [htimer]

theorem Sockets.frame {s s' : Server} (h : Sockets s) (hc : s'.conns = s.conns) (hr : s'.reserved = s.reserved)
    (hu : ∀ slot, (s'.users_ slot).socket = (s.users_ slot).socket) : Sockets s' where
  nodup := by rw [hc]; exact h.nodup
  apart := by rw [hc, hr]; exact h.apart
  sockfd := by
    intro slot hs
    have hfd : (s'.users_ slot).sockfd = (s.users_ slot).sockfd := (congrArg Outside.sockfd (hu slot) :)
    rw [hfd]
    exact h.sockfd slot ((Used.congr (hu slot)).1 hs)
  registered := by
    intro x hx hreg
    rw [hc] at hx
    have hfd : (s'.users_ x.fd).sockfd = (s.users_ x.fd).sockfd := (congrArg Outside.sockfd (hu x.fd) :)
    rw [hfd, Used.congr (hu x.fd)]
    exact h.registered x hx hreg
  io := by
    intro slot fd hfd
    rw [HttpHandler.ioFd_congr (hu slot)] at hfd
    unfold Open
    rw [hc]
    exact h.io slot fd hfd

theorem closed_timer (s : Server) (slot k : Nat) : ((s.closed slot).users_ k).timer = (s.users_ k).timer :=
  closed_field (f := fun h => h.timer) (fun _ => rfl) s slot k

theorem closed_used {s : Server} {slot k : Nat} : (s.closed slot).Used k ↔ s.Used k := by
  unfold Used
  rw [closed_timer]

theorem mem_closed_conns {s : Server} {slot : Nat} {x : Conn} :
    x ∈ (s.closed slot).conns ↔ x ∈ s.conns ∧ (x.fd : Int) ≠ (s.users_ slot).sockfd := by
  simp [closed, dropFd]

/-- Closing a slot closes its connection and no other. -/
theorem Sockets.mem_closed {s : Server} (h : Sockets s) {slot : Nat} (hu : s.Used slot) {x : Conn} (hx : x ∈ s.conns)
    (hne : x.fd ≠ slot) : x ∈ (s.closed slot).conns := by
  refine mem_closed_conns.2 ⟨hx, ?_⟩
  rcases h.sockfd slot hu with hfd | hfd
  · rw [hfd]
    exact_mod_cast hne
  · rw [hfd]
    omega

/-- No connection given to the handler is left on a slot that is closed. -/
theorem Sockets.ne_of_mem_closed {s : Server} (h : Sockets s) {slot : Nat} {x : Conn}
    (hx : x ∈ (s.closed slot).conns) (hreg : x.registered = true) : x.fd ≠ slot := by
  obtain ⟨hmem, hne⟩ := mem_closed_conns.1 hx
  intro hslot
  rw [← hslot] at hne
  exact hne (h.registered x hmem hreg).2.symm

theorem Sockets.closed {s : Server} (h : Sockets s) {slot : Nat} (hu : s.Used slot) : Sockets (s.closed slot) where
  nodup := (List.filter_sublist.map Conn.fd).nodup h.nodup
  apart := fun x hx => h.apart x (mem_closed_conns.1 hx).1
  sockfd := by
    intro k hk
    by_cases hks : k = slot
    · subst hks
      rw [closed_users_self]
      exact Or.inr rfl
    · rw [closed_users_ne s hks]
      exact h.sockfd k (closed_used.1 hk)
  registered := by
    intro x hx hreg
    have hne := h.ne_of_mem_closed hx hreg
    rw [closed_used, closed_users_ne s hne]
    exact h.registered x (mem_closed_conns.1 hx).1 hreg
  io := by
    intro k fd hfd
    by_cases hks : k = slot
    · subst hks
      rw [closed_users_self, HttpHandler.closeFields_ioFd] at hfd
      cases hfd
    · rw [closed_users_ne s hks] at hfd
      obtain ⟨hk, x, hx, hxk, hreg⟩ := h.io k fd hfd
      exact ⟨hk, x, h.mem_closed hu hx (hxk ▸ hks), hxk, hreg⟩

theorem openConn_users_self (s : Server) (fd now : Nat) (type : ClientType) (content : Option Ssl) :
    (s.openConn fd now type content).users_ fd = (s.users_ fd).init fd (some s.nextTimer) type content :=
  Function.update_self ..

theorem openConn_users_ne (s : Server) {fd k : Nat} (hk : k ≠ fd) (now : Nat) (type : ClientType)
    (content : Option Ssl) : (s.openConn fd now type content).users_ k = s.users_ k := Function.update_of_ne hk ..

private theorem openConn_used {s : Server} {fd now k : Nat} {type : ClientType} {content : Option Ssl} :
    (s.openConn fd now type content).Used k ↔ k = fd ∨ s.Used k := by
  unfold Used
  by_cases hk : k = fd
  · subst hk
    rw [openConn_users_self]
    exact iff_of_true (Option.some_ne_none _) (Or.inl rfl)
  · rw [openConn_users_ne s hk]
    exact ⟨Or.inr, fun h => h.resolve_left hk⟩

private theorem Sockets.openConn {s : Server} (h : Sockets s) {fd : Nat} (hfree : s.LowestFree fd) (now : Nat)
    {type : ClientType} {content : Option Ssl}
    (ht : type = .httpClient ∧ content = none ∨ type = .httpsClient ∧ ∃ id, content = some ⟨id, fd⟩) :
    Sockets (s.openConn fd now type content) where
  nodup := List.nodup_cons.2 ⟨fun hm => hfree.2.1 (List.mem_map.1 hm), h.nodup⟩
  apart := by
    intro x hx
    rcases List.mem_cons.1 hx with rfl | hx
    · exact hfree.1
    · exact h.apart x hx
  sockfd := by
    intro k hk
    by_cases hkf : k = fd
    · subst hkf
      rw [openConn_users_self]
      exact Or.inl rfl
    · rw [openConn_users_ne s hkf]
      exact h.sockfd k ((openConn_used.1 hk).resolve_left hkf)
  registered := by
    intro x hx hreg
    rcases List.mem_cons.1 hx with rfl | hx
    · rw [openConn_users_self]
      exact ⟨openConn_used.2 (Or.inl rfl), rfl⟩
    · have hne : x.fd ≠ fd := fun he => hfree.2.1 ⟨x, hx, he⟩
      rw [openConn_users_ne s hne, openConn_used]
      exact ⟨Or.inr (h.registered x hx hreg).1, (h.registered x hx hreg).2⟩
  io := by
    intro k f hf
    by_cases hkf : k = fd
    · subst hkf
      refine ⟨?_, _, List.mem_cons_self .., rfl, rfl⟩
      rw [openConn_users_self, HttpHandler.init_ioFd ht] at hf
      exact (Option.some.inj hf).symm
    · rw [openConn_users_ne s hkf] at hf
      obtain ⟨hk, x, hx, hxk, hreg⟩ := h.io k f hf
      exact ⟨hk, x, List.mem_cons_of_mem _ hx, hxk, hreg⟩

private theorem Sockets.sslFailed {s : Server} (h : Sockets s) {fd : Nat} (hfree : s.LowestFree fd) :
    Sockets (s.sslFailed fd) where
  nodup := List.nodup_cons.2 ⟨fun hm => hfree.2.1 (List.mem_map.1 hm), h.nodup⟩
  apart := by
    intro x hx hr
    have hr : x.fd ∈ s.reserved := (List.mem_filter.1 hr).1
    rcases List.mem_cons.1 hx with rfl | hx
    · exact hfree.1 hr
    · exact h.apart x hx hr
  sockfd := h.sockfd
  registered := by
    intro x hx hreg
    rcases List.mem_cons.1 hx with rfl | hx
    · cases hreg
    · exact h.registered x hx hreg
  io := by
    intro k f hf
    obtain ⟨hk, x, hx, hxk, hreg⟩ := h.io k f hf
    exact ⟨hk, x, List.mem_cons_of_mem _ hx, hxk, hreg⟩

/-- Disarming changes nothing but `armed`. -/
theorem mem_disarm {s : Server} {evs : List Event} {x : Conn} (hx : x ∈ s.disarm evs) :
    ∃ y ∈ s.conns, x.id = y.id ∧ x.fd = y.fd ∧ x.registered = y.registered := by
  obtain ⟨y, hy, rfl⟩ := List.mem_map.1 hx
  refine ⟨y, hy, ?_⟩
  split <;> exact ⟨rfl, rfl, rfl⟩

theorem disarm_mem {s : Server} (evs : List Event) {y : Conn} (hy : y ∈ s.conns) :
    ∃ x ∈ s.disarm evs, x.id = y.id ∧ x.fd = y.fd ∧ x.registered = y.registered := by
  refine ⟨_, List.mem_map_of_mem hy, ?_⟩
  split <;> exact ⟨rfl, rfl, rfl⟩

private theorem disarm_fds (s : Server) (evs : List Event) : (s.disarm evs).map Conn.fd = s.conns.map Conn.fd := by
  rw [disarm, List.map_map]
  refine List.map_congr_left fun x _ => ?_
  dsimp only [Function.comp]
  split <;> rfl

private theorem Sockets.disarm {s : Server} (h : Sockets s) (evs : List Event) :
    Sockets { s with events := evs, conns := s.disarm evs } where
  nodup := by
    show ((s.disarm evs).map Conn.fd).Nodup
    rw [disarm_fds]
    exact h.nodup
  apart := by
    intro x hx
    obtain ⟨y, hy, -, hfd, -⟩ := mem_disarm hx
    rw [hfd]
    exact h.apart y hy
  sockfd := h.sockfd
  registered := by
    intro x hx hreg
    obtain ⟨y, hy, -, hfd, hr⟩ := mem_disarm hx
    rw [hfd]
    exact h.registered y hy (hr ▸ hreg)
  io := by
    intro slot fd hfd
    obtain ⟨hk, y, hy, hyk, hreg⟩ := h.io slot fd hfd
    obtain ⟨x, hx, -, hxf, hxr⟩ := disarm_mem evs hy
    exact ⟨hk, x, hx, hxf.trans hyk, hxr.trans hreg⟩

/-! ### Reachable states -/

theorem Worker.serving_processing {job j : Job} {held : Option Nat} {ph : Phase}
    (h : (Worker.processing job held ph).serving = some j) : j = job := by
  cases ph with
  | done => cases h
  | _ => exact (Option.some.inj h).symm

theorem Worker.serving_of_ne_done {job : Job} {held : Option Nat} {ph : Phase} (hph : ph ≠ .done) :
    (Worker.processing job held ph).serving = some job := by
  cases ph with
  | done => exact absurd rfl hph
  | _ => rfl

theorem Worker.serving_of_procStep {h h' : HttpHandler} {users users' : Users} {ph ph' : Phase} {i : ProcInput}
    {close : Bool} {job : Job} {held : Option Nat} (hs : HttpHandler.ProcStep h users ph i h' users' ph' close) :
    (Worker.processing job held ph).serving = some job := by
  cases hs <;> rfl

theorem served_socket {s : Server} {w : Nat} {i : ProcInput} {job : Job} {held : Option Nat} {ph ph' : Phase}
    {h : HttpHandler} {users : Users} {close : Bool}
    (hs : HttpHandler.ProcStep (s.users_ job.slot) s.accounts ph i h users ph' close) (slot : Nat) :
    ((s.served w job held ph' h users).users_ slot).socket = (s.users_ slot).socket := by
  show (Function.update s.users_ job.slot h slot).socket = _
  by_cases hslot : slot = job.slot
  · subst hslot
    rw [Function.update_self, HttpHandler.socket, HttpHandler.socket]
    rcases hs.outside with he | ⟨-, he⟩
    · rw [he]
    · rw [he]
  · rw [Function.update_of_ne hslot]

theorem connected_socket (s : Server) (w : Nat) (job : Job) (slot : Nat) :
    ((s.connected w job).users_ slot).socket = (s.users_ slot).socket := by
  show (Function.update s.users_ job.slot _ slot).socket = _
  by_cases hslot : slot = job.slot
  · subst hslot
    rw [Function.update_self]
    rfl
  · rw [Function.update_of_ne hslot]

/-- `timeout` only closes connections. -/
theorem timeout_conns {rm : RemoveFd} {cur : Nat} {l : SortedTimerList} {s s' : Server}
    (h : timeout rm cur l s = some s') : ∀ x ∈ s'.conns, x ∈ s.conns := by
  obtain ⟨l', t, ht, rfl⟩ := timeout_induction (P := fun _ t => ∀ x ∈ t.conns, x ∈ s.conns)
    (fun t rest s₁ hs _ x hx => hs x (mem_closed_conns.1 hx).1) (fun _ => id) h
  exact ht

/-- A step of `process()` goes on with the request or returns from it. -/
theorem Worker.serving_procStep {h h' : HttpHandler} {users users' : Users} {ph ph' : Phase} {i : ProcInput}
    {close : Bool} {job : Job} {held : Option Nat} (hs : HttpHandler.ProcStep h users ph i h' users' ph' close) :
    (Worker.processing job held ph').serving = (Worker.processing job held ph).serving ∨
      (Worker.processing job held ph').serving = none := by
  rw [Worker.serving_of_procStep hs]
  cases ph' with
  | done => exact Or.inr rfl
  | _ => exact Or.inl rfl

/-- The loop of `timeout` closes used slots only. -/
private theorem Sockets.timeout {rm : RemoveFd} {cur : Nat} {l : SortedTimerList} {s s' : Server} (h : Sockets s)
    (hl : ∀ t ∈ l, s.Used t.data) (ht : timeout rm cur l s = some s') :
    Sockets s' ∧ (∀ slot, s'.Used slot ↔ s.Used slot) ∧ ∀ t ∈ s'.timerLst, s.Used t.data := by
  obtain ⟨l', t, ⟨h₁, h₂, h₃⟩, rfl⟩ := timeout_induction
    (P := fun l t => Sockets t ∧ (∀ slot, t.Used slot ↔ s.Used slot) ∧ ∀ x ∈ l, s.Used x.data)
    (by
      rintro x rest t ⟨h₁, h₂, h₃⟩ -
      exact ⟨h₁.closed ((h₂ _).2 (h₃ x (List.mem_cons_self ..))), fun slot => closed_used.trans (h₂ slot),
        fun y hy => h₃ y (List.mem_cons_of_mem _ hy)⟩)
    ⟨h, fun _ => Iff.rfl, hl⟩ ht
  exact ⟨h₁.frame rfl rfl fun _ => rfl, h₂, h₃⟩

/-- The sockets and pointers of a state whose slots are used as they were, and that refers to no new one. -/
theorem WellFormed.mono {s s' : Server} (h : WellFormed s) (hs : Sockets s') (hu : ∀ slot, s.Used slot → s'.Used slot)
    (ht : ∀ t ∈ s'.timerLst, s'.Used t.data) (hq : ∀ job ∈ s'.workqueue, s'.Used job.slot)
    (hw : ∀ x ∈ s'.workers, x ∈ s.workers ∨ ∀ job, x.serving = some job → s'.Used job.slot)
    (he : ∀ e ∈ s'.events, e ∈ s.events) (ho : s'.own = s.own) : WellFormed s' where
  toSockets := hs
  timers := ht
  queue := hq
  workers := by
    intro x hx job hj
    rcases hw x hx with hx | hx
    · exact hu _ (h.workers x hx job hj)
    · exact hx job hj
  events := by
    intro e hes
    rw [ho]
    exact (h.events e (he e hes)).imp_right (hu _)

/-- A step of `process()` leaves a well-formed state. -/
theorem WellFormed.served {s : Server} {w : Nat} {i : ProcInput} {job : Job} {held : Option Nat} {ph ph' : Phase}
    {hd : HttpHandler} {users : Users} {close : Bool} (h : WellFormed s)
    (hw : s.workers[w]? = some (.processing job held ph))
    (hs : HttpHandler.ProcStep (s.users_ job.slot) s.accounts ph i hd users ph' close) :
    WellFormed (s.served w job held ph' hd users) := by
  have hused : s.Used job.slot := h.workers _ (List.mem_of_getElem? hw) job (Worker.serving_of_procStep hs)
  have hsock : ∀ slot, ((s.served w job held ph' hd users).users_ slot).socket = (s.users_ slot).socket :=
    served_socket hs
  have hu := fun slot => (Used.congr (hsock slot)).2
  refine h.mono (h.toSockets.frame rfl rfl hsock) hu (fun t ht => hu _ (h.timers t ht))
    (fun j hj => hu _ (h.queue j hj)) (fun x hx => ?_) (fun _ => id) rfl
  refine (List.mem_or_eq_of_mem_set hx).imp_right fun hx j hj => ?_
  rw [hx] at hj
  rw [Worker.serving_processing hj]
  exact hu _ hused

private theorem WellFormed.closed {s : Server} (h : WellFormed s) {slot : Nat} (hu : s.Used slot) :
    WellFormed (s.closed slot) :=
  h.mono (h.toSockets.closed hu) (fun _ => closed_used.2) (fun t ht => closed_used.2 (h.timers t ht))
    (fun j hj => closed_used.2 (h.queue j hj)) (fun _ => Or.inl) (fun _ => id) rfl

theorem WellFormed.step {rm : RemoveFd} {s s' : Server} {l : Label} (h : WellFormed s) (hs : Step rm s l s') :
    WellFormed s' := by
  cases hs with
  | epollWait _ _ _ hr =>
    refine ⟨h.toSockets.disarm _, h.timers, h.queue, h.workers, fun e he => ?_⟩
    rcases hr e he with ⟨-, hown, -⟩ | ⟨x, hx, hfd, -, hreg, -⟩
    · exact Or.inl hown
    · exact Or.inr (hfd ▸ (h.registered x hx hreg).1)
  | ignored he =>
    exact h.mono (h.toSockets.frame rfl rfl fun _ => rfl) (fun _ => id) h.timers h.queue (fun _ => Or.inl)
      (fun e hm => he ▸ List.mem_cons_of_mem _ hm) rfl
  | @opened o e es ssls n fd type content he _ hfree _ ht =>
    have hs : Sockets { s with events := es, ssls := ssls, nextSsl := n } := h.toSockets.frame rfl rfl fun _ => rfl
    have hu : ∀ slot, s.Used slot → (openConn { s with events := es, ssls := ssls, nextSsl := n } fd o.now type
        content).Used slot := fun slot hu => openConn_used.2 (Or.inr hu)
    refine h.mono (hs.openConn hfree o.now ht) hu (fun t htm => ?_) (fun job hj => hu _ (h.queue job hj))
      (fun _ => Or.inl) (fun e hm => he ▸ List.mem_cons_of_mem _ hm) rfl
    rcases List.mem_cons.1 ((SortedTimerList.addTimer_perm _ _).mem_iff.1 htm) with rfl | htm
    · exact openConn_used.2 (Or.inl rfl)
    · exact hu _ (h.timers t htm)
  | @sslFailed o e es fd he _ hfree _ =>
    have hs : Sockets { s with events := es } := h.toSockets.frame rfl rfl fun _ => rfl
    exact h.mono (hs.sslFailed hfree) (fun _ => id) h.timers h.queue (fun _ => Or.inl)
      (fun e hm => he ▸ List.mem_cons_of_mem _ hm) rfl
  | @timeout o e es s' he _ ht =>
    have hs : Sockets { s with events := es } := h.toSockets.frame rfl rfl fun _ => rfl
    obtain ⟨hs', hu, hl⟩ := hs.timeout h.timers ht
    obtain ⟨_, _, _, _, hfr⟩ := timeout_frame ht
    refine h.mono hs' (fun slot => (hu slot).2) (fun t htm => (hu _).2 (hl t htm)) (fun job hj => ?_)
      (fun x hx => Or.inl ?_) (fun e hm => ?_) ?_
    · rw [hfr] at hj
      exact (hu _).2 (h.queue job hj)
    · rw [hfr] at hx
      exact hx
    · rw [hfr] at hm
      exact he ▸ List.mem_cons_of_mem _ hm
    · rw [hfr]
      rfl
  | term he _ =>
    exact h.mono (h.toSockets.frame rfl rfl fun _ => rfl) (fun _ => id) h.timers h.queue (fun _ => Or.inl)
      (fun e hm => he ▸ List.mem_cons_of_mem _ hm) rfl
  | @readable o e es id he hown _ _ _ =>
    have hused : s.Used e.fd := (h.events e (he ▸ List.mem_cons_self ..)).resolve_left hown
    have ht : ∀ t ∈ (s.timerLst.setExpire id (o.now + 3 * TIMESLOT)).adjustTimer id, s.Used t.data := by
      intro t htm
      obtain ⟨t', ht', -, hdata, -⟩ := (SortedTimerList.sameTimers_adjust id _ s.timerLst).mem htm
      exact hdata ▸ h.timers t' ht'
    unfold append
    split
    · exact h.mono (h.toSockets.frame rfl rfl fun _ => rfl) (fun _ hu => hu) ht h.queue (fun _ => Or.inl)
        (fun e hm => he ▸ List.mem_cons_of_mem _ hm) rfl
    · refine h.mono (h.toSockets.frame rfl rfl fun _ => rfl) (fun _ hu => hu) ht (fun job hj => ?_)
        (fun _ => Or.inl) (fun e hm => he ▸ List.mem_cons_of_mem _ hm) rfl
      rcases List.mem_append.1 hj with hj | hj
      · exact h.queue job hj
      · rw [List.mem_singleton.1 hj]
        exact hused
  | @hangUp o e es he hown _ =>
    have hused : s.Used e.fd := (h.events e (he ▸ List.mem_cons_self ..)).resolve_left hown
    have hs : Sockets { s with events := es } := h.toSockets.frame rfl rfl fun _ => rfl
    refine h.mono ((hs.closed hused).frame rfl rfl fun _ => rfl) (fun slot => closed_used.2) (fun t ht => ?_)
      (fun job hj => closed_used.2 (h.queue job hj)) (fun _ => Or.inl) (fun e hm => he ▸ List.mem_cons_of_mem _ hm) rfl
    refine closed_used.2 (h.timers t ?_)
    dsimp only at ht
    cases htimer : (s.users_ e.fd).timer with
    | none => rw [htimer] at ht; exact ht
    | some id => rw [htimer] at ht; exact (List.mem_filter.1 ht).1
  | @take w job jobs hw hq =>
    have hused : s.Used job.slot := h.queue job (hq ▸ List.mem_cons_self ..)
    refine h.mono (h.toSockets.frame rfl rfl fun _ => rfl) (fun _ => id) h.timers
      (fun j hj => h.queue j (hq ▸ List.mem_cons_of_mem _ hj)) (fun x hx => ?_) (fun _ => id) rfl
    refine (List.mem_or_eq_of_mem_set hx).imp_right fun hx j hj => ?_
    rw [hx] at hj
    cases hj
    exact hused
  | @getConnection w job hw =>
    have hused : s.Used job.slot := h.workers _ (List.mem_of_getElem? hw) job rfl
    have hu := fun slot => (Used.congr (connected_socket s w job slot)).2
    refine h.mono (h.toSockets.frame rfl rfl (connected_socket s w job)) hu (fun t ht => hu _ (h.timers t ht))
      (fun j hj => hu _ (h.queue j hj)) (fun x hx => ?_) (fun _ => id) rfl
    refine (List.mem_or_eq_of_mem_set hx).imp_right fun hx j hj => ?_
    rw [hx] at hj
    cases hj
    exact hu _ hused
  | @process w i job held ph ph' hd users hw _ hs => exact h.served hw hs
  | @close w i job held ph ph' hd users hw _ hs =>
    have hused : s.Used job.slot := h.workers _ (List.mem_of_getElem? hw) job (Worker.serving_of_procStep hs)
    exact (h.served hw hs).closed ((Used.congr (served_socket hs _)).2 hused)
  | @releaseConnection w job held hw =>
    refine h.mono (h.toSockets.frame rfl rfl fun _ => rfl) (fun _ => id) h.timers h.queue (fun x hx => ?_)
      (fun _ => id) rfl
    refine (List.mem_or_eq_of_mem_set hx).imp_right fun hx j hj => ?_
    rw [hx] at hj
    cases hj

theorem WellFormed.of_step {rm : RemoveFd} {s s' : Server} {l : Label} (h : WellFormed s)
    (hs : s.step rm l = some s') : WellFormed s' := by
  obtain ⟨-, ⟨why, -, rfl⟩ | ⟨-, hs⟩⟩ := step_cases hs
  · exact h.mono (h.toSockets.frame rfl rfl fun _ => rfl) (fun _ => id) h.timers h.queue (fun _ => Or.inl)
      (fun _ => id) rfl
  · exact h.step hs

/-- Every reachable state is well formed. -/
theorem wellFormed_run {rm : RemoveFd} {c : Setup} {ls : List Label} {t : Server}
    (h : run (step rm) c.start ls = some t) : WellFormed t := by
  refine run_invariant (P := WellFormed) (fun s l s' hw _ hs => ?_) (wellFormed_start c) Meets.trivial h
  exact hw.of_step hs

end Server

end ImageServer
