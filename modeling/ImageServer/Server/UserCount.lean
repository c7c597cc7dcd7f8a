import ImageServer.Server.CloseOnce
import ImageServer.Server.Exit
import ImageServer.Server.Invariant

/-!
# The count of the users

What a step does to the open connections and to `m_user_count` (`effect_openConns`): it opens one, or it closes those
of its slots.  When `remove_fd` returns on an open descriptor only, every `close()` that returns has closed a
connection, and the count is never further from the number of open connections than it was (`deficit_step`).
-/

namespace ImageServer

open Transition

namespace Server

/-- The open connections and their slots. -/
def openConns (s : Server) : List (Nat × Nat) := (s.conns.filter fun x => x.registered).map fun x => (x.id, x.fd)

theorem mem_openConns {s : Server} {x : Nat × Nat} :
    x ∈ s.openConns ↔ ∃ y ∈ s.conns, y.registered = true ∧ (y.id, y.fd) = x := by
  simp only [openConns, List.mem_map, List.mem_filter]
  constructor
  · rintro ⟨y, ⟨hy, hr⟩, hx⟩
    exact ⟨y, hy, hr, hx⟩
  · rintro ⟨y, hy, hr, hx⟩
    exact ⟨y, ⟨hy, hr⟩, hx⟩

theorem open_iff {s : Server} {slot : Nat} : s.Open slot ↔ slot ∈ s.openConns.map Prod.snd := by
  rw [List.mem_map]
  constructor
  · rintro ⟨x, hx, hfd, hr⟩
    exact ⟨(x.id, x.fd), mem_openConns.2 ⟨x, hx, hr, rfl⟩, hfd⟩
  · rintro ⟨x, hx, hslot⟩
    obtain ⟨y, hy, hr, rfl⟩ := mem_openConns.1 hx
    exact ⟨y, hy, hslot, hr⟩

private theorem Sockets.nodup_openConns {s : Server} (h : Sockets s) : (s.openConns.map Prod.snd).Nodup := by
  rw [openConns, List.map_map]
  exact (List.filter_sublist.map Conn.fd).nodup h.nodup

/-- Closing a slot takes its connection from the open ones. -/
private theorem Sockets.openConns_closed {s : Server} (h : Sockets s) {slot : Nat} (hu : s.Used slot) :
    (s.closed slot).openConns = s.openConns.filter (·.2 ≠ slot) := by
  have hconns : (s.closed slot).conns = s.conns.filter fun x => (x.fd : Int) ≠ (s.users_ slot).sockfd := rfl
  rw [openConns, openConns, List.filter_map, List.filter_filter, hconns, List.filter_filter]
  congr 1
  refine List.filter_congr fun x hx => ?_
  cases hreg : x.registered with
  | false => simp
  | true =>
    have hfd := (h.registered x hx hreg).2
    have hiff : (x.fd : Int) ≠ (s.users_ slot).sockfd ↔ x.fd ≠ slot := by
      constructor
      · intro hne hslot
        rw [← hslot] at hne
        exact hne hfd.symm
      · intro hne hslot
        rcases h.sockfd slot hu with hs | hs
        · rw [hs] at hslot
          exact hne (by exact_mod_cast hslot)
        · omega
    simp [hiff]

/-- What `timeout` does to the open connections and the count. -/
theorem Sockets.timeout_openConns {cur : Nat} {l : SortedTimerList} {s s' : Server} (h : Sockets s)
    (hl : ∀ t ∈ l, s.Used t.data) (ht : Server.timeout .returning cur l s = some s') :
    s'.openConns = s.openConns.filter (·.2 ∉ (l.takeWhile fun t => t.expire ≤ cur).map Timer.data) ∧
      s'.userCount = s.userCount - (l.takeWhile fun t => t.expire ≤ cur).length := by
  induction l generalizing s with
  | nil =>
    cases ht
    simp [openConns]
  | cons t rest ih =>
    have hused := hl t (List.mem_cons_self ..)
    unfold Server.timeout at ht
    split at ht
    · rename_i hlt
      cases ht
      rw [List.takeWhile_cons_of_neg (by simpa using hlt)]
      simp [openConns]
    · rename_i hge
      rw [close_returning] at ht
      obtain ⟨hconns, hcount⟩ := ih (h.closed hused)
        (fun x hx => closed_used.2 (hl x (List.mem_cons_of_mem _ hx))) ht
      rw [List.takeWhile_cons_of_pos (by simpa using hge)]
      constructor
      · rw [hconns, h.openConns_closed hused, List.filter_filter]
        refine List.filter_congr fun slot _ => ?_
        simp only [List.map_cons, List.mem_cons, not_or, Bool.decide_and, ne_eq, Bool.and_comm]
      · have hone : (s.closed t.data).userCount = s.userCount - 1 := rfl
        rw [hcount, hone, List.length_cons]
        omega

/-- The slots of `closing` are closed, and nothing is opened. -/
structure OnlyCloses (s s' : Server) (closing : List Nat) : Prop where
  conns : s'.openConns = s.openConns.filter (·.2 ∉ closing)
  count : s'.userCount = s.userCount - closing.length
  nextConn : s.nextConn ≤ s'.nextConn

/-- One connection is opened, and none is closed. -/
structure OnlyOpens (s s' : Server) (closing : List Nat) : Prop where
  none : closing = []
  conns : ∃ fd, s'.openConns = (s.nextConn, fd) :: s.openConns
  count : s'.userCount = s.userCount + 1
  nextConn : s'.nextConn = s.nextConn + 1

private theorem OnlyCloses.of_eq {s s' : Server} (hconns : s'.openConns = s.openConns)
    (hcount : s'.userCount = s.userCount) (hnext : s.nextConn ≤ s'.nextConn) : s.OnlyCloses s' [] where
  conns := by rw [hconns]; simp
  count := by rw [hcount]; simp
  nextConn := hnext

private theorem OnlyCloses.closed {s : Server} (h : Sockets s) {slot : Nat} (hu : s.Used slot) :
    s.OnlyCloses (s.closed slot) [slot] where
  conns := by
    rw [h.openConns_closed hu]
    refine List.filter_congr fun k _ => ?_
    simp
  count := rfl
  nextConn := le_rfl

theorem openConns_disarm (s : Server) (evs : List Event) :
    openConns { s with events := evs, conns := s.disarm evs } = s.openConns := by
  have hsame : ∀ x : Conn,
      (if x.fd ∈ evs.map Event.fd then { x with armed := false } else x).registered = x.registered ∧
        (if x.fd ∈ evs.map Event.fd then { x with armed := false } else x).id = x.id ∧
        (if x.fd ∈ evs.map Event.fd then { x with armed := false } else x).fd = x.fd := by
    intro x
    split <;> exact ⟨rfl, rfl, rfl⟩
  unfold openConns disarm
  rw [List.filter_map, List.map_map]
  simp only [Function.comp_def, fun x => (hsame x).1, fun x => (hsame x).2.1, fun x => (hsame x).2.2]

/-- What accepting a connection does to the open connections and the count. -/
private theorem addUser_openConns {s u s' : Server} {fd now : Nat} {type : ClientType} {content : Option Ssl}
    (hconns : u.openConns = s.openConns) (hcount : u.userCount = s.userCount) (hid : u.nextConn = s.nextConn)
    (h : u.addUser fd now type content = .ok s') : s.OnlyOpens s' [] ∨ s.OnlyCloses s' [] := by
  obtain ⟨-, rfl⟩ | ⟨-, rfl⟩ := addUser_ok h
  · exact Or.inr (OnlyCloses.of_eq hconns hcount hid.ge)
  · refine Or.inl ⟨rfl, ⟨fd, ?_⟩, congrArg (· + 1) hcount, congrArg (· + 1) hid⟩
    rw [← hconns, ← hid]
    rfl

private theorem addClient_openConns {s s' : Server} {es : List Event} {o : Answers}
    (h : addClient_ { s with events := es } o = some (.ok s')) : s.OnlyOpens s' [] ∨ s.OnlyCloses s' [] := by
  obtain ⟨-, hr⟩ | ⟨fd, -, -, hr⟩ := addClient_result h
  · cases hr
    exact Or.inr (OnlyCloses.of_eq rfl rfl le_rfl)
  · exact addUser_openConns (by rfl) (by rfl) (by rfl) hr

/-- A connection whose handshake fails is not one of the open ones: it has no slot. -/
private theorem addSslClient_openConns {s s' : Server} {es : List Event} {o : Answers}
    (h : addSslClient_ { s with events := es } o = some (.ok s')) : s.OnlyOpens s' [] ∨ s.OnlyCloses s' [] := by
  obtain ⟨-, hr⟩ | ⟨fd, -, -, ⟨-, hr⟩ | ⟨-, ⟨-, hr⟩ | ⟨-, hr⟩⟩⟩ := addSslClient_result h
  · cases hr
    exact Or.inr (OnlyCloses.of_eq rfl rfl le_rfl)
  · cases hr
  · exact addUser_openConns (by rfl) (by rfl) (by rfl) hr
  · cases hr
    exact Or.inr (OnlyCloses.of_eq rfl rfl (Nat.le_succ _))

theorem readable_openConns {s s' : Server} {e : Event} {es : List Event} {now : Nat}
    (h : Server.readable { s with events := es } e now = .ok s') : s.OnlyCloses s' [] := by
  unfold Server.readable at h
  split at h
  · cases h
  · split at h
    · cases h
      unfold append
      split <;> exact OnlyCloses.of_eq rfl rfl le_rfl
    · cases h

theorem hangUp_openConns {s s' : Server} {e : Event} {es : List Event} (hs : Sockets s) (hused : s.Used e.fd)
    (h : Server.hangUp .returning { s with events := es } e = .ok s') : s.OnlyCloses s' [e.fd] := by
  obtain ⟨hconns, hcount, hnext⟩ := OnlyCloses.closed hs hused
  unfold Server.hangUp at h
  rw [close_returning] at h
  dsimp only at h
  split at h
  · cases h
    exact ⟨hconns, hcount, hnext⟩
  · split at h
    · cases h
      exact ⟨hconns, hcount, hnext⟩
    · cases h

private theorem handle_openConns {s s' : Server} {e : Event} {es : List Event} {o : Answers} (hwf : WellFormed s)
    (he : s.events = e :: es) (h : handle .returning { s with events := es } e o = some (.ok s')) :
    s.OnlyOpens s' (s.closing (.dispatch o)) ∨ s.OnlyCloses s' (s.closing (.dispatch o)) := by
  have hb := handle_branch .returning { s with events := es } e o
  rw [h] at hb
  cases hb with
  | listen hfd hr =>
    rw [closing_accept he (Or.inl hfd)]
    exact addClient_openConns hr
  | ssl _ hfd hr =>
    rw [closing_accept he (Or.inr hfd)]
    exact addSslClient_openConns hr
  | exits _ _ _ hr => cases hr
  | alarm hne hfd ht hr =>
    cases hr
    rw [closing_alarm he hne hfd]
    have hs : Sockets { s with events := es } := hwf.toSockets.frame rfl rfl fun _ => rfl
    obtain ⟨hconns, hcount⟩ := hs.timeout_openConns hwf.timers ht
    obtain ⟨_, _, _, _, hframe⟩ := timeout_frame ht
    refine Or.inr ⟨hconns, ?_, ?_⟩
    · rw [hcount, List.length_map]
    · rw [hframe]
  | term hne hnot hfd hr =>
    cases hr
    rw [closing_term he hne hnot hfd]
    exact Or.inr (OnlyCloses.of_eq rfl rfl le_rfl)
  | input hown hin hr =>
    rw [closing_conn he hown, hin]
    exact Or.inr (readable_openConns (Option.some.inj hr))
  | hup hown hin hr =>
    rw [closing_conn he hown, hin]
    have hused : s.Used e.fd := (hwf.events e (he ▸ List.mem_cons_self ..)).resolve_left hown
    exact Or.inr (hangUp_openConns hwf.toSockets hused (Option.some.inj hr))

theorem processStep_openConns {s s' : Server} {w : Nat} {i : ProcInput} (hwf : WellFormed s)
    (h : s.processStep .returning w i = some (.ok s')) : s.OnlyCloses s' (s.closing (.process w i)) := by
  obtain ⟨job, held, ph, hw, ⟨-, hr⟩ | ⟨hnull, -, ⟨-, hr⟩ | ⟨hd, users, ph', close, hs, hr⟩⟩⟩ := processStep_result h
  · cases hr
  · cases hr
  · rw [closing_process hw, ← hs.close_eq]
    cases close with
    | false =>
      cases hr
      rw [if_neg (by simp)]
      exact OnlyCloses.of_eq rfl rfl le_rfl
    | true =>
      rw [if_pos rfl, close_returning] at hr
      cases hr
      rw [if_pos ⟨rfl, hnull⟩]
      have hwf' : WellFormed (s.served w job held ph' hd users) := hwf.served hw hs
      have hused : s.Used job.slot := hwf.workers _ (List.mem_of_getElem? hw) job (Worker.serving_of_procStep hs)
      have hclosed := OnlyCloses.closed hwf'.toSockets ((Used.congr (served_socket hs _)).2 hused)
      exact ⟨hclosed.conns, hclosed.count, hclosed.nextConn⟩

/-- What a step that does not end the process does to the open connections and the count. -/
theorem effect_openConns {s s' : Server} {l : Label} (hwf : WellFormed s)
    (h : s.effect .returning l = some (.ok s')) :
    s.OnlyOpens s' (s.closing l) ∨ s.OnlyCloses s' (s.closing l) := by
  cases l with
  | dispatch o =>
    obtain ⟨e, es, he, hh⟩ := effect_dispatch h
    exact handle_openConns hwf he hh
  | process w i => exact Or.inr (processStep_openConns hwf h)
  | epollWait evs =>
    cases effect_cases h
    exact Or.inr (OnlyCloses.of_eq (openConns_disarm s evs) rfl le_rfl)
  | take w | getConnection w | releaseConnection w =>
    cases effect_cases h
    exact Or.inr (OnlyCloses.of_eq rfl rfl le_rfl)

/-! ### The number of open connections -/

/-- How far the count is below the number of open connections. -/
def deficit (s : Server) : Int := s.openConns.length - s.userCount

private theorem OnlyOpens.deficit {s s' : Server} {closing : List Nat} (h : s.OnlyOpens s' closing) :
    s'.deficit = s.deficit := by
  obtain ⟨fd, hconns⟩ := h.conns
  rw [Server.deficit, Server.deficit, hconns, h.count, List.length_cons]
  omega

private theorem OnlyCloses.deficit {s s' : Server} (h : s.OnlyCloses s' []) : s'.deficit = s.deficit := by
  have hconns : s'.openConns = s.openConns := by simpa using h.conns
  rw [Server.deficit, Server.deficit, hconns, h.count]
  simp

/-- A `close()` that returns has found the connection of its slot open. -/
private theorem Sockets.open_of_close {s s' : Server} (h : Sockets s) {slot : Nat} (hu : s.Used slot)
    (hc : s.close .onOpen slot = some s') : s.Open slot := by
  rw [close_onOpen] at hc
  split at hc
  · rename_i hdel
    unfold epollDel at hdel
    split at hdel
    · rename_i hany
      simp only [List.any_eq_true, Bool.decide_and, Bool.and_eq_true, decide_eq_true_eq] at hany
      obtain ⟨x, hx, hfd, hreg⟩ := hany
      refine ⟨x, hx, ?_, hreg⟩
      rcases h.sockfd slot hu with hs | hs
      · rw [hs] at hfd
        exact_mod_cast hfd
      · omega
    · exact absurd hdel (by decide)
  · cases hc

/-- Such a `close()` takes one from the open connections and from the count. -/
private theorem Sockets.deficit_close {s s' : Server} (h : Sockets s) {slot : Nat} (hu : s.Used slot)
    (hc : s.close .onOpen slot = some s') : s'.deficit = s.deficit := by
  have hmem : slot ∈ s.openConns.map Prod.snd := open_iff.1 (h.open_of_close hu hc)
  have hleft : (s.closed slot).openConns.map Prod.snd = (s.openConns.map Prod.snd).erase slot := by
    rw [h.openConns_closed hu, h.nodup_openConns.erase_eq_filter, List.filter_map]
    congr 1
    refine List.filter_congr fun x _ => ?_
    by_cases hx : x.2 = slot
    · simp [hx]
    · simp [hx]
  have hlength := congrArg List.length hleft
  rw [List.length_erase_of_mem hmem, List.length_map, List.length_map] at hlength
  have hpos : 0 < s.openConns.length := by
    rw [← List.length_map (f := Prod.snd)]
    exact List.length_pos_of_mem hmem
  have hcount : (s.closed slot).userCount = s.userCount - 1 := rfl
  rw [close_eq_some hc, deficit, deficit, hlength, hcount]
  omega

private theorem Sockets.deficit_timeout {cur : Nat} {l : SortedTimerList} {s s' : Server} (h : Sockets s)
    (hl : ∀ t ∈ l, s.Used t.data) (ht : Server.timeout .onOpen cur l s = some s') : s'.deficit = s.deficit := by
  induction l generalizing s with
  | nil =>
    cases ht
    rfl
  | cons t rest ih =>
    have hused := hl t (List.mem_cons_self ..)
    unfold Server.timeout at ht
    split at ht
    · cases ht
      rfl
    · obtain ⟨s₁, hc, ht⟩ := Option.bind_eq_some_iff.1 ht
      have hone := h.deficit_close hused hc
      rw [close_eq_some hc] at ht hone
      have hrest : ∀ x ∈ rest, (s.closed t.data).Used x.data :=
        fun x hx => closed_used.2 (hl x (List.mem_cons_of_mem _ hx))
      exact (ih (h.closed hused) hrest ht).trans hone

private theorem Sockets.deficit_hangUp {s s' : Server} {e : Event} (h : Sockets s) (hu : s.Used e.fd)
    (hr : s.hangUp .onOpen e = .ok s') : s'.deficit = s.deficit := by
  unfold Server.hangUp at hr
  split at hr
  · cases hr
  · rename_i s₁ hc
    have hone := h.deficit_close hu hc
    split at hr
    · cases hr
      exact hone
    · split at hr
      · cases hr
        exact hone
      · cases hr

private theorem handle_deficit {s s' : Server} {e : Event} {es : List Event} {o : Answers} (hwf : WellFormed s)
    (he : s.events = e :: es) (h : handle .onOpen { s with events := es } e o = some (.ok s')) :
    s'.deficit = s.deficit := by
  have hs : Sockets { s with events := es } := hwf.toSockets.frame rfl rfl fun _ => rfl
  have hsame : deficit { s with events := es } = s.deficit := rfl
  have hopens : s.OnlyOpens s' [] ∨ s.OnlyCloses s' [] → s'.deficit = s.deficit :=
    fun hc => hc.elim OnlyOpens.deficit OnlyCloses.deficit
  have hb := handle_branch .onOpen { s with events := es } e o
  rw [h] at hb
  cases hb with
  | listen _ hr => exact hopens (addClient_openConns hr)
  | ssl _ _ hr => exact hopens (addSslClient_openConns hr)
  | exits _ _ _ hr => cases hr
  | alarm _ _ ht hr =>
    cases hr
    rw [← hsame]
    exact hs.deficit_timeout hwf.timers ht
  | term _ _ _ hr =>
    cases hr
    rfl
  | input _ _ hr => exact (readable_openConns (Option.some.inj hr)).deficit
  | hup hown _ hr =>
    have hused : s.Used e.fd := (hwf.events e (he ▸ List.mem_cons_self ..)).resolve_left hown
    rw [← hsame]
    exact hs.deficit_hangUp hused (Option.some.inj hr)

private theorem processStep_deficit {s s' : Server} {w : Nat} {i : ProcInput} (hwf : WellFormed s)
    (h : s.processStep .onOpen w i = some (.ok s')) : s'.deficit = s.deficit := by
  obtain ⟨job, held, ph, hw, ⟨-, hr⟩ | ⟨-, -, ⟨-, hr⟩ | ⟨hd, users, ph', close, hs, hr⟩⟩⟩ := processStep_result h
  · cases hr
  · cases hr
  · have hsame : (s.served w job held ph' hd users).deficit = s.deficit := rfl
    cases close with
    | false =>
      cases hr
      exact hsame
    | true =>
      rw [if_pos rfl] at hr
      have hwf' : WellFormed (s.served w job held ph' hd users) := hwf.served hw hs
      have hused : s.Used job.slot := hwf.workers _ (List.mem_of_getElem? hw) job (Worker.serving_of_procStep hs)
      cases hc : (s.served w job held ph' hd users).close .onOpen job.slot with
      | none =>
        rw [hc] at hr
        cases hr
      | some s₁ =>
        rw [hc] at hr
        cases hr
        exact (hwf'.toSockets.deficit_close ((Used.congr (served_socket hs _)).2 hused) hc).trans hsame

/-- With a `remove_fd` that returns on an open descriptor only, every step changes the count as it changes the number
of open connections. -/
theorem deficit_step {s s' : Server} {l : Label} (hwf : WellFormed s) (h : s.step .onOpen l = some s') :
    s'.deficit = s.deficit := by
  obtain ⟨-, ⟨why, -, rfl⟩ | ⟨heff, -⟩⟩ := step_cases h
  · rfl
  · cases l with
    | dispatch o =>
      obtain ⟨e, es, he, hh⟩ := effect_dispatch heff
      exact handle_deficit hwf he hh
    | process w i => exact processStep_deficit hwf heff
    | epollWait evs =>
      cases effect_cases heff
      exact congrArg (fun x : List (Nat × Nat) => (x.length : Int) - s.userCount) (openConns_disarm s evs)
    | take w | getConnection w | releaseConnection w =>
      cases effect_cases heff
      rfl

end Server

end ImageServer
