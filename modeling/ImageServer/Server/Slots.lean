import ImageServer.Server.SslAccept
import Mathlib.Data.List.Dedup

/-!
# Slots and descriptors

`users_` has `MAX_FD` elements and is indexed by the descriptor of the connection, but `add_client_` and
`add_ssl_client_` compare `m_user_count` with `MAX_FD`.  The process has other descriptors open too, and `accept`
returns the lowest one that is free, so the array is left when the connections and the other descriptors together take
up all the numbers below `MAX_FD`, while fewer connections than `MAX_FD` are open.

Besides the steps of the server the process opens and closes descriptors for files, at any time (`DescriptorStep`).  In
a run every accepted connection is given to a slot inside of `users_`, or else closed, exactly when there is room at
every `accept` that gets past the test, and no handshake fails (`slotsInRange_iff`).
-/

namespace ImageServer

open Transition

/-- A step of the server, or a file is opened or closed by some thread. -/
inductive DescriptorStep
  | server (l : Label)
  | openFile (fd : Nat)
  | closeFile (fd : Nat)

namespace Server

/-- `open` returns the lowest descriptor not in use, and what is closed is none of the own descriptors. -/
def stepFiles (rm : RemoveFd) (s : Server) : DescriptorStep → Option Server
  | .server l => s.step rm l
  | .openFile fd => if s.stop = none ∧ s.LowestFree fd then some { s with reserved := fd :: s.reserved } else none
  | .closeFile fd =>
    if s.stop = none ∧ fd ∈ s.reserved ∧ fd ∉ s.own then some { s with reserved := s.reserved.filter (· ≠ fd) }
    else none

/-- The descriptor `accept` returns to `add_client_` or `add_ssl_client_` in the step. -/
def accepts (s : Server) : Label → Option Nat
  | .dispatch o =>
    match s.events with
    | [] => none
    | e :: _ => if e.fd = s.listenfd ∨ e.fd = s.sslFd then o.accepted else none
  | _ => none

/-- When the step accepts a connection and goes on to use `users_[connfd]`, this is an element of the array; when it
does not go on, the connection is closed. -/
def SlotInRange (rm : RemoveFd) (s : Server) : DescriptorStep → Prop
  | .server l => ∀ fd s', s.accepts l = some fd → s.step rm l = some s' →
      (s.opens l = some fd → fd < MAX_FD) ∧ (s.opens l = none → s'.stop = none ∧ ¬ s'.IsConn fd)
  | _ => True

/-- The number of open descriptors below `MAX_FD` that are no connections. -/
def othersBelow (s : Server) : Nat := (s.reserved.dedup.filter fun k => k < MAX_FD).length

/-- When the step gets past the test of `m_user_count`, the connections and the other descriptors leave a number below
`MAX_FD`; and it does not fail to set up SSL on a connection it has accepted. -/
def LeavesRoom (s : Server) : DescriptorStep → Prop
  | .server l => (s.opens l ≠ none → s.conns.length + s.othersBelow < MAX_FD) ∧ s.failsHandshake l = false
  | _ => True

instance (s : Server) : ∀ d, Decidable (s.LeavesRoom d)
  | .server l => inferInstanceAs (Decidable ((s.opens l ≠ none → s.conns.length + s.othersBelow < MAX_FD) ∧
      s.failsHandshake l = false))
  | .openFile _ | .closeFile _ => .isTrue trivial

/-! ### The lowest free descriptor -/

/-- The connections have slots, besides what holds in every state. -/
structure Slotted (s : Server) : Prop extends WellFormed s where
  inRange : ∀ x ∈ s.conns, x.fd < MAX_FD
  accepting : s.AcceptsSsl

/-- The lowest free descriptor is below `MAX_FD` exactly when there are numbers left. -/
private theorem Slotted.lowestFree_lt {s : Server} (h : Slotted s) {fd : Nat} (hfree : s.LowestFree fd) :
    fd < MAX_FD ↔ s.conns.length + s.othersBelow < MAX_FD := by
  have hmem : ∀ k, k ∈ s.conns.map Conn.fd ++ s.reserved.dedup.filter (fun k => k < MAX_FD) ↔
      s.IsConn k ∨ k ∈ s.reserved ∧ k < MAX_FD := by
    intro k
    simp [IsConn]
  have hlength : (s.conns.map Conn.fd ++ s.reserved.dedup.filter fun k => k < MAX_FD).length =
      s.conns.length + s.othersBelow := by
    rw [List.length_append, List.length_map]
    rfl
  constructor
  · intro hlt
    -- with `fd` these are different numbers below `MAX_FD`
    have hnodup : (fd :: (s.conns.map Conn.fd ++ s.reserved.dedup.filter fun k => k < MAX_FD)).Nodup := by
      rw [List.nodup_cons]
      refine ⟨fun hin => ?_, List.nodup_append.2 ⟨h.nodup, (List.nodup_dedup _).filter _, ?_⟩⟩
      · rcases (hmem fd).1 hin with hconn | hres
        · exact hfree.2.1 hconn
        · exact hfree.1 hres.1
      · rintro _ hk k hk' rfl
        obtain ⟨x, hx, hfd⟩ := List.mem_map.1 hk
        have hres : x.fd ∈ s.reserved := by
          rw [hfd]
          exact List.mem_dedup.1 (List.mem_filter.1 hk').1
        exact h.apart x hx hres
    have hsub : fd :: (s.conns.map Conn.fd ++ s.reserved.dedup.filter fun k => k < MAX_FD) ⊆ List.range MAX_FD := by
      intro k hk
      rw [List.mem_range]
      rcases List.mem_cons.1 hk with rfl | hk
      · exact hlt
      · rcases (hmem k).1 hk with ⟨x, hx, rfl⟩ | hres
        · exact h.inRange x hx
        · exact hres.2
    have hle := hnodup.length_le_of_subset hsub
    rw [List.length_cons, hlength, List.length_range] at hle
    omega
  · intro hroom
    by_contra hge
    -- otherwise all numbers below `MAX_FD` are in use
    have hsub : List.range MAX_FD ⊆ s.conns.map Conn.fd ++ s.reserved.dedup.filter fun k => k < MAX_FD := by
      intro k hk
      have hk : k < MAX_FD := List.mem_range.1 hk
      rw [hmem]
      exact (hfree.2.2 k (by omega)).symm.imp_right fun hres => ⟨hres, hk⟩
    have hle := (List.nodup_range (n := MAX_FD)).length_le_of_subset hsub
    rw [hlength, List.length_range] at hle
    omega

/-! ### One step -/

private theorem accepts_eq {s : Server} {l : Label} {fd : Nat} (h : s.accepts l = some fd) :
    ∃ o e es, l = .dispatch o ∧ s.events = e :: es ∧ (e.fd = s.listenfd ∨ e.fd = s.sslFd) ∧ o.accepted = some fd := by
  cases l with
  | dispatch o =>
    cases he : s.events with
    | nil => simp [accepts, he] at h
    | cons e es =>
      simp only [accepts, he] at h
      split at h
      · exact ⟨o, e, es, rfl, rfl, ‹_›, h⟩
      · cases h
  | epollWait | take | getConnection | process | releaseConnection => cases h

/-- A step that accepts no connection. -/
private theorem accepts_none {s : Server} {l : Label} (h : s.accepts l = none) :
    s.opens l = none ∧ s.failsHandshake l = false := by
  cases l with
  | dispatch o =>
    cases he : s.events with
    | nil => simp [opens, failsHandshake, he]
    | cons e es =>
      simp only [accepts, he] at h
      constructor
      · refine opens_eq_none he ?_
        by_cases hfd : e.fd = s.listenfd ∨ e.fd = s.sslFd
        · rw [if_pos hfd] at h
          exact Or.inl h
        · exact Or.inr (Or.inr fun hc => hfd (hc.imp_right And.left))
      · simp only [failsHandshake, he, decide_eq_false_iff_not]
        rintro ⟨hne, hfd, hacc, -⟩
        rw [if_pos (Or.inr hfd)] at h
        exact hacc h
  | epollWait | take | getConnection | process | releaseConnection => exact ⟨rfl, rfl⟩

private theorem step_effect {rm : RemoveFd} {s s' : Server} {l : Label} (h : s.step rm l = some s') :
    s.stop = none ∧ ∃ r, s.effect rm l = some r ∧ ∀ s₁, r = .ok s₁ → s' = s₁ := by
  obtain ⟨hstop, ⟨why, heff, -⟩ | ⟨heff, -⟩⟩ := step_cases h
  · refine ⟨hstop, _, heff, fun s₁ hr => ?_⟩
    cases hr
  · refine ⟨hstop, _, heff, fun s₁ hr => ?_⟩
    cases hr
    rfl

private theorem step_error {rm : RemoveFd} {s : Server} {l : Label} {why : Stop} (hstop : s.stop = none)
    (heff : s.effect rm l = some (.error why)) : s.step rm l = some { s with stop := some why } := by
  unfold step
  split
  · rename_i why hsome
    rw [hstop] at hsome
    cases hsome
  · rw [heff]
    rfl

private theorem step_ok {rm : RemoveFd} {s s' : Server} {l : Label} (hstop : s.stop = none)
    (heff : s.effect rm l = some (.ok s')) : s.step rm l = some s' := by
  unfold step
  split
  · rename_i why hsome
    rw [hstop] at hsome
    cases hsome
  · rw [heff]
    rfl

/-- What becomes of a connection that is accepted: it goes to a slot, it is closed, or it stays open after a failed
handshake. -/
private theorem accepts_cases {rm : RemoveFd} {s s' : Server} {l : Label} {fd : Nat} (hctx : s.sslContext = true)
    (hacc : s.accepts l = some fd) (h : s.step rm l = some s') :
    s.LowestFree fd ∧ (s.opens l = some fd ∧ s.failsHandshake l = false ∨
      s.opens l = none ∧ s.failsHandshake l = false ∧ s'.stop = none ∧ s'.conns = s.conns ∨
      s.opens l = none ∧ s.failsHandshake l = true ∧ s'.IsConn fd) := by
  obtain ⟨o, e, es, rfl, he, hfd, ho⟩ := accepts_eq hacc
  obtain ⟨hstop, r, heff, hr⟩ := step_effect h
  simp only [effect, he, handle] at heff
  by_cases hlisten : e.fd = s.listenfd
  · have hnofail : s.failsHandshake (.dispatch o) = false := by simp [failsHandshake, he, hlisten]
    rw [if_pos hlisten] at heff
    obtain ⟨hnone, -⟩ | ⟨fd', hfd', hfree, hadd⟩ := addClient_result heff
    · cases ho.symm.trans hnone
    cases ho.symm.trans hfd'
    refine ⟨hfree, ?_⟩
    by_cases hcount : s.userCount = MAX_FD
    · have hs' := hr _ (hadd.symm.trans (if_pos hcount))
      right
      left
      rw [hs']
      exact ⟨opens_eq_none he (Or.inr (Or.inl hcount)), hnofail, hstop, rfl⟩
    · exact Or.inl ⟨(opens_eq he (Or.inl hlisten) hcount).trans ho, hnofail⟩
  · have hssl : e.fd = s.sslFd := hfd.resolve_left hlisten
    rw [if_neg hlisten, if_pos hssl] at heff
    obtain ⟨hnone, -⟩ | ⟨fd', hfd', hfree, ⟨hno, -⟩ | ⟨-, ⟨hok, hadd⟩ | ⟨hbad, hfailed⟩⟩⟩ := addSslClient_result heff
    · cases ho.symm.trans hnone
    · cases hctx.symm.trans hno
    · cases ho.symm.trans hfd'
      refine ⟨hfree, ?_⟩
      have hnofail : s.failsHandshake (.dispatch o) = false := by simp [failsHandshake, he, hok]
      by_cases hcount : s.userCount = MAX_FD
      · have hs' := hr _ (hadd.symm.trans (if_pos hcount))
        right
        left
        rw [hs']
        exact ⟨opens_eq_none he (Or.inr (Or.inl hcount)), hnofail, hstop, rfl⟩
      · exact Or.inl ⟨(opens_eq he (Or.inr ⟨hssl, hok⟩) hcount).trans ho, hnofail⟩
    · cases ho.symm.trans hfd'
      refine ⟨hfree, Or.inr (Or.inr ?_)⟩
      have hfail : s.failsHandshake (.dispatch o) = true := by
        simp only [failsHandshake, he]
        exact decide_eq_true ⟨hlisten, hssl, by simp [ho], hbad⟩
      have hno : ¬ (e.fd = s.listenfd ∨ e.fd = s.sslFd ∧ o.handshake = .succeeds) :=
        fun hc => hc.elim hlisten fun hc => hbad hc.2
      rw [hr _ hfailed]
      exact ⟨opens_eq_none he (Or.inr (Or.inr hno)), hfail, _, List.mem_cons_self .., rfl⟩

/-- The accepted connection has a slot or is closed exactly when there is room for it and its handshake does not
fail. -/
private theorem Slotted.slotInRange_iff {rm : RemoveFd} {s s' : Server} {d : DescriptorStep} (h : Slotted s)
    (hs : s.stepFiles rm d = some s') : s.SlotInRange rm d ↔ s.LeavesRoom d := by
  cases d with
  | openFile | closeFile => exact Iff.rfl
  | server l =>
    cases hacc : s.accepts l with
    | none =>
      obtain ⟨hopens, hfails⟩ := accepts_none hacc
      refine iff_of_true (fun fd s₁ hfd => ?_) ⟨fun hne => absurd hopens hne, hfails⟩
      rw [hacc] at hfd
      cases hfd
    | some fd =>
      obtain ⟨hfree, hcases⟩ := accepts_cases h.accepting.2 hacc hs
      have hlt := h.lowestFree_lt hfree
      constructor
      · intro hin
        obtain ⟨huses, hcloses⟩ := hin fd s' hacc hs
        rcases hcases with ⟨hopens, hfails⟩ | ⟨hopens, hfails, -⟩ | ⟨hopens, -, hconn⟩
        · exact ⟨fun _ => hlt.1 (huses hopens), hfails⟩
        · exact ⟨fun hne => absurd hopens hne, hfails⟩
        · exact absurd hconn (hcloses hopens).2
      · rintro ⟨hroom, hnofail⟩ fd' s₁ hfd' hs₁
        cases hacc.symm.trans hfd'
        cases Option.some.inj (hs.symm.trans hs₁)
        rcases hcases with ⟨hopens, -⟩ | ⟨hopens, -, hstop, hconns⟩ | ⟨-, hfails, -⟩
        · have hne : s.opens l ≠ none := by simp [hopens]
          refine ⟨fun _ => hlt.2 (hroom hne), fun hno => absurd hno hne⟩
        · refine ⟨fun hsome => by simp [hopens] at hsome, fun _ => ⟨hstop, ?_⟩⟩
          rintro ⟨x, hx, hxfd⟩
          rw [hconns] at hx
          exact hfree.2.1 ⟨x, hx, hxfd⟩
        · rw [hnofail] at hfails
          cases hfails

/-! ### Runs -/

private theorem WellFormed.setReserved {s : Server} (h : WellFormed s) {reserved : List Nat}
    (hr : ∀ x ∈ s.conns, x.fd ∉ reserved) : WellFormed { s with reserved := reserved } where
  nodup := h.nodup
  apart := hr
  sockfd := h.sockfd
  registered := h.registered
  io := h.io
  timers := h.timers
  queue := h.queue
  workers := h.workers
  events := h.events

/-- The connections of the next state are those of this one, and the one that is opened. -/
private theorem Step.conns_fd {rm : RemoveFd} {s s' : Server} {l : Label} (h : Step rm s l s')
    (hl : s.failsHandshake l = false) : ∀ x ∈ s'.conns, s.IsConn x.fd ∨ s.LowestFree x.fd ∧ s.opens l = some x.fd := by
  have hsame : ∀ x ∈ s.conns, s.IsConn x.fd ∨ s.LowestFree x.fd ∧ s.opens l = some x.fd :=
    fun x hx => Or.inl ⟨x, hx, rfl⟩
  cases h with
  | epollWait =>
    intro x hx
    obtain ⟨y, hy, -, hfd, -⟩ := mem_disarm hx
    exact Or.inl ⟨y, hy, hfd.symm⟩
  | opened he hown hfree hopens =>
    intro x hx
    rcases List.mem_cons.1 hx with rfl | hx
    · exact Or.inr ⟨hfree, hopens⟩
    · exact hsame x hx
  | sslFailed _ _ _ hf =>
    rw [hl] at hf
    cases hf
  | timeout _ _ ht => exact fun x hx => hsame x (timeout_conns ht x hx)
  | readable =>
    unfold append
    split <;> exact hsame
  | hangUp | close => exact fun x hx => hsame x (mem_closed_conns.1 hx).1
  | ignored | term | take | getConnection | process | releaseConnection => exact hsame

private theorem Slotted.step {rm : RemoveFd} {s s' : Server} {d : DescriptorStep} (h : Slotted s)
    (hroom : s.LeavesRoom d) (hs : s.stepFiles rm d = some s') : Slotted s' := by
  cases d with
  | server l =>
    refine ⟨h.toWellFormed.of_step hs, ?_, h.accepting.step hroom.2 hs⟩
    obtain ⟨-, ⟨why, -, rfl⟩ | ⟨-, hstep⟩⟩ := step_cases hs
    · exact h.inRange
    · intro x hx
      rcases hstep.conns_fd hroom.2 x hx with ⟨y, hy, hfd⟩ | ⟨hfree, hopens⟩
      · rw [← hfd]
        exact h.inRange y hy
      · exact (h.lowestFree_lt hfree).2 (hroom.1 (by simp [hopens]))
  | openFile fd =>
    simp only [stepFiles] at hs
    split at hs
    · cases hs
      have hfree := And.right ‹_ ∧ s.LowestFree fd›
      refine ⟨h.toWellFormed.setReserved fun x hx hr => ?_, h.inRange, ?_⟩
      · rcases List.mem_cons.1 hr with hfd | hr
        · exact hfree.2.1 ⟨x, hx, hfd⟩
        · exact h.apart x hx hr
      · exact ⟨List.mem_cons_of_mem _ h.accepting.1, h.accepting.2⟩
    · cases hs
  | closeFile fd =>
    simp only [stepFiles] at hs
    split at hs
    · cases hs
      have hown : fd ∉ s.own := And.right (And.right ‹_ ∧ _ ∧ _›)
      refine ⟨h.toWellFormed.setReserved fun x hx hr => h.apart x hx (List.mem_filter.1 hr).1, h.inRange, ?_⟩
      refine ⟨List.mem_filter.2 ⟨h.accepting.1, ?_⟩, h.accepting.2⟩
      have hne : s.sslFd ≠ fd := by
        rintro rfl
        exact hown (by simp [own])
      exact decide_eq_true hne
    · cases hs

private theorem slotted_start (c : Setup) : Slotted c.start where
  toWellFormed := wellFormed_start c
  inRange := by simp [Setup.start]
  accepting := ⟨c.isOpen c.sslFd (by simp), rfl⟩

/-- In a run every accepted connection has a slot of its own in `users_` or is closed, exactly when every `accept` that
gets past the test of `m_user_count` finds fewer than `MAX_FD` connections and other descriptors below `MAX_FD`, and no
handshake fails. -/
theorem slotsInRange_iff {rm : RemoveFd} {c : Setup} {ds : List DescriptorStep} {t : Server}
    (h : run (stepFiles rm) c.start ds = some t) :
    Meets (stepFiles rm) (SlotInRange rm) c.start ds ↔ Meets (stepFiles rm) LeavesRoom c.start ds := by
  refine meets_congr (P := Slotted) ?_ ?_ (slotted_start c) h
  · exact fun s d s' hs hs' => hs.slotInRange_iff hs'
  · exact fun s d s' hs hroom hs' => hs.step hroom hs'

/-- An HTTP client connects, after a file has been opened. -/
def connectAfterFile : List DescriptorStep :=
  [.openFile 19, .server (.epollWait [.input 14 none]), .server (.dispatch ⟨0, some 20, .succeeds⟩), .closeFile 19]

theorem slotsInRange_iff_connect :
    ∃ t, run (stepFiles .returning) Setup.default.start connectAfterFile = some t ∧
      Meets (stepFiles .returning) (SlotInRange .returning) Setup.default.start connectAfterFile :=
  exists_run (by decide +kernel) fun _ ht => (slotsInRange_iff ht).2 (by decide +kernel)

/-! ### More connections than slots -/

/-- An HTTP client connects. -/
def connect (fd : Nat) : List DescriptorStep :=
  [.server (.epollWait [.input 14 none]), .server (.dispatch ⟨0, some fd, .succeeds⟩)]

/-- `n` clients connect. -/
def flood : Nat → List DescriptorStep
  | 0 => []
  | n + 1 => flood n ++ connect (19 + n)

/-- `n` clients have connected, and have the descriptors from 19 on; `es` is left to be handled. -/
structure Flooded (n : Nat) (es : List Event) (s : Server) : Prop where
  runs : s.stop = none
  looping : s.serverState = .running
  listening : s.listenfd = 14
  reserved : s.reserved = List.range 19
  events : s.events = es
  count : s.userCount = n
  conns : ∀ k, s.IsConn k ↔ 19 ≤ k ∧ k < 19 + n

private theorem Flooded.lowestFree {n : Nat} {es : List Event} {s : Server} (h : Flooded n es s) :
    s.LowestFree (19 + n) := by
  refine ⟨?_, ?_, fun k hk => ?_⟩
  · rw [h.reserved, List.mem_range]
    omega
  · rw [h.conns]
    omega
  · rw [h.reserved, List.mem_range, h.conns]
    omega

/-- `epoll_wait` reports the listening socket. -/
private theorem Flooded.wait {n : Nat} {s : Server} (h : Flooded n [] s) (rm : RemoveFd) :
    ∃ s', s.step rm (.epollWait [.input 14 none]) = some s' ∧ Flooded n [.input 14 none] s' := by
  have hreports : ∀ e ∈ [Event.input 14 none], s.Reports e := by
    intro e he
    rw [List.mem_singleton.1 he]
    refine Or.inl ⟨rfl, ?_, ?_⟩
    · rw [own, h.listening]
      exact List.mem_cons_self ..
    · rw [h.reserved]
      decide
  have heff : s.effect rm (.epollWait [.input 14 none]) =
      some (.ok { s with events := [.input 14 none], conns := s.disarm [.input 14 none] }) :=
    if_pos ⟨h.looping, h.events, by decide, by decide, hreports⟩
  refine ⟨_, step_ok h.runs heff, ?_⟩
  · refine ⟨h.runs, h.looping, h.listening, h.reserved, rfl, h.count, fun k => ?_⟩
    rw [← h.conns k]
    constructor
    · rintro ⟨x, hx, hfd⟩
      obtain ⟨y, hy, -, hfd', -⟩ := mem_disarm hx
      exact ⟨y, hy, hfd'.symm.trans hfd⟩
    · rintro ⟨y, hy, hfd⟩
      obtain ⟨x, hx, -, hfd', -⟩ := disarm_mem [.input 14 none] hy
      exact ⟨x, hx, hfd'.trans hfd⟩

/-- The next client goes through the test of `m_user_count`. -/
private theorem Flooded.effect {n : Nat} {s : Server} (h : Flooded n [.input 14 none] s) (rm : RemoveFd)
    (hn : n ≠ MAX_FD) :
    s.effect rm (.dispatch ⟨0, some (19 + n), .succeeds⟩) =
      some (if MAX_FD ≤ 19 + n then .error (.undefined .slot)
        else .ok (openConn { s with events := [] } (19 + n) 0 .httpClient none)) := by
  have hcount : s.userCount ≠ MAX_FD := by
    rw [h.count]
    exact_mod_cast hn
  have hlisten : (Event.input 14 none).fd = s.listenfd := h.listening.symm
  simp only [Server.effect, h.events, handle]
  rw [if_pos hlisten, addClient_]
  dsimp only
  refine (if_pos h.lowestFree).trans ?_
  exact congrArg some (if_neg hcount)

theorem Flooded.accept {n : Nat} {s : Server} (h : Flooded n [.input 14 none] s) (rm : RemoveFd)
    (hn : 19 + n < MAX_FD) :
    ∃ s', s.step rm (.dispatch ⟨0, some (19 + n), .succeeds⟩) = some s' ∧ Flooded (n + 1) [] s' := by
  have heff := h.effect rm (by omega)
  rw [if_neg (by omega)] at heff
  refine ⟨_, step_ok h.runs heff, ?_⟩
  · refine ⟨h.runs, h.looping, h.listening, h.reserved, rfl, ?_, fun k => ?_⟩
    · show s.userCount + 1 = _
      rw [h.count]
      rfl
    · have hold := h.conns k
      constructor
      · rintro ⟨x, hx, hfd⟩
        rcases List.mem_cons.1 hx with rfl | hx
        · dsimp only at hfd
          omega
        · have hk := hold.1 ⟨x, hx, hfd⟩
          omega
      · intro hk
        by_cases hlast : k = 19 + n
        · exact ⟨_, List.mem_cons_self .., hlast.symm⟩
        · obtain ⟨x, hx, hfd⟩ := hold.2 (by omega)
          exact ⟨x, List.mem_cons_of_mem _ hx, hfd⟩

theorem flood_run (rm : RemoveFd) (n : Nat) (hn : 19 + n ≤ MAX_FD) :
    ∃ s, run (stepFiles rm) Setup.default.start (flood n) = some s ∧ Flooded n [] s := by
  induction n with
  | zero =>
    refine ⟨_, rfl, rfl, rfl, rfl, rfl, rfl, rfl, fun k => ⟨?_, fun hk => by omega⟩⟩
    rintro ⟨x, hx, -⟩
    cases hx
  | succ n ih =>
    obtain ⟨s, hs, h⟩ := ih (by omega)
    obtain ⟨s₁, hs₁, h₁⟩ := h.wait rm
    obtain ⟨s₂, hs₂, h₂⟩ := h₁.accept rm (by omega)
    refine ⟨s₂, ?_, h₂⟩
    rw [flood, run_append, hs]
    simp only [connect, Option.bind_some, run, stepFiles, hs₁, hs₂]

/-- The first client that finds no number below `MAX_FD` is given a slot outside of `users_`. -/
private theorem flood_overflows {n fd : Nat} (hfd : fd = 19 + n) (hmax : fd = MAX_FD) :
    ∃ t, run (stepFiles .returning) Setup.default.start (flood n ++ connect fd) = some t ∧
      t.userCount = n ∧ t.stop = some (.undefined .slot) ∧
      ¬ Meets (stepFiles .returning) (SlotInRange .returning) Setup.default.start (flood n ++ connect fd) := by
  obtain ⟨s, hs, h⟩ := flood_run .returning n (Nat.le_of_eq (hfd.symm.trans hmax))
  obtain ⟨s₁, hs₁, h₁⟩ := h.wait .returning
  have heff := h₁.effect .returning (by omega)
  rw [if_pos (Nat.le_of_eq (hmax.symm.trans hfd)), ← hfd] at heff
  have hs₂ := step_error h₁.runs heff
  refine ⟨{ s₁ with stop := some (.undefined .slot) }, ?_, h₁.count, rfl, fun hm => ?_⟩
  · rw [run_append, hs]
    simp only [connect, Option.bind_some, run, stepFiles, hs₁, hs₂]
  · rw [meets_append _ hs] at hm
    have hlast := (hm.2.2 s₁ hs₁).1
    have hcount : s₁.userCount ≠ MAX_FD := by
      rw [h₁.count]
      omega
    have hopens : s₁.opens (.dispatch ⟨0, some fd, .succeeds⟩) = some fd :=
      opens_eq h₁.events (Or.inl h₁.listening.symm) hcount
    have haccepts : s₁.accepts (.dispatch ⟨0, some fd, .succeeds⟩) = some fd := by
      simp only [accepts, h₁.events]
      exact if_pos (Or.inl h₁.listening.symm)
    have hlt := (hlast fd _ haccepts hs₂).1 hopens
    omega

/-- With 19 descriptors for other purposes, the connection after the first 29981 has the descriptor 30000, which is the
number of elements of `users_`. -/
theorem flood_outOfRange :
    ∃ t, run (stepFiles .returning) Setup.default.start (flood 29981 ++ connect 30000) = some t ∧
      t.userCount = 29981 ∧ t.stop = some (.undefined .slot) ∧
      ¬ Meets (stepFiles .returning) (SlotInRange .returning) Setup.default.start (flood 29981 ++ connect 30000) :=
  flood_overflows rfl rfl

end Server

end ImageServer
