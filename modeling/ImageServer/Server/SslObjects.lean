import ImageServer.Server.SslAccept
import ImageServer.Server.UserCount

/-!
# SSL objects

`SSL_new` makes an object for every client of `ssl_fd_`; once the handshake has succeeded it belongs to the connection,
and ought to be freed when the connection is closed, or refused because there are too many (`sslDue`).  It never is:
`close` compares `m_type` with `HTTPS_CLIENT` after overwriting it, and the branch for a client too many frees nothing
(`sslFrees_eq_nil`).  So the objects alive are those of the open HTTPS connections exactly as long as no such
connection is closed and no such client refused (`sslReleased_iff`).
-/

namespace ImageServer

open Transition

/-- The object of an HTTPS connection. -/
def HttpHandler.sslObject (h : HttpHandler) : Option Ssl := if h.type = .httpsClient then h.sslcontent else none

/-- The object `close` passes to `SSL_free`: `m_type` is overwritten before it is looked at. -/
def HttpHandler.closeFrees (h : HttpHandler) : Option Ssl := sslObject { h with sockfd := -1, type := .invalidClient }

private theorem HttpHandler.sslObject_congr {h h' : HttpHandler} (hs : h'.socket = h.socket) :
    h'.sslObject = h.sslObject := by
  have htype : h'.type = h.type := (congrArg Outside.type hs :)
  have hssl : h'.sslcontent = h.sslcontent := (congrArg Outside.sslcontent hs :)
  unfold sslObject
  rw [htype, hssl]

namespace Server

/-- `m_sslcontent` of the open HTTPS connections. -/
def sslContents (s : Server) : List Ssl := s.openConns.filterMap fun x => (s.users_ x.2).sslObject

/-- The object of a client whose handshake succeeds in the step and who is one too many. -/
def refused (s : Server) (l : Label) : Option Ssl :=
  (s.sslAccepts l).bind fun x => if x.2 = .succeeds ∧ s.userCount = MAX_FD then some ⟨s.nextSsl, x.1⟩ else none

/-- The objects the step ought to free: those of the HTTPS connections it closes, and of a client it refuses. -/
def sslDue (s : Server) (l : Label) : List Ssl :=
  (s.openConns.filter (·.2 ∈ s.closing l)).filterMap (fun x => (s.users_ x.2).sslObject) ++ (s.refused l).toList

/-- The objects with a finished handshake that the step passes to `SSL_free`. -/
def sslFrees (s : Server) (l : Label) : List Ssl :=
  (s.closing l).filterMap (fun slot => (s.users_ slot).closeFrees) ++
    (s.refused l).toList.filter fun _ => SslCall.free ∈ s.sslCalls .succeeds

/-- The step frees what it ought to, and that once. -/
def FreesDue (s : Server) (l : Label) : Prop := (s.sslFrees l).Perm (s.sslDue l)

/-- The step closes no open HTTPS connection and refuses no client whose handshake succeeds. -/
def NoneDue (s : Server) (l : Label) : Prop := s.sslDue l = []

instance (s : Server) (l : Label) : Decidable (s.NoneDue l) := inferInstanceAs (Decidable (s.sslDue l = []))

/-- The objects alive are those of the open HTTPS connections. -/
def SslAlive (s : Server) : Prop := s.ssls.Perm s.sslContents

/-- Nothing is freed. -/
theorem sslFrees_eq_nil (s : Server) (l : Label) : s.sslFrees l = [] := by
  unfold sslFrees
  have hclose : (s.closing l).filterMap (fun slot => (s.users_ slot).closeFrees) = [] :=
    List.filterMap_eq_nil_iff.2 fun _ _ => rfl
  rw [hclose, List.nil_append]
  cases hr : s.refused l with
  | none => rfl
  | some x =>
    obtain ⟨y, -, hy⟩ := Option.bind_eq_some_iff.1 hr
    split at hy
    · rename_i hc
      rw [sslCalls_tooMany hc.2]
      rfl
    · cases hy

private theorem freesDue_iff {s : Server} {l : Label} : s.FreesDue l ↔ s.NoneDue l := by
  rw [FreesDue, sslFrees_eq_nil, NoneDue]
  exact List.nil_perm

/-! ### What a step does to the objects -/

/-- One connection is opened, with the object `content` if it has one. -/
structure OpensWith (s s' : Server) (l : Label) : Prop where
  closing : s.closing l = []
  refused : s.refused l = none
  opened : ∃ fd content, ¬ s.IsConn fd ∧ s'.openConns = (s.nextConn, fd) :: s.openConns ∧
    s'.ssls = content.toList ++ s.ssls ∧ (s'.users_ fd).sslObject = content ∧ ∀ k ≠ fd, s'.users_ k = s.users_ k

/-- The slots of `closing` are closed, and the others keep their objects. -/
structure ClosesOnly (s s' : Server) (l : Label) : Prop where
  conns : s'.openConns = s.openConns.filter (·.2 ∉ s.closing l)
  ssls : s'.ssls = (s.refused l).toList ++ s.ssls
  kept : ∀ k ∉ s.closing l, (s'.users_ k).sslObject = (s.users_ k).sslObject

/-- Nothing is opened or closed. -/
private theorem ClosesOnly.of_eq {s s' : Server} {l : Label} (hclosing : s.closing l = [])
    (hconns : s'.openConns = s.openConns) (hssls : s'.ssls = (s.refused l).toList ++ s.ssls)
    (hkept : ∀ k, (s'.users_ k).sslObject = (s.users_ k).sslObject) : s.ClosesOnly s' l where
  conns := by
    rw [hconns, hclosing]
    simp
  ssls := hssls
  kept k _ := hkept k

private theorem refused_of_not_ssl {s : Server} {e : Event} {es : List Event} {o : Answers} (he : s.events = e :: es)
    (h : ¬ (e.fd ≠ s.listenfd ∧ e.fd = s.sslFd)) : s.refused (.dispatch o) = none := by
  simp only [refused, sslAccepts, he]
  rw [if_neg h]
  rfl

/-- The connection that is opened for an accepted client. -/
private theorem opensWith_openConn {s u : Server} {l : Label} {fd now : Nat} {type : ClientType} {content : Option Ssl}
    (object : Option Ssl) (hclosing : s.closing l = []) (hrefused : s.refused l = none) (hfree : ¬ s.IsConn fd)
    (hconns : u.openConns = s.openConns) (hid : u.nextConn = s.nextConn) (husers : u.users_ = s.users_)
    (hssls : u.ssls = object.toList ++ s.ssls) (hobject : object = if type = .httpsClient then content else none) :
    s.OpensWith (u.openConn fd now type content) l := by
  refine ⟨hclosing, hrefused, fd, object, hfree, ?_, hssls, ?_, fun k hk => ?_⟩
  · rw [← hconns, ← hid]
    rfl
  · rw [openConn_users_self, hobject]
    rfl
  · rw [openConn_users_ne _ hk, husers]

private theorem addClient_ssl {s s' : Server} {e : Event} {es : List Event} {o : Answers} (he : s.events = e :: es)
    (hfd : e.fd = s.listenfd) (h : addClient_ { s with events := es } o = some (.ok s')) :
    s.OpensWith s' (.dispatch o) ∨ s.ClosesOnly s' (.dispatch o) := by
  have hclosing := closing_accept (o := o) he (Or.inl hfd)
  have hrefused : s.refused (.dispatch o) = none := refused_of_not_ssl he fun hc => hc.1 hfd
  have hsame : s.ClosesOnly { s with events := es } (.dispatch o) :=
    .of_eq hclosing rfl (by rw [hrefused]; rfl) fun _ => rfl
  obtain ⟨-, hr⟩ | ⟨fd, -, hfree, hr⟩ := addClient_result h
  · cases hr
    exact .inr hsame
  · obtain ⟨-, rfl⟩ | ⟨-, rfl⟩ := addUser_ok hr
    · exact .inr hsame
    · exact .inl (opensWith_openConn none hclosing hrefused hfree.2.1 rfl rfl rfl rfl rfl)

private theorem addSslClient_ssl {s s' : Server} {e : Event} {es : List Event} {o : Answers} (he : s.events = e :: es)
    (hne : e.fd ≠ s.listenfd) (hfd : e.fd = s.sslFd) (h : addSslClient_ { s with events := es } o = some (.ok s')) :
    s.OpensWith s' (.dispatch o) ∨ s.ClosesOnly s' (.dispatch o) := by
  have hclosing := closing_accept (o := o) he (Or.inr hfd)
  have haccepts : s.sslAccepts (.dispatch o) = o.accepted.map fun fd => (fd, o.handshake) := by
    simp only [sslAccepts, he]
    exact if_pos ⟨hne, hfd⟩
  obtain ⟨hacc, hr⟩ | ⟨fd, hacc, hfree, ⟨-, hr⟩ | ⟨-, ⟨hok, hr⟩ | ⟨hbad, hr⟩⟩⟩ := addSslClient_result h
  · cases hr
    have hrefused : s.refused (.dispatch o) = none := by rw [refused, haccepts, hacc]; rfl
    exact .inr (.of_eq hclosing rfl (by rw [hrefused]; rfl) fun _ => rfl)
  · cases hr
  · obtain ⟨hcount, rfl⟩ | ⟨hcount, rfl⟩ := addUser_ok hr
    · have hrefused : s.refused (.dispatch o) = some ⟨s.nextSsl, fd⟩ := by
        rw [refused, haccepts, hacc]
        exact if_pos ⟨hok, hcount⟩
      exact .inr (.of_eq hclosing rfl (by rw [hrefused]; rfl) fun _ => rfl)
    · have hrefused : s.refused (.dispatch o) = none := by
        rw [refused, haccepts, hacc]
        exact if_neg fun hc => hcount hc.2
      exact .inl (opensWith_openConn (some ⟨s.nextSsl, fd⟩) hclosing hrefused hfree.2.1 rfl rfl rfl rfl rfl)
  · cases hr
    have hrefused : s.refused (.dispatch o) = none := by
      rw [refused, haccepts, hacc]
      exact if_neg fun hc => hbad hc.1
    exact .inr (.of_eq hclosing rfl (by rw [hrefused]; rfl) fun _ => rfl)

/-- `timeout` leaves the slots whose timer has not expired. -/
private theorem timeout_kept {cur : Nat} {l : SortedTimerList} {s s' : Server}
    (h : Server.timeout .returning cur l s = some s') {k : Nat}
    (hk : k ∉ (l.takeWhile fun t => t.expire ≤ cur).map Timer.data) : s'.users_ k = s.users_ k := by
  induction l generalizing s with
  | nil =>
    cases h
    rfl
  | cons t rest ih =>
    unfold Server.timeout at h
    split at h
    · cases h
      rfl
    · rename_i hge
      rw [List.takeWhile_cons_of_pos (by simpa using hge), List.map_cons, List.mem_cons, not_or] at hk
      rw [close_returning] at h
      exact (ih h hk.2).trans (closed_users_ne s hk.1)

private theorem hangUp_ssl {s s' : Server} {e : Event} {es : List Event}
    (h : Server.hangUp .returning { s with events := es } e = .ok s') :
    s'.ssls = s.ssls ∧ ∀ k ≠ e.fd, s'.users_ k = s.users_ k := by
  have hkept : ∀ k ≠ e.fd, (closed { s with events := es } e.fd).users_ k = s.users_ k :=
    fun k hk => closed_users_ne _ hk
  unfold Server.hangUp at h
  rw [close_returning] at h
  dsimp only at h
  split at h
  · cases h
    exact ⟨rfl, hkept⟩
  · split at h
    · cases h
      exact ⟨rfl, hkept⟩
    · cases h

private theorem readable_ssl {s s' : Server} {e : Event} {es : List Event} {now : Nat}
    (h : Server.readable { s with events := es } e now = .ok s') : s'.ssls = s.ssls ∧ s'.users_ = s.users_ := by
  unfold Server.readable at h
  split at h
  · cases h
  · split at h
    · cases h
      unfold append
      split <;> exact ⟨rfl, rfl⟩
    · cases h

private theorem handle_ssl {s s' : Server} {e : Event} {es : List Event} {o : Answers} (hwf : WellFormed s)
    (he : s.events = e :: es) (h : handle .returning { s with events := es } e o = some (.ok s')) :
    s.OpensWith s' (.dispatch o) ∨ s.ClosesOnly s' (.dispatch o) := by
  have hb := handle_branch .returning { s with events := es } e o
  rw [h] at hb
  cases hb with
  | listen hfd hr => exact addClient_ssl he hfd hr
  | ssl hne hfd hr => exact addSslClient_ssl he hne hfd hr
  | exits _ _ _ hr => cases hr
  | alarm hne hfd ht hr =>
    cases hr
    have hrefused : s.refused (.dispatch o) = none := refused_of_not_ssl he fun hc => hne (.inr hc.2)
    have hs : Sockets { s with events := es } := hwf.toSockets.frame rfl rfl fun _ => rfl
    obtain ⟨hconns, -⟩ := hs.timeout_openConns hwf.timers ht
    obtain ⟨_, _, _, _, hframe⟩ := timeout_frame ht
    refine .inr ⟨?_, ?_, fun k hk => ?_⟩
    · rw [closing_alarm he hne hfd]
      exact hconns
    · rw [hrefused, hframe]
      rfl
    · rw [closing_alarm he hne hfd] at hk
      rw [timeout_kept ht hk]
  | term hne hnot hfd hr =>
    cases hr
    have hrefused : s.refused (.dispatch o) = none := refused_of_not_ssl he fun hc => hne (.inr hc.2)
    exact .inr (.of_eq (closing_term he hne hnot hfd) rfl (by rw [hrefused]; rfl) fun _ => rfl)
  | input hown hin hr =>
    have hrefused : s.refused (.dispatch o) = none :=
      refused_of_not_ssl he fun hc => hown (by simp [own, hc.2])
    obtain ⟨hssls, husers⟩ := readable_ssl (Option.some.inj hr)
    have hclosing : s.closing (.dispatch o) = [] := by rw [closing_conn he hown, hin]; rfl
    refine .inr ⟨?_, ?_, fun k _ => by rw [husers]⟩
    · rw [hclosing]
      exact (readable_openConns (Option.some.inj hr)).conns
    · rw [hrefused, hssls]
      rfl
  | hup hown hin hr =>
    have hrefused : s.refused (.dispatch o) = none :=
      refused_of_not_ssl he fun hc => hown (by simp [own, hc.2])
    have hused : s.Used e.fd := (hwf.events e (he ▸ List.mem_cons_self ..)).resolve_left hown
    obtain ⟨hssls, hkept⟩ := hangUp_ssl (Option.some.inj hr)
    have hclosing : s.closing (.dispatch o) = [e.fd] := by rw [closing_conn he hown, hin]; rfl
    refine .inr ⟨?_, ?_, fun k hk => ?_⟩
    · rw [hclosing]
      exact (hangUp_openConns hwf.toSockets hused (Option.some.inj hr)).conns
    · rw [hrefused, hssls]
      rfl
    · rw [hclosing, List.mem_singleton] at hk
      rw [hkept k hk]

private theorem processStep_ssl {s s' : Server} {w : Nat} {i : ProcInput} (hwf : WellFormed s)
    (h : s.processStep .returning w i = some (.ok s')) : s.ClosesOnly s' (.process w i) := by
  have hconns := (processStep_openConns hwf h).conns
  obtain ⟨job, held, ph, hw, ⟨-, hr⟩ | ⟨hnull, -, ⟨-, hr⟩ | ⟨hd, users, ph', close, hs, hr⟩⟩⟩ := processStep_result h
  · cases hr
  · cases hr
  · have hserved : ∀ k, ((s.served w job held ph' hd users).users_ k).sslObject = (s.users_ k).sslObject :=
      fun k => HttpHandler.sslObject_congr (served_socket hs k)
    have hclosing := closing_process (i := i) hw
    rw [← hs.close_eq] at hclosing
    cases close with
    | false =>
      cases hr
      exact ⟨hconns, rfl, fun k _ => hserved k⟩
    | true =>
      rw [if_pos rfl, close_returning] at hr
      cases hr
      refine ⟨hconns, rfl, fun k hk => ?_⟩
      rw [hclosing, if_pos ⟨rfl, hnull⟩, List.mem_singleton] at hk
      rw [closed_users_ne _ hk, hserved]

/-- What a step that does not end the process does to the SSL objects. -/
private theorem effect_ssl {s s' : Server} {l : Label} (hwf : WellFormed s)
    (h : s.effect .returning l = some (.ok s')) :
    s.OpensWith s' l ∨ s.ClosesOnly s' l := by
  cases l with
  | dispatch o =>
    obtain ⟨e, es, he, hh⟩ := effect_dispatch h
    exact handle_ssl hwf he hh
  | process w i => exact .inr (processStep_ssl hwf h)
  | epollWait evs =>
    cases effect_cases h
    exact .inr (.of_eq rfl (openConns_disarm s evs) rfl fun _ => rfl)
  | getConnection w =>
    cases effect_cases h with
    | getConnection hw =>
      exact .inr (.of_eq rfl rfl rfl fun k => HttpHandler.sslObject_congr (connected_socket s w _ k))
  | take w | releaseConnection w =>
    cases effect_cases h
    exact .inr (.of_eq rfl rfl rfl fun _ => rfl)

/-! ### Alive and due -/

/-- The objects that are alive without belonging to an open connection. -/
def lost (s : Server) : Int := s.ssls.length - s.sslContents.length

/-- The objects of the connections a step leaves open, and those that are due. -/
private theorem ClosesOnly.perm {s s' : Server} {l : Label} (h : s.ClosesOnly s' l) :
    (s'.sslContents ++ s.sslDue l).Perm ((s.refused l).toList ++ s.sslContents) := by
  have hleft : s'.sslContents =
      (s.openConns.filter (·.2 ∉ s.closing l)).filterMap fun x => (s.users_ x.2).sslObject := by
    rw [sslContents, h.conns]
    refine List.filterMap_congr fun x hx => ?_
    exact h.kept x.2 (of_decide_eq_true (List.mem_filter.1 hx).2)
  have hsplit : (s.openConns.filter (·.2 ∉ s.closing l) ++ s.openConns.filter (·.2 ∈ s.closing l)).Perm
      s.openConns := by
    refine List.perm_append_comm.trans ?_
    simpa using List.filter_append_perm (fun x : Nat × Nat => decide (x.2 ∈ s.closing l)) s.openConns
  have hmap := hsplit.filterMap fun x => (s.users_ x.2).sslObject
  rw [List.filterMap_append] at hmap
  rw [hleft, sslDue, ← List.append_assoc]
  exact (hmap.append_right _).trans List.perm_append_comm

private theorem OpensWith.contents {s s' : Server} {l : Label} (h : s.OpensWith s' l) :
    ∃ content : Option Ssl, s'.sslContents = content.toList ++ s.sslContents ∧
      s'.ssls = content.toList ++ s.ssls := by
  obtain ⟨fd, content, hfree, hconns, hssls, hobject, hkept⟩ := h.opened
  refine ⟨content, ?_, hssls⟩
  have hold : s.openConns.filterMap (fun x => (s'.users_ x.2).sslObject) = s.sslContents := by
    refine List.filterMap_congr fun x hx => ?_
    obtain ⟨y, hy, -, rfl⟩ := mem_openConns.1 hx
    rw [hkept y.fd fun hfd => hfree ⟨y, hy, hfd⟩]
  rw [sslContents, hconns, List.filterMap_cons, hold]
  dsimp only
  rw [hobject]
  cases content <;> rfl

private theorem OpensWith.noneDue {s s' : Server} {l : Label} (h : s.OpensWith s' l) : s.NoneDue l := by
  unfold NoneDue sslDue
  rw [h.closing, h.refused]
  simp

/-- A step raises the number of lost objects by those that are due. -/
private theorem lost_step {s s' : Server} {l : Label} (hwf : WellFormed s)
    (h : s.effect .returning l = some (.ok s')) :
    s.lost ≤ s'.lost ∧ (s'.lost = s.lost ↔ s.NoneDue l) := by
  unfold lost
  rcases effect_ssl hwf h with ho | hc
  · obtain ⟨content, hcontents, hssls⟩ := ho.contents
    rw [hcontents, hssls, List.length_append, List.length_append]
    exact ⟨by omega, iff_of_true (by omega) ho.noneDue⟩
  · have hlength := hc.perm.length_eq
    rw [List.length_append, List.length_append] at hlength
    rw [hc.ssls, List.length_append, NoneDue, ← List.length_eq_zero_iff]
    exact ⟨by omega, by omega⟩

/-- An object alive is that of an open connection, or lost. -/
private theorem alive_step {s s' : Server} {l : Label} (hwf : WellFormed s) (h : s.effect .returning l = some (.ok s'))
    (hs : ∃ d, s.ssls.Perm (s.sslContents ++ d)) : ∃ d, s'.ssls.Perm (s'.sslContents ++ d) := by
  obtain ⟨d, hd⟩ := hs
  rcases effect_ssl hwf h with ho | hc
  · obtain ⟨content, hcontents, hssls⟩ := ho.contents
    refine ⟨d, ?_⟩
    rw [hcontents, hssls, List.append_assoc]
    exact hd.append_left _
  · refine ⟨s.sslDue l ++ d, ?_⟩
    rw [hc.ssls, ← List.append_assoc]
    refine (hd.append_left _).trans ?_
    rw [← List.append_assoc]
    exact hc.perm.symm.append_right d

/-- In a run that goes on the number of lost objects stays what it was exactly when nothing is ever due. -/
theorem lost_run {c : Setup} {ls : List Label} {t : Server} (h : run (step .returning) c.start ls = some t)
    (hstop : t.stop = none) :
    (∃ d, t.ssls.Perm (t.sslContents ++ d)) ∧ (t.lost = 0 ↔ Meets (step .returning) NoneDue c.start ls) := by
  have hlive : ∀ s l s', step .returning s l = some s' → s.stop = none := fun _ _ _ hs => (step_cases hs).1
  have hstep : ∀ s l s', (WellFormed s ∧ ∃ d, s.ssls.Perm (s.sslContents ++ d)) → s'.stop = none →
      step .returning s l = some s' → (WellFormed s' ∧ ∃ d, s'.ssls.Perm (s'.sslContents ++ d)) ∧
        s.lost ≤ s'.lost ∧ (s'.lost = s.lost ↔ s.NoneDue l) := by
    intro s l s' hs hl hstep
    obtain ⟨-, ⟨why, -, rfl⟩ | ⟨heff, -⟩⟩ := step_cases hstep
    · cases hl
    · exact ⟨⟨hs.1.of_step hstep, alive_step hs.1 heff hs.2⟩, lost_step hs.1 heff⟩
  obtain ⟨hP, -, hiff⟩ := measure_run hlive hstep ⟨wellFormed_start c, [], List.Perm.nil⟩ h hstop
  exact ⟨hP.2, hiff⟩

/-- Every object is freed once, when its connection is closed or refused, and those alive are those of the open HTTPS
connections, exactly when no open HTTPS connection is ever closed and none refused. -/
theorem sslReleased_iff {c : Setup} {ls : List Label} {t : Server} (h : run (step .returning) c.start ls = some t)
    (hstop : t.stop = none) :
    (Meets (step .returning) FreesDue c.start ls ∧ t.SslAlive) ↔ Meets (step .returning) NoneDue c.start ls := by
  obtain ⟨⟨d, hd⟩, hlost⟩ := lost_run h hstop
  refine ⟨fun hf => hf.1.imp fun _ _ => freesDue_iff.1, fun hn => ⟨hn.imp fun _ _ => freesDue_iff.2, ?_⟩⟩
  have hzero := hlost.2 hn
  have hlength := hd.length_eq
  rw [List.length_append] at hlength
  have hd0 : d = [] := List.length_eq_zero_iff.1 (by unfold lost at hzero; omega)
  rw [hd0, List.append_nil] at hd
  exact hd

/-- A worker closes an HTTP connection, and an HTTPS one is given its slot. -/
def sslTakesSlot : List Label :=
  serveBadRequest ++ [.process 0 (.wrote .fail), .releaseConnection 0] ++ sslConnect .succeeds

theorem sslReleased_iff_takesSlot :
    ∃ t, run (step .returning) Setup.default.start sslTakesSlot = some t ∧
      Meets (step .returning) FreesDue Setup.default.start sslTakesSlot ∧ t.SslAlive := by
  have hrun : (run (step .returning) Setup.default.start sslTakesSlot).map Server.stop = some none := by
    decide +kernel
  obtain ⟨t, ht, hstop⟩ := Option.map_eq_some_iff.1 hrun
  exact ⟨t, ht, (sslReleased_iff ht hstop).2 (by decide +kernel)⟩

/-- An HTTPS client connects and hangs up. -/
def sslHangUp : List Label :=
  sslConnect .succeeds ++ [.epollWait [.gone 19 (some 0)], .dispatch ⟨1, none, .succeeds⟩]

/-- The object of the closed connection is never freed, and belongs to no connection. -/
theorem sslHangUp_keepsObject :
    ¬ Meets (step .returning) FreesDue Setup.default.start sslHangUp ∧
      ∃ t, run (step .returning) Setup.default.start sslHangUp = some t ∧
        t.stop = none ∧ t.ssls = [⟨0, 19⟩] ∧ t.openConns = [] ∧ ¬ t.SslAlive := by
  constructor
  · intro hm
    have hn := hm.imp (q := NoneDue) fun _ _ => freesDue_iff.1
    exact absurd hn (by decide +kernel)
  · refine exists_run_map (f := fun t => (t.stop, t.ssls, t.openConns)) (a := (none, [⟨0, 19⟩], []))
      (by decide +kernel) fun t ht => ?_
    simp only [Prod.mk.injEq] at ht
    obtain ⟨hstop, hssls, hopen⟩ := ht
    refine ⟨hstop, hssls, hopen, fun ha => ?_⟩
    have hlength := ha.length_eq
    rw [sslContents, hssls, hopen] at hlength
    simp at hlength

end Server

end ImageServer
