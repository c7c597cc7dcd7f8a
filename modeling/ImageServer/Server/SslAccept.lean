import ImageServer.Server.Invariant

/-!
# Accepting an SSL client

Behind its `accept`, `add_ssl_client_` can fail in four places, and each undoes by hand what has been done so far.
`sslCalls` lists the calls it makes on the way, `SslCall.apply` says what each of them does to the server, and
`sslCalls_effect` that together they do what `addSslClient_` does.

A failure ought to harm nothing but the connection it happens on (`HarmsOnlyItsOwn`).  It always does: the three
branches behind a failing SSL call close `ssl_fd_` where `connfd` is meant, and free the context all later clients
need (the last one also passes the freed object to `SSL_get_error`); the branch for a client too many never frees the
SSL object.  So the property holds of a run, and SSL clients can be accepted at its end, exactly when no call fails
(`sslAccept_iff`).
-/

namespace ImageServer

open Transition

/-- What `add_ssl_client_` calls once `accept` has returned `connfd`. -/
inductive SslCall
  /-- `SSL_new(ssl_context_)`, and whether it returns an object -/
  | new (created : Bool)
  | setFd
  | accept
  /-- `SSL_free(client_context)` -/
  | free
  /-- `SSL_get_error(client_context, rv)`, in the arguments of the log line -/
  | getError
  /-- `close(ssl_fd_)` -/
  | closeListener
  /-- `SSL_CTX_free(ssl_context_)` -/
  | ctxFree
  /-- `close(connfd)` -/
  | closeConn
  /-- the timer is added and `init` called -/
  | handOver
deriving DecidableEq

/-- The call is given the SSL object. -/
def SslCall.usesSsl : SslCall → Bool
  | .setFd => true
  | .accept => true
  | .free => true
  | .getError => true
  | .handOver => true
  | _ => false

namespace Server

/-- The calls for the answers to `SSL_new`, `SSL_set_fd` and `SSL_accept`, in their order. -/
def sslCalls (s : Server) : Handshake → List SslCall
  | .newFails => [.new false, .closeListener, .ctxFree]
  | .setFdFails => [.new true, .setFd, .closeListener, .free, .ctxFree]
  | .acceptFails => [.new true, .setFd, .accept, .closeListener, .free, .ctxFree, .getError]
  | .succeeds => [.new true, .setFd, .accept] ++ if s.userCount = MAX_FD then [.closeConn] else [.handOver]

/-- The server when `accept` has returned. -/
def accepted (s : Server) (fd : Nat) : Server :=
  { s with conns := ⟨s.nextConn, fd, false, false⟩ :: s.conns, nextConn := s.nextConn + 1 }

/-- What a call does, for the connection on `fd`; the object that is freed is the one created last. -/
def applyCall (fd : Nat) (s : Server) : SslCall → Server
  | .new true => s.sslNew fd
  | .free => { s with ssls := s.ssls.tail }
  | .closeListener => { s with reserved := s.reserved.filter (· ≠ s.sslFd) }
  | .ctxFree => { s with sslContext := false }
  | .closeConn => { s with conns := s.conns.filter fun x => x.fd ≠ fd }
  | _ => s

/-- The call fails after `accept`: SSL cannot be set up, or there are too many clients. -/
def FailsAccept (s : Server) (hs : Handshake) : Prop := hs ≠ .succeeds ∨ s.userCount = MAX_FD

instance (s : Server) (hs : Handshake) : Decidable (s.FailsAccept hs) :=
  inferInstanceAs (Decidable (hs ≠ .succeeds ∨ s.userCount = MAX_FD))

/-- The descriptor `accept` returns to `add_ssl_client_` in the step, and the answers of the SSL calls. -/
def sslAccepts (s : Server) : Label → Option (Nat × Handshake)
  | .dispatch o =>
    match s.events with
    | [] => none
    | e :: _ => if e.fd ≠ s.listenfd ∧ e.fd = s.sslFd then o.accepted.map fun fd => (fd, o.handshake) else none
  | _ => none

/-- A failed call, from `s` to `s'`, has harmed nothing but the connection on `fd`. -/
structure HarmsOnlyItsOwn (s s' : Server) (fd : Nat) (calls : List SslCall) : Prop where
  returns : s'.stop = none
  listening : s'.sslFd ∈ s'.reserved
  context : s'.sslContext = true
  connClosed : ¬ s'.IsConn fd
  freedOnce : SslCall.new true ∈ calls → calls.count .free = 1
  unusedAfter : ∀ l r, calls = l ++ .free :: r → ∀ call ∈ r, call.usesSsl = false
  timers : s'.timerLst = s.timerLst
  users : s'.users_ = s.users_
  count : s'.userCount = s.userCount

/-- If the step is a call that fails after `accept`, it harms nothing but the connection. -/
def FailsApart (rm : RemoveFd) (s : Server) (l : Label) : Prop :=
  ∀ fd hs s', s.sslAccepts l = some (fd, hs) → s.FailsAccept hs → s.step rm l = some s' →
    HarmsOnlyItsOwn s s' fd (s.sslCalls hs)

/-- The step is no call of `add_ssl_client_` that fails after `accept`. -/
def NoFailure (s : Server) (l : Label) : Prop := ∀ x ∈ s.sslAccepts l, ¬ s.FailsAccept x.2

instance (s : Server) (l : Label) : Decidable (s.NoFailure l) :=
  inferInstanceAs (Decidable (∀ x ∈ s.sslAccepts l, ¬ s.FailsAccept x.2))

/-- `ssl_fd_` is open, so a client can connect to it, and `SSL_new` has its context. -/
def AcceptsSsl (s : Server) : Prop := s.sslFd ∈ s.reserved ∧ s.sslContext = true

/-! ### The calls and their effect -/

private theorem filter_free {s : Server} {fd : Nat} (h : s.LowestFree fd) :
    s.conns.filter (fun x => x.fd ≠ fd) = s.conns := by
  rw [List.filter_eq_self]
  intro x hx
  exact decide_eq_true fun hfd => h.2.1 ⟨x, hx, hfd⟩

/-- The branch for a client too many frees nothing. -/
theorem sslCalls_tooMany {s : Server} (h : s.userCount = MAX_FD) :
    s.sslCalls .succeeds = [.new true, .setFd, .accept, .closeConn] := by
  show [SslCall.new true, .setFd, .accept] ++ (if s.userCount = MAX_FD then _ else _) = _
  rw [if_pos h]
  rfl

/-- The calls of a failing `add_ssl_client_` have the effect the model gives it, but for the numbers of the
connection and the object, which are used up. -/
theorem sslCalls_effect {s s' : Server} {o : Answers} {fd : Nat} (hacc : o.accepted = some fd)
    (hfail : s.FailsAccept o.handshake) (h : s.addSslClient_ o = some (.ok s')) :
    ∃ n k, (s.sslCalls o.handshake).foldl (applyCall fd) (s.accepted fd) =
      { s' with nextConn := n, nextSsl := k } := by
  obtain ⟨hnone, -⟩ | ⟨fd', hfd', hfree, ⟨-, hr⟩ | ⟨-, ⟨hok, hr⟩ | ⟨hbad, hr⟩⟩⟩ := addSslClient_result h
  · cases hacc.symm.trans hnone
  · cases hr
  · cases hacc.symm.trans hfd'
    have hcount : s.userCount = MAX_FD := hfail.resolve_left fun hne => hne hok
    have hs' : s' = s.sslNew fd := (addUser_ok hr).elim And.right fun hc => absurd hcount hc.1
    refine ⟨s.nextConn + 1, s.nextSsl + 1, ?_⟩
    have hconns : ((⟨s.nextConn, fd, false, false⟩ : Conn) :: s.conns).filter (fun x => x.fd ≠ fd) = s.conns := by
      rw [List.filter_cons_of_neg (by simp)]
      exact filter_free hfree
    have hfold : [SslCall.new true, .setFd, .accept, .closeConn].foldl (applyCall fd) (s.accepted fd) =
        { s.sslNew fd with
          nextConn := s.nextConn + 1
          conns := ((⟨s.nextConn, fd, false, false⟩ : Conn) :: s.conns).filter fun x => x.fd ≠ fd } := rfl
    rw [hok, sslCalls_tooMany hcount, hs', hfold, hconns]
    rfl
  · cases hacc.symm.trans hfd'
    cases hr
    cases hs : o.handshake with
    | newFails | setFdFails | acceptFails => exact ⟨_, _, rfl⟩
    | succeeds => exact absurd hs hbad

/-! ### Failures -/

/-- What a call of `add_ssl_client_` that fails after `accept` leaves behind. -/
private theorem failsAccept_step {rm : RemoveFd} {s s' : Server} {l : Label} {fd : Nat} {hs : Handshake}
    (hacc : s.sslAccepts l = some (fd, hs)) (hfail : s.FailsAccept hs) (h : s.step rm l = some s') :
    s'.sslContext = false ∨ hs = .succeeds ∧ s.userCount = MAX_FD := by
  obtain ⟨o, e, es, rfl, he, hne, hfd, ho, rfl⟩ : ∃ o e es, l = .dispatch o ∧ s.events = e :: es ∧
      e.fd ≠ s.listenfd ∧ e.fd = s.sslFd ∧ o.accepted = some fd ∧ hs = o.handshake := by
    cases l with
    | dispatch o =>
      cases hev : s.events with
      | nil => simp [sslAccepts, hev] at hacc
      | cons e es =>
        simp only [sslAccepts, hev] at hacc
        split at hacc
        · rename_i hc
          obtain ⟨fd', hfd', he⟩ := Option.map_eq_some_iff.1 hacc
          cases he
          exact ⟨o, e, es, rfl, rfl, hc.1, hc.2, hfd', rfl⟩
        · cases hacc
    | epollWait | take | getConnection | process | releaseConnection => cases hacc
  by_cases hok : o.handshake = .succeeds
  · exact Or.inr ⟨hok, hfail.resolve_left fun hno => hno hok⟩
  · left
    have hssl : ∀ r, s.effect rm (.dispatch o) = some r → addSslClient_ { s with events := es } o = some r := by
      intro r hr
      simp only [effect, he, handle] at hr
      rw [if_neg hne, if_pos hfd] at hr
      exact hr
    obtain ⟨-, ⟨why, heff, rfl⟩ | ⟨heff, -⟩⟩ := step_cases h
    · obtain ⟨-, hr⟩ | ⟨fd', -, -, ⟨hctx, -⟩ | ⟨-, ⟨hs, -⟩ | ⟨-, hr⟩⟩⟩ := addSslClient_result (hssl _ heff)
      · cases hr
      · -- the context has been freed before
        exact hctx
      · exact absurd hs hok
      · cases hr
    · obtain ⟨hnone, -⟩ | ⟨fd', -, -, ⟨-, hr⟩ | ⟨-, ⟨hs, -⟩ | ⟨-, hr⟩⟩⟩ := addSslClient_result (hssl _ heff)
      · cases ho.symm.trans hnone
      · cases hr
      · exact absurd hs hok
      · cases hr
        rfl

/-- No failure is without harm. -/
private theorem not_failsApart {rm : RemoveFd} {s s' : Server} {l : Label} (hl : ¬ s.NoFailure l)
    (h : s.step rm l = some s') : ¬ s.FailsApart rm l := by
  intro hapart
  unfold NoFailure at hl
  push Not at hl
  obtain ⟨⟨fd, hs⟩, hacc, hfail⟩ := hl
  have hharm := hapart fd hs s' hacc hfail h
  rcases failsAccept_step hacc hfail h with hctx | ⟨rfl, hcount⟩
  · rw [hharm.context] at hctx
    cases hctx
  · have hfreed := hharm.freedOnce
    rw [sslCalls_tooMany hcount] at hfreed
    exact absurd (hfreed (by decide)) (by decide)

/-- A step that fails to set up SSL is a failing call. -/
private theorem NoFailure.handshake {s : Server} {l : Label} (h : s.NoFailure l) : s.failsHandshake l = false := by
  rw [Bool.eq_false_iff]
  intro hf
  cases l with
  | dispatch o =>
    cases he : s.events with
    | nil => simp [failsHandshake, he] at hf
    | cons e es =>
      simp only [failsHandshake, he] at hf
      obtain ⟨hne, hfd, hacc, hbad⟩ := of_decide_eq_true hf
      obtain ⟨fd, hfd'⟩ := Option.ne_none_iff_exists'.1 hacc
      have hsome : s.sslAccepts (.dispatch o) = some (fd, o.handshake) := by
        simp only [sslAccepts, he]
        rw [if_pos ⟨hne, hfd⟩, hfd']
        rfl
      exact h _ hsome (Or.inl hbad)
  | epollWait | take | getConnection | process | releaseConnection => cases hf

/-- Only a failing SSL call closes `ssl_fd_` or frees the context. -/
theorem AcceptsSsl.step {rm : RemoveFd} {s s' : Server} {l : Label} (h : s.AcceptsSsl)
    (hl : s.failsHandshake l = false) (hs : s.step rm l = some s') : s'.AcceptsSsl := by
  obtain ⟨-, ⟨why, -, rfl⟩ | ⟨-, hs⟩⟩ := step_cases hs
  · exact h
  · cases hs with
    | epollWait | ignored | opened | term | hangUp | take | getConnection | process | close | releaseConnection =>
      exact h
    | timeout _ _ ht =>
      obtain ⟨_, _, _, _, rfl⟩ := timeout_frame ht
      exact h
    | readable =>
      unfold append
      split <;> exact h
    | sslFailed _ _ _ hf =>
      rw [hl] at hf
      cases hf

private theorem meets_failsApart_iff {rm : RemoveFd} {ls : List Label} {s t : Server}
    (h : run (step rm) s ls = some t) :
    Meets (step rm) (FailsApart rm) s ls ↔ Meets (step rm) NoFailure s ls := by
  refine meets_congr (P := fun _ => True) (fun s l s' _ hs => ?_) (fun _ _ _ _ _ _ => trivial) trivial h
  constructor
  · intro hapart
    by_contra hl
    exact not_failsApart hl hs hapart
  · intro hl fd hs s' hacc hfail _
    exact absurd hfail (hl (fd, hs) hacc)

/-- Every failing call of a run harms only its own connection, and SSL clients can be accepted at the end, exactly
when no call fails. -/
theorem sslAccept_iff {rm : RemoveFd} {c : Setup} {ls : List Label} {t : Server}
    (h : run (step rm) c.start ls = some t) :
    (Meets (step rm) (FailsApart rm) c.start ls ∧ t.AcceptsSsl) ↔ Meets (step rm) NoFailure c.start ls := by
  rw [meets_failsApart_iff h]
  refine and_iff_left_of_imp fun hm => ?_
  refine run_invariant (P := AcceptsSsl) (fun s l s' ha hl hs => ha.step hl.handshake hs) ?_ hm h
  exact ⟨c.isOpen c.sslFd (by simp), rfl⟩

/-- An SSL client connects. -/
def sslConnect (hs : Handshake) : List Label := [.epollWait [.input 13 none], .dispatch ⟨0, some 19, hs⟩]

theorem sslAccept_iff_connect :
    ∃ t, run (step .returning) Setup.default.start (sslConnect .succeeds) = some t ∧
      Meets (step .returning) (FailsApart .returning) Setup.default.start (sslConnect .succeeds) ∧ t.AcceptsSsl :=
  exists_run (by decide +kernel) fun _ ht => (sslAccept_iff ht).2 (by decide +kernel)

/-- One failed handshake closes the listening socket and frees the context; the connection stays open. -/
theorem failedHandshake_endsSsl :
    ∃ t, run (step .returning) Setup.default.start (sslConnect .acceptFails) = some t ∧
      t.sslFd ∉ t.reserved ∧ t.sslContext = false ∧ t.IsConn 19 ∧ ¬ t.AcceptsSsl ∧
      ¬ Meets (step .returning) (FailsApart .returning) Setup.default.start (sslConnect .acceptFails) := by
  have hrun : (run (step .returning) Setup.default.start (sslConnect .acceptFails)).isSome = true := by decide +kernel
  obtain ⟨u, hu⟩ := Option.isSome_iff_exists.1 hrun
  have hfails : ¬ Meets (step .returning) NoFailure Setup.default.start (sslConnect .acceptFails) := by decide +kernel
  refine exists_run_map
    (f := fun t => (decide (t.sslFd ∈ t.reserved), t.sslContext, decide (t.IsConn 19))) (a := (false, false, true))
    (by decide +kernel) fun t ht => ?_
  simp only [Prod.mk.injEq, decide_eq_false_iff_not, decide_eq_true_eq] at ht
  obtain ⟨hlisten, hctx, hconn⟩ := ht
  exact ⟨hlisten, hctx, hconn, fun ha => hlisten ha.1, fun hm => hfails ((meets_failsApart_iff hu).1 hm)⟩

end Server

end ImageServer
