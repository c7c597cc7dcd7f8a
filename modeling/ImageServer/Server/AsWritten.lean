import ImageServer.Server.Exchanges
import ImageServer.Server.StaleEvents

/-!
# The program as written

`remove_fd` as written never returns, so as long as the process goes on no connection has been closed, and no slot has
been given to a second one (`Unclosed`).  Then connections are kept apart by every step, no event is stale and no
handler is left over from an earlier response.  So every run of the program as written answers each connection for
itself, and what it ends with, if not with `exit`, is an access outside the buffers of a handler or outside `users_`
(`asWritten_run`).
-/

namespace ImageServer

open Transition

/-- The worker has not begun to write the response. -/
def Phase.early : Phase → Bool
  | .writing _ => false
  | .done => false
  | _ => true

/-- The handler has prepared no response before the one it is served for. -/
def firstProps : RequestProps where
  waits := fun h => h.ivCount = 0
  stage := fun _ _ ph h => ph.early = true → h.ivCount = 0
  waits_congr := fun hi h0 => (congrArg (fun x => x.2.2.ivCount) hi).trans h0
  stage_congr := fun hi hst hph => (congrArg (fun x => x.2.2.ivCount) hi).trans (hst hph)
  stage_done := fun hph => by cases hph

/-- Nothing counts an iovec before the response is prepared. -/
private theorem HttpHandler.ProcStep.ivCount {h h' : HttpHandler} {users users' : Users} {ph ph' : Phase}
    {i : ProcInput} {close : Bool} (hs : ProcStep h users ph i h' users' ph' close) (hph : ph'.early = true) :
    ph.early = true ∧ h'.ivCount = h.ivCount := by
  cases hs with
  | full | enter | data | eof | fail | triedOut | again => exact ⟨rfl, rfl⟩
  | parse hp =>
    obtain ⟨p, r, rfl⟩ := HttpHandler.parse_frame hp
    exact ⟨rfl, rfl⟩
  | prepare | refuse | write | finish | close => cases hph

namespace Server

/-! ### A step of the program as written -/

theorem timeout_asWritten {cur : Nat} {l : SortedTimerList} {s s' : Server}
    (h : Server.timeout .asWritten cur l s = some s') : s' = { s with timerLst := l } := by
  cases l with
  | nil => exact (Option.some.inj h).symm
  | cons t rest =>
    unfold Server.timeout at h
    split at h
    · exact (Option.some.inj h).symm
    · rw [close_asWritten] at h
      cases h

private theorem timeout_returning {cur : Nat} {l : SortedTimerList} {s s' : Server}
    (h : Server.timeout .asWritten cur l s = some s') : Server.timeout .returning cur l s = some s' := by
  cases l with
  | nil => exact h
  | cons t rest =>
    unfold Server.timeout at h ⊢
    split at h
    · rw [if_pos ‹_›]
      exact h
    · rw [close_asWritten] at h
      cases h

theorem closing_asWritten {s s' : Server} {l : Label} (h : s.effect .asWritten l = some (.ok s')) :
    s.closing l = [] := by
  by_contra hc
  cases (effect_exited_iff h).2 hc

/-- A worker does not close its connection. -/
theorem open_of_asWritten {s s' : Server} {w : Nat} {i : ProcInput} {job : Job} {held : Option Nat} {ph ph' : Phase}
    {h : HttpHandler} {users : Users} {close : Bool} (heff : s.effect .asWritten (.process w i) = some (.ok s'))
    (hw : s.workers[w]? = some (.processing job held ph))
    (hs : HttpHandler.ProcStep (s.users_ job.slot) s.accounts ph i h users ph' close) : close = false := by
  have hclosing := closing_asWritten heff
  obtain ⟨job', held', ph'', hw', ⟨-, hr⟩ | ⟨hnull, -⟩⟩ := processStep_result heff
  · cases hr
  · cases hw.symm.trans hw'
    rw [closing_process hw, ← hs.close_eq] at hclosing
    by_contra hc
    rw [if_pos ⟨Bool.eq_true_of_not_eq_false hc, hnull⟩] at hclosing
    cases hclosing

private theorem hangUp_asWritten (s : Server) (e : Event) : s.hangUp .asWritten e = .error .exited := by
  rw [hangUp, close_asWritten]

/-- An iteration that closes no connection is the same when `remove_fd` returns. -/
private theorem handle_returning {s s' : Server} {e : Event} {o : Answers}
    (h : s.handle .asWritten e o = some (.ok s')) :
    s.handle .returning e o = some (.ok s') := by
  unfold handle at h ⊢
  split
  · rwa [if_pos ‹_›] at h
  rw [if_neg ‹_›] at h
  split
  · rwa [if_pos ‹_›] at h
  rw [if_neg ‹_›] at h
  split
  · rw [if_pos ‹_›] at h
    split at h
    · cases h
    · rename_i s₁ ht
      rw [timeout_returning ht]
      exact h
  rw [if_neg ‹_›] at h
  split
  · rwa [if_pos ‹_›] at h
  rw [if_neg ‹_›] at h
  split
  · rwa [if_pos ‹_›] at h
  rw [if_neg ‹_›] at h
  split
  · rwa [if_pos ‹_›] at h
  rw [if_neg ‹_›] at h
  split
  · rw [if_pos ‹_›, hangUp_asWritten] at h
    cases h
  · rwa [if_neg ‹_›] at h

private theorem effect_returning {s s' : Server} {l : Label} (h : s.effect .asWritten l = some (.ok s')) :
    s.effect .returning l = some (.ok s') := by
  cases l with
  | epollWait | take | getConnection | releaseConnection => exact h
  | dispatch o =>
    obtain ⟨e, es, he, hh⟩ := effect_dispatch h
    simp only [effect, he]
    exact handle_returning hh
  | process w i =>
    have hproc : s.processStep .asWritten w i = some (.ok s') := h
    show s.processStep .returning w i = some (.ok s')
    unfold processStep at hproc ⊢
    split at hproc
    · split at hproc
      · cases hproc
      · split at hproc
        · cases hproc
        · rename_i hnull
          split at hproc
          · rename_i ha
            rw [if_neg hnull, if_pos ha]
            split at hproc
            · cases hproc
            · split at hproc
              · rw [close_asWritten] at hproc
                cases hproc
              · rw [if_neg ‹_›]
                exact hproc
          · cases hproc
    · cases hproc

/-- What such a step does to a slot: its connection is accepted, or its socket stays, and the rest too unless a request
is pending. -/
inductive SlotStep (s s' : Server) (l : Label) (k : Nat) : Prop
  | opened {timer : Option Nat} {type : ClientType} {content : Option Ssl} : s.opens l = some k → s.LowestFree k →
    s'.Open k → (s'.users_ k) = (s.users_ k).init k timer type content → timer ≠ none →
    (type = .httpClient ∧ content = none ∨ type = .httpsClient ∧ ∃ id, content = some ⟨id, k⟩) → SlotStep s s' l k
  | kept : (s'.users_ k).socket = (s.users_ k).socket →
    (s'.users_ k = s.users_ k ∨ ∃ job ∈ s.pending, job.slot = k) → SlotStep s s' l k

theorem effect_slot {s s' : Server} {l : Label} (h : s.effect .asWritten l = some (.ok s')) (k : Nat) :
    SlotStep s s' l k := by
  have hclosing := closing_asWritten h
  have hsame : s'.users_ = s.users_ → SlotStep s s' l k := fun hu => .kept (by rw [hu]) (Or.inl (by rw [hu]))
  cases effect_cases h with
  | epollWait | ignored | sslFailed | term | take | releaseConnection => exact hsame rfl
  | readable =>
    refine hsame ?_
    unfold append
    split <;> rfl
  | timeout _ _ ht =>
    rw [timeout_asWritten ht] at hsame ⊢
    exact hsame rfl
  | @opened o e es ssls n fd type content he hown hfree ho ht =>
    by_cases hk : k = fd
    · subst hk
      exact .opened ho hfree ⟨_, List.mem_cons_self .., rfl, rfl⟩ (openConn_users_self ..) (by simp) ht
    · have hu := openConn_users_ne { s with events := es, ssls := ssls, nextSsl := n } hk o.now type content
      exact .kept (congrArg HttpHandler.socket hu) (Or.inl hu)
  | hangUp he hown hin =>
    rw [closing_conn he hown, hin] at hclosing
    cases hclosing
  | @getConnection w job hw =>
    refine .kept (connected_socket s w job k) ?_
    by_cases hk : k = job.slot
    · exact Or.inr ⟨job, List.mem_append_right _ (List.mem_filterMap.2 ⟨_, List.mem_of_getElem? hw, rfl⟩), hk.symm⟩
    · exact Or.inl (Function.update_of_ne hk ..)
  | @process w i job held ph ph' hd users hw _ hs =>
    refine .kept (served_socket hs k) ?_
    by_cases hk : k = job.slot
    · exact Or.inr ⟨job, List.mem_append_right _
        (List.mem_filterMap.2 ⟨_, List.mem_of_getElem? hw, Worker.serving_of_procStep hs⟩), hk.symm⟩
    · exact Or.inl (Function.update_of_ne hk ..)
  | close hw _ hs =>
    cases open_of_asWritten h hw hs

/-! ### The invariant -/

/-- Every slot that was ever given a connection still has it, with a live socket; a slot not used yet has prepared no
response, nor has a handler before its own one; the events that wait are of open connections; and `ssl_context_` is
there as long as `ssl_fd_` is. -/
structure Unclosed (s : Server) : Prop extends OneRequest s, TimersLive s where
  usedOpen : ∀ k, s.Used k → s.Open k
  hasSocket : ∀ k, s.Used k → (s.users_ k).ioFd ≠ none
  unused : ∀ k, ¬ s.Used k → (s.users_ k).ivCount = 0
  first : s.Serving firstProps
  waitingOpen : s.WaitingOpen
  context : s.sslFd ∈ s.reserved → s.sslContext = true

theorem unclosed_start (c : Setup) : Unclosed c.start where
  toOneRequest := oneRequest_start c
  timersLive := (timersLive_start c).timersLive
  freshTimer := (timersLive_start c).freshTimer
  freshSlot := (timersLive_start c).freshSlot
  usedOpen := fun k hk => absurd rfl hk
  hasSocket := fun k hk => absurd rfl hk
  unused := fun k _ => rfl
  first := serving_start _ c
  waitingOpen := fun e he => by cases he
  context := fun _ => rfl

/-- A request is pending only on a slot that has been given a connection. -/
theorem WellFormed.used_of_pending {s : Server} (h : WellFormed s) {job : Job} (hj : job ∈ s.pending) :
    s.Used job.slot := by
  rcases List.mem_append.1 hj with hj | hj
  · exact h.queue job hj
  · obtain ⟨y, hy, hserv⟩ := List.mem_filterMap.1 hj
    exact h.workers y hy job hserv

/-- A step accepts a connection on the lowest descriptor that is free. -/
private theorem opens_lowestFree {rm : RemoveFd} {s : Server} {l : Label} {r : Except Stop Server}
    (h : s.effect rm l = some r) {fd : Nat} (ho : s.opens l = some fd) : s.LowestFree fd := by
  cases l with
  | epollWait | take | getConnection | process | releaseConnection => cases ho
  | dispatch o =>
    obtain ⟨e, es, he, hh⟩ := effect_dispatch h
    simp only [opens, he] at ho
    split at ho
    · rename_i hc
      have hb := handle_branch rm { s with events := es } e o
      rw [hh] at hb
      cases hb with
      | listen hfd hr =>
        obtain ⟨hnone, -⟩ | ⟨fd', hfd', hfree, -⟩ := addClient_result hr
        · cases hnone.symm.trans ho
        · cases hfd'.symm.trans ho
          exact hfree
      | ssl hne hfd hr =>
        obtain ⟨hnone, -⟩ | ⟨fd', hfd', hfree, -⟩ := addSslClient_result hr
        · cases hnone.symm.trans ho
        · cases hfd'.symm.trans ho
          exact hfree
      | exits hne | alarm hne | term hne => exact absurd (hc.1.imp_right And.left) hne
      | input hown | hup hown =>
        obtain ⟨h1, h2, -⟩ := notMem_own.1 hown
        exact absurd (hc.1.imp_right And.left) (not_or.2 ⟨h1, h2⟩)
    · cases ho

/-- Nothing is left to be kept apart. -/
theorem Unclosed.keepsApart {s : Server} {l : Label} {r : Except Stop Server} (h : Unclosed s)
    (hr : s.effect .asWritten l = some r) : s.KeepsApart l := by
  refine ⟨⟨fun fd hfd job hj he => ?_, fun e he _ => ?_⟩, ?_⟩
  · obtain ⟨x, hx, hxfd, -⟩ := h.usedOpen job.slot (h.toWellFormed.used_of_pending hj)
    exact (opens_lowestFree hr hfd).2.1 ⟨x, hx, hxfd.trans he⟩
  · cases l with
    | epollWait | take | getConnection | process | releaseConnection => cases he
    | dispatch o =>
      obtain ⟨hhead, hown⟩ := Option.mem_filter_iff.1 he
      obtain ⟨id, hid, hopen⟩ := h.waitingOpen e (List.mem_of_mem_head? hhead) (of_decide_eq_true hown)
      obtain ⟨x, hx, hreg, hxe⟩ := mem_openConns.1 hopen
      obtain ⟨hxid, hxfd⟩ := Prod.mk.inj hxe
      exact ⟨x, hx, hreg, hxfd, (congrArg some hxid).trans hid.symm⟩
  · intro x hx
    cases l with
    | epollWait | take | getConnection | dispatch | releaseConnection => cases hx
    | process w i =>
      simp only [serves] at hx
      split at hx
      · rename_i job held ph hw
        cases hx
        cases ph with
        | enter | reading | parse | writing | done => rfl
        | prepare ret =>
          have h0 : (s.users_ job.slot).ivCount = 0 := h.first.stages w job held _ hw rfl
          simp [HttpHandler.offersLeftover, h0]
      · cases hx

private theorem Unclosed.serves {s : Server} {l : Label} (h : Unclosed s) : Serves firstProps firstProps s l where
  waits := fun h h0 => h0
  others := fun k job ph h _ hst => hst
  init := by
    intro fd timer type content ho hfree
    refine h.unused fd fun hu => ?_
    obtain ⟨x, hx, hfd, -⟩ := h.usedOpen fd hu
    exact hfree.2.1 ⟨x, hx, hfd⟩
  begins := fun w job h _ h0 _ => h0
  goesOn := by
    intro w i job held ph ph' hd users close _ _ _ _ hp hst hph
    obtain ⟨hearly, hiv⟩ := hp.ivCount hph
    exact hiv.trans (hst hearly)

/-- `ssl_context_` is freed with `ssl_fd_`. -/
private theorem context_step {rm : RemoveFd} {s s' : Server} {l : Label}
    (h : s.sslFd ∈ s.reserved → s.sslContext = true) (hs : Step rm s l s') :
    s'.sslFd ∈ s'.reserved → s'.sslContext = true := by
  cases hs with
  | epollWait | ignored | opened | term | hangUp | take | getConnection | process | close | releaseConnection =>
    exact h
  | readable =>
    unfold append
    split <;> exact h
  | timeout _ _ ht =>
    obtain ⟨_, _, _, _, rfl⟩ := timeout_frame ht
    exact h
  | sslFailed =>
    intro hm
    exact absurd rfl (of_decide_eq_true (List.mem_filter.1 hm).2)

theorem Unclosed.step {s s' : Server} {l : Label} (h : Unclosed s) (heff : s.effect .asWritten l = some (.ok s'))
    (hs' : s.step .asWritten l = some s') : Unclosed s' := by
  have hstep := effect_cases heff
  have hk := h.keepsApart heff
  have hret := effect_returning heff
  have hclosing := closing_asWritten heff
  have ht := h.toTimersLive.of_step hs'
  have hslot := effect_slot heff
  have hopen : ∀ k, s.Open k → s'.Open k := by
    intro k hok
    rw [open_iff] at hok ⊢
    rcases effect_openConns h.toWellFormed hret with ho | hc
    · obtain ⟨fd, hconns⟩ := ho.conns
      rw [hconns]
      exact List.mem_cons_of_mem _ hok
    · rw [hc.conns, hclosing]
      simpa using hok
  refine { toOneRequest := h.toOneRequest.step hk.1 hstep, timersLive := ht.timersLive, freshTimer := ht.freshTimer
           freshSlot := ht.freshSlot, usedOpen := fun k hu => ?_, hasSocket := fun k hu => ?_, unused := fun k hu => ?_
           first := h.first.step h.toOneRequest hk.1 h.serves hstep
           waitingOpen := h.waitingOpen.step h.toWellFormed (fun e _ _ => hclosing ▸ List.not_mem_nil) hret
           context := context_step h.context hstep }
  · cases hslot k with
    | opened _ _ hopen' => exact hopen'
    | kept hsock => exact hopen k (h.usedOpen k ((Used.congr hsock).1 hu))
  · cases hslot k with
    | opened _ _ _ hinit _ htype =>
      rw [hinit, HttpHandler.init_ioFd htype]
      simp
    | kept hsock =>
      rw [HttpHandler.ioFd_congr hsock]
      exact h.hasSocket k ((Used.congr hsock).1 hu)
  · cases hslot k with
    | opened _ _ _ hinit htimer =>
      refine absurd ?_ hu
      unfold Used
      rw [hinit]
      exact htimer
    | kept hsock hor =>
      have hun : ¬ s.Used k := fun hk => hu ((Used.congr hsock).2 hk)
      rcases hor with hsame | ⟨job, hj, rfl⟩
      · rw [hsame]
        exact h.unused k hun
      · exact absurd (h.toWellFormed.used_of_pending hj) hun

/-- A step does not end with a timer that has been freed, or with a null `SSL` or a freed `SSL_CTX`. -/
private theorem Unclosed.effect_error {s : Server} {l : Label} {why : Stop} (h : Unclosed s)
    (hr : s.effect .asWritten l = some (.error why)) : why ≠ .undefined .timer ∧ why ≠ .undefined .ssl := by
  cases l with
  | epollWait | take | getConnection | releaseConnection =>
    simp only [effect] at hr
    split at hr <;> cases hr
  | dispatch o =>
    obtain ⟨e, es, he, hh⟩ := effect_dispatch hr
    have hb := handle_branch .asWritten { s with events := es } e o
    rw [hh] at hb
    cases hb with
    | listen _ hr =>
      obtain ⟨-, hr⟩ | ⟨fd, -, -, hr⟩ := addClient_result hr
      · cases hr
      · rw [addUser_error hr]
        simp
    | ssl _ _ hr =>
      unfold addSslClient_ at hr
      split at hr
      · cases hr
      · split at hr
        · rename_i hfree
          rw [if_neg (by simp [h.context hfree.1])] at hr
          split at hr
          · rw [addUser_error (Option.some.inj hr)]
            simp
          · cases hr
        · cases hr
    | exits _ _ _ hr =>
      cases hr
      simp
    | alarm _ _ _ hr => cases hr
    | term _ _ _ hr => cases hr
    | input hown _ hr =>
      -- `m_timer` of an open connection is in the list
      obtain ⟨id, -, hopen⟩ := h.waitingOpen e (he ▸ List.mem_cons_self ..) hown
      obtain ⟨x, hx, hreg, hxe⟩ := mem_openConns.1 hopen
      obtain ⟨t, ht, htimer⟩ := h.timersLive.live x hx hreg
      rw [(Prod.mk.inj hxe).2] at htimer
      have hr := Option.some.inj hr
      unfold Server.readable at hr
      dsimp only at hr
      rw [htimer] at hr
      dsimp only at hr
      rw [if_pos ⟨t, ht, rfl⟩] at hr
      cases hr
    | hup _ _ hr =>
      rw [hangUp_asWritten] at hr
      cases hr
      simp
  | process w i =>
    obtain ⟨job, held, ph, hw, ⟨hnull, -⟩ | ⟨-, -, ⟨-, hr⟩ | ⟨h', users, ph', close, -, hr⟩⟩⟩ := processStep_result hr
    · have hph : ph ≠ .done := by
        rintro rfl
        have hp : s.processStep .asWritten w i = some (.error why) := hr
        unfold processStep at hp
        rw [hw] at hp
        cases hp
      have hused := h.workers _ (List.mem_of_getElem? hw) job (Worker.serving_of_ne_done hph)
      cases i with
      | tau | parse => exact hnull.elim
      | recv => exact absurd hnull (h.hasSocket job.slot hused)
      | wrote => exact absurd hnull (h.hasSocket job.slot hused)
    · cases hr
      simp
    · cases close with
      | false => cases hr
      | true =>
        rw [if_pos rfl, close_asWritten] at hr
        cases hr
        simp

end Server

/-- The invariant of the recorded server as written. -/
structure Recorded.Undisturbed (R : Recorded) : Prop extends R.Faithful where
  unclosed : R.server.stop = none → R.server.Unclosed
  timer : R.server.stop ≠ some (.undefined .timer)
  ssl : R.server.stop ≠ some (.undefined .ssl)

private theorem Recorded.Undisturbed.step {R R' : Recorded} {l : Label} (h : R.Undisturbed)
    (hs : R.step .asWritten l = some R') : R.server.KeepsApart l ∧ R'.Undisturbed := by
  obtain ⟨s', hs', heq⟩ := Option.map_eq_some_iff.1 hs
  have hserver : R'.server = s' := by
    rw [← heq]
    split <;> rfl
  obtain ⟨hrun, hcase⟩ := Server.step_cases hs'
  have hu := h.unclosed hrun
  have hk : R.server.KeepsApart l := by
    rcases hcase with ⟨why, heff, -⟩ | ⟨heff, -⟩ <;> exact hu.keepsApart heff
  refine ⟨hk, { toFaithful := h.toFaithful.step hk hs, unclosed := ?_, timer := ?_, ssl := ?_ }⟩ <;> rw [hserver]
  · intro hstop
    rcases hcase with ⟨why, -, rfl⟩ | ⟨heff, -⟩
    · cases hstop
    · exact hu.step heff hs'
  · rcases hcase with ⟨why, heff, rfl⟩ | ⟨-, hstep⟩
    · exact fun he => (hu.effect_error heff).1 (Option.some.inj he)
    · rw [hstep.goesOn.1, hrun]
      simp
  · rcases hcase with ⟨why, heff, rfl⟩ | ⟨-, hstep⟩
    · exact fun he => (hu.effect_error heff).2 (Option.some.inj he)
    · rw [hstep.goesOn.1, hrun]
      simp

/-- In every run of the program as written all steps keep connections apart, each first write call that sends bytes
sends the reply to what was received on that connection, or the start of it, and the run does not end with a timer
that has been freed, nor with a null `SSL` or a freed `SSL_CTX`. -/
theorem asWritten_run {c : Setup} {ls : List Label} {R : Recorded}
    (h : run (Recorded.step .asWritten) c.recorded ls = some R) :
    Meets (Recorded.step .asWritten) (fun R => R.server.KeepsApart) c.recorded ls ∧
      (∀ x ∈ R.exchanges, x.Correct) ∧ R.server.stop ≠ some (.undefined .timer) ∧
        R.server.stop ≠ some (.undefined .ssl) := by
  have h0 : c.recorded.Undisturbed :=
    { oneRequest := Server.oneRequest_start c, answering := fun _ => Server.serving_start _ c
      correct := fun x hx => (by cases hx), unclosed := fun _ => Server.unclosed_start c
      timer := (by simp [Setup.recorded, Setup.start]), ssl := (by simp [Setup.recorded, Setup.start]) }
  have hR := run_invariant (P := Recorded.Undisturbed) (fun _ _ _ hP _ hs => (hP.step hs).2) h0 Meets.trivial h
  exact ⟨(meets_congr (P := Recorded.Undisturbed) (fun _ _ _ hP hs => iff_of_true (hP.step hs).1 trivial)
    (fun _ _ _ hP _ hs => (hP.step hs).2) h0 h).2 Meets.trivial, hR.correct, hR.timer, hR.ssl⟩

theorem asWritten_run_twoClients :
    ∃ R, run (Recorded.step .asWritten) Setup.default.recorded twoAnswers = some R ∧
      R.exchanges.map Exchange.conn = [some 0, some 1] ∧
      Meets (Recorded.step .asWritten) (fun R => R.server.KeepsApart) Setup.default.recorded twoAnswers ∧
      (∀ x ∈ R.exchanges, x.Correct) ∧ R.server.stop ≠ some (.undefined .timer) ∧
        R.server.stop ≠ some (.undefined .ssl) := by
  have hconns : (run (Recorded.step .asWritten) Setup.default.recorded twoAnswers).map
      (fun R => R.exchanges.map Exchange.conn) = some [some 0, some 1] := by
    decide +kernel
  obtain ⟨R, hR, hc⟩ := Option.map_eq_some_iff.1 hconns
  exact ⟨R, hR, hc, asWritten_run hR⟩

end ImageServer
