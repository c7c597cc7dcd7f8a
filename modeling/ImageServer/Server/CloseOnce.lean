import ImageServer.Server.Invariant

/-!
# Closing once

`process()` runs its three phases whatever has become of the connection.  `Call` follows one call of it, with a log of
what it does to the connection, for a `remove_fd` that returns on an open descriptor; a step of a worker is a step of
its call (`call_step`).  A call closes the connection once and is silent from then on exactly when it does not close
while it reads (`closedOnce_of_call`): a connection closed there is parsed and answered all the same.
-/

namespace ImageServer

open Transition

/-- What `process()` does to a connection. -/
inductive Action
  /-- `recv` or `SSL_read` -/
  | recv
  /-- `parse_` -/
  | parse
  /-- `write_to_buffer_` -/
  | prepare
  /-- `writev` or `SSL_writev` -/
  | write
  | close
deriving DecidableEq

/-- What is called at the position. -/
def Phase.action : Phase → List Action
  | .enter => []
  | .reading _ => [.recv]
  | .parse => [.parse]
  | .prepare _ => [.prepare]
  | .writing _ => [.write]
  | .done => []

/-- `process()` has left the loop of `read_`. -/
def Phase.late : Phase → Bool
  | .enter => false
  | .reading _ => false
  | _ => true

/-- The answer makes `read_` close the connection. -/
def ProcInput.endsRead : ProcInput → Bool
  | .recv .eof => true
  | .recv .fail => true
  | _ => false

/-- A call of `process()` that nobody interferes with. -/
structure Call where
  handler : HttpHandler
  users : Users
  /-- `m_user_count` -/
  userCount : Int
  /-- `m_sockfd` is an open descriptor -/
  isOpen : Bool
  /-- the position, unless the last step has ended the process -/
  phase : Option Phase
  log : List Action

namespace Call

/-- The call on an open connection. -/
def start (h : HttpHandler) (users : Users) (userCount : Int) : Call :=
  { handler := h, users := users, userCount := userCount, isOpen := true, phase := some .enter, log := [] }

/-- The step at `ph` is undefined. -/
def fails (c : Call) (ph : Phase) : Call := { c with phase := none, log := c.log ++ ph.action }

/-- The step at `ph` calls `close()` on a connection that is closed: `remove_fd` does not return. -/
def exits (c : Call) (ph : Phase) : Call := { c with phase := none, log := c.log ++ ph.action ++ [.close] }

/-- The step at `ph` has led to `ph'`. -/
def goesOn (c : Call) (ph : Phase) (h : HttpHandler) (users : Users) (ph' : Phase) (close : Bool) : Call :=
  { handler := if close then h.closeFields else h
    users := users
    userCount := if close then c.userCount - 1 else c.userCount
    isOpen := c.isOpen && !close
    phase := some ph'
    log := c.log ++ ph.action ++ if close then [.close] else [] }

def step (c : Call) (i : ProcInput) : Option Call :=
  match c.phase with
  | none => none
  | some ph =>
    match c.handler.procStep c.users ph i with
    | none => none
    | some r =>
      if Server.NullSsl c.handler i then some (c.fails ph)
      else
        match r with
        | .undefined => some (c.fails ph)
        | .next h users ph' close =>
          if close && !c.isOpen then some (c.exits ph) else some (c.goesOn ph h users ph' close)

/-- The call has closed the connection at most once, has done nothing after it, and has counted it. -/
structure ClosedOnce (n : Int) (c : Call) : Prop where
  silent : Action.close ∉ c.log.dropLast
  count : c.userCount = n - if Action.close ∈ c.log then 1 else 0

instance (n : Int) (c : Call) : Decidable (c.ClosedOnce n) :=
  decidable_of_iff (Action.close ∉ c.log.dropLast ∧ c.userCount = n - if Action.close ∈ c.log then 1 else 0)
    ⟨fun h => ⟨h.1, h.2⟩, fun h => ⟨h.1, h.2⟩⟩

/-- What a step of a call can do. -/
private theorem step_cases {c c' : Call} {i : ProcInput} (h : c.step i = some c') :
    ∃ ph, c.phase = some ph ∧
      ((c.handler.procStep c.users ph i = some .undefined ∨ Server.NullSsl c.handler i) ∧
          c.handler.procStep c.users ph i ≠ none ∧ c' = c.fails ph ∨
        ∃ hd users ph' close, HttpHandler.ProcStep c.handler c.users ph i hd users ph' close ∧
          (close = true ∧ c.isOpen = false ∧ c' = c.exits ph ∨
            (close = true → c.isOpen = true) ∧ c' = c.goesOn ph hd users ph' close)) := by
  unfold step at h
  split at h
  · cases h
  · rename_i ph hph
    refine ⟨ph, hph, ?_⟩
    split at h
    · cases h
    · rename_i r hr
      split at h
      · cases h
        exact Or.inl ⟨Or.inr ‹_›, by simp [hr], rfl⟩
      · cases r with
        | undefined =>
          cases h
          exact Or.inl ⟨Or.inl hr, by simp [hr], rfl⟩
        | next hd users ph' close =>
          refine Or.inr ⟨hd, users, ph', close, HttpHandler.procStep_cases hr, ?_⟩
          dsimp only at h
          split at h
          · rename_i hexit
            cases h
            have hexit := Bool.and_eq_true_iff.1 hexit
            exact Or.inl ⟨hexit.1, by simpa using hexit.2, rfl⟩
          · rename_i hstay
            cases h
            refine Or.inr ⟨fun hclose => ?_, rfl⟩
            simpa [hclose] using hstay

/-! ### After the loop of `read_` -/

/-- Only the loop of `read_` is answered by `recv`. -/
private theorem endsRead_of_late {h : HttpHandler} {users : Users} {ph : Phase} {i : ProcInput} (hl : ph.late = true)
    (hs : h.procStep users ph i ≠ none) : i.endsRead = false := by
  cases ph with
  | enter | reading => cases hl
  | done => exact absurd rfl hs
  | parse | prepare | writing =>
    cases i with
    | recv r => exact absurd rfl hs
    | tau | parse | wrote => rfl

/-- Behind `read_` the phases follow one another, and `close()` is the last thing done. -/
private theorem procStep_late {h h' : HttpHandler} {users users' : Users} {ph ph' : Phase} {i : ProcInput}
    {close : Bool} (hl : ph.late = true) (hs : HttpHandler.ProcStep h users ph i h' users' ph' close) :
    ph'.late = true ∧ ph' ≠ .parse ∧ (close = true → ph' = .done) := by
  cases hs with
  | full | enter | data | eof | fail | triedOut | again => cases hl
  | parse | prepare | write | finish => exact ⟨rfl, by simp, by simp⟩
  | refuse | close => exact ⟨rfl, by simp, fun _ => rfl⟩

/-- The call has not closed the connection; `n` is the count before the call. -/
structure Untouched (n : Int) (c : Call) : Prop where
  log : Action.close ∉ c.log
  count : c.userCount = n
  isOpen : c.isOpen = true

/-- `read_` is left, and has not closed the connection. -/
structure Unclosed (n : Int) (c : Call) : Prop where
  late : ∀ ph, c.phase = some ph → ph.late = true
  once : c.Untouched n ∨ c.phase = some .done ∧ c.ClosedOnce n

private theorem Untouched.closedOnce {n : Int} {c : Call} (h : c.Untouched n) : c.ClosedOnce n where
  silent := fun hm => h.log ((List.dropLast_sublist _).subset hm)
  count := by rw [if_neg h.log, h.count, Int.sub_zero]

private theorem Unclosed.closedOnce {n : Int} {c : Call} (h : c.Unclosed n) : c.ClosedOnce n := by
  rcases h.once with hu | ⟨-, hc⟩
  · exact hu.closedOnce
  · exact hc

private theorem close_not_mem_action (ph : Phase) : Action.close ∉ ph.action := by
  cases ph <;> simp [Phase.action]

private theorem close_mem_goesOn {c : Call} {ph ph' : Phase} {h : HttpHandler} {users : Users} {close : Bool}
    (hlog : Action.close ∉ c.log) : Action.close ∈ (c.goesOn ph h users ph' close).log ↔ close = true := by
  have ha := close_not_mem_action ph
  cases close <;> simp [goesOn, hlog, ha]

private theorem Untouched.fails {n : Int} {c : Call} (hc : c.Untouched n) (ph : Phase) : (c.fails ph).Untouched n where
  log := by simp [Call.fails, hc.log, close_not_mem_action ph]
  count := hc.count
  isOpen := hc.isOpen

private theorem Untouched.goesOn {n : Int} {c : Call} {ph ph' : Phase} {h : HttpHandler} {users : Users}
    (hc : c.Untouched n) : (c.goesOn ph h users ph' false).Untouched n where
  log := fun hm => by simpa using (close_mem_goesOn hc.log).1 hm
  count := hc.count
  isOpen := by simp [Call.goesOn, hc.isOpen]

private theorem Untouched.closedOnce_goesOn {n : Int} {c : Call} {ph ph' : Phase} {h : HttpHandler} {users : Users}
    (hc : c.Untouched n) : (c.goesOn ph h users ph' true).ClosedOnce n where
  silent := by
    have hlog := hc.log
    have ha := close_not_mem_action ph
    simp [Call.goesOn, hlog, ha]
  count := by
    rw [if_pos ((close_mem_goesOn hc.log).2 rfl)]
    simp [Call.goesOn, hc.count]

/-- On an open connection `close()` returns. -/
private theorem Untouched.step_cases {n : Int} {c c' : Call} {i : ProcInput} (hc : c.Untouched n)
    (h : c.step i = some c') :
    ∃ ph, c.phase = some ph ∧
      ((c.handler.procStep c.users ph i = some .undefined ∨ Server.NullSsl c.handler i) ∧
          c.handler.procStep c.users ph i ≠ none ∧ c' = c.fails ph ∨
        ∃ hd users ph' close, HttpHandler.ProcStep c.handler c.users ph i hd users ph' close ∧
          c' = c.goesOn ph hd users ph' close) := by
  obtain ⟨ph, hph, hu | ⟨hd, users, ph', close, hs, ⟨-, hshut, -⟩ | ⟨-, rfl⟩⟩⟩ := Call.step_cases h
  · exact ⟨ph, hph, Or.inl hu⟩
  · rw [hc.isOpen] at hshut
    cases hshut
  · exact ⟨ph, hph, Or.inr ⟨hd, users, ph', close, hs, rfl⟩⟩

/-- A call that can still make a step has not closed the connection. -/
private theorem Unclosed.untouched {n : Int} {c c' : Call} {i : ProcInput} (h : c.Unclosed n)
    (hs' : c.step i = some c') :
    c.Untouched n := by
  refine h.once.resolve_right fun hdone => ?_
  obtain ⟨ph, hph, ⟨-, hi, -⟩ | ⟨hd, users, ph', close, hs, -⟩⟩ := step_cases hs'
  · rw [hdone.1] at hph
    cases hph
    exact hi rfl
  · rw [hdone.1] at hph
    cases hph
    cases hs

private theorem Unclosed.step {n : Int} {c c' : Call} {i : ProcInput} (h : c.Unclosed n) (hs' : c.step i = some c') :
    c'.Unclosed n ∧ c'.phase ≠ some .parse ∧ i.endsRead = false := by
  have hc := h.untouched hs'
  obtain ⟨ph, hph, ⟨-, hi, rfl⟩ | ⟨hd, users, ph', close, hs, rfl⟩⟩ := hc.step_cases hs'
  · have hl := h.late ph hph
    refine ⟨⟨?_, Or.inl (hc.fails ph)⟩, by simp [fails], endsRead_of_late hl hi⟩
    intro ph' hph'
    cases hph'
  · have hl := h.late ph hph
    obtain ⟨hl', hne, hdone⟩ := procStep_late hl hs
    refine ⟨⟨?_, ?_⟩, by simpa [goesOn] using hne, ?_⟩
    · intro ph'' hph''
      cases hph''
      exact hl'
    · cases close with
      | false => exact Or.inl hc.goesOn
      | true => exact Or.inr ⟨congrArg some (hdone rfl), hc.closedOnce_goesOn⟩
    · cases hs with
      | full | enter | data | eof | fail | triedOut | again => cases hl
      | parse | prepare | refuse | write | finish | close => rfl

private theorem Unclosed.run {n : Int} {c c' : Call} {is : List ProcInput} (h : c.Unclosed n)
    (hr : Transition.run Call.step c is = some c') : c'.Unclosed n ∧ ∀ i ∈ is, i.endsRead = false := by
  induction is generalizing c with
  | nil =>
    cases hr
    exact ⟨h, by simp⟩
  | cons i is ih =>
    obtain ⟨c₁, hs, hr⟩ := run_cons hr
    obtain ⟨h₁, -, hi⟩ := h.step hs
    obtain ⟨h₂, his⟩ := ih h₁ hr
    exact ⟨h₂, List.forall_mem_cons.2 ⟨hi, his⟩⟩

/-! ### A connection closed in `read_` -/

/-- What has been done after a `close()` stays in the log. -/
private theorem notSilent_step {c c' : Call} {i : ProcInput} (h : Action.close ∈ c.log.dropLast)
    (hs : c.step i = some c') :
    Action.close ∈ c'.log.dropLast := by
  have hgrow : ∀ e : List Action, Action.close ∈ (c.log ++ e).dropLast := by
    intro e
    have hpre : c.log.dropLast <+: (c.log ++ e).dropLast := by
      cases e with
      | nil => simp
      | cons a e =>
        rw [List.dropLast_append_cons]
        exact (List.dropLast_prefix _).trans (List.prefix_append _ _)
    exact hpre.subset h
  obtain ⟨ph, -, ⟨-, -, rfl⟩ | ⟨hd, users, ph', close, -, ⟨-, -, rfl⟩ | ⟨-, rfl⟩⟩⟩ := step_cases hs
  · exact hgrow _
  · simp only [exits, List.append_assoc]
    exact hgrow _
  · simp only [goesOn, List.append_assoc]
    exact hgrow _

/-- `parse_` follows whether the connection is closed or not. -/
private theorem notSilent_parse {c c' : Call} {i : ProcInput} (hph : c.phase = some .parse) (h : Action.close ∈ c.log)
    (hs' : c.step i = some c') : Action.close ∈ c'.log.dropLast ∧ c'.phase ≠ some .parse := by
  obtain ⟨ph, hph', ⟨-, -, rfl⟩ | ⟨hd, users, ph', close, hs, hc'⟩⟩ := step_cases hs'
  · cases hph.symm.trans hph'
    exact ⟨by simpa [fails, Phase.action] using h, by simp [fails]⟩
  · cases hph.symm.trans hph'
    cases hs
    obtain ⟨hclose, -, -⟩ | ⟨-, rfl⟩ := hc'
    · cases hclose
    · exact ⟨by simpa [goesOn, Phase.action] using h, by simp [goesOn]⟩

/-- A call that closes the connection in `read_` is not silent after it. -/
theorem notSilent_run {c c' : Call} {is : List ProcInput} (hph : c.phase = some .parse) (h : Action.close ∈ c.log)
    (hr : run step c is = some c') (hend : c'.phase ≠ some .parse) : Action.close ∈ c'.log.dropLast := by
  cases is with
  | nil =>
    cases hr
    exact absurd hph hend
  | cons i is =>
    obtain ⟨c₁, hs, hr⟩ := run_cons hr
    exact run_invariant (P := fun c => Action.close ∈ c.log.dropLast) (fun c i c' h _ hs => notSilent_step h hs)
      (notSilent_parse hph h hs).1 Meets.trivial hr

/-- The loop of `read_`, on a connection that is open. -/
structure Reading (n : Int) (c : Call) : Prop extends Untouched n c where
  reading : ∃ tried, c.phase = some (.reading tried)
  io : c.handler.ioFd ≠ none

/-- What an answer to `recv` leads to: further reading, `parse_` with the connection open, or `parse_` with the
connection closed. -/
private theorem Reading.step {n : Int} {c c' : Call} {i : ProcInput} (h : c.Reading n) (hs' : c.step i = some c') :
    i.endsRead = false ∧ (c'.Reading n ∨ c'.Unclosed n) ∨
      i.endsRead = true ∧ c'.phase = some .parse ∧ Action.close ∈ c'.log := by
  obtain ⟨tried, hr⟩ := h.reading
  obtain ⟨ph, hph, ⟨hu, hi, rfl⟩ | ⟨hd, users, ph', close, hs, rfl⟩⟩ := h.toUntouched.step_cases hs'
  · cases hr.symm.trans hph
    left
    have hunclosed : (c.fails (.reading tried)).Unclosed n := by
      refine ⟨?_, Or.inl (h.toUntouched.fails _)⟩
      intro ph' hph'
      cases hph'
    refine ⟨?_, Or.inr hunclosed⟩
    rcases hu with hu | hu
    · have hcloses := HttpHandler.closes_of_undefined hu
      cases i with
      | recv r =>
        cases r with
        | data | again => rfl
        | eof | fail => cases hcloses
      | tau | parse | wrote => rfl
    · cases i with
      | recv r => exact absurd hu h.io
      | tau | parse | wrote => rfl
  · cases hr.symm.trans hph
    cases hs with
    | data | again => exact Or.inl ⟨rfl, Or.inl ⟨h.toUntouched.goesOn, ⟨_, rfl⟩, h.io⟩⟩
    | triedOut =>
      refine Or.inl ⟨rfl, Or.inr ⟨?_, Or.inl h.toUntouched.goesOn⟩⟩
      intro ph' hph'
      cases hph'
      rfl
    | eof | fail => exact Or.inr ⟨rfl, rfl, (close_mem_goesOn h.log).2 rfl⟩

/-- From within the loop of `read_`: the connection is closed once exactly when no `recv` ends the reading. -/
private theorem Reading.run {n : Int} {c c' : Call} {is : List ProcInput} (h : c.Reading n)
    (hr : run Call.step c is = some c') (hend : c'.phase ≠ some .parse) :
    c'.ClosedOnce n ↔ ∀ i ∈ is, i.endsRead = false := by
  induction is generalizing c with
  | nil =>
    cases hr
    exact iff_of_true h.toUntouched.closedOnce (by simp)
  | cons i is ih =>
    obtain ⟨c₁, hs, hr⟩ := run_cons hr
    rcases h.step hs with ⟨hi, h₁ | h₁⟩ | ⟨hi, hph, hlog⟩
    · rw [ih h₁ hr, List.forall_mem_cons]
      exact ⟨fun his => ⟨hi, his⟩, fun his => his.2⟩
    · obtain ⟨h₂, his⟩ := h₁.run hr
      exact iff_of_true h₂.closedOnce (List.forall_mem_cons.2 ⟨hi, his⟩)
    · refine iff_of_false (fun hc => hc.silent (notSilent_run hph hlog hr hend)) fun his => ?_
      rw [(List.forall_mem_cons.1 his).1] at hi
      cases hi

/-- One call of `process()` on an open connection, once `read_` is entered and wherever it is but between `read_` and
`parse_`: it has closed the connection once and been silent since exactly when the buffer was not full and no `recv`
has ended the reading. -/
theorem closedOnce_of_call {h : HttpHandler} {users : Users} {n : Int} {is : List ProcInput} {c : Call}
    (hio : h.ioFd ≠ none) (hr : Transition.run step (start h users n) is = some c) (hbegun : c.phase ≠ some .enter)
    (hend : c.phase ≠ some .parse) :
    c.ClosedOnce n ↔ h.readIdx < READ_BUFFER_SIZE ∧ ∀ i ∈ is, i.endsRead = false := by
  cases is with
  | nil =>
    cases hr
    exact absurd rfl hbegun
  | cons i is =>
    obtain ⟨c₁, hs', hr⟩ := run_cons hr
    have hi : i.endsRead = false := by
      cases i with
      | tau => rfl
      | recv | parse | wrote => cases hs'
    rw [List.forall_mem_cons]
    have hstart : (start h users n).Untouched n := ⟨by simp [start], rfl, rfl⟩
    obtain ⟨ph, hph, ⟨hu, hne, rfl⟩ | ⟨hd, users', ph', close, hs, rfl⟩⟩ := hstart.step_cases hs'
    · cases hph
      -- the test on the buffer has no undefined outcome
      cases i with
      | tau =>
        refine absurd hu (not_or.2 ⟨?_, id⟩)
        by_cases hfull : (READ_BUFFER_SIZE : Int) ≤ h.readIdx
        · simp [start, HttpHandler.procStep, hfull]
        · simp [start, HttpHandler.procStep, hfull]
      | recv | parse | wrote => exact absurd rfl hne
    · cases hph
      cases hs with
      | full hfull =>
        have hlog : Action.close ∈ (goesOn (start h users n) .enter h users .parse true).log :=
          (close_mem_goesOn hstart.log).2 rfl
        refine iff_of_false (fun hc => hc.silent (notSilent_run rfl hlog hr hend)) fun hc => ?_
        exact absurd hc.1 (not_lt.2 hfull)
      | enter hroom =>
        have hreading : (goesOn (start h users n) .enter h users (.reading 10) false).Reading n :=
          ⟨hstart.goesOn, ⟨10, rfl⟩, hio⟩
        rw [hreading.run hr hend]
        exact ⟨fun his => ⟨hroom, hi, his⟩, fun his => his.2.2⟩

end Call

/-! ### The calls of the workers -/

namespace Server

/-- The call of `process()` on the slot, as far as the server's state says where it is. -/
def call (s : Server) (slot : Nat) (ph : Option Phase) (log : List Action) : Call :=
  { handler := s.users_ slot
    users := s.accounts
    userCount := s.userCount
    isOpen := decide (0 ≤ s.epollDel (s.users_ slot).sockfd)
    phase := ph
    log := log }

/-- `remove_fd` does not return on the `-1` that `close` leaves in the slot. -/
private theorem epollDel_negOne (s : Server) : s.epollDel (-1) = -1 := by
  unfold epollDel
  refine if_neg fun hany => ?_
  simp only [List.any_eq_true, Bool.decide_and, Bool.and_eq_true, decide_eq_true_eq] at hany
  obtain ⟨c, -, hfd, -⟩ := hany
  omega

private theorem epollDel_served (s : Server) (w : Nat) (job : Job) (held : Option Nat) (ph : Phase) (h : HttpHandler)
    (users : Users) (fd : Int) : (s.served w job held ph h users).epollDel fd = s.epollDel fd := rfl

/-- A step of a worker is a step of its call. -/
theorem call_step {s s' : Server} {w : Nat} {i : ProcInput} {job : Job} {held : Option Nat} {ph : Phase}
    (log : List Action) (hw : s.workers[w]? = some (.processing job held ph))
    (h : s.step .onOpen (.process w i) = some s') :
    ∃ c, (s.call job.slot (some ph) log).step i = some c ∧
      (s'.stop ≠ none ∧ c.phase = none ∨
        s'.stop = none ∧ ∃ ph', s'.workers[w]? = some (.processing job held ph') ∧
          c = s'.call job.slot (some ph') c.log) := by
  obtain ⟨hstop, heff⟩ := step_cases h
  have hlt : w < s.workers.length := (List.getElem?_eq_some_iff.1 hw).1
  obtain ⟨res, heff, hend⟩ : ∃ res, s.processStep .onOpen w i = some res ∧
      (∀ why, res = .error why → s'.stop ≠ none) ∧ ∀ t, res = .ok t → s' = t := by
    rcases heff with ⟨why, heff, rfl⟩ | ⟨heff, -⟩
    · exact ⟨_, heff, fun _ _ => by simp, fun _ ht => by cases ht⟩
    · exact ⟨_, heff, fun _ hwhy => (by cases hwhy), fun _ ht => Except.ok.inj ht⟩
  simp only [processStep, hw] at heff
  split at heff
  · cases heff
  rename_i r hr
  split at heff
  · rename_i hnull
    cases heff
    refine ⟨(s.call job.slot (some ph) log).fails ph, ?_, Or.inl ⟨hend.1 _ rfl, rfl⟩⟩
    simp [Call.step, call, hr, hnull]
  rename_i hnull
  split at heff
  · cases r with
    | undefined =>
      cases heff
      refine ⟨(s.call job.slot (some ph) log).fails ph, ?_, Or.inl ⟨hend.1 _ rfl, rfl⟩⟩
      simp [Call.step, call, hr, hnull]
    | next hd users ph' close =>
      have hsocket : ((s.served w job held ph' hd users).users_ job.slot).socket = (s.users_ job.slot).socket :=
        served_socket (HttpHandler.procStep_cases hr) job.slot
      have hsock : ((s.served w job held ph' hd users).users_ job.slot).sockfd = (s.users_ job.slot).sockfd := by
        have hfd := congrArg Outside.sockfd hsocket
        exact hfd
      have hself : (s.served w job held ph' hd users).users_ job.slot = hd := Function.update_self ..
      have hset : (s.workers.set w (.processing job held ph'))[w]? = some (.processing job held ph') :=
        List.getElem?_set_self hlt
      cases close with
      | false =>
        cases heff
        cases hend.2 _ rfl
        refine ⟨(s.call job.slot (some ph) log).goesOn ph hd users ph' false, ?_, Or.inr ⟨hstop, ph', hset, ?_⟩⟩
        · simp [Call.step, call, hr, hnull]
        · rw [hself] at hsock
          simp [Call.goesOn, call, hself, hsock, epollDel_served]
          simp [served]
      | true =>
        dsimp only at heff
        rw [if_pos rfl, close_onOpen, epollDel_served, hsock] at heff
        by_cases hopen : 0 ≤ s.epollDel (s.users_ job.slot).sockfd
        · rw [if_pos hopen] at heff
          cases heff
          cases hend.2 _ rfl
          refine ⟨(s.call job.slot (some ph) log).goesOn ph hd users ph' true, ?_, Or.inr ⟨hstop, ph', hset, ?_⟩⟩
          · simp [Call.step, call, hr, hnull, hopen]
          · have hshut : ∀ s : Server, s.epollDel hd.closeFields.sockfd = -1 := epollDel_negOne
            simp [Call.goesOn, call, served, closed, dropFd, hshut]
        · rw [if_neg hopen] at heff
          cases heff
          refine ⟨(s.call job.slot (some ph) log).exits ph, ?_, Or.inl ⟨hend.1 _ rfl, rfl⟩⟩
          simp [Call.step, call, hr, hnull, hopen]
  · cases heff

end Server

end ImageServer
