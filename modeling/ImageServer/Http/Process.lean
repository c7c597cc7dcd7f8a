import ImageServer.Http.DoRequest
import ImageServer.Http.Write

/-!
# One request: `process()`

`process()` runs `read_`, `parse_` and `write_` one after the other.  Each of its system calls is a step of its
own here (`procStep`), because the event loop may close or reuse the slot between two of them; `Phase` is the
position of the worker in `process()`.  A step can end in a call of `close()`, which is always the last thing it
does; the caller of `procStep` then closes the connection.  `procRun` runs the steps of one `process()` with the
results of its system calls, on a slot nobody else touches.
-/

namespace ImageServer

open CLib

/-- The result of `recv` or `SSL_read`. -/
inductive RecvResult
  | data (bs : List Byte)
  | eof
  | again
  | fail
deriving DecidableEq

/-- Where a worker is in `process()`. -/
inductive Phase
  /-- about to call `read_` -/
  | enter
  /-- in the loop of `read_`, with `tried_times` -/
  | reading (tried : Nat)
  /-- about to call `parse_` -/
  | parse
  /-- about to call `write_to_buffer_` for the result of `parse_` -/
  | prepare (ret : HttpState)
  /-- in the loop of `write_to_fd_`, with `newadd` -/
  | writing (newadd : Int)
  /-- `process()` has returned -/
  | done
deriving DecidableEq

/-- What the environment answers to a step: nothing, or the result of the system call made. -/
inductive ProcInput
  | tau
  | recv (r : RecvResult)
  | parse (env : Env) (errno : Errno)
  | wrote (r : WriteResult)

/-- The outcome of a step; `close` is set when it ends in a call of `close()`. -/
inductive ProcResult
  | undefined
  | next (h : HttpHandler) (users : Users) (ph : Phase) (close : Bool)

namespace HttpHandler

/-- One iteration of the loop of `read_`, for the result of its `recv`: on every failed attempt but the last
`m_read_idx` is still increased by the result, which is -1. -/
def readStep (h : HttpHandler) (users : Users) (tried : Nat) : RecvResult → ProcResult
  | .data bs =>
    match h.toParser.receive bs with
    | none => .undefined
    | some p => .next { h with toParser := p } users (.reading tried) false
  | .eof => .next h users .parse true
  | .again =>
    if tried - 1 = 0 then .next h users .parse false
    else .next { h with readIdx := h.readIdx - 1 } users (.reading (tried - 1)) false
  | .fail => .next h users .parse true

/-- `parse_`, with the call of `do_request_` it ends in. -/
def parse (h : HttpHandler) (users : Users) (env : Env) (errno : Errno) :
    Option (HttpState × HttpHandler × Users) := do
  let (e, p, _) ← h.toParser.parse_ errno
  match e with
  | .outOfFuel => none
  | .returns ret => return (ret, { h with toParser := p }, users)
  | .doRequest =>
    let (ret, p, r, users) ← doRequest_ env h.mysql users p h.toResource
    return (ret, { h with toParser := p, toResource := r }, users)

/-- `write_to_buffer_`. -/
def writeToBuffer_ (h : HttpHandler) (ret : HttpState) : Option (Bool × HttpHandler) :=
  (h.toWriter.writeToBuffer_ h.linger h.toResource ret).map fun r => (r.1, { h with toWriter := r.2 })

/-- The bytes `m_iv` offers. -/
def offer (h : HttpHandler) : Option (List Byte) := offered h.toWriter h.fileAddress

/-- The answers a `recv` into the rest of the buffer can give. -/
def CanReceive (h : HttpHandler) : RecvResult → Bool
  | .data bs => 0 < bs.length ∧ h.readIdx + bs.length ≤ READ_BUFFER_SIZE
  | _ => true

/-- The answers a write call can give: it accepts at most what it is offered. -/
def CanWrite (h : HttpHandler) : WriteResult → Bool
  | .count n => 0 < n ∧ (h.offer.map List.length).all (n ≤ ·)
  | _ => true

/-- A step of `process()`; there is none when the environment's answer is not one to the call the step makes. -/
def procStep (h : HttpHandler) (users : Users) : Phase → ProcInput → Option ProcResult
  | .enter, .tau =>
    -- `read_` reports nothing to its caller: after `close()` the rest of `process()` follows
    if READ_BUFFER_SIZE ≤ h.readIdx then some (.next h users .parse true)
    else some (.next h users (.reading 10) false)
  | .reading tried, .recv r => if h.CanReceive r then some (h.readStep users tried r) else none
  | .parse, .parse env errno =>
    match h.parse users env errno with
    | none => some .undefined
    | some (ret, h, users) => some (.next h users (.prepare ret) false)
  | .prepare ret, .tau =>
    match h.writeToBuffer_ ret with
    | none => some .undefined
    | some (true, h) => some (.next h users (.writing 0) false)
    | some (false, h) => some (.next h users .done true)
  | .writing newadd, .wrote r =>
    if h.offer = none then some .undefined
    else if h.CanWrite r then
      match h.writeStep newadd r with
      | .again h newadd => some (.next h users (.writing newadd) false)
      | .finished h => some (.next h users .done false)
      | .closing h => some (.next h users .done true)
    else none
  | _, _ => none

/-- The steps of `process()` one by one: `ProcStep h users ph i h' users' ph' close`. -/
inductive ProcStep (h : HttpHandler) (users : Users) :
    Phase → ProcInput → HttpHandler → Users → Phase → Bool → Prop
  | full : READ_BUFFER_SIZE ≤ h.readIdx → ProcStep h users .enter .tau h users .parse true
  | enter : h.readIdx < READ_BUFFER_SIZE → ProcStep h users .enter .tau h users (.reading 10) false
  | data {tried : Nat} {bs : List Byte} {p : Parser} : h.CanReceive (.data bs) → h.toParser.receive bs = some p →
    ProcStep h users (.reading tried) (.recv (.data bs)) { h with toParser := p } users (.reading tried) false
  | eof {tried : Nat} : ProcStep h users (.reading tried) (.recv .eof) h users .parse true
  | fail {tried : Nat} : ProcStep h users (.reading tried) (.recv .fail) h users .parse true
  | triedOut {tried : Nat} : ProcStep h users (.reading tried) (.recv .again) h users .parse false
  | again {tried : Nat} :
    ProcStep h users (.reading tried) (.recv .again) { h with readIdx := h.readIdx - 1 } users
      (.reading (tried - 1)) false
  | parse {env : Env} {errno : Errno} {ret : HttpState} {h' : HttpHandler} {users' : Users} :
    h.parse users env errno = some (ret, h', users') →
    ProcStep h users .parse (.parse env errno) h' users' (.prepare ret) false
  | prepare {ret : HttpState} {h' : HttpHandler} : h.writeToBuffer_ ret = some (true, h') →
    ProcStep h users (.prepare ret) .tau h' users (.writing 0) false
  | refuse {ret : HttpState} {h' : HttpHandler} : h.writeToBuffer_ ret = some (false, h') →
    ProcStep h users (.prepare ret) .tau h' users .done true
  | write {newadd newadd' : Int} {r : WriteResult} {h' : HttpHandler} : h.writeStep newadd r = .again h' newadd' →
    h.offer ≠ none → ProcStep h users (.writing newadd) (.wrote r) h' users (.writing newadd') false
  | finish {newadd : Int} {r : WriteResult} {h' : HttpHandler} : h.writeStep newadd r = .finished h' →
    h.offer ≠ none → ProcStep h users (.writing newadd) (.wrote r) h' users .done false
  | close {newadd : Int} {r : WriteResult} {h' : HttpHandler} : h.writeStep newadd r = .closing h' →
    h.offer ≠ none → ProcStep h users (.writing newadd) (.wrote r) h' users .done true

/-- What a step of `process()` can do. -/
theorem procStep_cases {h h' : HttpHandler} {users users' : Users} {ph ph' : Phase} {i : ProcInput} {close : Bool}
    (hs : h.procStep users ph i = some (.next h' users' ph' close)) : ProcStep h users ph i h' users' ph' close := by
  unfold procStep at hs
  split at hs
  · split at hs
    · cases hs
      exact .full ‹_›
    · cases hs
      exact .enter (by omega)
  · split at hs
    · rename_i tried r hr
      cases r with
      | data bs =>
        simp only [readStep, Option.some.injEq] at hs
        split at hs
        · cases hs
        · cases hs
          exact .data hr ‹_›
      | eof => cases hs; exact .eof
      | fail => cases hs; exact .fail
      | again =>
        simp only [readStep, Option.some.injEq] at hs
        split at hs
        · cases hs
          exact .triedOut
        · cases hs
          exact .again
    · cases hs
  · split at hs
    · cases hs
    · cases hs
      exact .parse ‹_›
  · split at hs
    · cases hs
    · cases hs
      exact .prepare ‹_›
    · cases hs
      exact .refuse ‹_›
  · split at hs
    · cases hs
    · split at hs
      · split at hs
        · cases hs
          exact .write ‹_› ‹_›
        · cases hs
          exact .finish ‹_› ‹_›
        · cases hs
          exact .close ‹_› ‹_›
      · cases hs
  · cases hs

/-! ### What a step does to the connection -/

/-- `parse_` sets the fields of the parser and of the file only. -/
theorem parse_frame {h h' : HttpHandler} {users users' : Users} {env : Env} {errno : Errno} {ret : HttpState}
    (hp : h.parse users env errno = some (ret, h', users')) :
    ∃ p r, h' = { h with toParser := p, toResource := r } := by
  unfold parse at hp
  obtain ⟨⟨e, p, _⟩, -, hp⟩ := Option.bind_eq_some_iff.1 hp
  cases e with
  | outOfFuel => cases hp
  | returns ret =>
    cases hp
    exact ⟨_, _, rfl⟩
  | doRequest =>
    obtain ⟨⟨ret, _, _, _⟩, -, hp⟩ := Option.bind_eq_some_iff.1 hp
    cases hp
    exact ⟨_, _, rfl⟩

theorem writeToBuffer_frame {h h' : HttpHandler} {ret : HttpState} {ok : Bool}
    (hb : h.writeToBuffer_ ret = some (ok, h')) : ∃ w, h' = { h with toWriter := w } := by
  obtain ⟨r, -, hr⟩ := Option.map_eq_some_iff.1 hb
  cases hr
  exact ⟨_, rfl⟩

/-- The descriptor `recv` and `writev`, or `SSL_read` and `SSL_writev`, work on; there is none for a null `SSL`. -/
def ioFd (h : HttpHandler) : Option Int :=
  if h.type = .httpClient then some h.sockfd else h.sslcontent.map fun ssl => (ssl.fd : Int)

/-- The step calls `close()`. -/
def closes (h : HttpHandler) : Phase → ProcInput → Bool
  | .enter, .tau => READ_BUFFER_SIZE ≤ h.readIdx
  | .reading _, .recv .eof => true
  | .reading _, .recv .fail => true
  | .prepare ret, .tau => (h.writeToBuffer_ ret).any fun r => !r.1
  | .writing _, .wrote (.count n) => h.offer ≠ none ∧ h.bytesToSend - n ≤ 0 ∧ h.linger = false
  | .writing _, .wrote .fail => h.offer ≠ none
  | _, _ => false

/-- The step completes a response whose connection is kept alive. -/
def keepsAlive (h : HttpHandler) : Phase → ProcInput → Bool
  | .writing _, .wrote (.count n) => h.offer ≠ none ∧ h.bytesToSend - n ≤ 0 ∧ h.linger = true
  | _, _ => false

/-- How `write_to_fd_` goes on, by the two tests. -/
theorem writeStep_kind {h : HttpHandler} (ho : h.offer ≠ none) (newadd : Int) (r : WriteResult) :
    match h.writeStep newadd r with
    | .again _ _ =>
      h.closes (.writing newadd) (.wrote r) = false ∧ h.keepsAlive (.writing newadd) (.wrote r) = false
    | .finished _ =>
      h.closes (.writing newadd) (.wrote r) = false ∧ h.keepsAlive (.writing newadd) (.wrote r) = true
    | .closing _ =>
      h.closes (.writing newadd) (.wrote r) = true ∧ h.keepsAlive (.writing newadd) (.wrote r) = false := by
  cases r with
  | count n =>
    by_cases hb : h.bytesToSend - n ≤ 0
    · cases hl : h.linger
      · simp [writeStep, closes, keepsAlive, ho, hb, hl]
      · simp [writeStep, closes, keepsAlive, ho, hb, hl]
    · simp [writeStep, closes, keepsAlive, hb]
  | zero => exact ⟨rfl, rfl⟩
  | again => exact ⟨rfl, rfl⟩
  | fail => exact ⟨decide_eq_true ho, rfl⟩

/-- `close()` is called when `closes` says so. -/
theorem ProcStep.close_eq {h h' : HttpHandler} {users users' : Users} {ph ph' : Phase} {i : ProcInput} {close : Bool}
    (hs : ProcStep h users ph i h' users' ph' close) : close = h.closes ph i := by
  cases hs with
  | full hr => exact (decide_eq_true hr).symm
  | enter hr => exact (decide_eq_false (by omega)).symm
  | data | eof | fail | triedOut | again | parse => rfl
  | prepare hb => simp [closes, hb]
  | refuse hb => simp [closes, hb]
  | @write newadd _ r _ hw ho =>
    have hk := writeStep_kind ho newadd r
    rw [hw] at hk
    exact hk.1.symm
  | @finish newadd r _ hw ho =>
    have hk := writeStep_kind ho newadd r
    rw [hw] at hk
    exact hk.1.symm
  | @close newadd r _ hw ho =>
    have hk := writeStep_kind ho newadd r
    rw [hw] at hk
    exact hk.1.symm

/-- A step that is undefined does not get as far as `close()`. -/
theorem closes_of_undefined {h : HttpHandler} {users : Users} {ph : Phase} {i : ProcInput}
    (hs : h.procStep users ph i = some .undefined) : h.closes ph i = false := by
  unfold procStep at hs
  split at hs
  · split at hs <;> cases hs
  · split at hs
    · rename_i tried r _
      cases r with
      | data => rfl
      | eof => cases hs
      | fail => cases hs
      | again => rfl
    · cases hs
  · rfl
  · split at hs
    · rename_i hb
      simp [closes, hb]
    · cases hs
    · cases hs
  · split at hs
    · rename_i newadd r ho
      cases r with
      | count n => simp [closes, ho]
      | zero => rfl
      | again => rfl
      | fail => simp [closes, ho]
    · split at hs
      · split at hs <;> cases hs
      · cases hs
  · cases hs

/-- Of the fields set from outside a step changes at most `mysql`, and this only in completing a response whose
connection is kept alive. -/
theorem ProcStep.outside {h h' : HttpHandler} {users users' : Users} {ph ph' : Phase} {i : ProcInput} {close : Bool}
    (hs : ProcStep h users ph i h' users' ph' close) :
    h'.toOutside = h.toOutside ∨ h.keepsAlive ph i = true ∧ h'.toOutside = { h.toOutside with mysql := none } := by
  cases hs with
  | full | enter | data | eof | fail | triedOut | again => exact Or.inl rfl
  | parse hp =>
    obtain ⟨p, r, rfl⟩ := parse_frame hp
    exact Or.inl rfl
  | prepare hb =>
    obtain ⟨w, rfl⟩ := writeToBuffer_frame hb
    exact Or.inl rfl
  | refuse hb =>
    obtain ⟨w, rfl⟩ := writeToBuffer_frame hb
    exact Or.inl rfl
  | write hw =>
    obtain ⟨w, rfl, -⟩ := writeStep_again hw
    exact Or.inl rfl
  | @finish newadd r _ hw ho =>
    have hk := writeStep_kind ho newadd r
    rw [hw] at hk
    obtain ⟨-, w, rfl, -⟩ := writeStep_finished hw
    exact Or.inr ⟨hk.2, rfl⟩
  | close hw =>
    obtain ⟨a, w, rfl, -⟩ := writeStep_closing hw
    exact Or.inl rfl

/-- `process()` returns after `close()` or after a response whose connection is kept alive. -/
theorem ProcStep.done {h h' : HttpHandler} {users users' : Users} {ph : Phase} {i : ProcInput}
    (hs : ProcStep h users ph i h' users' .done false) : h.keepsAlive ph i = true := by
  cases hs with
  | @finish newadd r _ hw ho =>
    have hk := writeStep_kind ho newadd r
    rw [hw] at hk
    exact hk.2

/-- The steps of `process()` for the given answers, on a slot of which `close()` assigns the fields. -/
def procRun : HttpHandler → Users → Phase → List ProcInput → Option (HttpHandler × Users × Phase)
  | h, users, ph, [] => some (h, users, ph)
  | h, users, ph, i :: is =>
    match h.procStep users ph i with
    | some (.next h users ph close) => procRun (if close then h.closeFields else h) users ph is
    | _ => none

/-- The steps of `process()` for the request `x`, up to the write call. -/
def badRequest : List ProcInput :=
  [.tau, .recv (.data (lit "x"))] ++ List.replicate 10 (.recv .again) ++ [.parse noFiles .eagain, .tau]

end HttpHandler

end ImageServer
