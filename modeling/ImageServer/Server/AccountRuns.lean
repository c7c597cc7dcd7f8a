import ImageServer.Http.Accounts
import ImageServer.Server.Step

/-!
# Accounts in the running server

`HttpHandler::users` is one map for all workers.  A registration inserts a name that is not there, a login only reads,
and nothing takes a name out, so in every run an account stays as it was registered: any later login with its name, by
whatever worker and on whatever connection, gets in with its password and with no other (`logIn_run`).
-/

namespace ImageServer

open CLib Transition

namespace Server

/-- The request that the step hands to `do_request_`, and the slot of its handler. -/
def requestOf (s : Server) : Label → Option (Nat × Request)
  | .process w (.parse env errno) =>
    match s.workers[w]? with
    | some (.processing job _ .parse) =>
      let h := s.users_ job.slot
      (h.toParser.parse_ errno).bind fun r =>
        if r.1 = .doRequest then some (job.slot, ⟨env, h.mysql, r.2.1, h.toResource⟩) else none
    | _ => none
  | _ => none

private theorem requestOf_parse {s : Server} {w : Nat} {env : Env} {errno : Errno} {job : Job} {held : Option Nat}
    (hw : s.workers[w]? = some (.processing job held .parse)) :
    s.requestOf (.process w (.parse env errno)) = ((s.users_ job.slot).toParser.parse_ errno).bind fun r =>
      if r.1 = .doRequest then
        some (job.slot, ⟨env, (s.users_ job.slot).mysql, r.2.1, (s.users_ job.slot).toResource⟩)
      else none := by
  unfold requestOf
  simp only [hw]

/-- `parse_` ends in `do_request_`, or leaves the accounts. -/
private theorem parse_ends {h h' : HttpHandler} {users users' : Users} {env : Env} {errno : Errno} {ret : HttpState}
    (hp : h.parse users env errno = some (ret, h', users')) :
    (∃ p e, h.toParser.parse_ errno = some (.doRequest, p, e) ∧
      Request.run ⟨env, h.mysql, p, h.toResource⟩ users = some (ret, h'.toParser, h'.toResource, users')) ∨
    ∃ r p e, h.toParser.parse_ errno = some (.returns r, p, e) ∧ users' = users := by
  unfold HttpHandler.parse at hp
  obtain ⟨⟨e, p, errno'⟩, hparse, hp⟩ := Option.bind_eq_some_iff.1 hp
  cases e with
  | outOfFuel => cases hp
  | returns r =>
    cases hp
    exact Or.inr ⟨ret, p, errno', hparse, rfl⟩
  | doRequest =>
    obtain ⟨⟨ret', p', r', users₁⟩, hrun, hp⟩ := Option.bind_eq_some_iff.1 hp
    cases hp
    exact Or.inl ⟨p, errno', hparse, hrun⟩

/-- A request does to the accounts what `do_request_` does, and the other steps leave them. -/
private theorem accounts_step {rm : RemoveFd} {s s' : Server} {l : Label} (hs : Step rm s l s') :
    (s.requestOf l = none ∧ s'.accounts = s.accounts) ∨
      ∃ slot q x, s.requestOf l = some (slot, q) ∧ q.run s.accounts = some x ∧ (s'.users_ slot).toParser = x.2.1 ∧
        s'.accounts = x.2.2.2 := by
  cases hs with
  | timeout _ _ ht =>
    obtain ⟨_, _, _, _, rfl⟩ := timeout_frame ht
    exact Or.inl ⟨rfl, rfl⟩
  | readable =>
    unfold append
    split <;> exact Or.inl ⟨rfl, rfl⟩
  | epollWait | ignored | opened | sslFailed | term | hangUp | take | getConnection | releaseConnection =>
    exact Or.inl ⟨rfl, rfl⟩
  | close hw _ hs =>
    cases hs <;> exact Or.inl ⟨rfl, rfl⟩
  | @process w i job held ph ph' h users hw _ hs =>
    cases hs with
    | enter | data | again | triedOut | prepare | write | finish => exact Or.inl ⟨rfl, rfl⟩
    | parse hp =>
      rw [requestOf_parse hw]
      rcases parse_ends hp with ⟨p, e, hparse, hrun⟩ | ⟨r, p, e, hparse, husers⟩
      · right
        rw [hparse]
        refine ⟨job.slot, _, _, rfl, hrun, ?_, rfl⟩
        show (Function.update s.users_ job.slot h job.slot).toParser = h.toParser
        rw [Function.update_self]
      · rw [hparse]
        exact Or.inl ⟨rfl, husers⟩

/-- No request takes an account out or changes its password. -/
private theorem Request.accounts_kept {q : Request} {users : Users} {x : HttpState × Parser × Resource × Users}
    (h : q.run users = some x) {name password : List Byte} (hn : users name = some password) :
    x.2.2.2 name = some password := by
  rcases Request.run_cases h with ⟨row, page, -, -, -, hreg⟩ | ⟨-, -, -, -, hx⟩ | ⟨-, -, hx⟩
  · obtain ⟨sql, -, ⟨-, hx, -⟩ | ⟨hnone, hx, -⟩⟩ := register_cases hreg
    · rw [hx]
      exact hn
    · have hne : name ≠ row.1 := by
        rintro rfl
        rw [hnone] at hn
        cases hn
      rw [hx, Function.update_of_ne hne]
      exact hn
  · rw [hx]
    exact hn
  · rw [hx]
    exact hn

/-- An account stays as it is. -/
theorem account_run {rm : RemoveFd} {s t : Server} {ls : List Label} (h : run (step rm) s ls = some t)
    {name password : List Byte} (hn : s.accounts name = some password) : t.accounts name = some password := by
  refine run_invariant (P := fun u => u.accounts name = some password) (fun u l u' hu _ hs => ?_) hn Meets.trivial h
  obtain ⟨-, ⟨why, -, rfl⟩ | ⟨-, hstep⟩⟩ := step_cases hs
  · exact hu
  · rcases accounts_step hstep with ⟨-, ha⟩ | ⟨slot, q, x, -, hrun, -, ha⟩
    · exact ha ▸ hu
    · exact ha ▸ Request.accounts_kept hrun hu

/-- What a step with a request has done. -/
private theorem request_step {rm : RemoveFd} {s s' : Server} {l : Label} {slot : Nat} {q : Request}
    (hs : s.step rm l = some s') (hstop : s'.stop = none) (hq : s.requestOf l = some (slot, q)) :
    ∃ x, q.run s.accounts = some x ∧ (s'.users_ slot).toParser = x.2.1 ∧ s'.accounts = x.2.2.2 := by
  obtain ⟨-, ⟨why, -, rfl⟩ | ⟨-, hstep⟩⟩ := step_cases hs
  · cases hstop
  · rcases accounts_step hstep with ⟨hnone, -⟩ | ⟨slot', q', x, hq', hx⟩
    · cases hnone.symm.trans hq
    · cases hq'.symm.trans hq
      exact ⟨x, hx⟩

/-- After the registration of a name that was free, a login with it gets in if and only if it has the password it was
registered with, at whatever point of the run and whatever its `INSERT` has come to. -/
theorem logIn_run {rm : RemoveFd} {s s₁ t t' : Server} {l l' : Label} {ls : List Label} {slot slot' : Nat}
    {q q' : Request} {name password password' : List Byte} (hreg : s.step rm l = some s₁)
    (hq : s.requestOf l = some (slot, q)) (hrow : q.registers = some (name, password)) (hfree : s.accounts name = none)
    (hgoes : s₁.stop = none) (hrun : run (step rm) s₁ ls = some t) (hlogin : t.step rm l' = some t')
    (hq' : t.requestOf l' = some (slot', q')) (hrow' : q'.logsIn = some (name, password')) (hgoes' : t'.stop = none) :
    q'.page (t'.users_ slot').toParser =
      some (if password' = password then lit "/welcome.html" else lit "/logError.html") := by
  have hname : s₁.accounts name = some password := by
    obtain ⟨x, hx, -, ha⟩ := request_step hreg hgoes hq
    rcases Request.run_cases hx with ⟨row, page, hr, -, -, hregister⟩ | ⟨-, hnone, -⟩ | ⟨hnone, -⟩
    · cases hr.symm.trans hrow
      obtain ⟨sql, -, ⟨hsome, -⟩ | ⟨-, hx', -⟩⟩ := register_cases hregister
      · exact absurd hfree hsome
      · rw [ha, hx']
        exact Function.update_self ..
    · cases hnone.symm.trans hrow
    · cases hnone.symm.trans hrow
  have hkept := account_run hrun hname
  obtain ⟨x, hx, hp, -⟩ := request_step hlogin hgoes' hq'
  rw [hp]
  rcases Request.run_cases hx with ⟨-, -, -, hnone, -⟩ | ⟨row, -, hr, hpage, -⟩ | ⟨-, hnone, -⟩
  · cases hnone.symm.trans hrow'
  · cases hr.symm.trans hrow'
    rw [hpage, login, hkept]
    by_cases he : password' = password
    · rw [if_pos he, if_pos (congrArg some he.symm)]
    · rw [if_neg he, if_neg fun h => he (Option.some.inj h).symm]
  · cases hnone.symm.trans hrow'

/-- A client connects on the descriptor `fd`, and the worker `w` reads the bytes of its request and nine more. -/
def readsForm (w fd conn now : Nat) (bs : List Byte) : List Label :=
  [.epollWait [.input 14 none], .dispatch ⟨now, some fd, .succeeds⟩, .epollWait [.input fd (some conn)],
    .dispatch ⟨now + 1, none, .succeeds⟩, .take w, .getConnection w, .process w .tau,
    .process w (.recv (.data (bs ++ lit ".........")))] ++ List.replicate 10 (.process w (.recv .again))

/-- It handles the request. -/
def parsesForm (w : Nat) : Label := .process w (.parse noFiles .eagain)

/-- A registration, and its connection is still there when another worker serves the login. -/
theorem logIn_run_bob :
    ∃ (s s₁ t t' : Server) (slot slot' : Nat) (q q' : Request),
      run (step .asWritten) Setup.default.start (readsForm 0 19 0 0 Accounts.registerBob) = some s ∧
      s.step .asWritten (parsesForm 0) = some s₁ ∧
      run (step .asWritten) s₁ (readsForm 1 20 1 2 Accounts.logInBob) = some t ∧
      t.step .asWritten (parsesForm 1) = some t' ∧
      s.requestOf (parsesForm 0) = some (slot, q) ∧ t.requestOf (parsesForm 1) = some (slot', q') ∧
      q'.page (t'.users_ slot').toParser =
        some (if lit "open" = lit "open" then lit "/welcome.html" else lit "/logError.html") := by
  have hrun : (run (step .asWritten) Setup.default.start (readsForm 0 19 0 0 Accounts.registerBob)).bind (fun s =>
      (s.step .asWritten (parsesForm 0)).bind fun s₁ =>
      (run (step .asWritten) s₁ (readsForm 1 20 1 2 Accounts.logInBob)).bind fun t =>
      (t.step .asWritten (parsesForm 1)).map fun t' =>
        decide ((s.requestOf (parsesForm 0)).map (fun x => x.2.registers) = some (some (lit "bob", lit "open")) ∧
          s.accounts (lit "bob") = none ∧ s₁.stop = none ∧
          (t.requestOf (parsesForm 1)).map (fun x => x.2.logsIn) = some (some (lit "bob", lit "open")) ∧
          t'.stop = none)) = some true := by
    decide +kernel
  obtain ⟨s, hs, hrun⟩ := Option.bind_eq_some_iff.1 hrun
  obtain ⟨s₁, hs₁, hrun⟩ := Option.bind_eq_some_iff.1 hrun
  obtain ⟨t, ht, hrun⟩ := Option.bind_eq_some_iff.1 hrun
  obtain ⟨t', ht', hrun⟩ := Option.map_eq_some_iff.1 hrun
  simp only [decide_eq_true_eq, Option.map_eq_some_iff] at hrun
  obtain ⟨⟨⟨slot, q⟩, hq, hrow⟩, hfree, hgoes, ⟨⟨slot', q'⟩, hq', hrow'⟩, hgoes'⟩ := hrun
  exact ⟨s, s₁, t, t', slot, slot', q, q', hs, hs₁, ht, ht', hq, hq',
    logIn_run hs₁ hq hrow hfree hgoes ht ht' hq' hrow' hgoes'⟩

end Server

end ImageServer
