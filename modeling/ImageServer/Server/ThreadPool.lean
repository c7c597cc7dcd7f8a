import ImageServer.Lib.CString
import ImageServer.Lib.Transition
import Mathlib.Data.List.Nodup
import Mathlib.Logic.Function.Basic

/-!
# The pool of worker threads

`ProcessThreadPool<T>`: any threads call `append`, which puts a request into `m_workqueue` under the lock and posts the
semaphore after that; the workers are in the loop of `run`.  The result of `sem::wait` is not looked at, so a worker
goes on after an interrupted `sem_wait` as after one that has taken a token.

Every request is popped once, in the order of the pushes, and processed once by the worker that has popped it, and no
request is left in the queue without a wake-up (`dispatchedOnce_run`).
-/

namespace ImageServer

open Transition

/-- A `T *` in the queue, or null.  The number of its `append` is not in the program: it tells the requests apart. -/
structure PoolRequest (T : Type) where
  number : Nat
  ptr : Option T
  deriving DecidableEq

/-- Where a worker is in the loop of `run`. -/
inductive PoolWorker (T : Type)
  /-- in `m_queuestat.wait()` -/
  | waiting
  /-- behind it, with a token of the semaphore or without -/
  | woken (token : Bool)
  /-- `request` is popped -/
  | popped (request : PoolRequest T)
  /-- it is not null, and `get_connection` is called -/
  | connecting (request : PoolRequest T)
  /-- in `process()` -/
  | processing (request : PoolRequest T)
  /-- in `release_connection` -/
  | releasing
  deriving DecidableEq

structure ProcessThreadPool (T : Type) where
  mMaxRequests : Int
  mWorkqueue : List (PoolRequest T)
  /-- the value of `m_queuestat` -/
  mQueuestat : Nat
  /-- the threads in `append` between `push_back` and `post` -/
  posting : List Nat
  workers : List (PoolWorker T)
  /-- the requests pushed, in their order -/
  pushed : List (PoolRequest T)
  /-- the requests popped, each with the worker -/
  popped : List (Nat × PoolRequest T)
  /-- the calls of `process()`, each with the worker -/
  processed : List (Nat × PoolRequest T)

inductive PoolStep (T : Type)
  /-- the thread calls `append`, up to its `unlock` -/
  | append (th : Nat) (request : Option T)
  /-- the thread posts the semaphore and returns `true` -/
  | post (th : Nat)
  /-- the `sem_wait` of the worker returns; `token` is false when it was interrupted -/
  | wake (w : Nat) (token : Bool)
  /-- the worker looks into the queue, under the lock -/
  | examine (w : Nat)
  /-- the worker goes on to its next call -/
  | next (w : Nat)

namespace ProcessThreadPool

variable {T : Type}

/-- The constructor, when it does not throw. -/
def create (T : Type) (threadNumber maxRequests : Int) : Option (ProcessThreadPool T) :=
  if threadNumber ≤ 0 ∨ maxRequests ≤ 0 then none
  else some {
    mMaxRequests := maxRequests, mWorkqueue := [], mQueuestat := 0, posting := [],
    workers := List.replicate threadNumber.toNat .waiting, pushed := [], popped := [], processed := [] }

def setWorker (p : ProcessThreadPool T) (w : Nat) (x : PoolWorker T) : ProcessThreadPool T :=
  { p with workers := p.workers.set w x }

/-- `(int)m_workqueue.size()`. -/
def intSize (p : ProcessThreadPool T) : Int := CLib.toInt32 p.mWorkqueue.length

/-- One round of the loop behind the `unlock`, up to the next call: `continue`, `get_connection`, `process`,
`release_connection`, and the `wait` of the next round. -/
def next (p : ProcessThreadPool T) (w : Nat) : PoolWorker T → Option (ProcessThreadPool T)
  | .popped r =>
    match r.ptr with
    | none => some (p.setWorker w .waiting)
    | some _ => some (p.setWorker w (.connecting r))
  | .connecting r => some { p.setWorker w (.processing r) with processed := p.processed ++ [(w, r)] }
  | .processing _ => some (p.setWorker w .releasing)
  | .releasing => some (p.setWorker w .waiting)
  | .waiting | .woken _ => none

def step (p : ProcessThreadPool T) : PoolStep T → Option (ProcessThreadPool T)
  | .append th request =>
    if th ∈ p.posting then none
    -- it returns `false`
    else if p.mMaxRequests < p.intSize then some p
    else
      let r : PoolRequest T := ⟨p.pushed.length, request⟩
      some { p with mWorkqueue := p.mWorkqueue ++ [r], posting := th :: p.posting, pushed := p.pushed ++ [r] }
  | .post th =>
    if th ∈ p.posting then some { p with mQueuestat := p.mQueuestat + 1, posting := p.posting.erase th }
    else none
  | .wake w token =>
    match p.workers[w]? with
    | some .waiting =>
      if token then
        if p.mQueuestat = 0 then none
        else some { p.setWorker w (.woken true) with mQueuestat := p.mQueuestat - 1 }
      else some (p.setWorker w (.woken false))
    | _ => none
  | .examine w =>
    match p.workers[w]?, p.mWorkqueue with
    | some (.woken _), [] => some (p.setWorker w .waiting)
    | some (.woken _), r :: rest =>
      some { p.setWorker w (.popped r) with mWorkqueue := rest, popped := p.popped ++ [(w, r)] }
    | _, _ => none
  | .next w => p.workers[w]?.bind (p.next w)

end ProcessThreadPool

/-- The worker has consumed a token and not yet examined the queue. -/
def PoolWorker.hasToken {T : Type} : PoolWorker T → Bool
  | .woken token => token
  | _ => false

/-- The request the worker has popped and not yet processed, when it is not null. -/
def PoolWorker.hand {T : Type} : PoolWorker T → List (PoolRequest T)
  | .popped r => if r.ptr.isSome then [r] else []
  | .connecting r => [r]
  | _ => []

namespace ProcessThreadPool

variable {T : Type}

/-- The requests of the worker in one of the two logs. -/
def requestsOf (w : Nat) (log : List (Nat × PoolRequest T)) : List (PoolRequest T) :=
  (log.filter fun e => e.1 = w).map Prod.snd

def handOf (p : ProcessThreadPool T) (w : Nat) : List (PoolRequest T) := (p.workers[w]?.map PoolWorker.hand).getD []

/-- The workers that have consumed a token but not yet examined the queue. -/
def tokens (p : ProcessThreadPool T) : Nat := p.workers.countP PoolWorker.hasToken

/-- The worker has called `process()` once for each request it has popped that is not null, in the same order; the last
one may still be in its hand. -/
def Processes (p : ProcessThreadPool T) (w : Nat) : Prop :=
  (requestsOf w p.popped).filter (fun r => r.ptr.isSome) = requestsOf w p.processed ++ p.handOf w

/-- What the pool keeps. -/
structure DispatchedOnce (p : ProcessThreadPool T) : Prop where
  /-- the requests are different -/
  distinct : p.pushed.Nodup
  /-- each of them is popped once or still in the queue, in the order of the pushes -/
  inOrder : p.popped.map Prod.snd ++ p.mWorkqueue = p.pushed
  processes : ∀ w, p.Processes w
  /-- no request is left without a wake-up -/
  wakes : p.mWorkqueue.length ≤ p.mQueuestat + p.tokens + p.posting.length

/-- A worker with a request in its hand calls `process()` on it with its next steps. -/
def HandsOver (p : ProcessThreadPool T) : Prop :=
  ∀ w, ∀ r ∈ p.handOf w, ∃ k p', run step p (List.replicate k (.next w)) = some p' ∧
    p'.processed = p.processed ++ [(w, r)]

/-! ### One step -/

variable {p p' : ProcessThreadPool T} {l : PoolStep T}

inductive Effect (p : ProcessThreadPool T) : ProcessThreadPool T → Prop
  | refuses : Effect p p
  | pushes (th : Nat) {r : PoolRequest T} : r.number = p.pushed.length → Effect p { p with
      mWorkqueue := p.mWorkqueue ++ [r], posting := th :: p.posting, pushed := p.pushed ++ [r] }
  | posts {th : Nat} : th ∈ p.posting → Effect p { p with
      mQueuestat := p.mQueuestat + 1, posting := p.posting.erase th }
  | wakes {w : Nat} : p.workers[w]? = some .waiting → p.mQueuestat ≠ 0 → Effect p { p.setWorker w (.woken true) with
      mQueuestat := p.mQueuestat - 1 }
  | pops {w : Nat} {token : Bool} {r : PoolRequest T} {rest : List (PoolRequest T)} :
      p.workers[w]? = some (.woken token) → p.mWorkqueue = r :: rest → Effect p { p.setWorker w (.popped r) with
        mWorkqueue := rest, popped := p.popped ++ [(w, r)] }
  | processes {w : Nat} {r : PoolRequest T} : p.workers[w]? = some (.connecting r) → Effect p {
      p.setWorker w (.processing r) with processed := p.processed ++ [(w, r)] }
  /-- a worker goes on, with the same request; it gives up a token only when the queue is empty -/
  | moves {w : Nat} {old new : PoolWorker T} : p.workers[w]? = some old → new.hand = old.hand →
      (p.mWorkqueue = [] ∨ new.hasToken = old.hasToken) → Effect p (p.setWorker w new)

private theorem next_effect {w : Nat} {x : PoolWorker T} (hw : p.workers[w]? = some x) (h : p.next w x = some p') :
    Effect p p' := by
  cases x with
  | popped r =>
    simp only [next] at h
    split at h
    · cases h
      refine .moves hw ?_ (Or.inr rfl)
      simp [PoolWorker.hand, ‹r.ptr = none›]
    · cases h
      refine .moves hw ?_ (Or.inr rfl)
      simp [PoolWorker.hand, ‹r.ptr = some _›]
  | connecting r =>
    cases h
    exact .processes hw
  | processing r =>
    cases h
    exact .moves hw rfl (Or.inr rfl)
  | releasing =>
    cases h
    exact .moves hw rfl (Or.inr rfl)
  | waiting | woken => cases h

private theorem step_effect (h : p.step l = some p') : Effect p p' := by
  cases l with
  | append th request =>
    simp only [step] at h
    split at h
    · cases h
    · split at h
      · cases h
        exact .refuses
      · cases h
        exact .pushes th rfl
  | post th =>
    simp only [step] at h
    split at h
    · cases h
      exact .posts ‹_›
    · cases h
  | wake w token =>
    simp only [step] at h
    split at h
    · split at h
      · split at h
        · cases h
        · cases h
          exact .wakes ‹_› ‹_›
      · have hw := ‹p.workers[w]? = some .waiting›
        cases h
        exact .moves hw rfl (Or.inr rfl)
    · cases h
  | examine w =>
    simp only [step] at h
    split at h
    · have hw := ‹p.workers[w]? = some (.woken _)›
      cases h
      exact .moves hw rfl (Or.inl ‹_›)
    · cases h
      exact .pops ‹_› ‹_›
    · cases h
  | next w =>
    obtain ⟨x, hw, hx⟩ := Option.bind_eq_some_iff.1 h
    exact next_effect hw hx

/-! ### The invariant -/

private theorem requestsOf_concat (w : Nat) (log : List (Nat × PoolRequest T)) (e : Nat × PoolRequest T) :
    requestsOf w (log ++ [e]) = requestsOf w log ++ if e.1 = w then [e.2] else [] := by
  by_cases h : e.1 = w <;> simp [requestsOf, h]

private theorem handOf_eq {w : Nat} {x : PoolWorker T} (hw : p.workers[w]? = some x) : p.handOf w = x.hand := by
  simp [handOf, hw]

private theorem handOf_setWorker {w : Nat} {old : PoolWorker T} (hw : p.workers[w]? = some old) (new : PoolWorker T)
    (w' : Nat) : (p.setWorker w new).handOf w' = if w = w' then new.hand else p.handOf w' := by
  have hlt : w < p.workers.length := (List.getElem?_eq_some_iff.1 hw).1
  by_cases h : w = w'
  · subst h
    rw [if_pos rfl]
    exact handOf_eq (List.getElem?_set_self hlt)
  · rw [if_neg h, handOf, setWorker, List.getElem?_set_ne h]
    rfl

private theorem handOf_same {w : Nat} {old : PoolWorker T} (hw : p.workers[w]? = some old) (new : PoolWorker T)
    (hsame : new.hand = old.hand) (w' : Nat) : (p.setWorker w new).handOf w' = p.handOf w' := by
  rw [handOf_setWorker hw]
  by_cases h : w = w'
  · rw [if_pos h, hsame, ← h, handOf_eq hw]
  · rw [if_neg h]

private theorem tokens_setWorker {w : Nat} {old : PoolWorker T} (hw : p.workers[w]? = some old) (new : PoolWorker T) :
    (p.setWorker w new).tokens + old.hasToken.toNat = p.tokens + new.hasToken.toNat := by
  obtain ⟨hlt, hold⟩ := List.getElem?_eq_some_iff.1 hw
  have hpos : old.hasToken = true → 0 < p.workers.countP PoolWorker.hasToken := by
    intro htok
    refine List.countP_pos_iff.2 ⟨old, List.mem_of_getElem? hw, htok⟩
  unfold tokens setWorker
  rw [List.countP_set hlt, hold]
  cases htok : old.hasToken with
  | false =>
    cases new.hasToken <;> rfl
  | true =>
    have h := hpos htok
    rw [if_pos rfl]
    cases new.hasToken with
    | false =>
      show _ - 1 + 0 + 1 = _ + 0
      omega
    | true =>
      show _ - 1 + 1 + 1 = _ + 1
      omega

/-- The requests are numbered in the order of the pushes. -/
def Numbered (p : ProcessThreadPool T) : Prop := p.pushed.map PoolRequest.number = List.range p.pushed.length

private theorem Numbered.distinct (h : p.Numbered) : p.pushed.Nodup := by
  refine List.Nodup.of_map PoolRequest.number ?_
  rw [h]
  exact List.nodup_range

private theorem Effect.numbered (h : p.Numbered) (he : Effect p p') : p'.Numbered := by
  cases he with
  | pushes th hr =>
    unfold Numbered at h ⊢
    rw [List.map_append, h, List.map_singleton, hr, List.length_append, List.length_singleton, List.range_succ]
  | refuses | posts | wakes | pops | processes | moves => exact h

private theorem Effect.inOrder (h : p.popped.map Prod.snd ++ p.mWorkqueue = p.pushed) (he : Effect p p') :
    p'.popped.map Prod.snd ++ p'.mWorkqueue = p'.pushed := by
  cases he with
  | pushes th hr =>
    dsimp only
    rw [← h, List.append_assoc]
  | pops _ hq =>
    dsimp only [setWorker]
    rw [← h, hq, List.map_append, List.append_assoc]
    rfl
  | refuses | posts | wakes | processes | moves => exact h

private theorem Effect.processes_all {w : Nat} (h : p.Processes w) (he : Effect p p') : p'.Processes w := by
  unfold Processes at h ⊢
  cases he with
  | refuses | pushes | posts => exact h
  | @wakes w' hw hsem =>
    show (requestsOf w p.popped).filter _ = requestsOf w p.processed ++ (p.setWorker w' (.woken true)).handOf w
    rw [handOf_same hw (.woken true) rfl]
    exact h
  | @pops w' token r rest hw hq =>
    have hhand := handOf_setWorker hw (.popped r) w
    show (requestsOf w (p.popped ++ [(w', r)])).filter _ =
      requestsOf w p.processed ++ (p.setWorker w' (.popped r)).handOf w
    rw [hhand, requestsOf_concat, List.filter_append, h]
    by_cases hww : w' = w
    · subst hww
      rw [if_pos rfl, if_pos rfl, handOf_eq hw]
      simp [PoolWorker.hand, List.filter_cons]
    · rw [if_neg hww, if_neg hww, List.filter_nil, List.append_nil]
  | @processes w' r hw =>
    have hhand := handOf_setWorker hw (.processing r) w
    show (requestsOf w p.popped).filter _ =
      requestsOf w (p.processed ++ [(w', r)]) ++ (p.setWorker w' (.processing r)).handOf w
    rw [hhand, requestsOf_concat, h]
    by_cases hww : w' = w
    · subst hww
      rw [if_pos rfl, if_pos rfl, handOf_eq hw, List.append_assoc]
      rfl
    · rw [if_neg hww, if_neg hww, List.append_nil]
  | @moves w' old new hw hsame htoken =>
    show (requestsOf w p.popped).filter _ = requestsOf w p.processed ++ (p.setWorker w' new).handOf w
    rw [handOf_same hw new hsame]
    exact h

private theorem Effect.wakes_all (h : p.mWorkqueue.length ≤ p.mQueuestat + p.tokens + p.posting.length)
    (he : Effect p p') :
    p'.mWorkqueue.length ≤ p'.mQueuestat + p'.tokens + p'.posting.length := by
  cases he with
  | refuses => exact h
  | pushes th hr =>
    show (p.mWorkqueue ++ _).length ≤ p.mQueuestat + p.tokens + (th :: p.posting).length
    rw [List.length_append, List.length_singleton, List.length_cons]
    omega
  | @posts th hth =>
    show p.mWorkqueue.length ≤ p.mQueuestat + 1 + p.tokens + (p.posting.erase th).length
    have hpos : 0 < p.posting.length := List.length_pos_of_mem hth
    rw [List.length_erase_of_mem hth]
    omega
  | @wakes w hw hsem =>
    have htokens := tokens_setWorker hw (.woken true)
    show p.mWorkqueue.length ≤ p.mQueuestat - 1 + (p.setWorker w (.woken true)).tokens + p.posting.length
    simp only [PoolWorker.hasToken, Bool.toNat_true, Bool.toNat_false] at htokens
    omega
  | @pops w token r rest hw hq =>
    have htokens := tokens_setWorker hw (.popped r)
    show rest.length ≤ p.mQueuestat + (p.setWorker w (.popped r)).tokens + p.posting.length
    have hle : token.toNat ≤ 1 := Bool.toNat_le token
    simp only [PoolWorker.hasToken, Bool.toNat_false] at htokens
    rw [hq, List.length_cons] at h
    omega
  | @processes w r hw =>
    have htokens := tokens_setWorker hw (.processing r)
    show p.mWorkqueue.length ≤ p.mQueuestat + (p.setWorker w (.processing r)).tokens + p.posting.length
    simp only [PoolWorker.hasToken, Bool.toNat_false] at htokens
    omega
  | @moves w old new hw hhand htoken =>
    have htokens := tokens_setWorker hw new
    show p.mWorkqueue.length ≤ p.mQueuestat + (p.setWorker w new).tokens + p.posting.length
    rcases htoken with hempty | htoken
    · rw [hempty]
      exact Nat.zero_le _
    · rw [htoken] at htokens
      omega

private theorem create_dispatchedOnce {threadNumber maxRequests : Int}
    (hp : create T threadNumber maxRequests = some p) :
    p.Numbered ∧ p.DispatchedOnce := by
  unfold create at hp
  split at hp
  · cases hp
  · cases hp
    have hhand : ∀ w n : Nat,
        (((List.replicate n (.waiting : PoolWorker T))[w]?.map PoolWorker.hand).getD []) = [] := by
      intro w n
      rw [List.getElem?_replicate]
      split <;> rfl
    exact ⟨rfl, List.nodup_nil, rfl, fun w => (hhand w _).symm, Nat.zero_le _⟩

private theorem step_connecting {w : Nat} {r : PoolRequest T} (hw : p.workers[w]? = some (.connecting r)) :
    p.step (.next w) = some { p.setWorker w (.processing r) with processed := p.processed ++ [(w, r)] } := by
  simp [step, hw, next]

private theorem handsOver (p : ProcessThreadPool T) : p.HandsOver := by
  intro w r hr
  cases hw : p.workers[w]? with
  | none =>
    rw [handOf, hw] at hr
    cases hr
  | some x =>
    rw [handOf_eq hw] at hr
    cases x with
    | popped r' =>
      cases hptr : r'.ptr with
      | none => simp [PoolWorker.hand, hptr] at hr
      | some ptr =>
        have heq : r = r' := by simpa [PoolWorker.hand, hptr] using hr
        subst heq
        have hlt : w < p.workers.length := (List.getElem?_eq_some_iff.1 hw).1
        have hfirst : p.step (.next w) = some (p.setWorker w (.connecting r)) := by simp [step, hw, next, hptr]
        have hsecond := step_connecting (p := p.setWorker w (.connecting r)) (List.getElem?_set_self hlt)
        refine ⟨2, { (p.setWorker w (.connecting r)).setWorker w (.processing r) with
          processed := p.processed ++ [(w, r)] }, ?_, rfl⟩
        simp only [List.replicate, run, hfirst, Option.bind_some, hsecond]
        rfl
    | connecting r' =>
      have heq : r = r' := by simpa [PoolWorker.hand] using hr
      subst heq
      refine ⟨1, { p.setWorker w (.processing r) with processed := p.processed ++ [(w, r)] }, ?_, rfl⟩
      simp only [List.replicate, run, step_connecting hw, Option.bind_some]
    | waiting | woken | processing | releasing => cases hr

end ProcessThreadPool

open ProcessThreadPool in
/-- Whatever the threads that append and the workers do: each request is popped at most once, in the order of the
pushes, and processed once by the worker that has popped it; and there are at least as many tokens of the semaphore,
taken, there or on their way, as requests in the queue. -/
theorem ProcessThreadPool.dispatchedOnce_run {T : Type} {threadNumber maxRequests : Int} {p t : ProcessThreadPool T}
    (hp : ProcessThreadPool.create T threadNumber maxRequests = some p) {ls : List (PoolStep T)}
    (h : run ProcessThreadPool.step p ls = some t) :
    t.DispatchedOnce ∧ t.HandsOver := by
  have hinv : t.Numbered ∧ t.DispatchedOnce := by
    refine run_invariant (P := fun p => p.Numbered ∧ p.DispatchedOnce) ?_ ?_ Meets.trivial h
    · rintro p l p' ⟨hnum, hd⟩ - hs
      have he := step_effect hs
      have hnum' := he.numbered hnum
      refine ⟨hnum', hnum'.distinct, he.inOrder hd.inOrder, fun w => ?_, he.wakes_all hd.wakes⟩
      exact he.processes_all (hd.processes w)
    · exact create_dispatchedOnce hp
  exact ⟨hinv.2, handsOver t⟩

/-- Two threads append, one of them a null pointer; the `sem_wait` of the first worker is interrupted between
`push_back` and `post`, and it pops the request without a token. -/
def interruptedWait : List (PoolStep Nat) :=
  [.append 0 (some 7), .wake 0 false, .examine 0, .append 1 none, .post 1, .post 0, .wake 1 true, .next 0, .examine 1,
    .next 1, .wake 1 true, .examine 1, .append 0 (some 8)]

theorem ProcessThreadPool.dispatchedOnce_run_interrupted :
    ∃ p, ProcessThreadPool.create Nat 2 10000 = some p ∧ ∃ t, run ProcessThreadPool.step p interruptedWait = some t ∧
      t.DispatchedOnce := by
  have hcreate : ∃ p, ProcessThreadPool.create Nat 2 10000 = some p := ⟨_, rfl⟩
  obtain ⟨p, hp⟩ := hcreate
  refine ⟨p, hp, exists_run ?_ fun t ht => (ProcessThreadPool.dispatchedOnce_run hp ht).1⟩
  obtain rfl := Option.some.inj hp
  decide +kernel

end ImageServer
