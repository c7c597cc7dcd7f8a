import ImageServer.Server.ThreadPool

/-!
# The bound of the request queue

`append` refuses a request when the queue holds more than `m_max_requests`, so it takes one on top of them.  The bound
is respected in exactly the runs in which no thread calls `append` while the queue is full (`respectsBound_iff`).
-/

namespace ImageServer

open Transition

namespace ProcessThreadPool

variable {T : Type} {p p' : ProcessThreadPool T}

/-- What `append` returns. -/
def appendResult (p : ProcessThreadPool T) : Bool := ¬ p.mMaxRequests < p.intSize

/-- `append` pushes the request exactly when it returns `true`. -/
private theorem step_append {th : Nat} {request : Option T} (h : p.step (.append th request) = some p') :
    (p.appendResult = true ∧ ∃ r, p' = { p with
      mWorkqueue := p.mWorkqueue ++ [r], posting := th :: p.posting, pushed := p.pushed ++ [r] }) ∨
      (p.appendResult = false ∧ p' = p) := by
  simp only [step] at h
  split at h
  · cases h
  · split at h
    · rename_i hfull
      cases h
      exact .inr ⟨by simpa [appendResult] using hfull, rfl⟩
    · rename_i hroom
      cases h
      exact .inl ⟨by simpa [appendResult] using hroom, _, rfl⟩

/-- The queue holds as many requests as are allowed to wait. -/
def Full (p : ProcessThreadPool T) : Prop := (p.mWorkqueue.length : Int) = p.mMaxRequests

def Bounded (p : ProcessThreadPool T) : Prop := (p.mWorkqueue.length : Int) ≤ p.mMaxRequests

/-- `append` returns `false` exactly when the queue is full, and then changes neither the queue nor the semaphore. -/
def Refuses (p : ProcessThreadPool T) : PoolStep T → Prop
  | .append th request => (p.appendResult = false ↔ p.Full) ∧
      (p.appendResult = false → ∀ p', p.step (.append th request) = some p' →
        p'.mWorkqueue = p.mWorkqueue ∧ p'.mQueuestat = p.mQueuestat)
  | _ => True

/-- The bound is respected in the run. -/
structure RespectsBound (p : ProcessThreadPool T) (ls : List (PoolStep T)) : Prop where
  bounded : Throughout step Bounded p ls
  refuses : Meets step Refuses p ls

/-- No request is appended to a full queue. -/
def HasRoom (p : ProcessThreadPool T) : PoolStep T → Prop
  | .append _ _ => ¬ p.Full
  | _ => True

instance (p : ProcessThreadPool T) : ∀ l, Decidable (p.HasRoom l)
  | .append _ _ => inferInstanceAs (Decidable (¬ (_ = _)))
  | .post _ | .wake _ _ | .examine _ | .next _ => .isTrue True.intro

/-- A bounded queue, with a bound that is an `int`. -/
structure WithinBound (p : ProcessThreadPool T) : Prop where
  bounded : p.Bounded
  int : p.mMaxRequests < 2 ^ 31

private theorem WithinBound.intSize_eq (h : p.WithinBound) : p.intSize = p.mWorkqueue.length := by
  have hle : (p.mWorkqueue.length : Int) ≤ p.mMaxRequests := h.bounded
  have hint := h.int
  exact CLib.toInt32_of_lt (Int.natCast_nonneg _) (by omega)

/-- On a bounded queue `append` always returns `true`. -/
private theorem WithinBound.appendResult (h : p.WithinBound) : p.appendResult = true := by
  have hle : (p.mWorkqueue.length : Int) ≤ p.mMaxRequests := h.bounded
  exact decide_eq_true (by rw [h.intSize_eq]; omega)

/-- The round of a worker does not touch the queue. -/
private theorem next_queue {w : Nat} {x : PoolWorker T} (h : p.next w x = some p') :
    p'.mMaxRequests = p.mMaxRequests ∧ p'.mWorkqueue = p.mWorkqueue := by
  cases x with
  | popped r =>
    simp only [next] at h
    split at h <;> cases h <;> exact ⟨rfl, rfl⟩
  | connecting r =>
    cases h
    exact ⟨rfl, rfl⟩
  | processing r =>
    cases h
    exact ⟨rfl, rfl⟩
  | releasing =>
    cases h
    exact ⟨rfl, rfl⟩
  | waiting | woken => cases h

/-- No step changes the bound, and only one that appends a request to a queue with room makes the queue longer. -/
private theorem step_bound {l : PoolStep T} (h : p.step l = some p') :
    p'.mMaxRequests = p.mMaxRequests ∧
      (p'.mWorkqueue.length ≤ p.mWorkqueue.length ∨
        (∃ th request, l = .append th request) ∧ p'.mWorkqueue.length = p.mWorkqueue.length + 1) := by
  cases l with
  | append th request =>
    rcases step_append h with ⟨-, r, rfl⟩ | ⟨-, rfl⟩
    · exact ⟨rfl, .inr ⟨⟨th, request, rfl⟩, List.length_append⟩⟩
    · exact ⟨rfl, .inl le_rfl⟩
  | post th =>
    simp only [step] at h
    split at h
    · cases h
      exact ⟨rfl, .inl le_rfl⟩
    · cases h
  | wake w token =>
    simp only [step] at h
    split at h
    · split at h
      · split at h
        · cases h
        · cases h
          exact ⟨rfl, .inl le_rfl⟩
      · cases h
        exact ⟨rfl, .inl le_rfl⟩
    · cases h
  | examine w =>
    simp only [step] at h
    split at h
    · cases h
      exact ⟨rfl, .inl le_rfl⟩
    · rename_i r rest hq
      cases h
      refine ⟨rfl, .inl ?_⟩
      rw [hq]
      exact Nat.le_succ _
    · cases h
  | next w =>
    obtain ⟨x, -, hx⟩ := Option.bind_eq_some_iff.1 h
    obtain ⟨hmax, hq⟩ := next_queue hx
    exact ⟨hmax, .inl (by rw [hq])⟩

private theorem WithinBound.step {l : PoolStep T} (h : p.WithinBound) (hl : p.HasRoom l) (hs : p.step l = some p') :
    p'.WithinBound := by
  have hle : (p.mWorkqueue.length : Int) ≤ p.mMaxRequests := h.bounded
  obtain ⟨hmax, hlen⟩ := step_bound hs
  refine ⟨?_, hmax ▸ h.int⟩
  change (p'.mWorkqueue.length : Int) ≤ p'.mMaxRequests
  rw [hmax]
  rcases hlen with hlen | ⟨⟨th, request, rfl⟩, hlen⟩
  · omega
  · have hroom : (p.mWorkqueue.length : Int) ≠ p.mMaxRequests := hl
    omega

/-- On a bounded queue a step respects the bound exactly when it does not append to a full queue. -/
private theorem WithinBound.respects_iff {l : PoolStep T} (h : p.WithinBound) (hs : p.step l = some p') :
    p.Refuses l ∧ p'.Bounded ↔ p.HasRoom l := by
  constructor
  · rintro ⟨hrefuses, -⟩
    cases l with
    | append th request =>
      intro hfull
      have hfalse := hrefuses.1.2 hfull
      rw [h.appendResult] at hfalse
      cases hfalse
    | post | wake | examine | next => exact True.intro
  · intro hl
    refine ⟨?_, (h.step hl hs).bounded⟩
    cases l with
    | append th request =>
      have htrue : p.appendResult ≠ false := by
        rw [h.appendResult]
        decide
      exact ⟨iff_of_false htrue hl, fun hfalse => absurd hfalse htrue⟩
    | post | wake | examine | next => exact True.intro

private theorem withinBound_create {threadNumber maxRequests : Int} (hmax : maxRequests < 2 ^ 31)
    (hp : create T threadNumber maxRequests = some p) : p.WithinBound := by
  unfold create at hp
  split at hp
  · cases hp
  · rename_i hargs
    cases hp
    refine ⟨?_, hmax⟩
    change (0 : Int) ≤ maxRequests
    omega

/-- The bound is respected in the runs in which no request is appended to a full queue, and in no others. -/
theorem respectsBound_iff {threadNumber maxRequests : Int} {p₀ : ProcessThreadPool T}
    (hmax : maxRequests < 2 ^ 31) (hp : create T threadNumber maxRequests = some p₀) {ls : List (PoolStep T)}
    (h : run ProcessThreadPool.step p₀ ls = some p) :
    RespectsBound p₀ ls ↔ Meets ProcessThreadPool.step HasRoom p₀ ls := by
  have hstart := withinBound_create hmax hp
  rw [← meets_throughout_iff (fun u l u' (hu : u.WithinBound) hs => hu.respects_iff hs)
    (fun u l u' hu hl hs => hu.step hl hs) hstart hstart.bounded h]
  exact ⟨fun hr => ⟨hr.refuses, hr.bounded⟩, fun hr => ⟨hr.2, hr.1⟩⟩

theorem respectsBound_iff_pops : ∃ p₀ p, create Nat 1 1 = some p₀ ∧
    run ProcessThreadPool.step p₀ [.append 7 (some 3), .post 7, .wake 0 true, .examine 0, .append 7 (some 4)] =
      some p ∧
    RespectsBound p₀ [.append 7 (some 3), .post 7, .wake 0 true, .examine 0, .append 7 (some 4)] := by
  have hrun : run ProcessThreadPool.step (⟨1, [], 0, [], [.waiting], [], [], []⟩ : ProcessThreadPool Nat)
      [.append 7 (some 3), .post 7, .wake 0 true, .examine 0, .append 7 (some 4)] =
      some ⟨1, [⟨1, some 4⟩], 0, [7], [.popped ⟨0, some 3⟩], [⟨0, some 3⟩, ⟨1, some 4⟩], [(0, ⟨0, some 3⟩)], []⟩ := by
    rfl
  have hnew : create Nat 1 1 = some ⟨1, [], 0, [], [.waiting], [], [], []⟩ := rfl
  exact ⟨_, _, hnew, hrun, (respectsBound_iff (by decide) hnew hrun).2 (by decide +kernel)⟩

/-- A queue for one request takes two. -/
theorem not_respectsBound_twoAppends : ∃ p₀ p, create Nat 1 1 = some p₀ ∧
    run ProcessThreadPool.step p₀ [.append 7 (some 3), .post 7, .append 7 (some 4)] = some p ∧
    p.mWorkqueue.length = 2 ∧ ¬ RespectsBound p₀ [.append 7 (some 3), .post 7, .append 7 (some 4)] := by
  have hrun : run ProcessThreadPool.step (⟨1, [], 0, [], [.waiting], [], [], []⟩ : ProcessThreadPool Nat)
      [.append 7 (some 3), .post 7, .append 7 (some 4)] =
      some ⟨1, [⟨0, some 3⟩, ⟨1, some 4⟩], 1, [7], [.waiting], [⟨0, some 3⟩, ⟨1, some 4⟩], [], []⟩ := by rfl
  refine ⟨_, _, rfl, hrun, rfl, fun hr => ?_⟩
  have hbounded : (2 : Int) ≤ 1 := hr.bounded.last hrun
  exact absurd hbounded (by decide)

end ProcessThreadPool

end ImageServer
