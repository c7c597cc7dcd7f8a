import ImageServer.Lib.Monitor
import Mathlib.Data.List.DropRight

/-!
# Broadcasts to the waiting threads

A thread that waits in a monitor may sleep until the condition variable is broadcast.  `reached` reads off a run
whether a broadcast has reached a thread in its wait.  When only operations that broadcast make an object ready for
those that wait, and none of them waits on a ready object (`Rouses`), no thread is left asleep beside a ready object
(`reached_of_run`).
-/

namespace Monitor

open Transition

variable {σ ω ρ : Type*}

/-- The thread that takes the step. -/
def Label.thread : Label ω → Nat
  | .call th _ => th
  | .wake th _ => th

/-- The step is a call of one of the operations that broadcast. -/
def Label.broadcasts (b : ω → Bool) : Label ω → Bool
  | .call _ op => b op
  | .wake _ _ => false

/-- There is a broadcast behind the last step of the thread, with which its wait began. -/
def reached (b : ω → Bool) (ls : List (Label ω)) (th : Nat) : Bool :=
  (ls.rtakeWhile fun l => l.thread ≠ th).any (Label.broadcasts b)

theorem reached_concat_of_ne {b : ω → Bool} {ls : List (Label ω)} {l : Label ω} {th : Nat} (hne : l.thread ≠ th) :
    reached b (ls ++ [l]) th = (reached b ls th || l.broadcasts b) := by
  unfold reached
  rw [List.rtakeWhile_concat_pos _ _ _ (by simpa using hne), List.any_append]
  simp

/-! ### The states of the waiting threads -/

/-- The operation goes through a part of its code, from a call or from a wait. -/
inductive Goes (o : Object σ ω ρ) (x : σ) (op : ω) : Label ω → σ × Outcome ρ → Prop
  | call {th : Nat} {y : σ × Outcome ρ} : o.apply x op = some y → Goes o x op (.call th op) y
  | wake {th : Nat} {ret : Int} {y : σ × Outcome ρ} : o.resume x op ret = some y → Goes o x op (.wake th ret) y

/-- What a step does. -/
theorem step_goes {o : Object σ ω ρ} {s s' : State σ ω ρ} {l : Label ω} (h : step o s l = some s') :
    ∃ op y, Goes o s.obj op l y ∧ s' = s.after l.thread op y := by
  cases l with
  | call th op =>
    simp only [step] at h
    split at h
    · cases h
    · obtain ⟨y, hy, rfl⟩ := Option.map_eq_some_iff.1 h
      exact ⟨op, y, .call hy, rfl⟩
  | wake th ret =>
    simp only [step] at h
    split at h
    · cases h
    · rename_i op hop
      obtain ⟨y, hy, rfl⟩ := Option.map_eq_some_iff.1 h
      exact ⟨op, y, .wake hy, rfl⟩

@[simp] theorem State.after_obj (s : State σ ω ρ) (th : Nat) (op : ω) (y : σ × Outcome ρ) :
    (s.after th op y).obj = y.1 := by
  unfold State.after
  split <;> rfl

theorem State.after_waiting_of_ne (s : State σ ω ρ) {th k : Nat} (hne : th ≠ k) (op : ω) (y : σ × Outcome ρ) :
    (s.after th op y).waiting k = s.waiting k := by
  unfold State.after
  split <;> exact Function.update_of_ne (Ne.symm hne) _ _

/-- A thread waits behind its step when this says so. -/
theorem State.after_waiting_self {s : State σ ω ρ} {th : Nat} {op op' : ω} {y : σ × Outcome ρ}
    (h : (s.after th op y).waiting th = some op') : op' = op ∧ y.2 = .waits := by
  unfold State.after at h
  split at h
  · simp only [Function.update_self] at h
    cases h
  · simp only [Function.update_self] at h
    exact ⟨(Option.some.inj h).symm, ‹_›⟩

/-! ### Nobody is left asleep -/

/-- What makes the object ready is an operation that broadcasts, and no operation waits on a ready object. -/
structure Rouses (o : Object σ ω ρ) (ready : σ → Prop) (b : ω → Bool) : Prop where
  apply : ∀ x op y, o.apply x op = some y → ready y.1 → ready x ∨ b op = true
  resume : ∀ x op ret y, o.resume x op ret = some y → ready y.1 → ready x
  applyWaits : ∀ x op x', o.apply x op = some (x', .waits) → ¬ ready x'
  resumeWaits : ∀ x op ret x', o.resume x op ret = some (x', .waits) → ¬ ready x'

theorem Rouses.goes {o : Object σ ω ρ} {ready : σ → Prop} {b : ω → Bool} (h : Rouses o ready b) {x : σ} {op : ω}
    {l : Label ω} {y : σ × Outcome ρ} (hy : Goes o x op l y) (hr : ready y.1) :
    (ready x ∨ l.broadcasts b = true) ∧ y.2 ≠ .waits := by
  cases hy with
  | call hy =>
    refine ⟨h.apply x op y hy hr, fun hout => ?_⟩
    exact h.applyWaits x op y.1 (by rw [hy, ← hout]) hr
  | wake hy =>
    refine ⟨Or.inl (h.resume x op _ y hy hr), fun hout => ?_⟩
    exact h.resumeWaits x op _ y.1 (by rw [hy, ← hout]) hr

/-- No wake-up is lost: while the object is ready, a broadcast has reached every thread that waits. -/
theorem reached_of_run {o : Object σ ω ρ} {ready : σ → Prop} {b : ω → Bool} (h : Rouses o ready b) {x : σ}
    {ls : List (Label ω)} {s : State σ ω ρ} (hs : run (step o) (State.start x) ls = some s) (hr : ready s.obj)
    {th : Nat} {op : ω} (hw : s.waiting th = some op) : reached b ls th = true := by
  refine run_history (P := fun ls s => ready s.obj → ∀ th op, s.waiting th = some op → reached b ls th = true)
    (fun _ th op hw => by cases hw) ?_ hs hr th op hw
  intro ls u l u' _ ih hu hr th op hw
  obtain ⟨op', y, hy, rfl⟩ := step_goes hu
  rw [State.after_obj] at hr
  obtain ⟨hready, hout⟩ := h.goes hy hr
  by_cases hth : l.thread = th
  · subst hth
    exact absurd (State.after_waiting_self hw).2 hout
  · rw [State.after_waiting_of_ne u hth] at hw
    rw [reached_concat_of_ne hth, Bool.or_eq_true]
    exact hready.imp_left fun hr => ih hr th op hw

/-- The operations that threads wait in are among those that wait. -/
theorem waits_of_run {o : Object σ ω ρ} {P : ω → Prop} (ha : ∀ x op x', o.apply x op = some (x', .waits) → P op)
    (hb : ∀ x op ret x', o.resume x op ret = some (x', .waits) → P op) {x : σ} {ls : List (Label ω)}
    {s : State σ ω ρ} (hs : run (step o) (State.start x) ls = some s) {th : Nat} {op : ω}
    (hw : s.waiting th = some op) : P op := by
  refine run_invariant (P := fun s => ∀ th op, s.waiting th = some op → P op) ?_ (fun th op hw => by cases hw)
    Meets.trivial hs th op hw
  intro u l u' ih _ hu th op hw
  obtain ⟨op', y, hy, rfl⟩ := step_goes hu
  by_cases hth : l.thread = th
  · subst hth
    obtain ⟨rfl, hout⟩ := State.after_waiting_self hw
    cases hy with
    | call hy => exact ha _ _ y.1 (by rw [hy, ← hout])
    | wake hy => exact hb _ _ _ y.1 (by rw [hy, ← hout])
  · rw [State.after_waiting_of_ne u hth] at hw
    exact ih th op hw

end Monitor
