import ImageServer.Lib.Transition
import Mathlib.Data.Option.Basic

/-!
# Objects behind a mutex

A monitor is an object whose operations run under one mutex.  An operation returns a result or waits on the
condition variable; a thread that waits is woken with the result of the wait, `resume` says how its operation goes
on.  Any number of threads call operations, in any order (`step`), and the log has what they have returned.  A step
that an operation has no result for is not there.  `run_refines` is the refinement rule: what holds of the calls of
two monitors one by one, with the same results, holds of all runs.
-/

namespace Monitor

open Transition

/-- What a call does: it returns a result, or waits. -/
inductive Outcome (ρ : Type*)
  | returns (r : ρ)
  | waits

variable {σ τ ω ρ : Type*}

/-- The operations `ω` of an object `σ`, with results in `ρ`. -/
structure Object (σ ω ρ : Type*) where
  apply : σ → ω → Option (σ × Outcome ρ)
  /-- how a waiting operation goes on when its wait returns `ret` -/
  resume : σ → ω → Int → Option (σ × Outcome ρ)

/-- The object, what each thread waits in, and what has been returned. -/
structure State (σ ω ρ : Type*) where
  obj : σ
  waiting : Nat → Option ω
  log : List (Nat × ω × ρ)

inductive Label (ω : Type*)
  | call (th : Nat) (op : ω)
  /-- the wait of the thread returns -/
  | wake (th : Nat) (ret : Int)

def State.start (s : σ) : State σ ω ρ := { obj := s, waiting := fun _ => none, log := [] }

/-- The thread has gone through `op` as `out` says. -/
def State.after (s : State σ ω ρ) (th : Nat) (op : ω) (out : σ × Outcome ρ) : State σ ω ρ :=
  match out.2 with
  | .returns r => { obj := out.1, waiting := Function.update s.waiting th none, log := s.log ++ [(th, op, r)] }
  | .waits => { s with obj := out.1, waiting := Function.update s.waiting th (some op) }

def step (o : Object σ ω ρ) (s : State σ ω ρ) : Label ω → Option (State σ ω ρ)
  | .call th op =>
    match s.waiting th with
    | some _ => none
    | none => (o.apply s.obj op).map (s.after th op)
  | .wake th ret =>
    match s.waiting th with
    | none => none
    | some op => (o.resume s.obj op ret).map (s.after th op)

/-- The outcomes are the same, and the objects stay related. -/
def Same (R : σ → τ → Prop) (x : σ × Outcome ρ) (y : τ × Outcome ρ) : Prop := R x.1 y.1 ∧ x.2 = y.2

/-- The operations of `o` do what those of `o'` do, on related objects. -/
structure Refines (R : σ → τ → Prop) (o : Object σ ω ρ) (o' : Object τ ω ρ) : Prop where
  apply : ∀ s t op, R s t → Option.Rel (Same R) (o.apply s op) (o'.apply t op)
  resume : ∀ s t op ret, R s t → Option.Rel (Same R) (o.resume s op ret) (o'.resume t op ret)

/-- Two states are the same but for the objects, which are related. -/
structure Agree (R : σ → τ → Prop) (s : State σ ω ρ) (t : State τ ω ρ) : Prop where
  obj : R s.obj t.obj
  waiting : s.waiting = t.waiting
  log : s.log = t.log

theorem Agree.after {R : σ → τ → Prop} {s : State σ ω ρ} {t : State τ ω ρ} (h : Agree R s t) (th : Nat) (op : ω)
    {x : σ × Outcome ρ} {y : τ × Outcome ρ} (hxy : Same R x y) : Agree R (s.after th op x) (t.after th op y) := by
  obtain ⟨hobj, hout⟩ := hxy
  unfold State.after
  rw [hout]
  cases y.2 with
  | returns r => exact ⟨hobj, by rw [h.waiting], by rw [h.log]⟩
  | waits => exact ⟨hobj, by rw [h.waiting], h.log⟩

theorem map_rel {α β γ δ : Type*} {P : α → β → Prop} {Q : γ → δ → Prop} {f : α → γ} {g : β → δ}
    (hfg : ∀ a b, P a b → Q (f a) (g b)) {x : Option α} {y : Option β} (h : Option.Rel P x y) :
    Option.Rel Q (x.map f) (y.map g) := by
  cases h with
  | some hab => exact .some (hfg _ _ hab)
  | none => exact .none

/-- The refinement rule for one step. -/
theorem step_refines {R : σ → τ → Prop} {o : Object σ ω ρ} {o' : Object τ ω ρ} (hR : Refines R o o')
    {s : State σ ω ρ} {t : State τ ω ρ} (h : Agree R s t) (l : Label ω) :
    Option.Rel (Agree R) (step o s l) (step o' t l) := by
  cases l with
  | call th op =>
    simp only [step, h.waiting]
    cases t.waiting th with
    | some _ => exact .none
    | none => exact map_rel (fun x y hxy => h.after th op hxy) (hR.apply s.obj t.obj op h.obj)
  | wake th ret =>
    simp only [step, h.waiting]
    cases t.waiting th with
    | none => exact .none
    | some op => exact map_rel (fun x y hxy => h.after th op hxy) (hR.resume s.obj t.obj op ret h.obj)

/-- The refinement rule for runs. -/
theorem run_refines {R : σ → τ → Prop} {o : Object σ ω ρ} {o' : Object τ ω ρ} (hR : Refines R o o')
    (ls : List (Label ω)) {s : State σ ω ρ} {t : State τ ω ρ} (h : Agree R s t) :
    Option.Rel (Agree R) (run (step o) s ls) (run (step o') t ls) := by
  induction ls generalizing s t with
  | nil => exact .some h
  | cons l ls ih =>
    have hstep := step_refines hR h l
    simp only [run]
    generalize step o s l = x at hstep ⊢
    generalize step o' t l = y at hstep ⊢
    cases hstep with
    | some hab => exact ih hab
    | none => exact .none

/-- A run of one of the two monitors is a run of the other one. -/
theorem Refines.run_right {R : σ → τ → Prop} {o : Object σ ω ρ} {o' : Object τ ω ρ} (hR : Refines R o o')
    {ls : List (Label ω)} {s s' : State σ ω ρ} {t : State τ ω ρ} (h : Agree R s t)
    (hs : run (step o) s ls = some s') : ∃ t', run (step o') t ls = some t' ∧ Agree R s' t' := by
  have hrel := run_refines hR ls h
  rw [hs] at hrel
  generalize run (step o') t ls = y at hrel ⊢
  cases hrel with
  | some hagree => exact ⟨_, rfl, hagree⟩

theorem Refines.run_left {R : σ → τ → Prop} {o : Object σ ω ρ} {o' : Object τ ω ρ} (hR : Refines R o o')
    {ls : List (Label ω)} {s : State σ ω ρ} {t t' : State τ ω ρ} (h : Agree R s t)
    (ht : run (step o') t ls = some t') : ∃ s', run (step o) s ls = some s' ∧ Agree R s' t' := by
  have hrel := run_refines hR ls h
  rw [ht] at hrel
  generalize run (step o) s ls = x at hrel ⊢
  cases hrel with
  | some hagree => exact ⟨_, rfl, hagree⟩

end Monitor
