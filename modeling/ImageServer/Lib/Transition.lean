import Mathlib.Data.List.Induction
import Mathlib.Order.Basic
import Mathlib.Tactic.Common

/-!
# Runs of a labelled transition system

A system is a partial step function `step : σ → ℓ → Option σ`; a run is the list of its labels.  `Meets` says that
every step of a run meets a condition on the label and the state before it, `Occurs` that some step does, and one of
the two is the case (`occurs_or_meets`); `Throughout` is about the states of the run.

`run_invariant` is the induction rule: what the initial state has and every step meeting the condition preserves holds
at the end of every run whose steps all meet it.  `run_history` is the rule for what is said of the steps as well, and
`meets_throughout_iff` the one for a condition that is exact step by step.  `measure_run` is the rule for a quantity
that no step lowers.  `exists_run` gives the end of a run that is evaluated.  `filterMap_set` and
`length_filter_le_one_iff` are for states that keep a list of threads, of which a step changes one.
-/

namespace Transition

variable {σ ℓ : Type*} {step : σ → ℓ → Option σ}

/-- The state after the steps `ls`, when each of them is enabled in its turn. -/
def run (step : σ → ℓ → Option σ) : σ → List ℓ → Option σ
  | s, [] => some s
  | s, l :: ls => (step s l).bind fun s' => run step s' ls

/-- Every step of the run meets the condition. -/
def Meets (step : σ → ℓ → Option σ) (cond : σ → ℓ → Prop) : σ → List ℓ → Prop
  | _, [] => True
  | s, l :: ls => cond s l ∧ ∀ s', step s l = some s' → Meets step cond s' ls

/-- Some step of the run is as `p` says. -/
def Occurs (step : σ → ℓ → Option σ) (p : σ → ℓ → Prop) : σ → List ℓ → Prop
  | _, [] => False
  | s, l :: ls => p s l ∨ ∃ s', step s l = some s' ∧ Occurs step p s' ls

/-- Every state the run goes through, from the first to the last one, has the property. -/
def Throughout (step : σ → ℓ → Option σ) (q : σ → Prop) : σ → List ℓ → Prop
  | s, [] => q s
  | s, l :: ls => q s ∧ ∀ s', step s l = some s' → Throughout step q s' ls

theorem run_cons {s t : σ} {l : ℓ} {ls : List ℓ} (h : run step s (l :: ls) = some t) :
    ∃ s', step s l = some s' ∧ run step s' ls = some t :=
  Option.bind_eq_some_iff.1 h

theorem run_append {s : σ} (ls ls' : List ℓ) :
    run step s (ls ++ ls') = (run step s ls).bind fun s' => run step s' ls' := by
  induction ls generalizing s with
  | nil => rfl
  | cons l ls ih =>
    simp only [List.cons_append, run]
    cases step s l with
    | none => rfl
    | some s' => exact ih

/-- A run that is possible has an end. -/
theorem exists_run {P : σ → Prop} {s : σ} {ls : List ℓ} (h : (run step s ls).isSome)
    (hP : ∀ t, run step s ls = some t → P t) : ∃ t, run step s ls = some t ∧ P t := by
  obtain ⟨t, ht⟩ := Option.isSome_iff_exists.1 h
  exact ⟨t, ht, hP t ht⟩

/-- What is known of the end of a run. -/
theorem exists_run_map {α : Type*} {P : σ → Prop} {s : σ} {ls : List ℓ} {f : σ → α} {a : α}
    (h : (run step s ls).map f = some a) (hP : ∀ t, f t = a → P t) : ∃ t, run step s ls = some t ∧ P t := by
  obtain ⟨t, ht, ha⟩ := Option.map_eq_some_iff.1 h
  exact ⟨t, ht, hP t ha⟩

/-- The induction rule for runs. -/
theorem run_invariant {P : σ → Prop} {cond : σ → ℓ → Prop}
    (hstep : ∀ s l s', P s → cond s l → step s l = some s' → P s') {s t : σ} {ls : List ℓ}
    (hs : P s) (hc : Meets step cond s ls) (h : run step s ls = some t) : P t := by
  induction ls generalizing s with
  | nil => cases h; exact hs
  | cons l ls ih =>
    obtain ⟨s', hs', h⟩ := run_cons h
    exact ih (hstep s l s' hs hc.1 hs') (hc.2 s' hs') h

/-- The induction rule for what is said of the run and of the state it leads to. -/
theorem run_history {P : List ℓ → σ → Prop} {s t : σ} {ls : List ℓ} (hs : P [] s)
    (hstep : ∀ ls u l u', run step s ls = some u → P ls u → step u l = some u' → P (ls ++ [l]) u')
    (h : run step s ls = some t) : P ls t := by
  induction ls using List.reverseRecOn generalizing t with
  | nil => cases h; exact hs
  | append_singleton ls l ih =>
    rw [run_append] at h
    obtain ⟨u, hu, h⟩ := Option.bind_eq_some_iff.1 h
    obtain ⟨t', ht', h⟩ := run_cons h
    cases h
    exact hstep ls u l _ hu (ih hu) ht'

theorem Meets.imp {p q : σ → ℓ → Prop} (hpq : ∀ s l, p s l → q s l) {s : σ} {ls : List ℓ}
    (h : Meets step p s ls) : Meets step q s ls := by
  induction ls generalizing s with
  | nil => trivial
  | cons l ls ih => exact ⟨hpq s l h.1, fun s' hs' => ih (h.2 s' hs')⟩

/-- A condition on the labels alone. -/
theorem Meets.of_forall {p : ℓ → Prop} {s : σ} {ls : List ℓ} (h : ∀ l ∈ ls, p l) :
    Meets step (fun _ l => p l) s ls := by
  induction ls generalizing s with
  | nil => trivial
  | cons l ls ih => exact ⟨h l (List.mem_cons_self ..), fun s' _ => ih fun l' hl' => h l' (List.mem_cons_of_mem _ hl')⟩

/-- The first step of a run that is possible. -/
theorem meets_cons {cond : σ → ℓ → Prop} {s s' : σ} {l : ℓ} {ls : List ℓ} (h : step s l = some s') :
    Meets step cond s (l :: ls) ↔ cond s l ∧ Meets step cond s' ls := by
  refine ⟨fun hm => ⟨hm.1, hm.2 s' h⟩, fun hm => ⟨hm.1, fun s'' hs'' => ?_⟩⟩
  cases h.symm.trans hs''
  exact hm.2

/-- Two conditions that are the same in every state with `P`, which a step meeting them preserves. -/
theorem meets_congr {P : σ → Prop} {p q : σ → ℓ → Prop}
    (hpq : ∀ s l s', P s → step s l = some s' → (p s l ↔ q s l))
    (hP : ∀ s l s', P s → q s l → step s l = some s' → P s') {s t : σ} {ls : List ℓ} (hs : P s)
    (h : run step s ls = some t) : Meets step p s ls ↔ Meets step q s ls := by
  induction ls generalizing s with
  | nil => exact Iff.rfl
  | cons l ls ih =>
    obtain ⟨s', hs', h⟩ := run_cons h
    rw [meets_cons hs', meets_cons hs', hpq s l s' hs hs']
    refine and_congr_right fun hq => ?_
    exact ih (hP s l s' hs hq hs') h

theorem Throughout.first {q : σ → Prop} {s : σ} {ls : List ℓ} (h : Throughout step q s ls) : q s := by
  cases ls with
  | nil => exact h
  | cons l ls => exact h.1

theorem Throughout.last {q : σ → Prop} {s t : σ} {ls : List ℓ} (h : Throughout step q s ls)
    (ht : run step s ls = some t) : q t := by
  induction ls generalizing s with
  | nil => cases ht; exact h
  | cons l ls ih =>
    obtain ⟨s', hs', ht⟩ := run_cons ht
    exact ih (h.2 s' hs') ht

/-- When the condition on a step is that the step is good and leads to a state with the property, as long as an
invariant holds that such steps preserve, the runs of such steps are those that are good throughout. -/
theorem meets_throughout_iff {P q : σ → Prop} {good cond : σ → ℓ → Prop}
    (hstep : ∀ s l s', P s → step s l = some s' → (good s l ∧ q s' ↔ cond s l))
    (hP : ∀ s l s', P s → cond s l → step s l = some s' → P s') {s t : σ} {ls : List ℓ} (hs : P s) (hq : q s)
    (h : run step s ls = some t) : Meets step good s ls ∧ Throughout step q s ls ↔ Meets step cond s ls := by
  induction ls generalizing s with
  | nil => exact iff_of_true ⟨True.intro, hq⟩ True.intro
  | cons l ls ih =>
    obtain ⟨s', hs', h⟩ := run_cons h
    constructor
    · rintro ⟨hgood, -, hthrough⟩
      have hc : cond s l := (hstep s l s' hs hs').1 ⟨hgood.1, (hthrough s' hs').first⟩
      rw [meets_cons hs']
      exact ⟨hc, (ih (hP s l s' hs hc hs') (hthrough s' hs').first h).1 ⟨hgood.2 s' hs', hthrough s' hs'⟩⟩
    · intro hm
      obtain ⟨hc, hm⟩ := (meets_cons hs').1 hm
      obtain ⟨hgood, hq'⟩ := (hstep s l s' hs hs').2 hc
      obtain ⟨hgoods, hthrough⟩ := (ih (hP s l s' hs hc hs') hq' h).2 hm
      refine ⟨(meets_cons hs').2 ⟨hgood, hgoods⟩, hq, fun s'' hs'' => ?_⟩
      cases hs'.symm.trans hs''
      exact hthrough

theorem meets_append {cond : σ → ℓ → Prop} {s t : σ} {ls : List ℓ} (ls' : List ℓ) (h : run step s ls = some t) :
    Meets step cond s (ls ++ ls') ↔ Meets step cond s ls ∧ Meets step cond t ls' := by
  induction ls generalizing s with
  | nil =>
    cases h
    exact (and_iff_right True.intro).symm
  | cons l ls ih =>
    obtain ⟨s', hs', h⟩ := run_cons h
    rw [List.cons_append, meets_cons hs', meets_cons hs', ih h, and_assoc]

theorem meets_concat {cond : σ → ℓ → Prop} {s t : σ} {ls : List ℓ} (l : ℓ) (h : run step s ls = some t) :
    Meets step cond s (ls ++ [l]) ↔ Meets step cond s ls ∧ cond t l := by
  rw [meets_append [l] h]
  simp only [Meets, implies_true, and_true]

/-- A measure that no step lowers stays what it was exactly when every step meets the condition under which a step
leaves it.  What is known of the steps may need that the run has not come to an end (`live`). -/
theorem measure_run {α : Type*} [PartialOrder α] {P live : σ → Prop} {f : σ → α} {cond : σ → ℓ → Prop}
    (hlive : ∀ s l s', step s l = some s' → live s)
    (hstep : ∀ s l s', P s → live s' → step s l = some s' → P s' ∧ f s ≤ f s' ∧ (f s' = f s ↔ cond s l)) {s t : σ}
    {ls : List ℓ} (hs : P s) (h : run step s ls = some t) (ht : live t) :
    P t ∧ f s ≤ f t ∧ (f t = f s ↔ Meets step cond s ls) := by
  induction ls generalizing s with
  | nil =>
    cases h
    exact ⟨hs, le_rfl, iff_of_true rfl True.intro⟩
  | cons l ls ih =>
    obtain ⟨s', hs', h⟩ := run_cons h
    have hl : live s' := by
      cases ls with
      | nil =>
        cases h
        exact ht
      | cons l' ls =>
        obtain ⟨s₂, hs₂, -⟩ := run_cons h
        exact hlive s' l' s₂ hs₂
    obtain ⟨hP, hle₁, hiff₁⟩ := hstep s l s' hs hl hs'
    obtain ⟨hPt, hle₂, hiff₂⟩ := ih hP h
    refine ⟨hPt, hle₁.trans hle₂, ?_⟩
    rw [meets_cons hs', ← hiff₁, ← hiff₂]
    constructor
    · intro heq
      have hs' : f s' = f s := le_antisymm (heq ▸ hle₂) hle₁
      exact ⟨hs', heq.trans hs'.symm⟩
    · rintro ⟨h₁, h₂⟩
      exact h₂.trans h₁

instance Meets.decidable {cond : σ → ℓ → Prop} [∀ s l, Decidable (cond s l)] :
    ∀ s ls, Decidable (Meets step cond s ls)
  | _, [] => .isTrue True.intro
  | s, l :: ls =>
    match hs : step s l with
    | none => decidable_of_iff (cond s l) ⟨fun h => ⟨h, fun s' hs' => by simp [hs] at hs'⟩, fun h => h.1⟩
    | some s' =>
      have : Decidable (Meets step cond s' ls) := Meets.decidable s' ls
      decidable_of_iff (cond s l ∧ Meets step cond s' ls)
        ⟨fun h => ⟨h.1, fun s'' hs'' => Option.some.inj (hs.symm.trans hs'') ▸ h.2⟩, fun h => ⟨h.1, h.2 s' hs⟩⟩

theorem Meets.trivial {s : σ} {ls : List ℓ} : Meets step (fun _ _ => True) s ls := by
  induction ls generalizing s with
  | nil => exact True.intro
  | cons l ls ih => exact ⟨True.intro, fun _ _ => ih⟩

theorem occurs_or_meets (p : σ → ℓ → Prop) (s : σ) (ls : List ℓ) :
    Occurs step p s ls ∨ Meets step (fun s l => ¬ p s l) s ls := by
  classical
  induction ls generalizing s with
  | nil => exact Or.inr True.intro
  | cons l ls ih =>
    by_cases hp : p s l
    · exact Or.inl (Or.inl hp)
    · by_cases h : ∃ s', step s l = some s' ∧ Occurs step p s' ls
      · exact Or.inl (Or.inr h)
      · refine Or.inr ⟨hp, fun s' hs' => (ih s').resolve_left fun ho => h ⟨s', hs', ho⟩⟩

theorem occurs_append {p : σ → ℓ → Prop} {s t : σ} {ls : List ℓ} (ls' : List ℓ) (h : run step s ls = some t) :
    Occurs step p s (ls ++ ls') ↔ Occurs step p s ls ∨ Occurs step p t ls' := by
  induction ls generalizing s with
  | nil =>
    cases h
    exact (or_iff_right id).symm
  | cons l ls ih =>
    obtain ⟨s', hs', h⟩ := run_cons h
    have hnext : ∀ ks, (∃ s'', step s l = some s'' ∧ Occurs step p s'' ks) ↔ Occurs step p s' ks := by
      intro ks
      refine ⟨fun ⟨s'', hs'', ho⟩ => ?_, fun ho => ⟨s', hs', ho⟩⟩
      cases hs'.symm.trans hs''
      exact ho
    simp only [List.cons_append, Occurs, hnext, ih h, or_assoc]

theorem occurs_concat {p : σ → ℓ → Prop} {s t : σ} {ls : List ℓ} (l : ℓ) (h : run step s ls = some t) :
    Occurs step p s (ls ++ [l]) ↔ Occurs step p s ls ∨ p t l := by
  rw [occurs_append [l] h]
  simp only [Occurs, and_false, exists_false, or_false]

/-- When every step that is as `p` says leads to a state without further steps, the run ends with the first such
step. -/
theorem Occurs.ends {p : σ → ℓ → Prop} {q : σ → Prop} (hp : ∀ s l s', p s l → step s l = some s' → q s')
    (hq : ∀ s l, q s → step s l = none) {s t : σ} {ls : List ℓ} (ho : Occurs step p s ls)
    (h : run step s ls = some t) : q t := by
  induction ls generalizing s with
  | nil => exact ho.elim
  | cons l ls ih =>
    obtain ⟨s', hs', h⟩ := run_cons h
    rcases ho with hps | ⟨s'', hs'', ho⟩
    · cases ls with
      | nil =>
        cases h
        exact hp s l _ hps hs'
      | cons l' ls =>
        obtain ⟨s₂, hs₂, -⟩ := run_cons h
        rw [hq s' l' (hp s l s' hps hs')] at hs₂
        cases hs₂
    · cases hs'.symm.trans hs''
      exact ih ho h

/-- What some step brings about and no step undoes is there at the end of the run. -/
theorem Occurs.persists {P Q : σ → Prop} {p : σ → ℓ → Prop}
    (hP : ∀ s l s', P s → step s l = some s' → P s') (hp : ∀ s l s', P s → p s l → step s l = some s' → Q s')
    (hQ : ∀ s l s', P s → Q s → step s l = some s' → Q s') {s t : σ} {ls : List ℓ} (hs : P s)
    (ho : Occurs step p s ls) (h : run step s ls = some t) : Q t := by
  induction ls generalizing s with
  | nil => exact ho.elim
  | cons l ls ih =>
    obtain ⟨s', hs', h⟩ := run_cons h
    rcases ho with hps | ⟨s'', hs'', ho⟩
    · have hboth : P t ∧ Q t := by
        refine run_invariant (P := fun s => P s ∧ Q s) ?_ ⟨hP s l s' hs hs', hp s l s' hs hps hs'⟩ Meets.trivial h
        intro u l u' hu _ hu'
        exact ⟨hP u l u' hu.1 hu', hQ u l u' hu.1 hu.2 hu'⟩
      exact hboth.2
    · cases hs'.symm.trans hs''
      exact ih (hP s l s' hs hs') ho h

/-! ### Systems of threads -/

variable {α β : Type*}

/-- A step of one thread leaves what the others contribute. -/
theorem filterMap_set (f : α → Option β) {l : List α} {w : Nat} {x : α} (h : l[w]? = some x) (y : α) :
    ∃ others, (l.filterMap f).Perm ((f x).toList ++ others) ∧
      ((l.set w y).filterMap f).Perm ((f y).toList ++ others) := by
  obtain ⟨hw, hx⟩ := List.getElem?_eq_some_iff.1 h
  obtain ⟨l₁, l₂, hl, -, hset⟩ := @List.exists_of_set _ _ y _ hw
  have hsplit : ∀ z : α, ((l₁ ++ z :: l₂).filterMap f).Perm
      ((f z).toList ++ (l₁.filterMap f ++ l₂.filterMap f)) := by
    intro z
    have hz : (z :: l₂).filterMap f = (f z).toList ++ l₂.filterMap f := by
      rw [List.filterMap_cons]
      cases f z <;> rfl
    rw [List.filterMap_append, hz]
    exact List.perm_append_comm_assoc _ _ _
  refine ⟨l₁.filterMap f ++ l₂.filterMap f, ?_, ?_⟩
  · rw [hl, hx]
    exact hsplit x
  · rw [hset]
    exact hsplit y

/-- At most one thread is as `p` says. -/
theorem length_filter_le_one_iff {p : α → Bool} {l : List α} :
    (l.filter p).length ≤ 1 ↔
      ∀ (i j : Nat) (x y : α), l[i]? = some x → l[j]? = some y → p x → p y → i = j := by
  induction l with
  | nil => simp
  | cons a l ih =>
    by_cases ha : p a
    · rw [List.filter_cons_of_pos ha]
      have hnil : (a :: l.filter p).length ≤ 1 ↔ ∀ z ∈ l, ¬ p z := by
        rw [← List.filter_eq_nil_iff, ← List.length_eq_zero_iff, List.length_cons]
        omega
      rw [hnil]
      constructor
      · intro h i j x y hx hy hpx hpy
        cases i with
        | zero =>
          cases j with
          | zero => rfl
          | succ j => exact absurd hpy (h y (List.mem_of_getElem? hy))
        | succ i => exact absurd hpx (h x (List.mem_of_getElem? hx))
      · intro h z hz hpz
        obtain ⟨k, hk⟩ := List.getElem?_of_mem hz
        cases h 0 (k + 1) a z rfl hk ha hpz
    · rw [List.filter_cons_of_neg ha, ih]
      constructor
      · intro h i j x y hx hy hpx hpy
        cases i with
        | zero => exact absurd (Option.some.inj hx ▸ hpx) ha
        | succ i =>
          cases j with
          | zero => exact absurd (Option.some.inj hy ▸ hpy) ha
          | succ j => exact congrArg (· + 1) (h i j x y hx hy hpx hpy)
      · intro h i j x y hx hy hpx hpy
        exact Nat.succ_inj.1 (h (i + 1) (j + 1) x y hx hy hpx hpy)

end Transition
