import ImageServer.Lib.Broadcast
import ImageServer.Log.BlockQueue

/-!
# Wake-ups of the blocking queue

`push` broadcasts the condition variable whether it adds an element or not, and nothing else does.  That is enough:
while there are elements in the queue no thread sleeps in one of the functions `pop`, and waiting threads that are
woken, in any order and no more than there are elements, take these elements in the order of the queue
(`noneAsleep_run`).
-/

namespace ImageServer

open Monitor Transition

variable {T : Type}

/-- The operations that call `pthread_cond_broadcast`. -/
def QueueOp.broadcasts : QueueOp T → Bool
  | .push _ => true
  | _ => false

/-- The two functions `pop`. -/
def QueueOp.Pops (op : QueueOp T) : Prop := op = .pop ∨ ∃ ms, op = .popTimed ms

/-! ### The bounded queue -/

private theorem popFirst_ne_nil {l : List T} (h : (popFirst l).1 ≠ []) : l ≠ [] := by
  rintro rfl
  exact h rfl

private theorem popFirst_waits {l l' : List T} (h : popFirst l = (l', .waits)) : l' = [] := by
  cases l with
  | nil =>
    cases h
    rfl
  | cons x l => cases h

private theorem bounded_rouses (n : Nat) : Rouses (bounded T n) (· ≠ []) QueueOp.broadcasts where
  apply := by
    intro l op y hy hr
    cases op with
    | push => exact Or.inr rfl
    | pop | popTimed =>
      cases hy
      exact Or.inl (popFirst_ne_nil hr)
    | clear =>
      cases hy
      exact absurd rfl hr
    | full | empty | back | size =>
      cases hy
      exact Or.inl hr
  resume := by
    intro l op ret y hy hr
    cases op with
    | pop | popTimed =>
      simp only [bounded, Option.some.injEq] at hy
      split at hy
      · cases hy
        exact hr
      · cases hy
        exact popFirst_ne_nil hr
    | push | clear | full | empty | back | size => cases hy
  applyWaits := by
    intro l op l' hy
    cases op with
    | push =>
      simp only [bounded, Option.some.injEq] at hy
      split at hy <;> cases hy
    | pop | popTimed => exact not_not.2 (popFirst_waits (Option.some.inj hy))
    | clear | full | empty | back | size => cases hy
  resumeWaits := by
    intro l op ret l' hy
    cases op with
    | pop | popTimed =>
      simp only [bounded, Option.some.injEq] at hy
      split at hy
      · cases hy
      · exact not_not.2 (popFirst_waits hy)
    | push | clear | full | empty | back | size => cases hy

/-- Only the functions `pop` wait. -/
private theorem bounded_waits {n : Nat} {l l' : List T} {op : QueueOp T}
    (h : (bounded T n).apply l op = some (l', .waits) ∨ ∃ ret, (bounded T n).resume l op ret = some (l', .waits)) :
    op.Pops := by
  cases op with
  | pop => exact Or.inl rfl
  | popTimed ms => exact Or.inr ⟨ms, rfl⟩
  | push =>
    rcases h with h | ⟨ret, h⟩
    · simp only [bounded, Option.some.injEq] at h
      split at h <;> cases h
    · cases h
  | clear | full | empty | back | size => rcases h with h | ⟨ret, h⟩ <;> cases h

private theorem bounded_resume {n : Nat} {op : QueueOp T} (hop : op.Pops) (x : T) (l : List T) :
    (bounded T n).resume (x :: l) op 0 = some (l, .returns (.item (some x))) := by
  rcases hop with rfl | ⟨ms, rfl⟩ <;> simp [bounded, popFirst]

/-- Threads that are woken take the first elements in their order. -/
private theorem bounded_wakeAll {n : Nat} {op : Nat → QueueOp T} {ths : List Nat} (hths : ths.Nodup)
    {t : State (List T) (QueueOp T) (QueueResult T)} (hop : ∀ th ∈ ths, (op th).Pops)
    (hw : ∀ th ∈ ths, t.waiting th = some (op th)) (hlen : ths.length ≤ t.obj.length) :
    ∃ t', run (step (bounded T n)) t (ths.map fun th => .wake th 0) = some t' ∧ t'.obj = t.obj.drop ths.length ∧
      t'.log = t.log ++ List.zipWith (fun th x => (th, op th, .item (some x))) ths t.obj ∧
      ∀ th, t'.waiting th = if th ∈ ths then none else t.waiting th := by
  induction ths generalizing t with
  | nil => exact ⟨t, rfl, by simp, by simp, by simp⟩
  | cons th ths ih =>
    obtain ⟨hth, hths⟩ := List.nodup_cons.1 hths
    cases hobj : t.obj with
    | nil =>
      rw [hobj] at hlen
      cases hlen
    | cons x l =>
      have hstep : step (bounded T n) t (.wake th 0) =
          some (t.after th (op th) (l, .returns (.item (some x)))) := by
        simp only [step, hw th List.mem_cons_self, hobj, bounded_resume (hop th List.mem_cons_self), Option.map_some]
      -- the other threads still wait, as no thread is woken twice
      have hothers : ∀ k ∈ ths, (t.after th (op th) (l, .returns (.item (some x)))).waiting k = some (op k) := by
        intro k hk
        have hne : th ≠ k := by
          rintro rfl
          exact hth hk
        rw [State.after_waiting_of_ne t hne]
        exact hw k (List.mem_cons_of_mem _ hk)
      rw [hobj, List.length_cons, List.length_cons] at hlen
      obtain ⟨t', ht', hdrop, hlog, hwaiting⟩ :=
        ih hths (fun k hk => hop k (List.mem_cons_of_mem _ hk)) hothers (Nat.le_of_succ_le_succ hlen)
      refine ⟨t', ?_, ?_, ?_, fun k => ?_⟩
      · rw [List.map_cons, run, hstep]
        exact ht'
      · rw [hdrop, State.after_obj, List.length_cons, List.drop_succ_cons]
      · rw [hlog, List.zipWith_cons_cons]
        exact List.append_assoc ..
      · rw [hwaiting k]
        by_cases hk : th = k
        · subst hk
          rw [if_neg hth, if_pos List.mem_cons_self]
          exact Function.update_self ..
        · rw [State.after_waiting_of_ne t hk]
          simp [Ne.symm hk]

/-! ### The blocking queue -/

namespace BlockQueue

/-- No wake-up is lost.  While the queue holds elements, a broadcast has reached every thread that waits in one of the
functions `pop`; and as many of these threads as there are elements, in any order, take the elements in their order as
soon as their waits return. -/
theorem noneAsleep_run {n : Nat} {cells : List T} (hc : cells.length = n) {q : BlockQueue T}
    (hq : create n cells = some q) {ls : List (Label (QueueOp T))}
    {s : State (BlockQueue T) (QueueOp T) (QueueResult T)} (h : run (step object) (State.start q) ls = some s) :
    (0 < s.obj.mSize → ∀ th op, s.waiting th = some op → reached QueueOp.broadcasts ls th = true) ∧
      ∀ (ths : List Nat) (op : Nat → QueueOp T), ths.Nodup → (∀ th ∈ ths, s.waiting th = some (op th)) →
        ths.length ≤ s.obj.items.length →
        ∃ s', run (step object) s (ths.map fun th => .wake th 0) = some s' ∧
          s'.obj.items = s.obj.items.drop ths.length ∧
          s'.log = s.log ++ List.zipWith (fun th x => (th, op th, .item (some x))) ths s.obj.items ∧
          ∀ th ∈ ths, s'.waiting th = none := by
  have hn : 0 < n := by
    by_contra hn
    rw [create, if_pos (by omega)] at hq
    cases hq
  obtain ⟨q', hq', hempty⟩ := contents_create hn hc
  cases hq.symm.trans hq'
  obtain ⟨t, ht, hagree⟩ := (refines n).run_right (t := State.start []) ⟨hempty, rfl, rfl⟩ h
  constructor
  · intro hpos th op hw
    have hne : t.obj ≠ [] := by
      intro hnil
      have hsize := hagree.obj.size
      rw [hnil] at hsize
      rw [hsize] at hpos
      cases hpos
    rw [hagree.waiting] at hw
    exact reached_of_run (bounded_rouses n) ht hne hw
  · intro ths op hths hw hlen
    rw [hagree.waiting] at hw
    rw [hagree.obj.items_eq] at hlen ⊢
    have hop : ∀ th ∈ ths, (op th).Pops := by
      intro th hth
      refine waits_of_run (fun l o l' hl => ?_) (fun l o ret l' hl => ?_) ht (hw th hth)
      · exact bounded_waits (Or.inl hl)
      · exact bounded_waits (Or.inr ⟨ret, hl⟩)
    obtain ⟨t', ht', hdrop, hlog, hwaiting⟩ := bounded_wakeAll (n := n) hths hop hw hlen
    obtain ⟨s', hs', hagree'⟩ := (refines n).run_left hagree ht'
    refine ⟨s', hs', ?_, ?_, fun th hth => ?_⟩
    · rw [hagree'.obj.items_eq, hdrop]
    · rw [hagree'.log, hlog, hagree.log]
    · rw [hagree'.waiting, hwaiting th, if_pos hth]

/-- Two threads wait in `pop` and one with a timeout when two elements are pushed. -/
def threeWait : List (Label (QueueOp Nat)) :=
  [.call 1 .pop, .call 2 (.popTimed 500), .call 3 .pop, .call 0 (.push 7), .call 0 (.push 8)]

/-- All three are reached, and the two that wake first take the elements. -/
theorem noneAsleep_run_threeWait :
    ∃ q s, create 2 [0, 0] = some q ∧ run (step object) (State.start q) threeWait = some s ∧
      (∀ th op, s.waiting th = some op → reached QueueOp.broadcasts threeWait th = true) ∧
      ∃ s', run (step object) s [.wake 3 0, .wake 2 0] = some s' ∧ s'.obj.items = [] ∧
        popped s'.log = [7, 8] := by
  refine ⟨_, _, rfl, rfl, ?_⟩
  obtain ⟨hreached, hwoken⟩ := noneAsleep_run (q := ⟨[0, 0], 0, 2, -1, -1⟩) (rfl : [0, 0].length = 2) rfl
    (rfl : run (step object) (State.start _) threeWait = some _)
  refine ⟨hreached (by decide), ?_⟩
  obtain ⟨s', hs', hitems, hlog, -⟩ := hwoken [3, 2] (fun th => if th = 2 then .popTimed 500 else .pop) (by decide)
    (List.forall_mem_cons.2 ⟨rfl, List.forall_mem_singleton.2 rfl⟩) (by decide)
  exact ⟨s', hs', hitems, by rw [hlog]; rfl⟩

end BlockQueue

end ImageServer
