import Mathlib.Data.List.Perm.Basic
import Mathlib.Tactic.Common

/-!
# The timer list

`SortedTimerList` (`lst_timer.cpp`) as the list of its nodes in the order of the `next` pointers.  A timer's address
is its `id`, so a pointer to a timer is dangling when no timer of the list has that `id`; `data` is the slot of the
handler it points to.  The connection a timer was made for (`conn`) is not stored in the source: it is only used to
say which connection an expiry ought to close.
-/

namespace ImageServer

structure Timer where
  id : Nat
  data : Nat
  expire : Nat
  conn : Nat
deriving DecidableEq

/-- The nodes from `head` on. -/
abbrev SortedTimerList := List Timer

namespace SortedTimerList

/-- `_add_timer`, on the nodes behind `lst_head`. -/
def addAfter (timer : Timer) : SortedTimerList → SortedTimerList
  | [] => [timer]
  | tmp :: rest => if timer.expire < tmp.expire then timer :: tmp :: rest else tmp :: addAfter timer rest

/-- `add_timer`. -/
def addTimer (timer : Timer) : SortedTimerList → SortedTimerList
  | [] => [timer]
  | head :: rest => if timer.expire < head.expire then timer :: head :: rest else head :: addAfter timer rest

/-- `adjust_timer`: only a timer that is not before its successor any more is moved, and to behind that one. -/
def adjustTimer (id : Nat) : SortedTimerList → SortedTimerList
  | [] => []
  | [timer] => [timer]
  | timer :: tmp :: rest =>
    if timer.id = id then
      -- the search for the new place starts behind the successor
      if timer.expire < tmp.expire then timer :: tmp :: rest else tmp :: addAfter timer rest
    else timer :: adjustTimer id (tmp :: rest)

/-- The assignment to `m_timer->expire` in `HttpHandler::adjust_timer`. -/
def setExpire (id expire : Nat) (l : SortedTimerList) : SortedTimerList :=
  l.map fun t => if t.id = id then { t with expire := expire } else t

/-- `del_timer`. -/
def delTimer (id : Nat) (l : SortedTimerList) : SortedTimerList := l.filter (·.id ≠ id)

/-- A timer with this address is in the list. -/
def Live (l : SortedTimerList) (id : Nat) : Prop := ∃ t ∈ l, t.id = id

instance (l : SortedTimerList) (id : Nat) : Decidable (l.Live id) :=
  inferInstanceAs (Decidable (∃ t ∈ l, t.id = id))

/-- `adjustTimer` on the timer behind `a`. -/
theorem adjustTimer_append {a b : SortedTimerList} {t : Timer} (ha : t.id ∉ a.map Timer.id) :
    adjustTimer t.id (a ++ t :: b) = a ++ adjustTimer t.id (t :: b) := by
  induction a with
  | nil => rfl
  | cons y a ih =>
    simp only [List.map_cons, List.mem_cons, not_or] at ha
    have ih := ih ha.2
    cases a with
    | nil =>
      have hne : y.id ≠ t.id := Ne.symm ha.1
      simp [adjustTimer, hne]
    | cons z a =>
      have hne : y.id ≠ t.id := Ne.symm ha.1
      simp only [List.cons_append, adjustTimer, if_neg hne] at ih ⊢
      rw [ih]

private theorem addAfter_perm (timer : Timer) (l : SortedTimerList) : (addAfter timer l).Perm (timer :: l) := by
  induction l with
  | nil => exact List.Perm.refl _
  | cons tmp rest ih =>
    unfold addAfter
    split
    · exact List.Perm.refl _
    · exact (ih.cons tmp).trans (List.Perm.swap timer tmp rest)

theorem addTimer_perm (timer : Timer) (l : SortedTimerList) : (addTimer timer l).Perm (timer :: l) := by
  unfold addTimer
  split
  · exact List.Perm.refl _
  · split
    · exact List.Perm.refl _
    · exact ((addAfter_perm timer _).cons _).trans (List.Perm.swap timer _ _)

theorem adjustTimer_perm (id : Nat) (l : SortedTimerList) : (adjustTimer id l).Perm l := by
  induction l using adjustTimer.induct id with
  | case1 => exact List.Perm.refl _
  | case2 timer => exact List.Perm.refl _
  | case3 timer tmp rest hid hlt =>
    rw [adjustTimer, if_pos hid, if_pos hlt]
  | case4 timer tmp rest hid hlt =>
    rw [adjustTimer, if_pos hid, if_neg hlt]
    exact ((addAfter_perm timer rest).cons tmp).trans (List.Perm.swap timer tmp rest)
  | case5 timer tmp rest hid ih =>
    rw [adjustTimer, if_neg hid]
    exact ih.cons timer

/-- Two lists have the same timers, up to their expiry times. -/
def SameTimers (l l' : SortedTimerList) : Prop :=
  (l.map fun t => (t.id, t.data, t.conn)).Perm (l'.map fun t => (t.id, t.data, t.conn))

theorem sameTimers_adjust (id expire : Nat) (l : SortedTimerList) :
    SameTimers (adjustTimer id (setExpire id expire l)) l := by
  refine ((adjustTimer_perm id _).map _).trans (List.Perm.of_eq ?_)
  rw [setExpire, List.map_map]
  refine List.map_congr_left fun t _ => ?_
  dsimp only [Function.comp]
  split <;> rfl

theorem SameTimers.symm {l l' : SortedTimerList} (h : SameTimers l l') : SameTimers l' l := List.Perm.symm h

theorem SameTimers.mem {l l' : SortedTimerList} (h : SameTimers l l') {t : Timer} (ht : t ∈ l) :
    ∃ t' ∈ l', t'.id = t.id ∧ t'.data = t.data ∧ t'.conn = t.conn := by
  obtain ⟨t', ht', he⟩ := List.mem_map.1 (h.mem_iff.1 (List.mem_map_of_mem ht))
  simp only [Prod.mk.injEq] at he
  exact ⟨t', ht', he.1, he.2.1, he.2.2⟩

theorem SameTimers.ids {l l' : SortedTimerList} (h : SameTimers l l') :
    (l.map Timer.id).Perm (l'.map Timer.id) := by
  have := h.map Prod.fst
  simpa only [List.map_map, Function.comp_def] using this

/-! ### Order -/

/-- In the order of `expire`. -/
def Sorted (l : SortedTimerList) : Prop := l.Pairwise fun t t' => t.expire ≤ t'.expire

private theorem Sorted.addAfter {timer p : Timer} {l : SortedTimerList} (h : Sorted (p :: l))
    (hp : p.expire ≤ timer.expire) :
    Sorted (p :: addAfter timer l) := by
  induction l generalizing p with
  | nil => simpa [Sorted, SortedTimerList.addAfter] using hp
  | cons tmp rest ih =>
    obtain ⟨hhead, htail⟩ := List.pairwise_cons.1 h
    unfold SortedTimerList.addAfter
    split
    · rename_i hlt
      refine List.pairwise_cons.2 ⟨?_, List.pairwise_cons.2 ⟨?_, htail⟩⟩
      · intro t ht
        rcases List.mem_cons.1 ht with rfl | ht
        · exact hp
        · exact hhead t ht
      · intro t ht
        rcases List.mem_cons.1 ht with rfl | ht
        · exact Nat.le_of_lt hlt
        · exact Nat.le_trans (Nat.le_of_lt hlt) ((List.pairwise_cons.1 htail).1 t ht)
    · rename_i hge
      have ih := ih htail (Nat.not_lt.1 hge)
      refine List.pairwise_cons.2 ⟨fun t ht => ?_, ih⟩
      have hmem : t = tmp ∨ t = timer ∨ t ∈ rest := by
        rcases List.mem_cons.1 ht with rfl | ht
        · exact Or.inl rfl
        · exact Or.inr (List.mem_cons.1 ((addAfter_perm timer rest).mem_iff.1 ht))
      rcases hmem with rfl | rfl | ht
      · exact hhead t (by simp)
      · exact hp
      · exact hhead t (by simp [ht])

theorem Sorted.addTimer {timer : Timer} {l : SortedTimerList} (h : Sorted l) : Sorted (addTimer timer l) := by
  cases l with
  | nil => simp [Sorted, SortedTimerList.addTimer]
  | cons y rest =>
    rw [SortedTimerList.addTimer]
    split
    · rename_i hlt
      refine List.pairwise_cons.2 ⟨fun t ht => ?_, h⟩
      rcases List.mem_cons.1 ht with rfl | ht
      · exact Nat.le_of_lt hlt
      · exact Nat.le_trans (Nat.le_of_lt hlt) ((List.pairwise_cons.1 h).1 t ht)
    · rename_i hge
      exact h.addAfter (Nat.not_lt.1 hge)

/-- A timer whose `expire` has grown is in its place again. -/
theorem Sorted.adjustTimer {a b : SortedTimerList} {t : Timer} {expire : Nat} (h : Sorted (a ++ t :: b))
    (hta : t.id ∉ a.map Timer.id) (hle : t.expire ≤ expire) :
    Sorted (adjustTimer t.id (a ++ { t with expire := expire } :: b)) := by
  obtain ⟨ha, hb, hab⟩ := List.pairwise_append.1 h
  obtain ⟨htb, hb⟩ := List.pairwise_cons.1 hb
  have hsplit : SortedTimerList.adjustTimer t.id (a ++ { t with expire := expire } :: b) =
      a ++ SortedTimerList.adjustTimer t.id ({ t with expire := expire } :: b) :=
    adjustTimer_append (t := { t with expire := expire }) hta
  rw [hsplit]
  refine List.pairwise_append.2 ⟨ha, ?_, fun x hx y hy => ?_⟩
  · cases b with
    | nil => simp [SortedTimerList.adjustTimer]
    | cons y b =>
      rw [SortedTimerList.adjustTimer, if_pos rfl]
      split
      · rename_i hlt
        refine List.pairwise_cons.2 ⟨fun z hz => ?_, hb⟩
        rcases List.mem_cons.1 hz with rfl | hz
        · exact Nat.le_of_lt hlt
        · exact Nat.le_trans (Nat.le_of_lt hlt) ((List.pairwise_cons.1 hb).1 z hz)
      · rename_i hge
        exact Sorted.addAfter hb (Nat.not_lt.1 hge)
  · -- what is before the timer is no later than its old `expire`
    have hy := (adjustTimer_perm t.id _).mem_iff.1 hy
    rcases List.mem_cons.1 hy with rfl | hy
    · exact Nat.le_trans (hab x hx t (by simp)) hle
    · exact hab x hx y (by simp [hy])

end SortedTimerList

end ImageServer
