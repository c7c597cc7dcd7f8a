import ImageServer.Server.TimerPointers

/-!
# Runs of the timer list

A timer is added once, given a later `expire` and put in its place again, deleted, or it expires (`TimerOp`).  Whatever
the order of these operations, the pointers form one chain of exactly the timers that are in use, in the order of
`expire`, with `prev` the inverse of `next` (`wellLinked_run`), and `timeout` calls the expired ones in this order.
-/

namespace ImageServer

open LinkedList Transition

/-- An operation on the timer list, as `ClientPool` uses it. -/
inductive TimerOp
  /-- `new Timer` and `add_timer` -/
  | add (t : Timer)
  /-- `expire` is assigned, and `adjust_timer` called -/
  | adjust (id expire : Nat)
  | del (id : Nat)
  | timeout (cur : Nat)

/-- The timers added and not removed, by address. -/
abbrev TimersInUse := Nat → Option Timer

/-- What the operation does to the timers in use.  There is no result when it is not allowed: a timer is added to an
address that is not in use, adjusted to an `expire` not below its old one, and deleted when it is in use. -/
def TimerOp.inUse (ts : TimersInUse) : TimerOp → Option TimersInUse
  | .add t =>
    match ts t.id with
    | none => some (Function.update ts t.id (some t))
    | some _ => none
  | .adjust id expire =>
    match ts id with
    | none => none
    | some t => if t.expire ≤ expire then some (Function.update ts id (some { t with expire := expire })) else none
  | .del id =>
    match ts id with
    | none => none
    | some _ => some (Function.update ts id none)
  | .timeout cur => some fun id => (ts id).filter fun t => cur < t.expire

/-- What it does to the list. -/
def LinkedTimerList.apply (fuel : Nat) (m : LinkedTimerList) : TimerOp → Option LinkedTimerList
  | .add t => (m.newTimer t.id t.val).addTimer fuel (some t.id)
  | .adjust id expire => (m.setExpire id expire).bind fun m => m.adjustTimer fuel (some id)
  | .del id => m.delTimer (some id)
  | .timeout cur => (m.timeout fuel cur).map Prod.fst

/-- The list `l` has the timers in use, each once, in the order of `expire`. -/
structure Lists (l : SortedTimerList) (ts : TimersInUse) : Prop where
  members : ∀ id t, ts id = some t ↔ t ∈ l ∧ t.id = id
  once : (l.map Timer.id).Nodup
  sorted : l.Sorted

/-- The pointers form one chain of the timers of `l`. -/
structure LinkedTimerList.WellLinked (m : LinkedTimerList) (l : SortedTimerList) : Prop where
  next : Visits m.heap m.head (l.map Timer.id)
  values : ∀ t ∈ l, (m.heap t.id).map Node.val = some t.val
  prev : ∀ t ∈ l, ∀ z, (m.heap t.id).map Node.prev = some (some z) ↔
    ∃ u ∈ l, u.id = z ∧ (m.heap z).map Node.next = some (some t.id)
  prevHead : ∀ x ∈ m.head, (m.heap x).map Node.prev = some none
  tail : l ≠ [] → m.tail = l.getLast?.map Timer.id

private theorem LinkedTimerList.Represents.wellLinked {m : LinkedTimerList} {l : SortedTimerList}
    (h : m.Represents l) :
    m.WellLinked l where
  next := by
    rw [h.head]
    exact h.linked.visits
  values := by
    intro t ht
    obtain ⟨a, b, rfl⟩ := List.append_of_mem ht
    rw [h.linked.node]
    rfl
  prev := fun t ht z => h.linked.prev_iff h.nodup ht
  prevHead := by
    intro x hx
    have hlinked := h.linked
    rw [h.head] at hx
    cases l with
    | nil => cases hx
    | cons t l =>
      cases hx
      rw [hlinked.1]
      rfl
  tail := by
    intro hne
    rw [h.tail hne, last, Option.or_none]

/-! ### One operation -/

private theorem lists_empty : Lists [] fun _ => none := ⟨by simp, List.nodup_nil, List.Pairwise.nil⟩

private theorem Lists.notMem {l : SortedTimerList} {ts : TimersInUse} (h : Lists l ts) {id : Nat}
    (hid : ts id = none) :
    id ∉ l.map Timer.id := by
  intro hm
  obtain ⟨t, ht, rfl⟩ := List.mem_map.1 hm
  rw [(h.members t.id t).2 ⟨ht, rfl⟩] at hid
  cases hid

/-- A timer of the list, and what is before and behind it. -/
private theorem Lists.split {l : SortedTimerList} {ts : TimersInUse} (h : Lists l ts) {id : Nat} {t : Timer}
    (hid : ts id = some t) : t.id = id ∧ ∃ a b, l = a ++ t :: b ∧ t.id ∉ a.map Timer.id ∧ t.id ∉ b.map Timer.id := by
  obtain ⟨ht, hid⟩ := (h.members id t).1 hid
  obtain ⟨a, b, rfl⟩ := List.append_of_mem ht
  have hnd := h.once
  rw [List.map_append, List.map_cons, List.nodup_middle, List.nodup_cons, List.mem_append, not_or] at hnd
  exact ⟨hid, a, b, rfl, hnd.1⟩

private theorem Lists.add {l : SortedTimerList} {ts : TimersInUse} {t : Timer} (h : Lists l ts) (ht : ts t.id = none) :
    Lists (l.addTimer t) (Function.update ts t.id (some t)) where
  members := by
    intro id u
    have hp := SortedTimerList.addTimer_perm t l
    rw [hp.mem_iff, List.mem_cons]
    by_cases hid : id = t.id
    · subst hid
      rw [Function.update_self]
      constructor
      · intro he
        cases he
        exact ⟨Or.inl rfl, rfl⟩
      · rintro ⟨rfl | hu, hid⟩
        · rfl
        · exact absurd (List.mem_map.2 ⟨u, hu, hid⟩) (h.notMem ht)
    · rw [Function.update_of_ne hid, h.members]
      constructor
      · rintro ⟨hu, huid⟩
        exact ⟨Or.inr hu, huid⟩
      · rintro ⟨rfl | hu, huid⟩
        · exact absurd huid.symm hid
        · exact ⟨hu, huid⟩
  once := by
    have hp := (SortedTimerList.addTimer_perm t l).map Timer.id
    exact hp.nodup_iff.2 (List.nodup_cons.2 ⟨h.notMem ht, h.once⟩)
  sorted := h.sorted.addTimer

private theorem Lists.adjust {a b : SortedTimerList} {ts : TimersInUse} {t : Timer} {expire : Nat}
    (h : Lists (a ++ t :: b) ts) (hta : t.id ∉ a.map Timer.id) (htb : t.id ∉ b.map Timer.id)
    (hle : t.expire ≤ expire) :
    Lists (SortedTimerList.adjustTimer t.id (a ++ { t with expire := expire } :: b))
      (Function.update ts t.id (some { t with expire := expire })) where
  members := by
    intro id u
    have hp := SortedTimerList.adjustTimer_perm t.id (a ++ { t with expire := expire } :: b)
    rw [hp.mem_iff, List.mem_append, List.mem_cons]
    by_cases hid : id = t.id
    · subst hid
      rw [Function.update_self]
      constructor
      · intro he
        cases he
        exact ⟨Or.inr (Or.inl rfl), rfl⟩
      · rintro ⟨hu | rfl | hu, hid⟩
        · exact absurd (List.mem_map.2 ⟨u, hu, hid⟩) hta
        · rfl
        · exact absurd (List.mem_map.2 ⟨u, hu, hid⟩) htb
    · rw [Function.update_of_ne hid, h.members, List.mem_append, List.mem_cons]
      constructor
      · rintro ⟨hu | rfl | hu, huid⟩
        · exact ⟨Or.inl hu, huid⟩
        · exact absurd huid.symm hid
        · exact ⟨Or.inr (Or.inr hu), huid⟩
      · rintro ⟨hu | rfl | hu, huid⟩
        · exact ⟨Or.inl hu, huid⟩
        · exact absurd huid.symm hid
        · exact ⟨Or.inr (Or.inr hu), huid⟩
  once := by
    have hp := (SortedTimerList.adjustTimer_perm t.id (a ++ { t with expire := expire } :: b)).map Timer.id
    refine hp.nodup_iff.2 ?_
    have hids : (a ++ { t with expire := expire } :: b).map Timer.id = (a ++ t :: b).map Timer.id := by simp
    rw [hids]
    exact h.once
  sorted := h.sorted.adjustTimer hta hle

private theorem Lists.del {a b : SortedTimerList} {ts : TimersInUse} {t : Timer} (h : Lists (a ++ t :: b) ts)
    (hta : t.id ∉ a.map Timer.id) (htb : t.id ∉ b.map Timer.id) : Lists (a ++ b) (Function.update ts t.id none) where
  members := by
    intro id u
    rw [List.mem_append]
    by_cases hid : id = t.id
    · subst hid
      rw [Function.update_self]
      refine iff_of_false (by simp) ?_
      rintro ⟨hu | hu, hid⟩
      · exact hta (List.mem_map.2 ⟨u, hu, hid⟩)
      · exact htb (List.mem_map.2 ⟨u, hu, hid⟩)
    · rw [Function.update_of_ne hid, h.members, List.mem_append, List.mem_cons]
      constructor
      · rintro ⟨hu | rfl | hu, huid⟩
        · exact ⟨Or.inl hu, huid⟩
        · exact absurd huid.symm hid
        · exact ⟨Or.inr hu, huid⟩
      · rintro ⟨hu | hu, huid⟩
        · exact ⟨Or.inl hu, huid⟩
        · exact ⟨Or.inr (Or.inr hu), huid⟩
  once := by
    have hsub : (a ++ b).Sublist (a ++ t :: b) := by simp
    exact (hsub.map Timer.id).nodup h.once
  sorted := by
    have hsub : (a ++ b).Sublist (a ++ t :: b) := by simp
    exact h.sorted.sublist hsub

/-- In a sorted list the expired timers come first. -/
private theorem SortedTimerList.Sorted.expired {l : SortedTimerList} (h : l.Sorted) (cur : Nat) :
    l.takeWhile (fun t => t.expire ≤ cur) = l.filter (fun t => t.expire ≤ cur) ∧
      l.dropWhile (fun t => t.expire ≤ cur) = l.filter (fun t => cur < t.expire) := by
  induction l with
  | nil => exact ⟨rfl, rfl⟩
  | cons t l ih =>
    obtain ⟨hhead, htail⟩ := List.pairwise_cons.1 h
    by_cases hle : t.expire ≤ cur
    · simp [hle, ih htail, Nat.not_lt.2 hle]
    · have hlt : cur < t.expire := Nat.not_le.1 hle
      have hall : ∀ u ∈ l, cur < u.expire := fun u hu => Nat.lt_of_lt_of_le hlt (hhead u hu)
      have hnone : l.filter (fun t => t.expire ≤ cur) = [] := by
        rw [List.filter_eq_nil_iff]
        intro u hu
        simpa using hall u hu
      have hfull : l.filter (fun t => cur < t.expire) = l := by
        rw [List.filter_eq_self]
        intro u hu
        simpa using hall u hu
      simp [hle, hlt, hnone, hfull]

theorem Lists.timeout {l : SortedTimerList} {ts : TimersInUse} (h : Lists l ts) (cur : Nat) :
    Lists (l.filter fun t => cur < t.expire) fun id => (ts id).filter fun t => cur < t.expire where
  members := by
    intro id u
    rw [Option.filter_eq_some_iff, h.members, List.mem_filter]
    exact and_right_comm
  once := (List.filter_sublist.map Timer.id).nodup h.once
  sorted := h.sorted.sublist List.filter_sublist

/-! ### Runs -/

namespace LinkedTimerList

/-- `timeout` calls the expired timers in the order of the list, and leaves the others. -/
private theorem Represents.timeout_lists {m : LinkedTimerList} {l : SortedTimerList} {ts : TimersInUse} {fuel : Nat}
    (hr : m.Represents l) (h : Lists l ts) (cur : Nat) (hfuel : l.length < fuel) :
    ∃ m', m.timeout fuel cur = some (m', (l.filter fun t => t.expire ≤ cur).map Timer.id) ∧
      m'.Represents (l.filter fun t => cur < t.expire) := by
  obtain ⟨hcalled, hleft⟩ := h.sorted.expired cur
  rw [← hcalled, ← hleft]
  exact hr.timeout cur hfuel

/-- One operation: the pointers represent the new list of the timers in use. -/
private theorem Represents.apply {m : LinkedTimerList} {l : SortedTimerList} {ts ts' : TimersInUse} {op : TimerOp}
    {fuel : Nat} (hr : m.Represents l) (h : Lists l ts) (hfuel : l.length < fuel) (hop : op.inUse ts = some ts') :
    ∃ m' l', m.apply fuel op = some m' ∧ m'.Represents l' ∧ Lists l' ts' ∧ l'.length ≤ l.length + 1 := by
  cases op with
  | add t =>
    simp only [TimerOp.inUse] at hop
    split at hop
    · rename_i ht
      cases hop
      obtain ⟨m', hm', hr'⟩ := hr.addTimer (h.notMem ht) (Nat.le_of_lt hfuel)
      exact ⟨m', _, hm', hr', h.add ht, Nat.le_of_eq (SortedTimerList.addTimer_perm t l).length_eq⟩
    · cases hop
  | adjust id expire =>
    simp only [TimerOp.inUse] at hop
    split at hop
    · cases hop
    · rename_i t ht
      split at hop
      · rename_i hle
        cases hop
        obtain ⟨rfl, a, b, rfl, hta, htb⟩ := h.split ht
        have hlen : b.length ≤ fuel := by
          simp only [List.length_append, List.length_cons] at hfuel
          omega
        obtain ⟨m₁, hm₁, hr₁⟩ := hr.setExpire expire
        obtain ⟨m', hm', hr'⟩ := hr₁.adjustTimer hlen
        refine ⟨m', _, ?_, hr', h.adjust hta htb hle, ?_⟩
        · simp only [LinkedTimerList.apply, hm₁, Option.bind_some]
          exact hm'
        · rw [(SortedTimerList.adjustTimer_perm t.id _).length_eq]
          simp
      · cases hop
  | del id =>
    simp only [TimerOp.inUse] at hop
    split at hop
    · cases hop
    · rename_i t ht
      cases hop
      obtain ⟨rfl, a, b, rfl, hta, htb⟩ := h.split ht
      obtain ⟨m', hm', hr'⟩ := hr.delTimer
      exact ⟨m', _, hm', hr', h.del hta htb, by simp; omega⟩
  | timeout cur =>
    cases hop
    obtain ⟨m', hm', hr'⟩ := hr.timeout_lists h cur hfuel
    refine ⟨m', _, ?_, hr', h.timeout cur, Nat.le_succ_of_le (List.length_filter_le ..)⟩
    simp only [LinkedTimerList.apply, hm', Option.map_some]

theorem represents_run {ops : List TimerOp} {m : LinkedTimerList} {l : SortedTimerList} {ts ts' : TimersInUse}
    {fuel : Nat} (hr : m.Represents l) (h : Lists l ts) (hfuel : l.length + ops.length < fuel)
    (hops : run (fun ts op => TimerOp.inUse ts op) ts ops = some ts') :
    ∃ m' l', run (LinkedTimerList.apply fuel) m ops = some m' ∧ m'.Represents l' ∧ Lists l' ts' ∧
      l'.length < fuel := by
  induction ops generalizing m l ts with
  | nil =>
    cases hops
    exact ⟨m, l, rfl, hr, h, hfuel⟩
  | cons op ops ih =>
    obtain ⟨ts₁, hop, hops⟩ := run_cons hops
    rw [List.length_cons] at hfuel
    have hroom : l.length < fuel := by omega
    obtain ⟨m₁, l₁, hm₁, hr₁, h₁, hlen⟩ := hr.apply h hroom hop
    have hroom₁ : l₁.length + ops.length < fuel := by omega
    obtain ⟨m', l', hm', hrest⟩ := ih hr₁ h₁ hroom₁ hops
    refine ⟨m', l', ?_, hrest⟩
    rw [run, hm₁, Option.bind_some, hm']

/-- After every sequence of operations that are allowed the pointers form one chain of exactly the timers in use, each
once and in the order of `expire`, and `timeout` calls the expired ones in this order and leaves the others. -/
theorem wellLinked_run {ops : List TimerOp} {ts : TimersInUse} {fuel : Nat}
    (hops : run (fun ts op => TimerOp.inUse ts op) (fun _ => none) ops = some ts) (hfuel : ops.length < fuel) :
    ∃ m l, run (LinkedTimerList.apply fuel) empty ops = some m ∧ Lists l ts ∧ m.WellLinked l ∧
      ∀ cur, ∃ m', m.timeout fuel cur = some (m', (l.filter fun t => t.expire ≤ cur).map Timer.id) ∧
        m'.WellLinked (l.filter fun t => cur < t.expire) := by
  obtain ⟨m, l, hm, hr, h, hlen⟩ := represents_run represents_empty lists_empty (by simpa using hfuel) hops
  refine ⟨m, l, hm, h, hr.wellLinked, fun cur => ?_⟩
  obtain ⟨m', hm', hr'⟩ := hr.timeout_lists h cur hlen
  exact ⟨m', hm', hr'.wellLinked⟩

/-- Three timers are added, the first one is used again and moves to the end, and the second one is deleted. -/
def threeTimers : List TimerOp :=
  [.add ⟨0, 19, 15, 0⟩, .add ⟨1, 20, 16, 1⟩, .add ⟨2, 21, 16, 2⟩, .adjust 0 17, .del 1]

theorem wellLinked_run_three :
    ∃ ts, run (fun ts op => TimerOp.inUse ts op) (fun _ => none) threeTimers = some ts ∧
      (ts 0 = some ⟨0, 19, 17, 0⟩ ∧ ts 1 = none ∧ ts 2 = some ⟨2, 21, 16, 2⟩) ∧
      ∃ m l, run (LinkedTimerList.apply 6) empty threeTimers = some m ∧ Lists l ts ∧ m.WellLinked l := by
  have hrun : (run (fun ts op => TimerOp.inUse ts op) (fun _ => none) threeTimers).map
      (fun ts => (ts 0, ts 1, ts 2)) = some (some ⟨0, 19, 17, 0⟩, none, some ⟨2, 21, 16, 2⟩) := by decide
  obtain ⟨ts, hts, hvalues⟩ := Option.map_eq_some_iff.1 hrun
  simp only [Prod.mk.injEq] at hvalues
  obtain ⟨m, l, hm, hl, hw, -⟩ := wellLinked_run hts (by decide : threeTimers.length < 6)
  exact ⟨ts, hts, hvalues, m, l, hm, hl, hw⟩

end LinkedTimerList

end ImageServer
