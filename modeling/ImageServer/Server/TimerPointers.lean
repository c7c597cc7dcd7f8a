import ImageServer.Lib.LinkedList
import ImageServer.Lib.Transition
import ImageServer.Server.TimerList

/-!
# The timer list in memory

`SortedTimerList` as `lst_timer.cpp` has it: nodes with `prev` and `next`, a `head` and a `tail`, and operations that
write one pointer after the other.  An operation has no result when it follows a null or a dangling pointer, or when
its loop is not done after `fuel` iterations.
-/

namespace ImageServer

open LinkedList Transition

/-- What a `Timer` holds besides its two pointers. -/
structure TimerVal where
  data : Nat
  expire : Nat
deriving DecidableEq

def Timer.val (t : Timer) : TimerVal := ⟨t.data, t.expire⟩

/-- The list object, and the timers that are allocated. -/
structure LinkedTimerList where
  heap : Heap TimerVal
  head : Option Nat
  tail : Option Nat

namespace LinkedTimerList

/-- An empty `SortedTimerList`. -/
def empty : LinkedTimerList := { heap := fun _ => none, head := none, tail := none }

/-- `new Timer` at the address `x`. -/
def newTimer (m : LinkedTimerList) (x : Nat) (v : TimerVal) : LinkedTimerList :=
  { m with heap := Function.update m.heap x (some ⟨v, none, none⟩) }

/-- The assignment to `expire`. -/
def setExpire (m : LinkedTimerList) (x expire : Nat) : Option LinkedTimerList :=
  (m.heap.modify x fun n => { n with val := { n.val with expire := expire } }).map fun heap => { m with heap := heap }

/-- The loop of `_add_timer` and what follows it. -/
def addLoop (timer : Nat) : Nat → LinkedTimerList → Nat → Option Nat → Option LinkedTimerList
  | 0, _, _, _ => none
  | _ + 1, m, prev, none => do
    let heap ← m.heap.setNext prev (some timer)
    let heap ← heap.setPrev timer (some prev)
    let heap ← heap.setNext timer none
    return { m with heap := heap, tail := some timer }
  | fuel + 1, m, prev, some tmp => do
    let t ← m.heap timer
    let n ← m.heap tmp
    if t.val.expire < n.val.expire then
      let heap ← m.heap.setNext prev (some timer)
      let heap ← heap.setNext timer (some tmp)
      let heap ← heap.setPrev tmp (some timer)
      let heap ← heap.setPrev timer (some prev)
      return { m with heap := heap }
    else addLoop timer fuel m tmp n.next

/-- `_add_timer`. -/
def addTimer_ (fuel : Nat) (m : LinkedTimerList) (timer lstHead : Nat) : Option LinkedTimerList := do
  let n ← m.heap lstHead
  addLoop timer fuel m lstHead n.next

/-- `add_timer`. -/
def addTimer (fuel : Nat) (m : LinkedTimerList) : Option Nat → Option LinkedTimerList
  | none => some m
  | some timer =>
    match m.head with
    | none => some { m with head := some timer, tail := some timer }
    | some head => do
      let t ← m.heap timer
      let n ← m.heap head
      if t.val.expire < n.val.expire then
        let heap ← m.heap.setNext timer (some head)
        let heap ← heap.setPrev head (some timer)
        return { m with heap := heap, head := some timer }
      else addTimer_ fuel m timer head

/-- `adjust_timer`. -/
def adjustTimer (fuel : Nat) (m : LinkedTimerList) : Option Nat → Option LinkedTimerList
  | none => some m
  | some timer => do
    let t ← m.heap timer
    match t.next with
    | none => return m
    | some tmp =>
      let n ← m.heap tmp
      if t.val.expire < n.val.expire then return m
      else if m.head = some timer then
        -- `head->next` is `tmp`
        let heap ← m.heap.setPrev tmp none
        let heap ← heap.setNext timer none
        addTimer_ fuel { m with heap := heap, head := some tmp } timer tmp
      else
        let prev ← t.prev
        let heap ← m.heap.setNext prev (some tmp)
        let t ← heap timer
        let next ← t.next
        let heap ← heap.setPrev next t.prev
        addTimer_ fuel { m with heap := heap } timer next

/-- `del_timer`. -/
def delTimer (m : LinkedTimerList) : Option Nat → Option LinkedTimerList
  | none => some m
  | some timer =>
    if m.head = some timer ∧ m.tail = some timer then do
      let heap ← m.heap.free timer
      return { m with heap := heap, head := none, tail := none }
    else if m.head = some timer then do
      let t ← m.heap timer
      let head ← t.next
      let heap ← m.heap.setPrev head none
      let heap ← heap.free timer
      return { m with heap := heap, head := some head }
    else if m.tail = some timer then do
      let t ← m.heap timer
      let tail ← t.prev
      let heap ← m.heap.setNext tail none
      let heap ← heap.free timer
      return { m with heap := heap, tail := some tail }
    else do
      let t ← m.heap timer
      let prev ← t.prev
      let heap ← m.heap.setNext prev t.next
      let t ← heap timer
      let next ← t.next
      let heap ← heap.setPrev next t.prev
      let heap ← heap.free timer
      return { m with heap := heap }

/-- The loop of `timeout` at the clock `cur`, with the timers whose `cb_func` it calls. -/
def timeoutLoop (cur : Nat) : Nat → LinkedTimerList → Option Nat → Option (LinkedTimerList × List Nat)
  | 0, _, _ => none
  | _ + 1, m, none => some (m, [])
  | fuel + 1, m, some tmp => do
    let t ← m.heap tmp
    if cur < t.val.expire then return (m, [])
    else
      let heap ← match t.next with
        | none => some m.heap
        | some head => m.heap.setPrev head none
      let heap ← heap.free tmp
      let (m, called) ← timeoutLoop cur fuel { m with heap := heap, head := t.next } t.next
      return (m, tmp :: called)

/-- `timeout`. -/
def timeout (fuel : Nat) (m : LinkedTimerList) (cur : Nat) : Option (LinkedTimerList × List Nat) :=
  timeoutLoop cur fuel m m.head

/-! ### What the pointers represent -/

/-- The nodes are those of `l`, linked in this order. -/
structure Represents (m : LinkedTimerList) (l : SortedTimerList) : Prop where
  linked : Segment Timer.id Timer.val m.heap none l none
  head : m.head = first Timer.id l none
  tail : l ≠ [] → m.tail = last Timer.id none l
  nodup : (l.map Timer.id).Nodup

/-- The list with a new node: linked, and with its two ends, but for the addresses. -/
private theorem Represents.of_perm {m m' : LinkedTimerList} {l l' : SortedTimerList} {t : Timer} (h : Represents m l)
    (ht : t.id ∉ l.map Timer.id) (hp : l'.Perm (t :: l)) (hlinked : Segment Timer.id Timer.val m'.heap none l' none)
    (hhead : m'.head = first Timer.id l' none) (htail : m'.tail = last Timer.id none l') : Represents m' l' where
  linked := hlinked
  head := hhead
  tail := fun _ => htail
  nodup := (hp.map Timer.id).nodup_iff.2 (List.nodup_cons.2 ⟨ht, h.nodup⟩)

/-- The node `t`, outside of the list, is linked in between `p` and what follows it. -/
private theorem Represents.linkAfter {m : LinkedTimerList} {a rest : SortedTimerList} {p t : Timer} {n : Node TimerVal}
    (h : Represents m (a ++ p :: rest)) (ht : t.id ∉ (a ++ p :: rest).map Timer.id) (hn : m.heap t.id = some n)
    (hval : n.val = t.val) (fuel : Nat) (hlt : ∀ y ∈ rest.head?, t.expire < y.expire) :
    ∃ m', addLoop t.id (fuel + 1) m p.id (first Timer.id rest none) = some m' ∧
      Represents m' (a ++ p :: t :: rest) := by
  have hsplit : a ++ p :: rest = (a ++ [p]) ++ rest := by simp
  have hsplit' : a ++ p :: t :: rest = (a ++ [p]) ++ t :: rest := by simp
  have hperm : (a ++ p :: t :: rest).Perm (t :: (a ++ p :: rest)) := by
    rw [hsplit, hsplit']
    exact List.perm_middle
  have htail := h.tail (by simp)
  have hs := h.linked
  have hnd := h.nodup
  rw [hsplit, List.map_append, List.nodup_append] at hnd
  rw [hsplit, segment_append, last_concat] at hs
  have htnot := ht
  rw [hsplit, List.map_append, List.mem_append, not_or] at htnot
  obtain ⟨hnda, hndr, hdisj⟩ := hnd
  obtain ⟨hsa, hsb⟩ := hs
  obtain ⟨hta, htr⟩ := htnot
  have hpa : p.id ∉ a.map Timer.id := by
    rw [List.map_append, List.nodup_append] at hnda
    exact fun hm => hnda.2.2 _ hm p.id (by simp) rfl
  have htp : t.id ≠ p.id := fun he => hta (by simp [he])
  -- `prev->next = timer`
  obtain ⟨h₁, hw₁, hs₁, hf₁⟩ := hsa.setNext_last hpa (some t.id)
  have hn₁ : h₁ t.id = some n := (hf₁ _ htp).trans hn
  cases rest with
  | nil =>
    obtain ⟨h₂, hw₂, hn₂, hf₂⟩ := Heap.setPrev_spec hn₁ (some p.id)
    obtain ⟨h₃, hw₃, hn₃, hf₃⟩ := Heap.setNext_spec hn₂ none
    refine ⟨{ m with heap := h₃, tail := some t.id }, ?_, h.of_perm ht hperm ?_ ?_ ?_⟩
    · simp [addLoop, hw₁, hw₂, hw₃]
    · rw [hsplit', segment_append, last_concat]
      refine ⟨(hs₁.frame hf₂ hta).frame hf₃ hta, ?_, True.intro⟩
      show h₃ t.id = _
      rw [hn₃, hval]
      rfl
    · rw [h.head, first_append, first_append]
      rfl
    · rw [hsplit', last_concat]
  | cons y rest =>
    have hyr : y.id ∉ rest.map Timer.id := (List.nodup_cons.1 hndr).1
    have hya : y.id ∉ (a ++ [p]).map Timer.id := fun hm => hdisj _ hm y.id (by simp) rfl
    have hpr : p.id ∉ (y :: rest).map Timer.id := fun hm => hdisj p.id (by simp) _ hm rfl
    have hty : t.id ≠ y.id := fun he => htr (by simp [he])
    have hless : t.expire < y.expire := hlt y rfl
    have hy : m.heap y.id = some ⟨y.val, some p.id, first Timer.id rest none⟩ := hsb.1
    have hs₂ := hsb.frame hf₁ hpr
    obtain ⟨h₂, hw₂, hn₂, hf₂⟩ := Heap.setNext_spec hn₁ (some y.id)
    obtain ⟨h₃, hw₃, hs₃, hf₃⟩ := (hs₂.frame hf₂ htr).setPrev_first hyr (some t.id)
    obtain ⟨h₄, hw₄, hn₄, hf₄⟩ := Heap.setPrev_spec ((hf₃ _ hty).trans hn₂) (some p.id)
    refine ⟨{ m with heap := h₄ }, ?_, h.of_perm ht hperm ?_ ?_ ?_⟩
    · have hexp : n.val.expire < y.val.expire := by
        rw [hval]
        exact hless
      simp [addLoop, hn, hy, hexp, hw₁, hw₂, hw₃, hw₄]
    · rw [hsplit', segment_append, last_concat]
      refine ⟨((hs₁.frame hf₂ hta).frame hf₃ hya).frame hf₄ hta, ?_, hs₃.frame hf₄ htr⟩
      show h₄ t.id = _
      rw [hn₄, hval]
      rfl
    · rw [h.head, first_append, first_append]
      rfl
    · show m.tail = _
      rw [htail, last_append_cons, last_append_cons, last_cons, last_cons, last_cons]

/-- The loop of `_add_timer`. -/
private theorem Represents.addLoop {m : LinkedTimerList} {a rest : SortedTimerList} {p t : Timer} {n : Node TimerVal}
    (h : Represents m (a ++ p :: rest)) (ht : t.id ∉ (a ++ p :: rest).map Timer.id) (hn : m.heap t.id = some n)
    (hval : n.val = t.val) {fuel : Nat} (hfuel : rest.length < fuel) :
    ∃ m', LinkedTimerList.addLoop t.id fuel m p.id (first Timer.id rest none) = some m' ∧
      Represents m' (a ++ p :: rest.addAfter t) := by
  induction rest generalizing a p fuel with
  | nil =>
    obtain ⟨fuel, rfl⟩ := Nat.exists_eq_add_of_lt hfuel
    exact h.linkAfter ht hn hval _ (by simp)
  | cons y rest ih =>
    obtain ⟨fuel, rfl⟩ : ∃ k, fuel = k + 1 := ⟨fuel - 1, by omega⟩
    by_cases hlt : t.expire < y.expire
    · rw [SortedTimerList.addAfter, if_pos hlt]
      exact h.linkAfter ht hn hval fuel (by simpa using hlt)
    · have hsplit : ∀ l : SortedTimerList, a ++ p :: y :: l = (a ++ [p]) ++ y :: l := by simp
      have hy : m.heap y.id = some ⟨y.val, some p.id, first Timer.id rest none⟩ := by
        have hs := h.linked
        rw [hsplit] at hs
        rw [hs.node, last_concat]
      rw [hsplit] at h ht
      obtain ⟨m', hm', hr⟩ := ih h ht (Nat.lt_of_succ_lt_succ hfuel)
      refine ⟨m', ?_, ?_⟩
      · have hexp : ¬ n.val.expire < y.val.expire := by
          rw [hval]
          exact hlt
        simp [LinkedTimerList.addLoop, hn, hy, hexp, hm']
      · rw [SortedTimerList.addAfter, if_neg hlt, hsplit]
        exact hr

/-! ### `add_timer` -/

theorem represents_empty : Represents empty [] where
  linked := True.intro
  head := rfl
  tail := fun h => absurd rfl h
  nodup := List.nodup_nil

/-- A write outside of the list. -/
private theorem Represents.frame {m : LinkedTimerList} {l : SortedTimerList} (h : Represents m l)
    {heap : Heap TimerVal} {x : Nat} (hf : ∀ z ≠ x, heap z = m.heap z) (hx : x ∉ l.map Timer.id) :
    Represents { m with heap := heap } l where
  linked := h.linked.frame hf hx
  head := h.head
  tail := h.tail
  nodup := h.nodup

/-- `new Timer`, and `add_timer` on it. -/
theorem Represents.addTimer {m : LinkedTimerList} {l : SortedTimerList} {t : Timer} (h : Represents m l)
    (ht : t.id ∉ l.map Timer.id) {fuel : Nat} (hfuel : l.length ≤ fuel) :
    ∃ m', (m.newTimer t.id t.val).addTimer fuel (some t.id) = some m' ∧ Represents m' (l.addTimer t) := by
  have hnode : (m.newTimer t.id t.val).heap t.id = some ⟨t.val, none, none⟩ := Function.update_self ..
  have h : Represents (m.newTimer t.id t.val) l := h.frame (fun z hz => Function.update_of_ne hz ..) ht
  have hhead := h.head
  cases l with
  | nil =>
    refine ⟨{ m.newTimer t.id t.val with head := some t.id, tail := some t.id }, ?_, ⟨hnode, True.intro⟩, rfl,
      fun _ => rfl, by simp [SortedTimerList.addTimer]⟩
    rw [first_nil] at hhead
    simp [LinkedTimerList.addTimer, hhead]
  | cons y rest =>
    rw [first_cons] at hhead
    have hy := h.linked.1
    by_cases hlt : t.expire < y.expire
    · have hnd := h.nodup
      rw [List.map_cons, List.nodup_cons] at hnd
      have hty : t.id ≠ y.id := fun he => ht (by simp [he])
      obtain ⟨h₁, hw₁, hn₁, hf₁⟩ := Heap.setNext_spec hnode (some y.id)
      obtain ⟨h₂, hw₂, hs₂, hf₂⟩ := (h.linked.frame hf₁ ht).setPrev_first hnd.1 (some t.id)
      refine ⟨{ m.newTimer t.id t.val with heap := h₂, head := some t.id }, ?_, ?_⟩
      · have hexp : t.val.expire < y.val.expire := hlt
        simp [LinkedTimerList.addTimer, hhead, hnode, hy, hexp, hw₁, hw₂]
      · rw [SortedTimerList.addTimer, if_pos hlt]
        refine h.of_perm ht (List.Perm.refl _) ⟨(hf₂ _ hty).trans hn₁, hs₂⟩ rfl ?_
        show (m.newTimer t.id t.val).tail = _
        rw [h.tail (by simp), last_cons, last_cons, last_cons]
    · have hroom := Nat.lt_of_lt_of_le (Nat.lt_succ_self _) hfuel
      obtain ⟨m', hm', hr⟩ := Represents.addLoop (a := []) h ht hnode rfl hroom
      refine ⟨m', ?_, ?_⟩
      · have hexp : ¬ t.val.expire < y.val.expire := hlt
        simp [LinkedTimerList.addTimer, hhead, hnode, hy, hexp, addTimer_, hm']
      · rw [SortedTimerList.addTimer, if_neg hlt]
        exact hr

/-! ### Taking a node out -/

/-- The first node is taken out: the second one has no predecessor any more. -/
private theorem Represents.dropHead {m : LinkedTimerList} {t y : Timer} {rest : SortedTimerList}
    (h : Represents m (t :: y :: rest)) :
    ∃ heap, m.heap.setPrev y.id none = some heap ∧ heap t.id = some ⟨t.val, none, some y.id⟩ ∧
      Represents { m with heap := heap, head := some y.id } (y :: rest) := by
  have hnd := h.nodup
  simp only [List.map_cons, List.nodup_cons, List.mem_cons, not_or] at hnd
  obtain ⟨heap, hw, hs, hf⟩ := h.linked.2.setPrev_first hnd.2.1 none
  refine ⟨heap, hw, (hf _ hnd.1.1).trans h.linked.1, hs, rfl, fun _ => ?_, ?_⟩
  · show m.tail = _
    rw [h.tail (by simp), last_cons, last_cons, last_cons]
  · rw [List.map_cons, List.nodup_cons]
    exact hnd.2

/-- A node in the middle is taken out: its neighbours are linked to each other. -/
private theorem Represents.unlink {m : LinkedTimerList} {a rest : SortedTimerList} {p t y : Timer}
    (h : Represents m (a ++ p :: t :: y :: rest)) :
    ∃ h₁ h₂, m.heap.setNext p.id (some y.id) = some h₁ ∧ h₁ t.id = some ⟨t.val, some p.id, some y.id⟩ ∧
      h₁.setPrev y.id (some p.id) = some h₂ ∧ h₂ t.id = some ⟨t.val, some p.id, some y.id⟩ ∧
      Represents { m with heap := h₂ } (a ++ p :: y :: rest) := by
  have hsplit : a ++ p :: t :: y :: rest = (a ++ [p]) ++ t :: y :: rest := by simp
  have hsplit' : a ++ p :: y :: rest = (a ++ [p]) ++ y :: rest := by simp
  have hnd := h.nodup
  have hs := h.linked
  rw [hsplit, List.map_append, List.nodup_append] at hnd
  rw [hsplit, segment_append, last_concat] at hs
  obtain ⟨hnda, hndr, hdisj⟩ := hnd
  obtain ⟨hsa, hst, hsb⟩ := hs
  have hpa : p.id ∉ a.map Timer.id := by
    rw [List.map_append, List.nodup_append] at hnda
    exact fun hm => hnda.2.2 _ hm p.id (by simp) rfl
  simp only [List.map_cons, List.nodup_cons, List.mem_cons, not_or] at hndr
  have htp : t.id ≠ p.id := fun he => hdisj p.id (by simp) t.id (by simp) he.symm
  have hpr : p.id ∉ (y :: rest).map Timer.id := fun hm => hdisj p.id (by simp) _ (List.mem_cons_of_mem _ hm) rfl
  have hya : y.id ∉ (a ++ [p]).map Timer.id := fun hm => hdisj _ hm y.id (by simp) rfl
  obtain ⟨h₁, hw₁, hs₁, hf₁⟩ := hsa.setNext_last hpa (some y.id)
  obtain ⟨h₂, hw₂, hs₂, hf₂⟩ := (hsb.frame hf₁ hpr).setPrev_first hndr.2.1 (some p.id)
  have ht₁ : h₁ t.id = some ⟨t.val, some p.id, some y.id⟩ := (hf₁ _ htp).trans hst
  refine ⟨h₁, h₂, hw₁, ht₁, hw₂, (hf₂ _ hndr.1.1).trans ht₁, ?_, ?_, ?_, ?_⟩
  · rw [hsplit', segment_append, last_concat]
    exact ⟨hs₁.frame hf₂ hya, hs₂⟩
  · show m.head = _
    rw [h.head, first_append, first_append]
    rfl
  · intro _
    show m.tail = _
    rw [h.tail (by simp), last_append_cons, last_append_cons, last_cons, last_cons, last_cons]
  · have hsub : (a ++ p :: y :: rest).Sublist (a ++ p :: t :: y :: rest) := by simp
    exact (hsub.map Timer.id).nodup h.nodup

/-- A node outside of the list is deleted. -/
private theorem Represents.free {m : LinkedTimerList} {l : SortedTimerList} (h : Represents m l) {x : Nat}
    {n : Node TimerVal} (hn : m.heap x = some n) (hx : x ∉ l.map Timer.id) :
    ∃ heap, m.heap.free x = some heap ∧ Represents { m with heap := heap } l := by
  obtain ⟨heap, hw, -, hf⟩ := Heap.free_spec hn
  exact ⟨heap, hw, h.frame hf hx⟩

/-! ### `adjust_timer` -/

/-- The assignment to `expire` of a timer of the list. -/
theorem Represents.setExpire {m : LinkedTimerList} {a b : SortedTimerList} {t : Timer} (h : Represents m (a ++ t :: b))
    (expire : Nat) :
    ∃ m', m.setExpire t.id expire = some m' ∧ Represents m' (a ++ { t with expire := expire } :: b) := by
  have hnd := h.nodup
  rw [List.map_append, List.map_cons, List.nodup_middle, List.nodup_cons, List.mem_append, not_or] at hnd
  have hids : (a ++ { t with expire := expire } :: b).map Timer.id = (a ++ t :: b).map Timer.id := by simp
  obtain ⟨heap, hw, hs⟩ := h.linked.setVal (y := { t with expire := expire })
    (f := fun n => { n with val := { n.val with expire := expire } }) hnd.1 rfl fun _ _ => rfl
  refine ⟨{ m with heap := heap }, by simp [LinkedTimerList.setExpire, hw], hs, ?_, fun _ => ?_, ?_⟩
  · show m.head = _
    rw [h.head, first_append, first_append]
    rfl
  · show m.tail = _
    rw [h.tail (by simp), last_append_cons, last_append_cons]
  · rw [hids]
    exact h.nodup

/-- `adjust_timer` on a timer of the list. -/
theorem Represents.adjustTimer {m : LinkedTimerList} {a b : SortedTimerList} {t : Timer}
    (h : Represents m (a ++ t :: b)) {fuel : Nat} (hfuel : b.length ≤ fuel) :
    ∃ m', m.adjustTimer fuel (some t.id) = some m' ∧
      Represents m' (SortedTimerList.adjustTimer t.id (a ++ t :: b)) := by
  have hnd := h.nodup
  rw [List.map_append, List.map_cons, List.nodup_middle, List.nodup_cons, List.mem_append, not_or] at hnd
  obtain ⟨⟨hta, htb⟩, -⟩ := hnd
  have hnode := h.linked.node
  rw [SortedTimerList.adjustTimer_append hta]
  cases b with
  | nil => exact ⟨m, by simp [LinkedTimerList.adjustTimer, hnode], h⟩
  | cons y b =>
    have hy : m.heap y.id = some ⟨y.val, some t.id, first Timer.id b none⟩ := by
      have hs := h.linked
      rw [segment_append] at hs
      exact hs.2.2.1
    by_cases hlt : t.expire < y.expire
    · refine ⟨m, ?_, ?_⟩
      · have hexp : t.val.expire < y.val.expire := hlt
        simp [LinkedTimerList.adjustTimer, hnode, hy, hexp]
      · rw [SortedTimerList.adjustTimer, if_pos rfl, if_pos hlt]
        exact h
    · have hexp : ¬ t.val.expire < y.val.expire := hlt
      rw [SortedTimerList.adjustTimer, if_pos rfl, if_neg hlt]
      rcases List.eq_nil_or_concat a with rfl | ⟨a, p, rfl⟩
      · -- the first timer
        obtain ⟨h₁, hw₁, hn₁, hr⟩ := Represents.dropHead h
        obtain ⟨h₂, hw₂, hn₂, hf₂⟩ := Heap.setNext_spec hn₁ none
        have hr := hr.frame hf₂ htb
        obtain ⟨m', hm', hr'⟩ := Represents.addLoop (a := []) hr htb hn₂ rfl hfuel
        refine ⟨m', ?_, hr'⟩
        have hhead := h.head
        have hy₂ : h₂ y.id = some ⟨y.val, none, first Timer.id b none⟩ := hr.linked.1
        rw [List.nil_append, first_cons] at hhead
        simp [LinkedTimerList.adjustTimer, hnode, hy, hexp, hhead, hw₁, hw₂, addTimer_, hy₂, hm']
      · -- a timer in the middle
        have hsplit : ∀ l : SortedTimerList, a.concat p ++ l = a ++ p :: l := by simp
        rw [hsplit] at h
        obtain ⟨h₁, h₂, hw₁, hn₁, hw₂, hn₂, hr⟩ := h.unlink
        have hnot : t.id ∉ (a.concat p ++ y :: b).map Timer.id := by
          rw [List.map_append, List.mem_append, not_or]
          exact ⟨hta, htb⟩
        have hhead : m.head ≠ some t.id := by
          rw [h.head, first_append, first_cons]
          intro hf
          have hmem : first Timer.id (a.concat p) none = some t.id := by
            rw [List.concat_eq_append, first_append]
            exact hf
          exact hta (mem_of_first hmem)
        rw [← hsplit] at hr
        have hnode : m.heap t.id = some ⟨t.val, some p.id, some y.id⟩ := by simpa using hnode
        have hy₂ : h₂ y.id = some ⟨y.val, some p.id, first Timer.id b none⟩ := by simpa using hr.linked.node
        obtain ⟨m', hm', hr'⟩ := hr.addLoop hnot hn₂ rfl hfuel
        refine ⟨m', ?_, hr'⟩
        simp [LinkedTimerList.adjustTimer, hnode, hy, hexp, hhead, hw₁, hn₁, hw₂, addTimer_, hy₂, hm']

/-! ### `del_timer` and `timeout` -/

/-- `del_timer` on a timer of the list. -/
theorem Represents.delTimer {m : LinkedTimerList} {a b : SortedTimerList} {t : Timer}
    (h : Represents m (a ++ t :: b)) :
    ∃ m', m.delTimer (some t.id) = some m' ∧ Represents m' (a ++ b) := by
  have hnd := h.nodup
  rw [List.map_append, List.map_cons, List.nodup_middle, List.nodup_cons, List.mem_append, not_or] at hnd
  obtain ⟨⟨hta, htb⟩, -⟩ := hnd
  have hnode := h.linked.node
  have hhead := h.head
  have htail := h.tail (by simp)
  rw [first_append, first_cons] at hhead
  rw [last_append_cons] at htail
  rcases List.eq_nil_or_concat a with rfl | ⟨a, p, rfl⟩
  · cases b with
    | nil =>
      -- the only timer
      obtain ⟨heap, hw, -, hf⟩ := Heap.free_spec hnode
      refine ⟨{ m with heap := heap, head := none, tail := none }, ?_, True.intro, rfl, fun hne => absurd rfl hne,
        List.nodup_nil⟩
      rw [first_nil] at hhead
      rw [last_nil] at htail
      simp [LinkedTimerList.delTimer, hhead, htail, hw]
    | cons y b =>
      have hne : m.tail ≠ some t.id := by
        rw [htail, last_cons, ← last_cons (p := none)]
        exact fun hl => htb (mem_of_last hl)
      obtain ⟨h₁, hw₁, hn₁, hr⟩ := Represents.dropHead h
      obtain ⟨h₂, hw₂, hr⟩ := hr.free hn₁ htb
      refine ⟨_, ?_, hr⟩
      rw [first_nil] at hhead
      simp [LinkedTimerList.delTimer, hhead, hne, hnode, hw₁, hw₂]
  · have hsplit : ∀ l : SortedTimerList, a.concat p ++ l = a ++ p :: l := by simp
    have hne : m.head ≠ some t.id := by
      rw [hhead, List.concat_eq_append, first_append, first_cons]
      intro hf
      have hmem : first Timer.id (a.concat p) none = some t.id := by
        rw [List.concat_eq_append, first_append]
        exact hf
      exact hta (mem_of_first hmem)
    have hnode : m.heap t.id = some ⟨t.val, some p.id, first Timer.id b none⟩ := by simpa using hnode
    cases b with
    | nil =>
      have hpa : p.id ∉ a.map Timer.id := by
        have hnd := h.nodup
        rw [hsplit, List.map_append, List.map_cons, List.nodup_middle, List.nodup_cons] at hnd
        exact fun hm => hnd.1 (List.mem_append_left _ hm)
      have hs := h.linked
      rw [segment_append, List.concat_eq_append] at hs
      obtain ⟨h₁, hw₁, hs₁, hf₁⟩ := hs.1.setNext_last hpa none
      have htp : t.id ≠ p.id := fun he => hta (by simp [he])
      obtain ⟨h₂, hw₂, -, hf₂⟩ := Heap.free_spec ((hf₁ _ htp).trans hnode)
      refine ⟨{ m with heap := h₂, tail := some p.id }, ?_, ?_, ?_, fun _ => ?_, ?_⟩
      · rw [last_nil] at htail
        simp [LinkedTimerList.delTimer, hne, htail, hnode, hw₁, hw₂]
      · rw [List.append_nil, List.concat_eq_append]
        exact hs₁.frame hf₂ (by simpa using hta)
      · show m.head = _
        rw [hhead, List.append_nil, List.concat_eq_append, first_append, first_append]
        rfl
      · rw [List.append_nil, List.concat_eq_append, last_concat]
      · have hsub : (a.concat p ++ []).Sublist (a.concat p ++ [t]) := (List.Sublist.refl _).append (by simp)
        exact (hsub.map Timer.id).nodup h.nodup
    | cons y b =>
      have hne' : m.tail ≠ some t.id := by
        rw [htail, last_cons, ← last_cons (p := none)]
        exact fun hl => htb (mem_of_last hl)
      rw [hsplit] at h ⊢
      obtain ⟨h₁, h₂, hw₁, hn₁, hw₂, hn₂, hr⟩ := h.unlink
      have hnot : t.id ∉ (a ++ p :: y :: b).map Timer.id := by
        rw [← hsplit, List.map_append, List.mem_append, not_or]
        exact ⟨hta, htb⟩
      obtain ⟨h₃, hw₃, hr⟩ := hr.free hn₂ hnot
      refine ⟨_, ?_, hr⟩
      simp [LinkedTimerList.delTimer, hne, hne', hnode, hw₁, hn₁, hw₂, hw₃]

/-- The loop of `timeout` calls the expired timers in their order, and deletes them. -/
theorem Represents.timeout {m : LinkedTimerList} {l : SortedTimerList} (h : Represents m l) (cur : Nat) {fuel : Nat}
    (hfuel : l.length < fuel) :
    ∃ m', m.timeout fuel cur = some (m', (l.takeWhile fun t => t.expire ≤ cur).map Timer.id) ∧
      Represents m' (l.dropWhile fun t => t.expire ≤ cur) := by
  unfold LinkedTimerList.timeout
  rw [h.head]
  induction l generalizing m fuel with
  | nil =>
    obtain ⟨fuel, rfl⟩ := Nat.exists_eq_add_of_lt hfuel
    exact ⟨m, rfl, h⟩
  | cons t rest ih =>
    obtain ⟨fuel, rfl⟩ : ∃ k, fuel = k + 1 := ⟨fuel - 1, by omega⟩
    have hnode := h.linked.1
    by_cases hlt : cur < t.expire
    · rw [List.takeWhile_cons_of_neg (by simpa using hlt), List.dropWhile_cons_of_neg (by simpa using hlt)]
      refine ⟨m, ?_, h⟩
      have hexp : cur < t.val.expire := hlt
      simp [timeoutLoop, hnode, hexp]
    · have hge : t.expire ≤ cur := Nat.not_lt.1 hlt
      have hexp : ¬ cur < t.val.expire := hlt
      rw [List.takeWhile_cons_of_pos (by simpa using hge), List.dropWhile_cons_of_pos (by simpa using hge)]
      cases rest with
      | nil =>
        obtain ⟨heap, hw, -, hf⟩ := Heap.free_spec hnode
        obtain ⟨fuel, rfl⟩ : ∃ k, fuel = k + 1 := ⟨fuel - 1, by simp at hfuel; omega⟩
        refine ⟨{ m with heap := heap, head := none }, ?_, True.intro, rfl, fun hne => absurd rfl hne, List.nodup_nil⟩
        simp [timeoutLoop, hnode, hexp, hw]
      | cons y rest =>
        have hnd := h.nodup
        rw [List.map_cons, List.nodup_cons] at hnd
        obtain ⟨h₁, hw₁, hn₁, hr⟩ := h.dropHead
        obtain ⟨h₂, hw₂, hr⟩ := hr.free hn₁ hnd.1
        obtain ⟨m', hm', hr'⟩ := ih hr (Nat.lt_of_succ_lt_succ hfuel)
        refine ⟨m', ?_, hr'⟩
        rw [first_cons] at hm'
        dsimp only at hm' hw₂
        simp [timeoutLoop, hnode, hexp, hw₁, hw₂, hm']

end LinkedTimerList

end ImageServer
