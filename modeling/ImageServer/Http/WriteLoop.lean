import ImageServer.Http.Delivery

/-!
# Progress of the loop that sends

The loop of `write_to_fd_`, by the number of bytes it offers and the counters alone, whatever the addresses in `m_iv`
are.  It goes round without progress when its write call returns 0, and on a page whose iovec has been emptied by
`EAGAIN`, where there is nothing left to offer and still something to send.  `progresses_iff` says that it makes
progress in all other runs.
-/

namespace ImageServer

open CLib Transition Writer

/-- The number of bytes offered to the write call. -/
def HttpHandler.offeredLen (h : HttpHandler) : Int :=
  (if 0 < h.ivCount then h.iv0.len else 0) + (if 1 < h.ivCount then h.iv1.len else 0)

/-- What `writev` and `SSL_writev` can return. -/
def HttpHandler.Returns (h : HttpHandler) : WriteResult → Prop
  | .count n => 0 < n ∧ n ≤ h.offeredLen
  -- nothing is offered, or `SSL_write` fails
  | .zero => h.offeredLen = 0 ∨ h.type ≠ .httpClient
  | .again | .fail => True

instance (h : HttpHandler) : ∀ r, Decidable (h.Returns r)
  | .count _ => instDecidableAnd
  | .zero => instDecidableOr
  | .again | .fail => .isTrue True.intro

/-- Neither is 0 returned, nor is the iovec of a page emptied by `EAGAIN`. -/
def HttpHandler.Unhindered (h : HttpHandler) : WriteResult → Prop
  | .zero => False
  | .again => h.ivCount = 2 ∨ h.bytesHaveSend < h.iv0.len
  | .count _ | .fail => True

instance (h : HttpHandler) : ∀ r, Decidable (h.Unhindered r)
  | .zero => .isFalse id
  | .again => instDecidableOr
  | .count _ | .fail => .isTrue True.intro

namespace WriteNext

/-- One iteration. -/
def step (s : WriteNext) (r : WriteResult) : Option WriteNext :=
  match s with
  | .again h newadd => if h.Returns r then some (h.writeStep newadd r) else none
  | .finished _ | .closing _ => none

/-- What is so as long as the loop is not left. -/
def During (p : HttpHandler → Prop) : WriteNext → Prop
  | .again h _ => p h
  | .finished _ | .closing _ => True

def Unhindered (s : WriteNext) (r : WriteResult) : Prop := s.During fun h => h.Unhindered r

instance (r : WriteResult) : ∀ s : WriteNext, Decidable (s.Unhindered r)
  | .again h _ => inferInstanceAs (Decidable (h.Unhindered r))
  | .finished _ | .closing _ => .isTrue True.intro

/-- Something is offered as long as there is something to send. -/
def Offers (s : WriteNext) : Prop := s.During fun h => 0 < h.bytesToSend → 0 < h.offeredLen

/-- An iteration whose result is not `EAGAIN` leaves the loop or leaves less to send. -/
def Decreases (s : WriteNext) (r : WriteResult) : Prop :=
  r ≠ .again → s.During fun h => ∀ s', s.step r = some s' → s'.During fun h' => h'.bytesToSend < h.bytesToSend

private theorem step_again {s s' : WriteNext} {r : WriteResult} (h : s.step r = some s') :
    ∃ h₁ newadd, s = .again h₁ newadd ∧ h₁.Returns r ∧ s' = h₁.writeStep newadd r := by
  cases s with
  | again h₁ newadd =>
    unfold step at h
    dsimp only at h
    split at h
    · rename_i hr
      cases h
      exact ⟨h₁, newadd, rfl, hr, rfl⟩
    · cases h
  | finished h₁ => cases h
  | closing h₁ => cases h

end WriteNext

open WriteNext in
/-- The loop makes progress in the run with the results `rs`. -/
structure Progresses (h : HttpHandler) (rs : List WriteResult) : Prop where
  decreases : Meets step Decreases (.again h 0) rs
  offers : Throughout step Offers (.again h 0) rs
  /-- so there is no end to it with endless `EAGAIN`s only -/
  bounded : rs.length ≤ rs.count .again + max 1 h.bytesToSend.toNat

/-! ### The iovecs and the counters -/

/-- How the iovecs and the counters go together in a loop that makes progress. -/
structure Aligned (h : HttpHandler) : Prop where
  count : h.ivCount = 1 ∨ h.ivCount = 2
  header : 0 ≤ h.iv0.len
  haveSend : 0 ≤ h.bytesHaveSend
  begun : 0 < h.iv0.len ∨ 0 < h.bytesHaveSend
  toSend : 0 < h.bytesHaveSend → 0 < h.bytesToSend
  page : h.ivCount = 1 → 0 < h.iv0.len
  file : h.ivCount = 2 → 0 < h.iv1.len

private theorem Aligned.offers {h : HttpHandler} (ha : Aligned h) : 0 < h.offeredLen := by
  have hheader := ha.header
  unfold HttpHandler.offeredLen
  rcases ha.count with hc | hc
  · have hpage := ha.page hc
    rw [hc, if_pos (by decide), if_neg (by decide)]
    omega
  · have hfile := ha.file hc
    rw [hc, if_pos (by decide), if_pos (by decide)]
    omega

/-- An iteration whose count does not complete the response. -/
private theorem Aligned.sent {h : HttpHandler} (ha : Aligned h) {n : Nat} (hn : 0 < n)
    (hleft : 0 < h.bytesToSend - n) :
    Aligned { h with bytesHaveSend := h.bytesHaveSend + n, bytesToSend := h.bytesToSend - n } := by
  have hhave := ha.haveSend
  exact ⟨ha.count, ha.header, by dsimp only; omega, .inr (by dsimp only; omega), fun _ => hleft, ha.page, ha.file⟩

/-- `EAGAIN` leaves something to offer if there is a file or not all of the iovec is taken for sent. -/
private theorem Aligned.adjusted {h : HttpHandler} (ha : Aligned h) (newadd : Int)
    (hu : h.ivCount = 2 ∨ h.bytesHaveSend < h.iv0.len) : Aligned (h.adjustIov newadd) := by
  have hhave := ha.haveSend
  unfold HttpHandler.adjustIov
  by_cases hout : h.iv0.len ≤ h.bytesHaveSend
  · rw [if_pos hout]
    have hcount : h.ivCount = 2 := hu.resolve_right (not_lt.2 hout)
    have hbegun : 0 < h.bytesHaveSend := ha.begun.elim (fun h0 => h0.trans_le hout) id
    exact ⟨ha.count, le_rfl, hhave, .inr hbegun, ha.toSend, fun hc => absurd (hc.symm.trans hcount) (by decide),
      fun _ => ha.toSend hbegun⟩
  · rw [if_neg hout]
    have hpos : 0 < h.iv0.len - h.bytesHaveSend := by omega
    exact ⟨ha.count, hpos.le, hhave, .inl hpos, ha.toSend, fun _ => hpos, ha.file⟩

private theorem Aligned.next {h : HttpHandler} (ha : Aligned h) {newadd : Int} {r : WriteResult} (hr : h.Returns r)
    (hu : h.Unhindered r) : (h.writeStep newadd r).During Aligned := by
  cases r with
  | count n =>
    unfold HttpHandler.writeStep
    dsimp only
    by_cases hdone : h.bytesToSend - n ≤ 0
    · rw [if_pos hdone]
      split <;> exact True.intro
    · rw [if_neg hdone]
      exact ha.sent hr.1 (not_le.1 hdone)
  | zero => exact hu.elim
  | again => exact ha.adjusted newadd hu
  | fail => exact True.intro

/-- A response prepared on a fresh handler. -/
private theorem aligned_prepared {h₀ h : HttpHandler} {ret : HttpState} (hw : h₀.toWriter = Writer.zero.init_)
    (hp : h₀.writeToBuffer_ ret = some (true, h)) : Aligned h := by
  obtain ⟨hanswer, w, rfl, hr⟩ := prepared_of_writeToBuffer (show h₀.toWriter.writeIdx = 0 by rw [hw]; rfl) hp
  have hpos := bufferText_pos h₀.linger h₀.toResource hanswer
  have hlen : 0 < w.iv0.len := by
    rw [hr.iv0, hr.writeIdx]
    exact Int.natCast_pos.2 hpos
  have hsend : w.bytesHaveSend = 0 := by
    rw [hr.haveSend, hw]
    rfl
  have hnot : ¬ 0 < w.bytesHaveSend := by omega
  by_cases hm : MapsFile h₀.toResource ret
  · obtain ⟨h1, hc, -⟩ := hr.withFile hm
    rw [hw] at hc
    refine ⟨.inr hc, hlen.le, hsend.ge, .inl hlen, fun h => absurd h hnot, fun _ => hlen, fun _ => ?_⟩
    change 0 < w.iv1.len
    rw [h1]
    exact Int.natCast_pos.2 (Nat.pos_of_ne_zero hm.2)
  · obtain ⟨-, hc, -⟩ := hr.withoutFile hm
    rw [hw] at hc
    exact ⟨.inl hc, hlen.le, hsend.ge, .inl hlen, fun h => absurd h hnot, fun _ => hlen,
      fun h => absurd (hc.symm.trans h) (by decide)⟩

/-! ### The loop -/

private theorem adjustIov_toSend (h : HttpHandler) (newadd : Int) :
    (h.adjustIov newadd).bytesToSend = h.bytesToSend := by
  unfold HttpHandler.adjustIov
  split <;> rfl

open WriteNext in
/-- An iteration makes progress exactly when nothing hinders it. -/
private theorem Aligned.progress_iff {h : HttpHandler} (ha : Aligned h) {newadd : Int} {r : WriteResult}
    (hr : h.Returns r) :
    Decreases (.again h newadd) r ∧ (h.writeStep newadd r).Offers ↔ h.Unhindered r := by
  have hstep : step (.again h newadd) r = some (h.writeStep newadd r) := if_pos hr
  have hdec : Decreases (.again h newadd) r ↔
      (r ≠ .again → (h.writeStep newadd r).During fun h' => h'.bytesToSend < h.bytesToSend) := by
    refine imp_congr_right fun _ => ⟨fun hd => hd _ hstep, fun hd s' hs' => ?_⟩
    cases hstep.symm.trans hs'
    exact hd
  rw [hdec]
  constructor
  · rintro ⟨hless, hoffers⟩
    cases r with
    | count n => exact True.intro
    | zero => exact absurd (hless nofun) (lt_irrefl _)
    | again =>
      by_contra hu
      obtain ⟨hcount, hout⟩ := not_or.1 hu
      have hone : h.ivCount = 1 := ha.count.resolve_right hcount
      have hpage := ha.page hone
      have hnone : (h.adjustIov newadd).offeredLen = 0 := by
        unfold HttpHandler.offeredLen HttpHandler.adjustIov
        rw [if_pos (not_lt.1 hout)]
        dsimp only
        rw [hone, if_pos (by decide), if_neg (by decide), add_zero]
      have hpos : 0 < h.bytesToSend := ha.toSend (by omega)
      have hoffered := hoffers ((adjustIov_toSend h newadd).symm ▸ hpos)
      omega
    | fail => exact True.intro
  · intro hu
    have hnext : (h.writeStep newadd r).During Aligned := ha.next hr hu
    refine ⟨fun hne => ?_, ?_⟩
    · cases r with
      | count n =>
        have hn := hr.1
        unfold HttpHandler.writeStep
        dsimp only
        by_cases hdone : h.bytesToSend - n ≤ 0
        · rw [if_pos hdone]
          split <;> exact True.intro
        · rw [if_neg hdone]
          change h.bytesToSend - n < h.bytesToSend
          omega
      | zero => exact hu.elim
      | again => exact absurd rfl hne
      | fail => exact True.intro
    · generalize h.writeStep newadd r = s at hnext
      cases s with
      | again h' newadd' => exact fun _ => hnext.offers
      | finished h' => exact True.intro
      | closing h' => exact True.intro

/-- An iteration that goes on with less to send leaves something to send. -/
private theorem writeStep_toSend {h h' : HttpHandler} {newadd newadd' : Int} {r : WriteResult} (hr : r ≠ .again)
    (hs : h.writeStep newadd r = .again h' newadd') (hless : h'.bytesToSend < h.bytesToSend) :
    0 < h'.bytesToSend := by
  cases r with
  | count n =>
    unfold HttpHandler.writeStep at hs
    dsimp only at hs
    split at hs
    · split at hs <;> cases hs
    · rename_i hdone
      cases hs
      exact not_le.1 hdone
  | zero =>
    cases hs
    exact absurd hless (lt_irrefl _)
  | again => exact absurd rfl hr
  | fail => cases hs

open WriteNext in
/-- With less to send after every other iteration, the number of `EAGAIN`s bounds that of all. -/
private theorem length_le_of_decreases {h : HttpHandler} {newadd : Int} {rs : List WriteResult} {s : WriteNext}
    (hd : Meets step Decreases (.again h newadd) rs) (hrun : run step (.again h newadd) rs = some s) :
    rs.length ≤ rs.count .again + max 1 h.bytesToSend.toNat := by
  induction rs generalizing h newadd with
  | nil => exact Nat.zero_le _
  | cons r rs ih =>
    obtain ⟨u, hu, hrun⟩ := run_cons hrun
    obtain ⟨h₁, newadd₁, hs, -, hnext⟩ := step_again hu
    cases hs
    rw [List.length_cons, List.count_cons]
    have hleft : rs.length = 0 ∨ ∃ h' newadd', u = .again h' newadd' := by
      cases rs with
      | nil => exact .inl rfl
      | cons r' rs =>
        obtain ⟨u', hu', -⟩ := run_cons hrun
        obtain ⟨h', newadd', he, -⟩ := step_again hu'
        exact .inr ⟨h', newadd', he⟩
    rcases hleft with h0 | ⟨h', newadd', rfl⟩
    · omega
    · have hlen := ih (hd.2 _ hu) hrun
      by_cases hr : r = .again
      · subst hr
        cases hnext
        rw [adjustIov_toSend] at hlen
        rw [beq_self_eq_true, if_pos rfl]
        omega
      · have hless : h'.bytesToSend < h.bytesToSend := hd.1 hr _ hu
        have hpos := writeStep_toSend hr hnext.symm hless
        omega

open WriteNext in
/-- The loop makes progress, on a response prepared on a fresh handler, exactly in the unhindered runs. -/
theorem progresses_iff {sockfd : Int} {timer : Option Nat} {content : Option Ssl} {type : ClientType} {p : Parser}
    {r : Resource} {ret : HttpState} {h : HttpHandler}
    (hp : { HttpHandler.fresh sockfd timer type content with toParser := p, toResource := r }.writeToBuffer_ ret =
      some (true, h))
    {rs : List WriteResult} {s : WriteNext} (hrun : run step (.again h 0) rs = some s) :
    Progresses h rs ↔ Meets step Unhindered (.again h 0) rs := by
  have ha : Aligned h := aligned_prepared rfl hp
  have hiff : Meets step Decreases (.again h 0) rs ∧ Throughout step Offers (.again h 0) rs ↔
      Meets step Unhindered (.again h 0) rs := by
    refine meets_throughout_iff (P := fun s => s.During Aligned) ?_ ?_ ha (fun _ => ha.offers) hrun
    · intro s r s' hs hs'
      obtain ⟨h₁, newadd, rfl, hr, rfl⟩ := step_again hs'
      exact Aligned.progress_iff hs hr
    · intro s r s' hs hu hs'
      obtain ⟨h₁, newadd, rfl, hr, rfl⟩ := step_again hs'
      exact Aligned.next hs hr hu
  rw [← hiff]
  constructor
  · intro hprogress
    exact ⟨hprogress.decreases, hprogress.offers⟩
  · rintro ⟨hdecreases, hoffers⟩
    exact ⟨hdecreases, hoffers, length_le_of_decreases hdecreases hrun⟩

theorem progresses_iff_threeBytes :
    ∃ h s, { HttpHandler.fresh 5 none .httpClient none with
        toParser := Parser.zero.init_, toResource := threeBytes }.writeToBuffer_ .finishedRequest = some (true, h) ∧
      run WriteNext.step (.again h 0) [.again, .count 61, .again, .count 2] = some s ∧
      Progresses h [.again, .count 61, .again, .count 2] := by
  have hlen : ({ HttpHandler.fresh 5 none .httpClient none with
      toParser := Parser.zero.init_, toResource := threeBytes }.writeToBuffer_ .finishedRequest).map
        (fun x : Bool × HttpHandler => (x.1, (run WriteNext.step (.again x.2 0)
          [.again, .count 61, .again, .count 2]).isSome,
          decide (Meets WriteNext.step WriteNext.Unhindered (.again x.2 0) [.again, .count 61, .again, .count 2]))) =
      some (true, true, true) := by decide +kernel
  obtain ⟨⟨ok, h⟩, hp, hx⟩ := Option.map_eq_some_iff.1 hlen
  obtain ⟨rfl, hx⟩ := Prod.mk.inj hx
  obtain ⟨hsome, hmeets⟩ := Prod.mk.inj hx
  obtain ⟨s, hs⟩ := Option.isSome_iff_exists.1 hsome
  exact ⟨h, s, hp, hs, (progresses_iff hp hs).2 (of_decide_eq_true hmeets)⟩

/-- There is something to send and nothing is offered. -/
def WriteNext.Spins : WriteNext → Prop
  | .again h _ => h.offeredLen = 0 ∧ 0 < h.bytesToSend
  | .finished _ | .closing _ => False

instance : ∀ s : WriteNext, Decidable s.Spins
  | .again _ _ => instDecidableAnd
  | .finished _ | .closing _ => .isFalse id

private theorem WriteNext.Spins.not_offers {s : WriteNext} (h : s.Spins) : ¬ s.Offers := by
  cases s with
  | again h₁ newadd =>
    intro hoffers
    have hoffered : 0 < h₁.offeredLen := hoffers h.2
    rw [h.1] at hoffered
    exact absurd hoffered (lt_irrefl 0)
  | finished h₁ => exact h.elim
  | closing h₁ => exact h.elim

/-- Two `EAGAIN`s behind the first 100 bytes of a page leave nothing to offer, and the loop goes round with 0. -/
theorem not_progresses_twoAgains :
    ∃ h s, (HttpHandler.fresh 5 none .httpClient none).writeToBuffer_ .errorFormat = some (true, h) ∧
      run WriteNext.step (.again h 0) [.count 100, .again, .again, .zero, .zero] = some s ∧ s.Spins ∧
      ¬ Progresses h [.count 100, .again, .again, .zero, .zero] := by
  have hrun : ((HttpHandler.fresh 5 none .httpClient none).writeToBuffer_ .errorFormat).map (fun x => (x.1,
      (run WriteNext.step (.again x.2 0) [.count 100, .again, .again, .zero, .zero]).map
        fun s => decide s.Spins)) = some (true, some true) := by decide +kernel
  obtain ⟨⟨ok, h⟩, hp, hx⟩ := Option.map_eq_some_iff.1 hrun
  obtain ⟨rfl, hx⟩ := Prod.mk.inj hx
  obtain ⟨s, hs, hspins⟩ := Option.map_eq_some_iff.1 hx
  have hspins : s.Spins := of_decide_eq_true hspins
  exact ⟨h, s, hp, hs, hspins, fun hprogress => hspins.not_offers (hprogress.offers.last hs)⟩

end ImageServer
