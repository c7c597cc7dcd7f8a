import ImageServer.Lib.Transition
import ImageServer.Http.Process
import ImageServer.Http.Response

/-!
# Delivery of a response under short writes

The loop of `write_to_fd_` as a transition system: a state is the handler between two write calls together with
the bytes the socket has accepted so far, and a label is the result of a write call.  `DeliversExactly` says that
these bytes are at every moment an initial part of the response, that they are the response when the loop is
through, and that nothing outside the response is ever offered.

The loop moves `m_iv` on only after `EAGAIN`, and then correctly only when the header block is out (it takes
`bytes_to_send` for the offset where `bytes_have_send` is meant): `Paced` describes the result sequences on which
that is enough, and `paced_deliversExactly` proves that on them the delivery is exact.  Between two corrections the
offered bytes are a window of the response that starts where the last correction left it (`Window`).
-/

namespace ImageServer

open CLib Transition Writer

inductive SendStatus
  | running
  /-- all of `bytes_to_send` has been accepted and the loop has returned -/
  | complete
  /-- the loop has returned after an error -/
  | aborted
deriving DecidableEq

/-- `write_to_fd_` between two of its write calls. -/
structure Sending where
  h : HttpHandler
  newadd : Int
  accepted : List Byte
  status : SendStatus
deriving DecidableEq

namespace Sending

/-- The start of `write_to_fd_`. -/
def start (h : HttpHandler) : Sending := ⟨h, 0, [], .running⟩

/-- One write call and what the loop does with its result.  The socket accepts at most what it is offered. -/
def step (s : Sending) (r : WriteResult) : Option Sending :=
  if s.status ≠ .running then none
  else
    match r with
    | .count n =>
      match s.h.offer with
      | none => none
      | some bs =>
        if 0 < n ∧ n ≤ bs.length then
          let accepted := s.accepted ++ bs.take n
          match s.h.writeStep s.newadd (.count n) with
          | .again h newadd => some ⟨h, newadd, accepted, .running⟩
          | .finished h => some ⟨h, s.newadd, accepted, .complete⟩
          | .closing h => some ⟨h, s.newadd, accepted, .complete⟩
        else none
    | r =>
      match s.h.writeStep s.newadd r with
      | .again h newadd => some ⟨h, newadd, s.accepted, .running⟩
      | .finished h => some ⟨h, s.newadd, s.accepted, .complete⟩
      | .closing h => some ⟨h, s.newadd, s.accepted, .aborted⟩

end Sending

/-- The iovec designates bytes of `m_write_buf[0..m_write_idx)` or of the mapped file only. -/
def IoVec.Inside (v : IoVec) (h : HttpHandler) : Prop :=
  v.len = 0 ∨
    match v.base with
    | .writeBuf off => 0 ≤ off ∧ 0 ≤ v.len ∧ off + v.len ≤ h.writeIdx
    | .file (.mapped f) off => h.fileAddress = .mapped f ∧ 0 ≤ off ∧ 0 ≤ v.len ∧ off + v.len ≤ f.length
    | _ => False

/-- All the iovecs offered do. -/
def HttpHandler.Inside (h : HttpHandler) : Prop :=
  h.ivCount ≤ 2 ∧ (0 < h.ivCount → h.iv0.Inside h) ∧ (1 < h.ivCount → h.iv1.Inside h)

/-- What has been accepted is as it should be. -/
structure Exact (response : List Byte) (s : Sending) : Prop where
  initial : s.accepted <+: response
  complete : s.status = .complete → s.accepted = response
  inside : s.status = .running → s.h.Inside

/-- The delivery of the response is exact at every moment of the loop with the write results `rs`. -/
def DeliversExactly (response : List Byte) (h : HttpHandler) (rs : List WriteResult) : Prop :=
  ∀ k s, run Sending.step (.start h) (rs.take k) = some s → Exact response s

/-- After a count that leaves something to send, the next count comes only after an `EAGAIN`, and there is no
`EAGAIN` before the header block has been accepted.  `sent` bytes have been accepted so far, and `stale` says that
`m_iv` has not been moved on since. -/
def Paced (header : Nat) : Nat → Bool → List WriteResult → Prop
  | _, _, [] => True
  | sent, stale, .count n :: rs => stale = false ∧ Paced header (sent + n) true rs
  | sent, _, .again :: rs => header ≤ sent ∧ Paced header sent false rs
  | sent, stale, .zero :: rs => Paced header sent stale rs
  | sent, stale, .fail :: rs => Paced header sent stale rs

private theorem Paced.take {header sent : Nat} {stale : Bool} {rs : List WriteResult} (h : Paced header sent stale rs)
    (k : Nat) : Paced header sent stale (rs.take k) := by
  induction rs generalizing sent stale k with
  | nil => rw [List.take_nil]; trivial
  | cons r rs ih =>
    cases k with
    | zero => trivial
    | succ k =>
      cases r with
      | count n => exact ⟨h.1, ih h.2 k⟩
      | again => exact ⟨h.1, ih h.2 k⟩
      | zero => exact ih (show Paced header sent stale rs from h) k
      | fail => exact ih (show Paced header sent stale rs from h) k

/-! ### The window of the response that is offered -/

/-- `h` is sending `header ++ file`: the header block is in the write buffer, the file, if any, is mapped. -/
structure Loaded (header file : List Byte) (h : HttpHandler) : Prop where
  writeIdx : h.writeIdx = header.length
  writeBuf : h.writeBuf.bytes.take header.length = header
  header_le : header.length ≤ WRITE_BUFFER_SIZE
  body : (file = [] ∧ h.ivCount = 1) ∨ (h.ivCount = 2 ∧ h.fileAddress = .mapped file)

/-- `m_iv` covers the response from `base` on: as `write_to_buffer_` sets it up, or as the correction leaves it
once the header block is out. -/
def Window (header file : List Byte) (base : Nat) (h : HttpHandler) : Prop :=
  (base = 0 ∧ h.iv0 = ⟨.writeBuf 0, header.length⟩ ∧
    (h.ivCount = 2 → h.iv1 = ⟨.file (.mapped file) 0, file.length⟩)) ∨
  (header.length ≤ base ∧ base ≤ header.length + file.length ∧ h.iv0.len = 0 ∧ h.ivCount = 2 ∧
    h.iv1 = ⟨.file (.mapped file) ((base : Int) - header.length), ((header.length + file.length : Nat) : Int) - base⟩)

private theorem bytes_header {header file : List Byte} {h : HttpHandler} (hl : Loaded header file h) :
    (IoVec.mk (.writeBuf 0) header.length).bytes h.toWriter h.fileAddress = some header := by
  unfold IoVec.bytes
  split
  · rename_i h0
    simp only [Nat.cast_eq_zero, List.length_eq_zero_iff] at h0
    rw [h0]
  · have := hl.header_le
    dsimp only
    rw [if_pos ⟨le_refl _, by omega, by omega⟩]
    simpa using hl.writeBuf

private theorem bytes_file (w : Writer) (file : List Byte) {off : Nat} (ho : off ≤ file.length) :
    (IoVec.mk (.file (.mapped file) off) ((file.length : Int) - off)).bytes w (.mapped file) =
      some (file.drop off) := by
  unfold IoVec.bytes
  split
  · rename_i h0
    rw [List.drop_eq_nil_of_le (by dsimp only at h0; omega)]
  · dsimp only
    rw [if_pos ⟨rfl, by omega, by omega, by omega⟩]
    have : (file.drop off).length = ((file.length : Int) - off).toNat := by rw [List.length_drop]; omega
    simp only [Int.toNat_natCast, ← this, List.take_length]

/-- The bytes offered are those of the window. -/
theorem Window.offer {header file : List Byte} {base : Nat} {h : HttpHandler} (hl : Loaded header file h)
    (hw : Window header file base h) : h.offer = some ((header ++ file).drop base) := by
  unfold HttpHandler.offer offered
  rcases hw with ⟨rfl, h0, h1⟩ | ⟨hb, hb', h0, hc, h1⟩
  · rcases hl.body with ⟨rfl, hc⟩ | ⟨hc, ha⟩
    · rw [hc, h0]
      simpa using bytes_header hl
    · have hf := bytes_file h.toWriter file (Nat.zero_le _)
      have hh := bytes_header hl
      rw [ha] at hh
      simp only [Nat.cast_zero, Int.sub_zero, List.drop_zero] at hf
      rw [hc, h0, h1 hc, ha]
      simp [hh, hf]
  · rcases hl.body with ⟨_, hc'⟩ | ⟨_, ha⟩
    · omega
    · have e1 : (base : Int) - header.length = ((base - header.length : Nat) : Int) := by omega
      have e2 : ((header.length + file.length : Nat) : Int) - base =
          (file.length : Int) - ((base - header.length : Nat) : Int) := by omega
      have hz : h.iv0.bytes h.toWriter (.mapped file) = some [] := if_pos h0
      have hf := bytes_file h.toWriter file (show base - header.length ≤ file.length by omega)
      rw [hc, h1, ha, e1, e2]
      simp only [hz, hf, Option.bind_some, Option.map_some, List.nil_append]
      rw [List.drop_append, List.drop_eq_nil_of_le hb, List.nil_append]

private theorem Window.inside {header file : List Byte} {base : Nat} {h : HttpHandler} (hl : Loaded header file h)
    (hw : Window header file base h) : h.Inside := by
  have hi := hl.writeIdx
  rcases hw with ⟨rfl, h0, h1⟩ | ⟨hb, hb', h0, hc, h1⟩
  · refine ⟨?_, fun _ => ?_, fun hc => ?_⟩
    · rcases hl.body with ⟨_, hc⟩ | ⟨hc, _⟩ <;> omega
    · rw [h0]
      exact Or.inr ⟨le_refl _, by simp, by simp [hi]⟩
    · rcases hl.body with ⟨_, hc'⟩ | ⟨hc', ha⟩
      · omega
      · rw [h1 hc']
        exact Or.inr ⟨ha, le_refl _, by simp, by simp⟩
  · rcases hl.body with ⟨_, hc'⟩ | ⟨_, ha⟩
    · omega
    · refine ⟨by omega, fun _ => Or.inl h0, fun _ => ?_⟩
      rw [h1]
      exact Or.inr ⟨ha, by omega, by dsimp only; omega, by dsimp only; omega⟩

/-! ### The loop -/

/-- The state of the loop when `sent` bytes have been accepted and the response is not out yet. -/
structure Synced (header file : List Byte) (sent : Nat) (stale : Bool) (s : Sending) : Prop where
  running : s.status = .running
  accepted : s.accepted = (header ++ file).take sent
  lt : sent < header.length + file.length
  haveSend : s.h.bytesHaveSend = sent
  toSend : s.h.bytesToSend = ((header.length + file.length : Nat) : Int) - sent
  newadd : 0 < sent → s.newadd = (sent : Int) - header.length
  loaded : Loaded header file s.h
  window : ∃ base, base ≤ sent ∧ (stale = false → base = sent) ∧ Window header file base s.h

private theorem Synced.exact {header file : List Byte} {sent : Nat} {stale : Bool} {s : Sending}
    (h : Synced header file sent stale s) : Exact (header ++ file) s where
  initial := by rw [h.accepted]; exact List.take_prefix ..
  complete := fun hc => by rw [h.running] at hc; cases hc
  inside := fun _ => by
    obtain ⟨base, _, _, hw⟩ := h.window
    exact hw.inside h.loaded

/-- A count on a window that is up to date: the loop is through, or goes on with a stale window. -/
private theorem Synced.count {header file : List Byte} {sent n : Nat} {s s' : Sending}
    (h : Synced header file sent false s) (hs : s.step (.count n) = some s') :
    (s'.status = .complete ∧ s'.accepted = header ++ file) ∨ Synced header file (sent + n) true s' := by
  obtain ⟨base, -, hb, hw⟩ := h.window
  obtain rfl := hb rfl
  unfold Sending.step at hs
  rw [if_neg (by simp [h.running]), hw.offer h.loaded] at hs
  dsimp only at hs
  split at hs
  · rename_i hn
    obtain ⟨hn0, hn⟩ := hn
    rw [List.length_drop, List.length_append] at hn
    have hacc : s.accepted ++ ((header ++ file).drop base).take n = (header ++ file).take (base + n) := by
      rw [h.accepted, List.take_add]
    have hts := h.toSend
    have hhs := h.haveSend
    have hwi := h.loaded.writeIdx
    by_cases hdone : s.h.bytesToSend - n ≤ 0
    · -- the count completes the response
      left
      have hall : (header ++ file).take (base + n) = header ++ file :=
        List.take_of_length_le (by rw [List.length_append]; omega)
      unfold HttpHandler.writeStep at hs
      dsimp only at hs
      rw [if_pos hdone] at hs
      cases hl : s.h.linger <;> simp only [hl, if_true, if_false, Bool.false_eq_true] at hs <;> cases hs <;>
        exact ⟨rfl, hacc.trans hall⟩
    · right
      unfold HttpHandler.writeStep at hs
      dsimp only at hs
      rw [if_neg hdone] at hs
      cases hs
      refine ⟨rfl, hacc, by omega, ?_, ?_, fun _ => ?_, ?_, base, by omega, nofun, hw⟩
      · dsimp only; omega
      · dsimp only; omega
      · dsimp only; omega
      · exact ⟨h.loaded.writeIdx, h.loaded.writeBuf, h.loaded.header_le, h.loaded.body⟩
  · cases hs

/-- `EAGAIN` with the header block out brings the window up to date. -/
private theorem Synced.again {header file : List Byte} {sent : Nat} {stale : Bool} {s s' : Sending}
    (h0 : 0 < header.length) (h : Synced header file sent stale s) (hh : header.length ≤ sent)
    (hs : s.step .again = some s') :
    Synced header file sent false s' := by
  obtain ⟨base, hb, -, hw⟩ := h.window
  have hlt := h.lt
  have hhs := h.haveSend
  have hle : s.h.iv0.len ≤ s.h.bytesHaveSend := by
    rcases hw with ⟨_, hv, _⟩ | ⟨_, _, hv, _, _⟩
    · rw [hv]; dsimp only; omega
    · omega
  obtain ⟨hc, ha⟩ : s.h.ivCount = 2 ∧ s.h.fileAddress = .mapped file := by
    rcases h.loaded.body with ⟨rfl, _⟩ | hbody
    · simp only [List.length_nil] at hlt; omega
    · exact hbody
  unfold Sending.step at hs
  rw [if_neg (by simp [h.running])] at hs
  unfold HttpHandler.writeStep HttpHandler.adjustIov at hs
  dsimp only at hs
  rw [if_pos hle] at hs
  cases hs
  refine ⟨rfl, h.accepted, hlt, hhs, h.toSend, h.newadd, ?_, sent, le_refl _, fun _ => rfl, ?_⟩
  · exact ⟨h.loaded.writeIdx, h.loaded.writeBuf, h.loaded.header_le, Or.inr ⟨hc, ha⟩⟩
  · refine Or.inr ⟨hh, by omega, rfl, hc, ?_⟩
    dsimp only
    rw [ha, h.newadd (by omega), h.toSend]

/-- Once the loop has returned there are no further write calls. -/
private theorem Sending.run_returned {s t : Sending} {rs : List WriteResult} (hs : s.status ≠ .running)
    (h : run Sending.step s rs = some t) : t = s := by
  cases rs with
  | nil => cases h; rfl
  | cons r rs =>
    obtain ⟨s', hs', _⟩ := run_cons h
    unfold Sending.step at hs'
    rw [if_pos hs] at hs'
    cases hs'

/-- A paced run of the loop is exact to its end. -/
private theorem Synced.run_exact {header file : List Byte} (h0 : 0 < header.length) {rs : List WriteResult}
    {sent : Nat} {stale : Bool} {s t : Sending} (h : Synced header file sent stale s)
    (hp : Paced header.length sent stale rs) (ht : run Sending.step s rs = some t) :
    Exact (header ++ file) t := by
  induction rs generalizing sent stale s with
  | nil => cases ht; exact h.exact
  | cons r rs ih =>
    obtain ⟨s', hs, hrun⟩ := run_cons ht
    cases r with
    | count n =>
      obtain ⟨rfl, hp⟩ := hp
      rcases h.count hs with ⟨hc, ha⟩ | h'
      · obtain rfl := Sending.run_returned (by simp [hc]) hrun
        exact ⟨⟨[], by rw [ha, List.append_nil]⟩, fun _ => ha, fun hr => by rw [hc] at hr; cases hr⟩
      · exact ih h' hp hrun
    | again => exact ih (h.again h0 hp.1 hs) hp.2 hrun
    | zero =>
      have hs' : s' = s := by
        unfold Sending.step at hs
        rw [if_neg (by simp [h.running])] at hs
        rw [← Option.some.inj hs, ← h.running]
      exact ih (hs' ▸ h) hp hrun
    | fail =>
      have hs' : s' = ⟨s.h, s.newadd, s.accepted, .aborted⟩ := by
        unfold Sending.step at hs
        rw [if_neg (by simp [h.running])] at hs
        exact (Option.some.inj hs).symm
      have ht' := Sending.run_returned (by rw [hs']; exact SendStatus.noConfusion) hrun
      rw [ht', hs']
      refine ⟨?_, fun hc => SendStatus.noConfusion hc, fun hc => SendStatus.noConfusion hc⟩
      dsimp only
      rw [h.accepted]
      exact List.take_prefix ..

/-! ### Responses of `write_to_buffer_` -/

/-- The header block, with the page if there is one: `m_write_buf[0..m_write_idx)`. -/
def HttpHandler.header (h : HttpHandler) : List Byte := h.writeBuf.bytes.take h.writeIdx

/-- What follows the header block in the response for `ret`: the file, when it is sent by its mapping. -/
def body (r : Resource) (ret : HttpState) : List Byte :=
  if MapsFile r ret then
    match r.fileAddress with
    | .mapped f => f
    | _ => []
  else []

/-- The file to be sent is mapped at the size `stat` gave, and the length of the response is an `int`. -/
structure FileReady (r : Resource) (ret : HttpState) (h : HttpHandler) : Prop where
  mapped : MapsFile r ret → ∃ f, r.fileAddress = .mapped f ∧ f.length = r.fileStat.size
  small : h.writeIdx + (body r ret).length < 2 ^ 31

/-- `write_to_buffer_` on an empty write buffer. -/
theorem prepared_of_writeToBuffer {h₀ h : HttpHandler} {ret : HttpState} (hi : h₀.writeIdx = 0)
    (hp : h₀.writeToBuffer_ ret = some (true, h)) :
    Answer ret ∧ ∃ w, h = { h₀ with toWriter := w } ∧ Prepared h₀.toWriter h₀.linger h₀.toResource ret w := by
  obtain ⟨⟨ok, w⟩, hw', hh⟩ := Option.map_eq_some_iff.1 hp
  obtain ⟨rfl, rfl⟩ := Prod.mk.inj hh
  have ha := answer_of_writeToBuffer hw'
  obtain ⟨w', he, hr⟩ := writeToBuffer_prepared h₀.linger h₀.toResource hi ha
  obtain rfl : w = w' := by
    rw [he] at hw'
    exact (Prod.mk.inj (Option.some.inj hw')).2.symm
  exact ⟨ha, w, rfl, hr⟩

/-- A response prepared on a fresh handler is loaded, with all of it offered. -/
theorem synced_start {h₀ h : HttpHandler} {ret : HttpState} (hw : h₀.toWriter = Writer.zero.init_)
    (hp : h₀.writeToBuffer_ ret = some (true, h)) (hf : FileReady h₀.toResource ret h) :
    0 < h.header.length ∧ h.header.length = h.writeIdx ∧
      Synced h.header (body h₀.toResource ret) 0 false (.start h) := by
  obtain ⟨ha, w, rfl, hr⟩ := prepared_of_writeToBuffer (show h₀.toWriter.writeIdx = 0 by rw [hw]; rfl) hp
  have hpos := bufferText_pos h₀.linger h₀.toResource ha
  have hle := bufferText_length_le h₀.linger h₀.toResource ha
  have htext : HttpHandler.header { h₀ with toWriter := w } = bufferText h₀.linger h₀.toResource ret := hr.writeBuf
  have hlen := hr.writeIdx
  have hsend := hr.haveSend
  rw [hw] at hsend
  rw [htext, ← hlen]
  refine ⟨by omega, rfl, ?_⟩
  have hsmall := hf.small
  have hbuf : (200 : Nat) ≤ WRITE_BUFFER_SIZE := by decide
  by_cases hm : MapsFile h₀.toResource ret
  · obtain ⟨f, hfa, hfl⟩ := hf.mapped hm
    obtain ⟨h1, hc, hs⟩ := hr.withFile hm
    rw [hw] at hc
    have hbody : body h₀.toResource ret = f := by
      unfold body
      rw [if_pos hm, hfa]
    rw [hbody] at hsmall ⊢
    dsimp only at hsmall
    rw [← hfl, toInt32_natCast (lt_of_le_of_lt (Nat.le_add_left _ _) hsmall)] at hs
    refine ⟨rfl, rfl, by omega, hsend, ?_, fun h => absurd h (lt_irrefl 0), ?_, 0, le_refl _, fun _ => rfl, ?_⟩
    · show w.bytesToSend = _
      omega
    · exact ⟨hlen, by rw [← hlen]; exact hr.writeBuf, by omega, Or.inr ⟨hc, hfa⟩⟩
    · refine Or.inl ⟨rfl, hlen ▸ hr.iv0, fun _ => ?_⟩
      show w.iv1 = _
      rw [h1, hfa, hfl]
  · obtain ⟨-, hc, hs⟩ := hr.withoutFile hm
    rw [hw] at hc hs
    have hbody : body h₀.toResource ret = [] := if_neg hm
    rw [hbody] at hsmall ⊢
    refine ⟨rfl, rfl, by simp only [List.length_nil]; omega, hsend, ?_, fun h => absurd h (lt_irrefl 0), ?_,
      0, le_refl _, fun _ => rfl, ?_⟩
    · show w.bytesToSend = _
      have : (Writer.zero.init_).bytesToSend = 0 := rfl
      simp only [List.length_nil]
      omega
    · exact ⟨hlen, by rw [← hlen]; exact hr.writeBuf, by omega, Or.inl ⟨rfl, hc⟩⟩
    · exact Or.inl ⟨rfl, hlen ▸ hr.iv0, fun h => absurd (hc.symm.trans h) (by decide)⟩

/-- On a paced sequence of write results, a response prepared on a fresh handler is delivered exactly: what the
socket has accepted is an initial part of header and file throughout and all of them at the end. -/
theorem paced_deliversExactly {sockfd : Int} {timer : Option Nat} {content : Option Ssl} {type : ClientType}
    {p : Parser} {r : Resource} {ret : HttpState} {h : HttpHandler}
    (hp : { HttpHandler.fresh sockfd timer type content with toParser := p, toResource := r }.writeToBuffer_ ret =
      some (true, h))
    (hf : FileReady r ret h) {rs : List WriteResult} (hrs : Paced h.writeIdx 0 false rs) :
    DeliversExactly (h.header ++ body r ret) h rs := by
  intro k s hs
  obtain ⟨h0, hlen, hstart⟩ := synced_start rfl hp hf
  rw [← hlen] at hrs
  exact hstart.run_exact h0 (hrs.take k) hs

/-- A file of three bytes, mapped. -/
def threeBytes : Resource :=
  { Resource.zero with fileStat := ⟨true, false, 3⟩, fileAddress := .mapped [1, 2, 3] }

theorem paced_deliversExactly_threeBytes :
    ∃ h, { HttpHandler.fresh 5 none .httpClient none with
        toParser := Parser.zero.init_, toResource := threeBytes }.writeToBuffer_ .finishedRequest = some (true, h) ∧
      DeliversExactly (h.header ++ [1, 2, 3]) h [.zero, .count 61, .again, .count 1, .again, .count 1] := by
  have hlen : ({ HttpHandler.fresh 5 none .httpClient none with
      toParser := Parser.zero.init_, toResource := threeBytes }.writeToBuffer_ .finishedRequest).map
        (fun x : Bool × HttpHandler => (x.1, x.2.writeIdx)) = some (true, 60) := by decide +kernel
  obtain ⟨⟨ok, h⟩, hp, hx⟩ := Option.map_eq_some_iff.1 hlen
  obtain ⟨rfl, hi⟩ := Prod.mk.inj hx
  dsimp only at hi
  refine ⟨h, hp, paced_deliversExactly hp ⟨fun _ => ⟨_, rfl, rfl⟩, ?_⟩ ?_⟩
  · rw [hi]; decide
  · rw [hi]; exact ⟨rfl, by decide, rfl, by decide, rfl, trivial⟩

/-- After a partial count `m_iv` still offers the response from its start, and its first bytes are sent again. -/
theorem partialCount_sendsAgain :
    ∃ h, (HttpHandler.fresh 5 none .httpClient none).writeToBuffer_ .errorFormat = some (true, h) ∧
      (run Sending.step (.start h) [.count 5, .count 5]).map (·.accepted) = some (lit "HTTP/HTTP/") ∧
      ¬ DeliversExactly h.header h [.count 5, .count 5] := by
  have hrun : ((HttpHandler.fresh 5 none .httpClient none).writeToBuffer_ .errorFormat).map (fun x =>
      (x.1, (run Sending.step (.start x.2) [.count 5, .count 5]).map (·.accepted), x.2.header.take 10)) =
      some (true, some (lit "HTTP/HTTP/"), lit "HTTP/1.1 4") := by decide +kernel
  obtain ⟨⟨ok, h⟩, hp, hx⟩ := Option.map_eq_some_iff.1 hrun
  obtain ⟨rfl, hx⟩ := Prod.mk.inj hx
  obtain ⟨hacc, htake⟩ := Prod.mk.inj hx
  refine ⟨h, hp, hacc, fun hd => ?_⟩
  obtain ⟨s, hs, ha⟩ := Option.map_eq_some_iff.1 hacc
  have hpre := (hd 2 s hs).initial
  rw [ha] at hpre
  have := (List.prefix_iff_eq_take.1 hpre).trans htake
  exact absurd this (by decide)

end ImageServer
