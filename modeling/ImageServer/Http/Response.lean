import ImageServer.Http.Write

/-!
# What `write_to_buffer_` prepares

With an empty write buffer every part of a response fits, so for each of the results `parse_` can give,
`write_to_buffer_` succeeds and leaves the text `bufferText` in `m_write_buf`, with `m_iv[0]` over it and, for a
file that is not empty, `m_iv[1]` over the mapping (`writeToBuffer_eq`).  The count of iovecs is added to what it
was before.
-/

namespace ImageServer

open CLib

/-- The results of `parse_` for which there is a response. -/
def Answer (ret : HttpState) : Prop :=
  ret = .internalError ∨ ret = .errorFormat ∨ ret = .errorAccessFailed ∨ ret = .errorFileNotFound ∨
    ret = .finishedRequest

/-- The response is sent with the mapped file as its body. -/
def MapsFile (r : Resource) (ret : HttpState) : Prop := ret = .finishedRequest ∧ r.fileStat.size ≠ 0

instance (r : Resource) (ret : HttpState) : Decidable (MapsFile r ret) := instDecidableAnd

namespace Writer

/-! ### Appending text to the write buffer -/

/-- `w'` is `w` with `text` appended to what `m_write_buf` holds. -/
def Appended (w : Writer) (text : List Byte) (w' : Writer) : Prop :=
  ∃ buf, w' = { w with writeBuf := buf, writeIdx := w.writeIdx + text.length } ∧
    buf.bytes.take (w.writeIdx + text.length) = w.writeBuf.bytes.take w.writeIdx ++ text

private theorem Appended.trans {w w₁ w₂ : Writer} {t₁ t₂ : List Byte} (h₁ : Appended w t₁ w₁)
    (h₂ : Appended w₁ t₂ w₂) :
    Appended w (t₁ ++ t₂) w₂ := by
  obtain ⟨b₁, rfl, e₁⟩ := h₁
  obtain ⟨b₂, rfl, e₂⟩ := h₂
  dsimp only at e₂
  refine ⟨b₂, by simp [Nat.add_assoc], ?_⟩
  rw [List.length_append, ← Nat.add_assoc, e₂, e₁, List.append_assoc]

private theorem Appended.writeIdx_eq {w w' : Writer} {t : List Byte} (h : Appended w t w') :
    w'.writeIdx = w.writeIdx + t.length := by
  obtain ⟨b, rfl, _⟩ := h; rfl

/-- A text that fits is appended as a whole. -/
private theorem addResponse_eq (w : Writer) (text : List Byte) (h : w.writeIdx + text.length + 1 < WRITE_BUFFER_SIZE) :
    ∃ w', w.addResponse_ text = some (true, w') ∧ Appended w text w' := by
  have hs : WRITE_BUFFER_SIZE = 1024 := rfl
  have htake : text.take (WRITE_BUFFER_SIZE - 1 - w.writeIdx - 1) = text :=
    List.take_of_length_le (by omega)
  obtain ⟨buf, hbuf⟩ := CharArray.copy_isSome (a := w.writeBuf) (p := w.writeIdx) (s := text ++ [0])
    (by rw [List.length_append, List.length_singleton]; omega)
  refine ⟨{ w with writeBuf := buf, writeIdx := w.writeIdx + text.length }, ?_, buf, rfl, ?_⟩
  · unfold addResponse_
    rw [if_neg (by omega)]
    dsimp only
    rw [if_neg (by omega), htake, hbuf]
    simp only [Option.pure_def, Option.bind_eq_bind, Option.bind_some]
    rw [if_neg (by omega)]
  · have ht := CharArray.take_copy hbuf
    have := congrArg (List.take (w.writeIdx + text.length)) ht
    rw [List.take_take, List.length_append, List.length_singleton, Nat.min_eq_left (by omega)] at this
    have hle : w.writeIdx ≤ w.writeBuf.bytes.length := by rw [w.writeBuf.size_eq]; omega
    rw [this, ← List.append_assoc, List.take_left']
    rw [List.length_append, List.length_take, Nat.min_eq_left hle]

/-! ### The texts -/

def statusText (status : Int) (title : List Byte) : List Byte :=
  lit "HTTP/1.1" ++ lit " " ++ decimal status ++ lit " " ++ title ++ lit "\r\n"

def headersText (linger : Bool) (contentLen : Int) : List Byte :=
  (lit "Content-Length:" ++ decimal contentLen ++ lit "\r\n") ++
    (lit "Connection:" ++ (if linger then lit "keep-alive" else lit "close") ++ lit "\r\n") ++ lit "\r\n"

def pageText (linger : Bool) (status : Int) (title form : List Byte) : List Byte :=
  statusText status title ++ headersText linger form.length ++ form

private theorem addHeaders_eq (w : Writer) (linger : Bool) (n : Int)
    (h : w.writeIdx + (headersText linger n).length + 1 < WRITE_BUFFER_SIZE) :
    ∃ w', w.addHeaders_ linger n = some w' ∧ Appended w (headersText linger n) w' := by
  unfold headersText at h ⊢
  simp only [List.length_append] at h
  obtain ⟨w₁, h₁, a₁⟩ := addResponse_eq w (lit "Content-Length:" ++ decimal n ++ lit "\r\n")
    (by simp only [List.length_append]; omega)
  have i₁ := a₁.writeIdx_eq
  simp only [List.length_append] at i₁
  obtain ⟨w₂, h₂, a₂⟩ := addResponse_eq w₁
    (lit "Connection:" ++ (if linger then lit "keep-alive" else lit "close") ++ lit "\r\n")
    (by simp only [List.length_append]; omega)
  have i₂ := a₂.writeIdx_eq
  simp only [List.length_append] at i₂
  obtain ⟨w₃, h₃, a₃⟩ := addResponse_eq w₂ (lit "\r\n") (by omega)
  refine ⟨w₃, ?_, (a₁.trans a₂).trans a₃⟩
  unfold addHeaders_ addContentLength_ addLinger_ addClrf_
  rw [h₁]
  simp only [Option.bind_eq_bind, Option.bind_some]
  rw [h₂]
  simp only [Option.bind_some]
  rw [h₃]
  rfl

private theorem addStatus_eq (w : Writer) (status : Int) (title : List Byte)
    (h : w.writeIdx + (statusText status title).length + 1 < WRITE_BUFFER_SIZE) :
    ∃ w', w.addStatus_ status title = some (true, w') ∧ Appended w (statusText status title) w' :=
  addResponse_eq w _ h

private theorem addPage_eq {w : Writer} {linger : Bool} {status : Int} {title form : List Byte}
    (h : w.writeIdx + (pageText linger status title form).length + 1 < WRITE_BUFFER_SIZE) :
    ∃ w', w.addPage linger status title form = some (true, w') ∧
      Appended w (pageText linger status title form) w' := by
  unfold pageText at h ⊢
  simp only [List.length_append] at h
  obtain ⟨w₁, h₁, a₁⟩ := addStatus_eq w status title (by omega)
  have i₁ := a₁.writeIdx_eq
  obtain ⟨w₂, h₂, a₂⟩ := addHeaders_eq w₁ linger form.length (by omega)
  have i₂ := a₂.writeIdx_eq
  obtain ⟨w₃, h₃, a₃⟩ := addResponse_eq w₂ form (by omega)
  refine ⟨w₃, ?_, (a₁.trans a₂).trans a₃⟩
  unfold addPage addContent_
  simp only [h₁, h₂, h₃, Option.bind_eq_bind, Option.bind_some]

/-! ### The response -/

/-- What `m_write_buf` holds of the response. -/
def bufferText (linger : Bool) (r : Resource) : HttpState → List Byte
  | .internalError =>
    pageText linger 500 (lit "Internal Error") (lit "There was an unusual problem serving the request file.\n")
  | .errorFormat =>
    pageText linger 400 (lit "Bad Request")
      (lit "Your request has bad syntax or is inherently impossible to staisfy.\n")
  | .errorAccessFailed =>
    pageText linger 403 (lit "Forbidden") (lit "You do not have permission to get file form this server.\n")
  | .errorFileNotFound =>
    pageText linger 404 (lit "Not Found") (lit "The requested file was not found on this server.\n")
  | .finishedRequest =>
    if r.fileStat.size ≠ 0 then statusText 200 (lit "OK") ++ headersText linger (toInt32 r.fileStat.size)
    else pageText linger 200 (lit "OK") (lit "<html><body></body></html>")
  | _ => []

private theorem headersText_length (linger : Bool) (n : Int) :
    (headersText linger n).length = 32 + (decimal n).length + if linger then 10 else 5 := by
  have e1 : (lit "Content-Length:").length = 15 := by decide
  have e2 : (lit "\r\n").length = 2 := by decide
  have e3 : (lit "Connection:").length = 11 := by decide
  have e4 : (if linger then lit "keep-alive" else lit "close").length = if linger then 10 else 5 := by
    cases linger <;> decide
  unfold headersText
  simp only [List.length_append, e1, e2, e3, e4]
  omega

private theorem statusText_length (status : Int) (title : List Byte) :
    (statusText status title).length = 12 + (decimal status).length + title.length := by
  have e1 : (lit "HTTP/1.1").length = 8 := by decide
  have e2 : (lit " ").length = 1 := by decide
  have e3 : (lit "\r\n").length = 2 := by decide
  unfold statusText
  simp only [List.length_append, e1, e2, e3]
  omega

private theorem pageText_length (linger : Bool) (status : Int) (title form : List Byte) :
    (pageText linger status title form).length = 44 + (decimal status).length + title.length +
      (decimal form.length).length + (if linger then 10 else 5) + form.length := by
  unfold pageText
  rw [List.length_append, List.length_append, statusText_length, headersText_length]
  omega

/-- The text depends on the file status of a found file only. -/
theorem bufferText_congr {linger : Bool} {r r' : Resource} {ret : HttpState}
    (h : ret = .finishedRequest → r.fileStat = r'.fileStat) : bufferText linger r ret = bufferText linger r' ret := by
  unfold bufferText
  split
  · rfl
  · rfl
  · rfl
  · rfl
  · rw [h rfl]
  · rfl

theorem bufferText_file {linger : Bool} {r : Resource} {ret : HttpState} (hm : MapsFile r ret) :
    bufferText linger r ret = statusText 200 (lit "OK") ++ headersText linger (toInt32 r.fileStat.size) := by
  obtain ⟨rfl, h⟩ := hm
  exact if_pos h

/-- Every other response is a page. -/
theorem bufferText_page {r : Resource} {ret : HttpState} (linger : Bool) (ha : Answer ret) (hm : ¬ MapsFile r ret) :
    ∃ status title form, bufferText linger r ret = pageText linger status title form ∧ (decimal status).length = 3 ∧
      2 ≤ title.length ∧ title.length ≤ 14 ∧ 26 ≤ form.length ∧ form.length ≤ 72 ∧
      (decimal form.length).length = 2 := by
  rcases ha with rfl | rfl | rfl | rfl | rfl
  · exact ⟨_, _, _, rfl, by decide⟩
  · exact ⟨_, _, _, rfl, by decide⟩
  · exact ⟨_, _, _, rfl, by decide⟩
  · exact ⟨_, _, _, rfl, by decide⟩
  · exact ⟨_, _, _, if_neg fun h => hm ⟨rfl, h⟩, by decide⟩

private theorem bufferText_file_length (linger : Bool) {r : Resource} {ret : HttpState} (hm : MapsFile r ret) :
    (bufferText linger r ret).length ≤ 60 + (if linger then 10 else 5) ∧ 0 < (bufferText linger r ret).length := by
  have hb := toInt32_bounds r.fileStat.size
  have hd := decimal_length_le hb.1 (Int.le_of_lt hb.2)
  have e : (statusText 200 (lit "OK")).length = 17 := by decide
  rw [bufferText_file hm, List.length_append, headersText_length, e]
  omega

private theorem bufferText_page_length (linger : Bool) {r : Resource} {ret : HttpState} (ha : Answer ret)
    (hm : ¬ MapsFile r ret) :
    76 + (if linger then 10 else 5) < (bufferText linger r ret).length ∧ (bufferText linger r ret).length ≤ 200 := by
  obtain ⟨status, title, form, he, h1, h2, h3, h4, h5, h6⟩ := bufferText_page linger ha hm
  rw [he, pageText_length, h1, h6]
  cases linger <;> simp only [if_true, Bool.false_eq_true, if_false] <;> omega

theorem bufferText_length_le (linger : Bool) (r : Resource) {ret : HttpState} (ha : Answer ret) :
    (bufferText linger r ret).length ≤ 200 := by
  by_cases hm : MapsFile r ret
  · have := (bufferText_file_length linger hm).1
    cases linger <;> simp only [if_true, Bool.false_eq_true, if_false] at this <;> omega
  · exact (bufferText_page_length linger ha hm).2

theorem bufferText_pos (linger : Bool) (r : Resource) {ret : HttpState} (ha : Answer ret) :
    0 < (bufferText linger r ret).length := by
  by_cases hm : MapsFile r ret
  · exact (bufferText_file_length linger hm).2
  · have := (bufferText_page_length linger ha hm).1
    omega

/-- The text of a file response is shorter than that of any page. -/
theorem bufferText_lt {r r' : Resource} {ret ret' : HttpState} (linger : Bool) (ha : Answer ret')
    (hm : MapsFile r ret) (hm' : ¬ MapsFile r' ret') :
    (bufferText linger r ret).length < (bufferText linger r' ret').length := by
  have h1 := (bufferText_file_length linger hm).1
  have h2 := (bufferText_page_length linger ha hm').1
  omega

/-- The iovec of the file is set and counted when there is one. -/
def setFile (w : Writer) (r : Resource) (ret : HttpState) : Writer :=
  if MapsFile r ret then
    { w with
      iv1 := ⟨.file r.fileAddress 0, r.fileStat.size⟩, ivCount := w.ivCount + 1,
      bytesToSend := toInt32 r.fileStat.size }
  else w

/-- With an empty write buffer `write_to_buffer_` succeeds on every answer. -/
theorem writeToBuffer_eq {w : Writer} (linger : Bool) (r : Resource) {ret : HttpState} (hw : w.writeIdx = 0)
    (ha : Answer ret) :
    ∃ w', w.writeToBuffer_ linger r ret = some (true, (w'.setFile r ret).offerBuffer) ∧
      Appended w (bufferText linger r ret) w' := by
  have hlen := bufferText_length_le linger r ha
  have hfit : w.writeIdx + (bufferText linger r ret).length + 1 < WRITE_BUFFER_SIZE := by
    rw [hw]
    show _ < 1024
    omega
  have page : ∀ {status title form}, bufferText linger r ret = pageText linger status title form →
      ∃ w', w.addPage linger status title form = some (true, w') ∧ Appended w (bufferText linger r ret) w' := by
    intro status title form e
    rw [e] at hfit ⊢
    exact addPage_eq hfit
  rcases ha with rfl | rfl | rfl | rfl | rfl
  · obtain ⟨w', h, a⟩ := page rfl
    exact ⟨w', by unfold writeToBuffer_; dsimp only; rw [h]; rfl, a⟩
  · obtain ⟨w', h, a⟩ := page rfl
    exact ⟨w', by unfold writeToBuffer_; dsimp only; rw [h]; rfl, a⟩
  · obtain ⟨w', h, a⟩ := page rfl
    exact ⟨w', by unfold writeToBuffer_; dsimp only; rw [h]; rfl, a⟩
  · obtain ⟨w', h, a⟩ := page rfl
    exact ⟨w', by unfold writeToBuffer_; dsimp only; rw [h]; rfl, a⟩
  · by_cases hs : r.fileStat.size ≠ 0
    · have hm : MapsFile r .finishedRequest := ⟨rfl, hs⟩
      have e : bufferText linger r .finishedRequest =
          statusText 200 (lit "OK") ++ headersText linger (toInt32 r.fileStat.size) := if_pos hs
      rw [e, List.length_append] at hfit
      obtain ⟨w₁, h₁, a₁⟩ := addStatus_eq w 200 (lit "OK") (by omega)
      have i₁ := a₁.writeIdx_eq
      obtain ⟨w₂, h₂, a₂⟩ := addHeaders_eq w₁ linger (toInt32 r.fileStat.size) (by omega)
      refine ⟨w₂, ?_, e ▸ a₁.trans a₂⟩
      unfold writeToBuffer_ setFile
      dsimp only
      rw [if_pos hs, if_pos hm, h₁]
      simp only [Option.bind_eq_bind, Option.bind_some]
      rw [h₂]
      rfl
    · have hm : ¬ MapsFile r .finishedRequest := fun h => hs h.2
      obtain ⟨w', h, a⟩ := page (if_neg hs)
      refine ⟨w', ?_, a⟩
      unfold writeToBuffer_ setFile
      dsimp only
      rw [if_neg hs, if_neg hm, h]
      rfl

/-- The fields of the writer once the response is prepared, over what they were before. -/
structure Prepared (w : Writer) (linger : Bool) (r : Resource) (ret : HttpState) (w' : Writer) : Prop where
  writeIdx : w'.writeIdx = (bufferText linger r ret).length
  writeBuf : w'.writeBuf.bytes.take w'.writeIdx = bufferText linger r ret
  iv0 : w'.iv0 = ⟨.writeBuf 0, w'.writeIdx⟩
  haveSend : w'.bytesHaveSend = w.bytesHaveSend
  withFile : MapsFile r ret → w'.iv1 = ⟨.file r.fileAddress 0, r.fileStat.size⟩ ∧ w'.ivCount = w.ivCount + 2 ∧
    w'.bytesToSend = toInt32 r.fileStat.size + w'.writeIdx
  withoutFile : ¬ MapsFile r ret → w'.iv1 = w.iv1 ∧ w'.ivCount = w.ivCount + 1 ∧
    w'.bytesToSend = w.bytesToSend + w'.writeIdx

theorem writeToBuffer_prepared {w : Writer} (linger : Bool) (r : Resource) {ret : HttpState} (hw : w.writeIdx = 0)
    (ha : Answer ret) : ∃ w', w.writeToBuffer_ linger r ret = some (true, w') ∧ Prepared w linger r ret w' := by
  obtain ⟨w₁, h, b, rfl, hb⟩ := writeToBuffer_eq linger r hw ha
  refine ⟨_, h, ?_⟩
  rw [hw, List.take_zero, List.nil_append, Nat.zero_add] at hb
  by_cases hm : MapsFile r ret
  · simp only [setFile, if_pos hm, offerBuffer, hw, Nat.zero_add]
    exact ⟨rfl, hb, rfl, rfl, fun _ => ⟨rfl, rfl, rfl⟩, fun h => absurd hm h⟩
  · simp only [setFile, if_neg hm, offerBuffer, hw, Nat.zero_add]
    exact ⟨rfl, hb, rfl, rfl, fun h => absurd h hm, fun _ => ⟨rfl, rfl, rfl⟩⟩

theorem Prepared.iv0_bytes {w w' : Writer} {linger : Bool} {r : Resource} {ret : HttpState}
    (h : Prepared w linger r ret w') (ha : Answer ret) (live : FileAddress) :
    w'.iv0.bytes w' live = some (bufferText linger r ret) := by
  have hle := bufferText_length_le linger r ha
  have hpos := bufferText_pos linger r ha
  have hi := h.writeIdx
  have hsize : (200 : Nat) ≤ WRITE_BUFFER_SIZE := by decide
  rw [h.iv0, IoVec.bytes, if_neg (by dsimp only; omega)]
  dsimp only
  rw [if_pos ⟨Int.le_refl _, by omega, by omega⟩]
  simpa using h.writeBuf

theorem Prepared.lt_ivCount {w w' : Writer} {linger : Bool} {r : Resource} {ret : HttpState}
    (h : Prepared w linger r ret w') : w.ivCount < w'.ivCount := by
  by_cases hm : MapsFile r ret
  · have := (h.withFile hm).2.1
    omega
  · have := (h.withoutFile hm).2.1
    omega

theorem answer_of_writeToBuffer {w w' : Writer} {linger : Bool} {r : Resource} {ret : HttpState}
    (h : w.writeToBuffer_ linger r ret = some (true, w')) : Answer ret := by
  unfold Answer
  cases ret <;> simp [writeToBuffer_] at h ⊢

/-! ### The iovecs, whatever is in the write buffer already -/

/-- Formatting leaves `m_iv[1]` and the count. -/
private theorem addResponse_iv {w w' : Writer} {text : List Byte} {ok : Bool}
    (h : w.addResponse_ text = some (ok, w')) :
    w'.iv1 = w.iv1 ∧ w'.ivCount = w.ivCount := by
  unfold addResponse_ at h
  split at h
  · cases h
    exact ⟨rfl, rfl⟩
  · have full : ∀ {size : Nat} {buf : CharArray WRITE_BUFFER_SIZE}, (if size ≤ text.length then
          some (false, { w with writeBuf := buf }) else
          some (true, { w with writeBuf := buf, writeIdx := w.writeIdx + text.length })) = some (ok, w') →
        w'.iv1 = w.iv1 ∧ w'.ivCount = w.ivCount := by
      intro size buf h
      split at h <;> cases h <;> exact ⟨rfl, rfl⟩
    dsimp only at h
    split at h
    · exact full h
    · obtain ⟨buf, -, h⟩ := Option.bind_eq_some_iff.1 h
      exact full h

private theorem addHeaders_iv {w w' : Writer} {linger : Bool} {len : Int} (h : w.addHeaders_ linger len = some w') :
    w'.iv1 = w.iv1 ∧ w'.ivCount = w.ivCount := by
  obtain ⟨⟨_, w₁⟩, h₁, h⟩ := Option.bind_eq_some_iff.1 h
  obtain ⟨⟨_, w₂⟩, h₂, h⟩ := Option.bind_eq_some_iff.1 h
  obtain ⟨⟨_, w₃⟩, h₃, h⟩ := Option.bind_eq_some_iff.1 h
  cases h
  have e₁ := addResponse_iv h₁
  have e₂ := addResponse_iv h₂
  have e₃ := addResponse_iv h₃
  exact ⟨e₃.1.trans (e₂.1.trans e₁.1), e₃.2.trans (e₂.2.trans e₁.2)⟩

private theorem addPage_iv {w w' : Writer} {linger : Bool} {status : Int} {title form : List Byte} {ok : Bool}
    (h : w.addPage linger status title form = some (ok, w')) : w'.iv1 = w.iv1 ∧ w'.ivCount = w.ivCount := by
  obtain ⟨⟨_, w₁⟩, h₁, h⟩ := Option.bind_eq_some_iff.1 h
  obtain ⟨w₂, h₂, h⟩ := Option.bind_eq_some_iff.1 h
  have e₁ := addResponse_iv h₁
  have e₂ := addHeaders_iv h₂
  have e₃ := addResponse_iv h
  exact ⟨e₃.1.trans (e₂.1.trans e₁.1), e₃.2.trans (e₂.2.trans e₁.2)⟩

/-- `write_to_buffer_` sets `m_iv[1]` for a response with a file only, and never takes back what it has counted. -/
theorem writeToBuffer_iv {w w' : Writer} {linger : Bool} {r : Resource} {ret : HttpState}
    (h : w.writeToBuffer_ linger r ret = some (true, w')) :
    MapsFile r ret ∧ w'.iv1 = ⟨.file r.fileAddress 0, r.fileStat.size⟩ ∧ w'.ivCount = w.ivCount + 2 ∨
      ¬ MapsFile r ret ∧ w'.iv1 = w.iv1 ∧ w'.ivCount = w.ivCount + 1 := by
  have page : ∀ {status : Int} {title form : List Byte} {ok : Bool} {w₁ : Writer},
      w.addPage linger status title form = some (ok, w₁) → ¬ MapsFile r ret →
      (if ok then some (true, w₁.offerBuffer) else some (false, w₁)) = some (true, w') →
      MapsFile r ret ∧ w'.iv1 = ⟨.file r.fileAddress 0, r.fileStat.size⟩ ∧ w'.ivCount = w.ivCount + 2 ∨
      ¬ MapsFile r ret ∧ w'.iv1 = w.iv1 ∧ w'.ivCount = w.ivCount + 1 := by
    intro status title form ok w₁ hp hm hw
    obtain ⟨e₁, e₂⟩ := addPage_iv hp
    cases ok with
    | false => cases hw
    | true =>
      cases hw
      exact Or.inr ⟨hm, e₁, congrArg (· + 1) e₂⟩
  unfold writeToBuffer_ at h
  cases ret with
  | internalError | errorFormat | errorAccessFailed | errorFileNotFound =>
    obtain ⟨⟨ok, w₁⟩, h₁, h⟩ := Option.bind_eq_some_iff.1 h
    exact page h₁ (fun hm => by cases hm.1) h
  | finishedRequest =>
    dsimp only at h
    split at h
    · rename_i hsize
      obtain ⟨⟨_, w₂⟩, h₂, h⟩ := Option.bind_eq_some_iff.1 h
      obtain ⟨w₃, h₃, h⟩ := Option.bind_eq_some_iff.1 h
      cases h
      refine Or.inl ⟨⟨rfl, hsize⟩, rfl, ?_⟩
      show w₃.ivCount + 1 + 1 = _
      rw [(addHeaders_iv h₃).2, (addResponse_iv h₂).2]
    · rename_i hsize
      obtain ⟨⟨ok, w₁⟩, h₁, h⟩ := Option.bind_eq_some_iff.1 h
      exact page h₁ (fun hm => hsize hm.2) h
  | _ => cases h

end Writer

end ImageServer
