import ImageServer.Http.Handler

/-!
# Preparing and sending a response

`write_to_buffer_` formats the header block (and a short page) into `m_write_buf` and sets up `m_iv`;
`write_to_fd_` offers `m_iv` to the socket until the counters say the response is out.  `offered` gives the bytes
an array of iovecs designates; it has no value when one of them lies outside `m_write_buf` or the live mapping, or
when the count exceeds the two elements of `m_iv`.
-/

namespace ImageServer

open CLib

/-! ### Formatting -/

namespace Writer

/-- `add_response_` for the formatted text: `vsnprintf` writes what fits, with a NUL, and returns the full
length. -/
def addResponse_ (w : Writer) (text : List Byte) : Option (Bool × Writer) := do
  if WRITE_BUFFER_SIZE ≤ w.writeIdx then return (false, w)
  let size := WRITE_BUFFER_SIZE - 1 - w.writeIdx
  let buf ← if size = 0 then some w.writeBuf else w.writeBuf.copy w.writeIdx (text.take (size - 1) ++ [0])
  if size ≤ text.length then return (false, { w with writeBuf := buf })
  else return (true, { w with writeBuf := buf, writeIdx := w.writeIdx + text.length })

/-- `add_status_`. -/
def addStatus_ (w : Writer) (status : Int) (title : List Byte) : Option (Bool × Writer) :=
  w.addResponse_ (lit "HTTP/1.1" ++ lit " " ++ decimal status ++ lit " " ++ title ++ lit "\r\n")

/-- `add_content_length_`. -/
def addContentLength_ (w : Writer) (contentLen : Int) : Option (Bool × Writer) :=
  w.addResponse_ (lit "Content-Length:" ++ decimal contentLen ++ lit "\r\n")

/-- `add_linger_`. -/
def addLinger_ (w : Writer) (linger : Bool) : Option (Bool × Writer) :=
  w.addResponse_ (lit "Connection:" ++ (if linger then lit "keep-alive" else lit "close") ++ lit "\r\n")

/-- `add_clrf_`. -/
def addClrf_ (w : Writer) : Option (Bool × Writer) := w.addResponse_ (lit "\r\n")

/-- `add_headers_`: the results of the three parts are ignored. -/
def addHeaders_ (w : Writer) (linger : Bool) (contentLen : Int) : Option Writer := do
  let (_, w) ← w.addContentLength_ contentLen
  let (_, w) ← w.addLinger_ linger
  let (_, w) ← w.addClrf_
  return w

/-- `add_content_`. -/
def addContent_ (w : Writer) (content : List Byte) : Option (Bool × Writer) := w.addResponse_ content

/-- A response held in `m_write_buf` altogether: status line, headers and a page. -/
def addPage (w : Writer) (linger : Bool) (status : Int) (title form : List Byte) : Option (Bool × Writer) := do
  let (_, w) ← w.addStatus_ status title
  let w ← w.addHeaders_ linger form.length
  w.addContent_ form

/-- The common end of `write_to_buffer_`. -/
def offerBuffer (w : Writer) : Writer :=
  { w with iv0 := ⟨.writeBuf 0, w.writeIdx⟩, ivCount := w.ivCount + 1, bytesToSend := w.bytesToSend + w.writeIdx }

/-- `write_to_buffer_`. -/
def writeToBuffer_ (w : Writer) (linger : Bool) (r : Resource) (ret : HttpState) : Option (Bool × Writer) := do
  let (ok, w) ← match ret with
    | .internalError =>
      w.addPage linger 500 (lit "Internal Error")
        (lit "There was an unusual problem serving the request file.\n")
    | .errorFormat =>
      w.addPage linger 400 (lit "Bad Request")
        (lit "Your request has bad syntax or is inherently impossible to staisfy.\n")
    | .errorAccessFailed =>
      w.addPage linger 403 (lit "Forbidden")
        (lit "You do not have permission to get file form this server.\n")
    | .errorFileNotFound =>
      w.addPage linger 404 (lit "Not Found") (lit "The requested file was not found on this server.\n")
    | .finishedRequest =>
      if r.fileStat.size ≠ 0 then do
        let (_, w) ← w.addStatus_ 200 (lit "OK")
        let w ← w.addHeaders_ linger (toInt32 r.fileStat.size)
        some (true, { w with
          iv1 := ⟨.file r.fileAddress 0, r.fileStat.size⟩, ivCount := w.ivCount + 1,
          bytesToSend := toInt32 r.fileStat.size })
      else w.addPage linger 200 (lit "OK") (lit "<html><body></body></html>")
    | _ => some (false, w)
  if ok then return (true, w.offerBuffer) else return (false, w)

end Writer

/-! ### The bytes offered -/

/-- The bytes of an iovec. -/
def IoVec.bytes (v : IoVec) (w : Writer) (live : FileAddress) : Option (List Byte) :=
  if v.len = 0 then some []
  else
    match v.base with
    | .null => none
    | .writeBuf off =>
      if 0 ≤ off ∧ 0 ≤ v.len ∧ off + v.len ≤ WRITE_BUFFER_SIZE then
        some ((w.writeBuf.bytes.drop off.toNat).take v.len.toNat)
      else none
    | .file (.mapped f) off =>
      if live = .mapped f ∧ 0 ≤ off ∧ 0 ≤ v.len ∧ off + v.len ≤ f.length then
        some ((f.drop off.toNat).take v.len.toNat)
      else none
    | .file _ _ => none

/-- The bytes `m_iv` and `m_iv_count` offer to the write call. -/
def offered (w : Writer) (live : FileAddress) : Option (List Byte) :=
  match w.ivCount with
  | 0 => some []
  | 1 => w.iv0.bytes w live
  | 2 => (w.iv0.bytes w live).bind fun a => (w.iv1.bytes w live).map (a ++ ·)
  | _ => none

/-! ### Sending -/

/-- The result of `writev` or `SSL_writev`: a positive count, 0, or -1 with `EAGAIN` or another `errno`. -/
inductive WriteResult
  | count (n : Nat)
  | zero
  | again
  | fail
deriving DecidableEq

/-- What an iteration of `write_to_fd_` does: go on, or return, from a finished response or after `close()`. -/
inductive WriteNext
  | again (h : HttpHandler) (newadd : Int)
  | finished (h : HttpHandler)
  | closing (h : HttpHandler)

namespace HttpHandler

/-- The update of `m_iv` after `EAGAIN`. -/
def adjustIov (h : HttpHandler) (newadd : Int) : HttpHandler :=
  if h.iv0.len ≤ h.bytesHaveSend then
    -- taken for: the header block is out
    { h with iv0 := { h.iv0 with len := 0 }, iv1 := ⟨.file h.fileAddress newadd, h.bytesToSend⟩ }
  else
    -- the address is `m_write_buf + bytes_to_send`, the length is reduced by `bytes_have_send`
    { h with iv0 := ⟨.writeBuf h.bytesToSend, h.iv0.len - h.bytesHaveSend⟩ }

/-- One iteration of `write_to_fd_`, for the result of its write call. -/
def writeStep (h : HttpHandler) (newadd : Int) : WriteResult → WriteNext
  | .count n =>
    -- an offset in the file, negative as long as the header block is not out
    let newadd := h.bytesHaveSend + n - h.writeIdx
    let h := { h with bytesHaveSend := h.bytesHaveSend + n, bytesToSend := h.bytesToSend - n }
    if h.bytesToSend ≤ 0 then
      if h.linger then .finished h.unmap.init_ else .closing h.unmap
    else .again h newadd
  | .zero => .again h newadd
  | .again => .again (h.adjustIov newadd) newadd
  | .fail => .closing h

/-- An iteration that goes on has changed the writer only. -/
theorem writeStep_again {h h' : HttpHandler} {newadd newadd' : Int} {r : WriteResult}
    (hs : h.writeStep newadd r = .again h' newadd') :
    ∃ w, h' = { h with toWriter := w } ∧ w.ivCount = h.ivCount := by
  cases r with
  | count n =>
    unfold writeStep at hs
    dsimp only at hs
    split at hs
    · split at hs <;> cases hs
    · cases hs
      exact ⟨_, rfl, rfl⟩
  | zero => cases hs; exact ⟨_, rfl, rfl⟩
  | again =>
    cases hs
    unfold adjustIov
    split
    · exact ⟨_, rfl, rfl⟩
    · exact ⟨_, rfl, rfl⟩
  | fail => cases hs

/-- A finished response leaves the handler to `init_`. -/
theorem writeStep_finished {h h' : HttpHandler} {newadd : Int} {r : WriteResult}
    (hs : h.writeStep newadd r = .finished h') :
    h.linger = true ∧ ∃ w, h' = { h.unmap with toWriter := w }.init_ ∧ w.ivCount = h.ivCount ∧ w.iv1 = h.iv1 := by
  cases r with
  | count n =>
    unfold writeStep at hs
    dsimp only at hs
    split at hs
    · split at hs
      · cases hs
        exact ⟨‹_›, _, rfl, rfl, rfl⟩
      · cases hs
    · cases hs
  | zero => cases hs
  | again => cases hs
  | fail => cases hs

/-- Nothing but the writer and the mapping has changed when the connection is to be closed. -/
theorem writeStep_closing {h h' : HttpHandler} {newadd : Int} {r : WriteResult}
    (hs : h.writeStep newadd r = .closing h') :
    ∃ a w, h' = { h with fileAddress := a, toWriter := w } ∧ w.ivCount = h.ivCount := by
  cases r with
  | count n =>
    unfold writeStep at hs
    dsimp only at hs
    split at hs
    · split at hs
      · cases hs
      · cases hs
        exact ⟨_, _, rfl, rfl⟩
    · cases hs
  | zero => cases hs
  | again => cases hs
  | fail => cases hs; exact ⟨_, _, rfl, rfl⟩

end HttpHandler

end ImageServer
