import ImageServer.Http.Delivery
import ImageServer.Http.Framing

/-!
# Reading the responses back

`readResponse` takes one response off a stream of bytes as a client does: the status, the header lines up to the empty
line, and as many bytes as `Content-Length` says.  Every response that a fresh handler offers is read back as what it
was made of, with exactly what follows it left (`offer_readsBack`).
-/

namespace ImageServer

open CLib Transition Writer

/-- A response as its receiver sees it. -/
structure Received where
  status : Nat
  keepAlive : Bool
  body : List Byte
deriving DecidableEq

/-- The header lines before the empty line, and what follows it. -/
def takeHeaders (s : List Byte) : Option (List (List Byte) × List Byte) :=
  match _h : takeLine s with
  | none => none
  | some (l, r) => if l = [] then some ([], r) else (takeHeaders r).map fun x => (l :: x.1, x.2)
termination_by s.length
decreasing_by exact takeLine_length ‹_›

/-- The value of the first header line with the name. -/
def headerNamed (name : List Byte) (hs : List (List Byte)) : Option (List Byte) :=
  (hs.find? (ciPrefix name ·)).map (headerValue name.length ·)

/-- Takes a response off the stream. -/
def readResponse (s : List Byte) : Option (Received × List Byte) := do
  let (l, s) ← takeLine s
  let (_, l) ← cut SP l
  let (status, _) ← cut SP l
  let (hs, s) ← takeHeaders s
  let len ← (headerNamed (lit "Content-Length:") hs).map digitsValue
  let connection ← headerNamed (lit "Connection:") hs
  if len ≤ s.length then return (⟨digitsValue status, ciPrefix (lit "keep-alive") connection, s.take len⟩, s.drop len)
  else none

/-! ### The lines of a response -/

private theorem takeHeaders_lines {hs : List (List Byte)} (rest : List Byte) (hh : HeaderLines hs) :
    takeHeaders (lines hs ++ CR :: LF :: rest) = some (hs, rest) := by
  induction hs with
  | nil =>
    have hempty : takeLine (CR :: LF :: rest) = some ([], rest) := takeLine_line (l := []) rest (by decide)
    rw [takeHeaders]
    split
    · rename_i h
      cases (show takeLine (CR :: LF :: rest) = none from h).symm.trans hempty
    · rename_i l r h
      cases (show takeLine (CR :: LF :: rest) = some (l, r) from h).symm.trans hempty
      rfl
  | cons h hs ih =>
    obtain ⟨hp, h0⟩ := hh h List.mem_cons_self
    have hline := takeLine_line (lines hs ++ CR :: LF :: rest) hp
    rw [lines_cons, takeHeaders]
    split
    · rename_i hn
      cases hn.symm.trans hline
    · rename_i l r hs'
      cases hs'.symm.trans hline
      rw [if_neg h0, ih fun h hm => hh h (List.mem_cons_of_mem _ hm)]
      rfl

private theorem sp_not_mem_decimal (n : Nat) : SP ∉ decimal n := fun h => absurd (isDigit_of_mem_decimal h) (by decide)

/-- The header block is its two lines and the empty one. -/
private theorem headersText_eq (linger : Bool) (n : Nat) (rest : List Byte) :
    headersText linger n ++ rest =
      lines [lit "Content-Length:" ++ decimal n,
        lit "Connection:" ++ if linger then lit "keep-alive" else lit "close"] ++ CR :: LF :: rest := by
  have hcrlf : lit "\r\n" = [CR, LF] := by decide
  simp [headersText, lines, hcrlf]

private theorem headerValue_decimal (n : Nat) : headerValue 15 (lit "Content-Length:" ++ decimal n) = decimal n := by
  have hlen : (lit "Content-Length:").length = 15 := by decide
  unfold headerValue
  rw [← hlen, List.drop_left]
  rcases hd : decimal (n : Int) with _ | ⟨b, ds⟩
  · rfl
  · have hb : isDigit b = true := isDigit_of_mem_decimal (n := n) (by rw [hd]; exact List.mem_cons_self)
    rw [List.dropWhile_cons_of_neg]
    intro hblank
    rcases List.mem_cons.1 (of_decide_eq_true hblank) with rfl | h
    · exact absurd hb (by decide)
    · rw [List.mem_singleton.1 h] at hb
      exact absurd hb (by decide)

/-- What the status line and the headers announce is read back, and the body is as long as they say. -/
private theorem readResponse_text (status : Nat) {title : List Byte} (linger : Bool) (body tail : List Byte)
    (ht : Plain title) :
    readResponse (statusText status title ++ headersText linger body.length ++ body ++ tail) =
      some (⟨status, linger, body⟩, tail) := by
  have hcrlf : lit "\r\n" = [CR, LF] := by decide
  have hsp : lit " " = [SP] := by decide
  have hstatus : statusText status title ++ headersText linger body.length ++ body ++ tail =
      (lit "HTTP/1.1" ++ SP :: (decimal status ++ SP :: title)) ++
        CR :: LF :: (headersText linger body.length ++ (body ++ tail)) := by
    simp [statusText, hcrlf, hsp]
  have hline : Plain (lit "HTTP/1.1" ++ SP :: (decimal status ++ SP :: title)) := by
    have hcons : ∀ l : List Byte, Plain l → Plain (SP :: l) := fun l hl => Plain.append (a := [SP]) (by decide) hl
    exact .append (by decide) (hcons _ (.append (plain_decimal status) (hcons _ ht)))
  have hheaders : HeaderLines [lit "Content-Length:" ++ decimal body.length,
      lit "Connection:" ++ if linger then lit "keep-alive" else lit "close"] := by
    intro h hm
    rcases List.mem_cons.1 hm with rfl | hm
    · exact ⟨.append (by decide) (plain_decimal _), by simp [lit]⟩
    · rw [List.mem_singleton.1 hm]
      cases linger <;> exact ⟨by decide, by decide⟩
  have hfind : headerNamed (lit "Content-Length:") [lit "Content-Length:" ++ decimal body.length,
      lit "Connection:" ++ if linger then lit "keep-alive" else lit "close"] = some (decimal body.length) := by
    unfold headerNamed
    rw [List.find?_cons, ciPrefix_append (decide_eq_true rfl)]
    exact congrArg some (headerValue_decimal _)
  have hconn : headerNamed (lit "Connection:") [lit "Content-Length:" ++ decimal body.length,
      lit "Connection:" ++ if linger then lit "keep-alive" else lit "close"] =
        some (if linger then lit "keep-alive" else lit "close") := by
    have hother : ciPrefix (lit "Connection:") (lit "Content-Length:" ++ decimal body.length) = false := by
      unfold ciPrefix
      rw [List.take_append_of_le_length (by decide)]
      decide
    unfold headerNamed
    rw [List.find?_cons, hother]
    dsimp only
    rw [List.find?_cons, ciPrefix_append (decide_eq_true rfl)]
    cases linger <;> rfl
  unfold readResponse
  rw [hstatus, takeLine_line _ hline, headersText_eq]
  simp only [Option.bind_eq_bind, Option.bind_some]
  rw [cut_append _ (by decide)]
  simp only [Option.bind_some]
  rw [cut_append _ (sp_not_mem_decimal status)]
  simp only [Option.bind_some]
  rw [takeHeaders_lines _ hheaders]
  simp only [Option.bind_some, hfind, hconn, Option.map_some, digitsValue_decimal]
  rw [if_pos (by simp), List.take_left, List.drop_left]
  cases linger <;> rfl

/-! ### The responses -/

/-- The status and the body of the response for a result of `parse_`. -/
def answerOf (r : Resource) : HttpState → Nat × List Byte
  | .internalError => (500, lit "There was an unusual problem serving the request file.\n")
  | .errorFormat => (400, lit "Your request has bad syntax or is inherently impossible to staisfy.\n")
  | .errorAccessFailed => (403, lit "You do not have permission to get file form this server.\n")
  | .errorFileNotFound => (404, lit "The requested file was not found on this server.\n")
  | .finishedRequest => (200, if r.fileStat.size ≠ 0 then body r .finishedRequest else placeholder)
  | _ => (0, [])

/-- A response, with the file behind it, is a status line, the two headers and the body they announce. -/
private theorem response_text {r : Resource} {ret : HttpState} (linger : Bool) (ha : Answer ret)
    (hf : MapsFile r ret → (body r ret).length = r.fileStat.size ∧ r.fileStat.size < 2 ^ 31) :
    ∃ title, Plain title ∧ bufferText linger r ret ++ body r ret =
      statusText (answerOf r ret).1 title ++ headersText linger (answerOf r ret).2.length ++ (answerOf r ret).2 := by
  have hpage : ∀ {ret}, ¬ MapsFile r ret → bufferText linger r ret ++ body r ret = bufferText linger r ret := by
    intro ret hm
    rw [show body r ret = [] from if_neg hm, List.append_nil]
  rcases ha with rfl | rfl | rfl | rfl | rfl
  · exact ⟨lit "Internal Error", by decide, hpage (by simp [MapsFile])⟩
  · exact ⟨lit "Bad Request", by decide, hpage (by simp [MapsFile])⟩
  · exact ⟨lit "Forbidden", by decide, hpage (by simp [MapsFile])⟩
  · exact ⟨lit "Not Found", by decide, hpage (by simp [MapsFile])⟩
  · refine ⟨lit "OK", by decide, ?_⟩
    by_cases hm : r.fileStat.size ≠ 0
    · obtain ⟨hlen, hlt⟩ := hf ⟨rfl, hm⟩
      rw [bufferText_file ⟨rfl, hm⟩, toInt32_natCast hlt, answerOf, if_pos hm, hlen]
      rfl
    · rw [hpage fun h => hm h.2, answerOf, if_neg hm, bufferText, if_neg hm]
      rfl

/-- A response of a fresh handler is read back as its status, the connection's fate and its body, and exactly what
follows it is left. -/
theorem offer_readsBack {h₀ h : HttpHandler} {ret : HttpState} (hw : h₀.toWriter = Writer.zero.init_)
    (hp : h₀.writeToBuffer_ ret = some (true, h)) (hf : FileReady h₀.toResource ret h) :
    ∃ bs, h.offer = some bs ∧ ∀ tail, readResponse (bs ++ tail) =
      some (⟨(answerOf h₀.toResource ret).1, h₀.linger, (answerOf h₀.toResource ret).2⟩, tail) := by
  obtain ⟨ha, w, hh, hr⟩ := prepared_of_writeToBuffer (show h₀.toWriter.writeIdx = 0 by rw [hw]; rfl) hp
  obtain ⟨-, hlen, hsync⟩ := synced_start hw hp hf
  obtain ⟨base, hbase, -, hwindow⟩ := hsync.window
  have htext : h.header = bufferText h₀.linger h₀.toResource ret := by rw [hh]; exact hr.writeBuf
  have hoffer := hwindow.offer hsync.loaded
  rw [Nat.le_zero.1 hbase, List.drop_zero, htext] at hoffer
  refine ⟨_, hoffer, fun tail => ?_⟩
  have hfile : MapsFile h₀.toResource ret →
      (body h₀.toResource ret).length = h₀.toResource.fileStat.size ∧ h₀.toResource.fileStat.size < 2 ^ 31 := by
    intro hm
    obtain ⟨f, hfa, hfl⟩ := hf.mapped hm
    have hbody : body h₀.toResource ret = f := by
      unfold body
      rw [if_pos hm, hfa]
    have hsmall := hf.small
    rw [hbody] at hsmall ⊢
    exact ⟨hfl, by omega⟩
  obtain ⟨title, hplain, he⟩ := response_text h₀.linger ha hfile
  rw [he, readResponse_text _ _ _ _ hplain]

theorem offer_readsBack_threeBytes :
    ∃ h bs, { HttpHandler.fresh 5 none .httpClient none with
        toParser := Parser.zero.init_, toResource := threeBytes }.writeToBuffer_ .finishedRequest = some (true, h) ∧
      h.offer = some bs ∧ ∀ tail, readResponse (bs ++ tail) = some (⟨200, true, [1, 2, 3]⟩, tail) := by
  have hlen : ({ HttpHandler.fresh 5 none .httpClient none with
      toParser := Parser.zero.init_, toResource := threeBytes }.writeToBuffer_ .finishedRequest).map
        (fun x : Bool × HttpHandler => (x.1, x.2.writeIdx)) = some (true, 60) := by decide +kernel
  obtain ⟨⟨ok, h⟩, hp, hx⟩ := Option.map_eq_some_iff.1 hlen
  obtain ⟨rfl, hi⟩ := Prod.mk.inj hx
  dsimp only at hi
  obtain ⟨bs, ho, hread⟩ := offer_readsBack rfl hp ⟨fun _ => ⟨_, rfl, rfl⟩, by rw [hi]; decide⟩
  exact ⟨h, bs, hp, ho, hread⟩

end ImageServer
