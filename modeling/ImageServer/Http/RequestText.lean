import ImageServer.Http.Assembly

/-!
# What a client writes is what the handler holds

A request as a client states it (`ClientRequest`), and the bytes it writes for it.  When these arrive without a gap and
nine bytes or more come behind them, the handler then holds the method, the path, the word of each header and the body
the client has stated (`request_roundTrip`).
-/

namespace ImageServer

open CLib Transition

/-- The name of a header whose value is stored. -/
def nameOf (f : Parser.Field) : List Byte := (Parser.fieldNames.lookup f).getD []

def methodText (m : Method) : List Byte := (methodNames.lookup m).getD []

/-- A request as a client states it: a word for each header, with the path and the words free of blanks. -/
structure ClientRequest where
  method : Method
  path : List Byte
  headers : List (Parser.Field × List Byte)
  keepAlive : Bool
  body : List Byte
  taken : (methodNames.lookup method).isSome
  pathHead : path.head? = some SLASH
  pathPlain : Plain path ∧ SP ∉ path
  words : ∀ x ∈ headers, Plain x.2 ∧ ∀ b ∈ x.2, ¬ IsBlank b
  bodySmall : body.length < 2 ^ 31

namespace ClientRequest

/-- The header line for a word. -/
def fieldLine (x : Parser.Field × List Byte) : List Byte := nameOf x.1 ++ SP :: x.2

/-- The header lines. -/
def headerLines (q : ClientRequest) : List (List Byte) :=
  q.headers.map fieldLine ++ ((if q.keepAlive then [] else [lit "Connection: close"]) ++
    if q.body = [] then [] else [lit "Content-length: " ++ decimal q.body.length])

def requestLine (q : ClientRequest) : List Byte := methodText q.method ++ SP :: (q.path ++ SP :: lit "HTTP/1.1")

/-- What the client writes. -/
def text (q : ClientRequest) : List Byte := q.requestLine ++ CR :: LF :: (lines q.headerLines ++ CR :: LF :: q.body)

/-- The word of a header: that of the last one with its name. -/
def word (q : ClientRequest) (f : Parser.Field) : Option (List Byte) :=
  q.headers.foldl (fun w x => if x.1 = f then some x.2 else w) none

/-! ### The lines -/

private theorem nameOf_mem (f : Parser.Field) : (f, nameOf f) ∈ Parser.fieldNames := by cases f <;> decide +kernel

private theorem plain_nameOf (f : Parser.Field) : Plain (nameOf f) := by cases f <;> decide +kernel

/-- The line of a header is one of this header and of no other name. -/
private theorem fieldLine_other (x : Parser.Field × List Byte) {s : List Byte}
    (hs : s ∈ [lit "Connection:", lit "Content-length:"]) : ciPrefix s (fieldLine x) = false := by
  have hp : ciPrefix (nameOf x.1) (fieldLine x) = true := ciPrefix_append (decide_eq_true rfl) _
  exact Bool.eq_false_iff.2 fun h => Parser.fieldNames_other _ (nameOf_mem x.1) s hs (ciPrefix_agree hp h)

private theorem fieldLine_find (x : Parser.Field × List Byte) :
    Parser.fieldNames.find? (fun y => ciPrefix y.2 (fieldLine x)) = some (x.1, nameOf x.1) := by
  have hp : ciPrefix (nameOf x.1) (fieldLine x) = true := ciPrefix_append (decide_eq_true rfl) _
  rcases hf : Parser.fieldNames.find? (fun y => ciPrefix y.2 (fieldLine x)) with _ | y
  · exact absurd hp (by simpa using List.find?_eq_none.1 hf _ (nameOf_mem x.1))
  · have hy := List.find?_some (p := fun y : Parser.Field × List Byte => ciPrefix y.2 (fieldLine x)) hf
    exact hf.trans (congrArg some
      (Parser.fieldNames_apart _ (List.mem_of_find?_eq_some hf) _ (nameOf_mem x.1) (ciPrefix_agree hy hp)))

/-- The word of a header line is stored. -/
private theorem storedWord_fieldLine {x : Parser.Field × List Byte} (hx : ∀ b ∈ x.2, ¬ IsBlank b) :
    Parser.storedWord (fieldLine x) = some x := by
  have hvalue : headerValue (nameOf x.1).length (fieldLine x) = x.2 := by
    unfold headerValue fieldLine
    rw [List.drop_left, List.dropWhile_cons_of_pos (by decide)]
    rcases hw : x.2 with _ | ⟨b, w⟩
    · rfl
    · rw [List.dropWhile_cons_of_neg]
      simpa [IsBlank] using hx b (by rw [hw]; exact List.mem_cons_self)
  have hno : ¬ (ciPrefix (lit "Connection:") (fieldLine x) = true ∨ IsContentLength (fieldLine x)) := by
    rintro (h | h)
    · rw [fieldLine_other x (by simp)] at h
      cases h
    · rw [IsContentLength, fieldLine_other x (by simp)] at h
      cases h
  have hword : x.2.takeWhile (· ∉ [SP, HT]) = x.2 :=
    List.takeWhile_eq_self_iff.2 fun b hb => decide_eq_true (p := b ∉ [SP, HT]) (hx b hb)
  unfold Parser.storedWord
  rw [if_neg hno, fieldLine_find, Option.map_some, hvalue, hword]

private theorem readHeader_fieldLine (y : HeadState) (x : Parser.Field × List Byte) :
    readHeader y (fieldLine x) = some y := by
  unfold readHeader
  rw [fieldLine_other x (by simp), if_neg (by decide), if_neg]
  rw [IsContentLength, fieldLine_other x (by simp)]
  decide

/-- The header that announces the body. -/
private theorem lengthLine (n : Nat) (hn : n < 2 ^ 31) :
    IsContentLength (lit "Content-length: " ++ decimal n) ∧ WellFormedLength (lit "Content-length: " ++ decimal n) ∧
      lengthValue (lit "Content-length: " ++ decimal n) = n := by
  have hsplit : lit "Content-length: " ++ decimal n = lit "Content-length:" ++ (SP :: decimal n) := by
    have : lit "Content-length: " = lit "Content-length:" ++ [SP] := by decide
    rw [this, List.append_assoc, List.singleton_append]
  have hdrop : (lit "Content-length: " ++ decimal n).drop 15 = SP :: decimal n := by
    rw [hsplit, List.drop_left' (by decide)]
  have hdigits : ∀ b ∈ decimal (n : Int), isDigit b = true := fun b hb => isDigit_of_mem_decimal hb
  have hblank : ∀ b ∈ [SP], IsBlank b := by
    intro b hb
    rw [List.mem_singleton.1 hb]
    exact List.mem_cons_self
  refine ⟨by rw [IsContentLength, hsplit]; exact ciPrefix_append (decide_eq_true rfl) _,
    ⟨[SP], decimal n, [], by rw [hdrop, List.append_nil]; rfl, hblank, hdigits, by simp,
      by rwa [digitsValue_decimal]⟩, ?_⟩
  have htrim : (decimal (n : Int)).dropWhile (fun b => decide (b ∈ [SP, HT])) = decimal (n : Int) := by
    rcases hd : decimal (n : Int) with _ | ⟨b, ds⟩
    · rfl
    · rw [List.dropWhile_cons_of_neg]
      have hb := not_blank_of_digit (hdigits b (by rw [hd]; exact List.mem_cons_self))
      simpa [IsBlank] using hb
  rw [lengthValue, headerValue, hdrop, List.dropWhile_cons_of_pos (by decide), htrim,
    List.takeWhile_eq_self_iff.2 hdigits, digitsValue_decimal]

variable (q : ClientRequest)

private theorem headerLines_plain : HeaderLines q.headerLines := by
  intro h hm
  rcases List.mem_append.1 hm with hm | hm
  · obtain ⟨x, hx, rfl⟩ := List.mem_map.1 hm
    obtain ⟨hw, -⟩ := q.words x hx
    have hcons : Plain (SP :: x.2) := Plain.append (a := [SP]) (by decide) hw
    exact ⟨Plain.append (plain_nameOf x.1) hcons, by simp [fieldLine]⟩
  rcases List.mem_append.1 hm with hm | hm
  · split at hm
    · cases hm
    · rw [List.mem_singleton.1 hm]
      exact ⟨by decide, by decide⟩
  · split at hm
    · cases hm
    · rw [List.mem_singleton.1 hm]
      exact ⟨Plain.append (by decide) (plain_decimal _), by simp [lit]⟩

/-- What the header lines set. -/
private theorem readHeaders_headerLines {errno : Errno} (he : errno ≠ .einval) :
    readHeaders ⟨0, true, errno⟩ q.headerLines = some ⟨q.body.length, q.keepAlive, errno⟩ := by
  have hfields : ∀ (xs : List (Parser.Field × List Byte)) (y : HeadState) (ls : List (List Byte)),
      readHeaders y (xs.map fieldLine ++ ls) = readHeaders y ls := by
    intro xs y ls
    induction xs with
    | nil => rfl
    | cons x xs ih =>
      rw [List.map_cons, List.cons_append, readHeaders, List.foldlM_cons, readHeader_fieldLine]
      exact ih
  have hclose : ∀ y : HeadState, readHeader y (lit "Connection: close") = some { y with linger := false } :=
    fun y => rfl
  have hlength : ∀ linger, readHeader ⟨0, linger, errno⟩ (lit "Content-length: " ++ decimal q.body.length) =
      some ⟨q.body.length, linger, errno⟩ := by
    intro linger
    obtain ⟨hc, hw, hv⟩ := lengthLine q.body.length q.bodySmall
    have hread := (strtolText_wellFormed hw).1
    unfold readHeader
    rw [if_neg (not_connection hc), if_pos hc, hread, hv]
    simp only [Bool.false_eq_true, if_false]
    rw [if_neg he, toInt32_natCast q.bodySmall]
  unfold headerLines
  rw [hfields]
  rcases hk : q.keepAlive with _ | _ <;> rcases hb : q.body with _ | ⟨b, bs⟩
  · rfl
  · have := hlength false
    rw [hb] at this
    simp only [readHeaders, Bool.false_eq_true, if_false, reduceCtorEq, List.singleton_append, List.foldlM_cons,
      List.foldlM_nil, hclose, Option.bind_eq_bind, Option.bind_some, this]
    rfl
  · rfl
  · have := hlength true
    rw [hb] at this
    simp only [readHeaders, if_true, reduceCtorEq, if_false, List.nil_append, List.foldlM_cons, List.foldlM_nil,
      Option.bind_eq_bind, this, Option.bind_some]
    rfl

/-- The word that is kept for a header is the one the client has stated last. -/
private theorem keptWord_headerLines (f : Parser.Field) : Parser.keptWord f q.headerLines = q.word f := by
  have hno : ∀ l, (ciPrefix (lit "Connection:") l = true ∨ IsContentLength l) → Parser.storedWord l = none :=
    fun l hl => if_pos hl
  have hrest : ∀ w, ((if q.keepAlive then [] else [lit "Connection: close"]) ++
      if q.body = [] then [] else [lit "Content-length: " ++ decimal q.body.length]).foldl
        (fun w h => (((Parser.storedWord h).filter (·.1 = f)).map Prod.snd).or w) w = w := by
    intro w
    have hc := hno (lit "Connection: close") (.inl (by decide))
    have hl := hno _ (.inr (lengthLine q.body.length q.bodySmall).1)
    split <;> split <;> simp [hc, hl]
  have hfields : ∀ (xs : List (Parser.Field × List Byte)) (w : Option (List Byte)),
      (∀ x ∈ xs, ∀ b ∈ x.2, ¬ IsBlank b) →
      (xs.map fieldLine).foldl (fun w h => (((Parser.storedWord h).filter (·.1 = f)).map Prod.snd).or w) w =
        xs.foldl (fun w x => if x.1 = f then some x.2 else w) w := by
    intro xs
    induction xs with
    | nil => exact fun w hx => rfl
    | cons x xs ih =>
      intro w hx
      rw [List.map_cons, List.foldl_cons, List.foldl_cons, storedWord_fieldLine (hx x List.mem_cons_self),
        ih _ fun y hy => hx y (List.mem_cons_of_mem _ hy)]
      congr 1
      by_cases hf : x.1 = f
      · simp [hf, Option.filter_some]
      · simp [hf, Option.filter_some]
  unfold Parser.keptWord headerLines word
  rw [List.foldl_append, hrest, hfields _ _ fun x hx => (q.words x hx).2]

private theorem methodText_mem : (q.method, methodText q.method) ∈ methodNames :=
  (show ∀ m, (methodNames.lookup m).isSome → (m, methodText m) ∈ methodNames by intro m; cases m <;> decide) _ q.taken

private theorem isRequestLine : IsRequestLine q.requestLine q.method q.path :=
  ⟨methodText q.method, q.path, lit "HTTP/1.1", rfl,
    (show ∀ x ∈ methodNames, SP ∉ x.2 by decide) _ q.methodText_mem, q.pathPlain.2,
    ⟨methodText q.method, q.methodText_mem, decide_eq_true rfl⟩, ⟨q.pathHead, .inl rfl⟩, by decide⟩

private theorem head (rest : List Byte) : Head (q.text ++ rest) q.requestLine q.headerLines (q.body ++ rest) := by
  have hplain : Plain (methodText q.method) := (show ∀ x ∈ methodNames, Plain x.2 by decide) _ q.methodText_mem
  have hcons : ∀ l : List Byte, Plain l → Plain (SP :: l) := fun l hl => Plain.append (a := [SP]) (by decide) hl
  exact ⟨by simp [text], hplain.append (hcons _ (q.pathPlain.1.append (hcons _ (by decide)))), q.headerLines_plain⟩

/-! ### The round trip -/

/-- The handler holds what the client has stated. -/
structure HeldBy (q : ClientRequest) (p : Parser) : Prop where
  method : p.method = q.method
  path : ∃ u, p.url = some u ∧ cstring (p.readBuf.suffix u) = some (servedPath q.path)
  keepAlive : p.linger = q.keepAlive
  words : ∀ f w, q.word f = some w → ∃ a, p.field f = some a ∧ cstring (p.readBuf.suffix a) = some w
  body : p.body = some q.body

/-- What a client writes, cut into whatever pieces but without a gap and with nine bytes or more behind it, leads to
`do_request_` with exactly what the client has stated. -/
theorem request_roundTrip (rest : List Byte) (ds : List (List Byte)) {errno : Errno} (h : HttpHandler) (users : Users)
    (hds : ds.flatten = q.text ++ rest) (hd : ∀ d ∈ ds, d ≠ []) (hrest : 9 ≤ rest.length)
    (hn : ds.flatten.length ≤ READ_BUFFER_SIZE) (he : errno ≠ .einval) :
    ∃ h' p', run (HttpHandler.recvStep users) (h.init_, .reading 10) (ds.map .data ++ List.replicate 10 .again) =
        some (h', .parse) ∧ h'.toParser.parse_ errno = some (.doRequest, p', errno) ∧ q.HeldBy p' := by
  obtain ⟨h', hrun⟩ := HttpHandler.gapless_run users (Held.In.init h) rfl hd (by simpa using hn)
  have hjudge := HttpHandler.read_judge errno hrun
  rw [HttpHandler.gapless_held] at hjudge
  dsimp only at hjudge
  have hb := q.head rest
  rw [← hds] at hb
  obtain ⟨rl, hrl, hmethod, hpath⟩ := isRequestLine_iff.1 q.isRequestLine
  have hl : (readRequestLine q.requestLine).isSome := Option.isSome_iff_exists.2 ⟨rl, hrl⟩
  have hlen := congrArg List.length hb.bytes
  simp only [List.length_append, List.length_cons] at hlen
  obtain ⟨hall, hempty⟩ := hb.allSeen hl (by omega)
  rw [judge_head hb hl (q.readHeaders_headerLines he) hall hempty,
    judgeBody_accepts (Int.natCast_nonneg _) (by dsimp only; omega) (by omega)] at hjudge
  obtain ⟨p', hp, hL, hli, hstored⟩ := hjudge
  obtain ⟨c, hst, hcontent⟩ := hstored (Int.natCast_nonneg _)
  refine ⟨h', p', hrun, hp, ?_⟩
  obtain ⟨path, hline, a, hurl, htext, -⟩ := hst.request
  obtain ⟨rl', hrl', hmethod', hpath'⟩ := isRequestLine_iff.1 hline
  cases hrl.symm.trans hrl'
  refine ⟨hmethod'.symm.trans hmethod, ⟨a, hurl, by rw [htext, ← hpath', hpath]⟩, hli, fun f w hw => ?_, ?_⟩
  · have hf := hst.fields f
    rw [q.keptWord_headerLines, hw] at hf
    obtain ⟨a, ha, hword, -⟩ := hf
    exact ⟨a, ha, hword⟩
  · unfold Parser.body
    rw [hL]
    dsimp only at hcontent ⊢
    split
    · rename_i h0
      rw [List.length_eq_zero_iff.1 (Int.natCast_eq_zero.1 h0)]
    · rename_i h0
      obtain ⟨hc, z, hz⟩ := hcontent h0
      rw [hc, Option.map_some, hz, Int.toNat_natCast, List.take_left, List.take_left]

end ClientRequest

/-- A `POST` with two headers and a body. -/
def statedRequest : ClientRequest :=
  { method := .post, path := lit "/upload", headers := [(.host, lit "localhost"), (.contentType, lit "text/plain")],
    keepAlive := false, body := lit "two words", taken := by decide, pathHead := by decide, pathPlain := by decide,
    words := by decide +kernel, bodySmall := by decide }

theorem request_roundTrip_stated :
    ∃ h' p', run (HttpHandler.recvStep fun _ => none) ((HttpHandler.fresh 19 none .httpClient none).init_, .reading 10)
        ([statedRequest.text, lit "and more behind it"].map .data ++ List.replicate 10 .again) = some (h', .parse) ∧
      h'.toParser.parse_ .eagain = some (.doRequest, p', .eagain) ∧ statedRequest.HeldBy p' :=
  statedRequest.request_roundTrip (lit "and more behind it") [statedRequest.text, lit "and more behind it"]
    _ _ (by simp) (by decide +kernel) (by decide) (by decide +kernel) (by decide)

end ImageServer
