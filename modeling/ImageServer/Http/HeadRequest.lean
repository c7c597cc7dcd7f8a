import ImageServer.Http.Stream

/-!
# HEAD against GET

`parse_request_` takes a HEAD request, but nothing behind it looks at the method: `write_to_buffer_` prepares a
response with a body for every result of `parse_` (`sent_body`), since the pages are not empty and an empty file is not
sent from its mapping.  So the bytes that answer a HEAD request never end with the header block, and are never those of
the GET request up to the empty line (`not_headMirrorsGet`).
-/

namespace ImageServer

open CLib Writer

/-! ### The empty line -/

/-- The line end behind the last header, and the empty line. -/
def emptyLine : List Byte := lit "\r\n\r\n"

/-- The text up to the first empty line, and with it. -/
def throughEmptyLine : List Byte → List Byte
  | [] => []
  | b :: s => if emptyLine.isPrefixOf (b :: s) then emptyLine else b :: throughEmptyLine s

private theorem throughEmptyLine_isPrefix (s : List Byte) : throughEmptyLine s <+: s := by
  induction s with
  | nil => exact List.prefix_refl _
  | cons b s ih =>
    unfold throughEmptyLine
    split
    · rename_i h
      exact List.isPrefixOf_iff_prefix.1 h
    · exact (List.prefix_cons_inj b).2 ih

private theorem throughEmptyLine_idem (s : List Byte) :
    throughEmptyLine (throughEmptyLine s) = throughEmptyLine s := by
  induction s with
  | nil => rfl
  | cons b s ih =>
    by_cases h : emptyLine.isPrefixOf (b :: s) = true
    · rw [throughEmptyLine, if_pos h]
      decide
    · have hcut : throughEmptyLine (b :: s) = b :: throughEmptyLine s := if_neg h
      have hno : ¬ emptyLine.isPrefixOf (b :: throughEmptyLine s) = true := fun h' =>
        h (List.isPrefixOf_iff_prefix.2 ((List.isPrefixOf_iff_prefix.1 h').trans
          ((List.prefix_cons_inj b).2 (throughEmptyLine_isPrefix s))))
      rw [hcut, throughEmptyLine, if_neg hno, ih]

private theorem throughEmptyLine_length_le (a x : List Byte) :
    (throughEmptyLine (a ++ (emptyLine ++ x))).length ≤ a.length + emptyLine.length := by
  induction a with
  | nil =>
    obtain ⟨b, s, hs⟩ : ∃ b s, emptyLine ++ x = b :: s := ⟨13, _, rfl⟩
    rw [List.nil_append, hs, throughEmptyLine, if_pos]
    · simp
    · rw [← hs]
      exact List.isPrefixOf_iff_prefix.2 (List.prefix_append _ _)
  | cons b a ih =>
    rw [List.cons_append, throughEmptyLine]
    split
    · omega
    · rw [List.length_cons, List.length_cons]
      omega

/-- A text that goes on behind an empty line is not cut at its first one. -/
private theorem ne_throughEmptyLine {a x : List Byte} (hx : x ≠ []) (s : List Byte) :
    a ++ (emptyLine ++ x) ≠ throughEmptyLine s := by
  intro h
  have hself : throughEmptyLine (a ++ (emptyLine ++ x)) = a ++ (emptyLine ++ x) := by
    rw [h, throughEmptyLine_idem]
  have hle := throughEmptyLine_length_le a x
  have hpos := List.length_pos_iff.2 hx
  rw [hself] at hle
  simp only [List.length_append] at hle
  omega

/-! ### The responses -/

private theorem headersText_emptyLine (linger : Bool) (n : Int) : ∃ a, headersText linger n = a ++ emptyLine := by
  refine ⟨(lit "Content-Length:" ++ decimal n ++ lit "\r\n") ++
    (lit "Connection:" ++ if linger then lit "keep-alive" else lit "close"), ?_⟩
  have he : emptyLine = lit "\r\n" ++ lit "\r\n" := by decide
  rw [headersText, he]
  simp only [List.append_assoc]

/-- What is offered starts with the bytes of `m_iv[0]`. -/
private theorem offered_iv0 {w : Writer} {live : FileAddress} {a response : List Byte} (hc : 0 < w.ivCount)
    (h0 : w.iv0.bytes w live = some a) (h : offered w live = some response) :
    ∃ x, response = a ++ x ∧ (w.ivCount = 2 → w.iv1.bytes w live = some x) := by
  unfold offered at h
  split at h
  · omega
  · rename_i h1
    rw [h0] at h
    cases h
    exact ⟨[], (List.append_nil _).symm, fun h2 => by omega⟩
  · obtain ⟨x, hx, rfl⟩ := Option.map_eq_some_iff.1 (by rwa [h0, Option.bind_some] at h)
    exact ⟨x, rfl, fun _ => hx⟩
  · cases h

/-- An iovec over a file designates as many bytes as it says. -/
private theorem file_bytes_length {w : Writer} {live addr : FileAddress} {n : Nat} {x : List Byte}
    (h : (IoVec.mk (.file addr 0) n).bytes w live = some x) : x.length = n := by
  unfold IoVec.bytes at h
  split at h
  · rename_i h0
    cases h
    dsimp only at h0
    rw [List.length_nil]
    omega
  · cases addr with
    | null => cases h
    | mapFailed => cases h
    | mapped f =>
      dsimp only at h
      split at h
      · rename_i hin
        cases h
        rw [List.length_take]
        simp only [Int.toNat_natCast, Int.toNat_zero, List.drop_zero]
        omega
      · cases h

namespace HttpHandler

/-- The bytes that a `process()` sends which is given the bytes `bs`, when its write call accepts everything.  As in
`readAndParse`, the nine that `read_` takes from `m_read_idx` are left out: what is said of the response holds for
every answer of `parse_`. -/
def sent (h : HttpHandler) (con : Option Nat) (users : Users) (env : Env) (bs : List Byte) : Option (List Byte) := do
  let (ret, h, _) ← h.readAndParse con users env bs
  let (_, h) ← h.writeToBuffer_ ret
  h.offer

/-- Every response goes on behind the empty line that ends its header block. -/
theorem sent_body {h : HttpHandler} {con : Option Nat} {users : Users} {env : Env} {bs response : List Byte}
    (hr : Ready h) (hs : h.sent con users env bs = some response) :
    ∃ a x, response = a ++ (emptyLine ++ x) ∧ x ≠ [] := by
  unfold sent at hs
  obtain ⟨⟨ret, h₁, u⟩, hp, hs⟩ := Option.bind_eq_some_iff.1 hs
  obtain ⟨⟨ok, h₂⟩, hb, ho⟩ := Option.bind_eq_some_iff.1 hs
  obtain ⟨p, -, hparse⟩ := Option.bind_eq_some_iff.1 hp
  have ha := parse_answer hparse
  have hw₁ : h₁.toWriter = h.toWriter := (parse_toWriter hparse :)
  obtain ⟨-, hprep, he⟩ := writeToBuffer_counted (by rw [hw₁]; exact hr.writeIdx) ha hb
  have hiv0 := hprep.iv0_bytes ha h₂.fileAddress
  have hlt := hprep.lt_ivCount
  obtain ⟨y, rfl, hy⟩ := offered_iv0 (by omega) hiv0 ho
  by_cases hm : MapsFile h₁.toResource ret
  · -- the file is what goes on
    obtain ⟨hiv1, hcount, -⟩ := hprep.withFile hm
    have hle := offered_le ho
    have hlen := file_bytes_length (hiv1 ▸ hy (by omega))
    obtain ⟨a, he⟩ := headersText_emptyLine h₁.linger (toInt32 h₁.fileStat.size)
    refine ⟨statusText 200 (lit "OK") ++ a, y, by rw [bufferText_file hm, he]; simp, fun hnil => hm.2 ?_⟩
    rw [← hlen, hnil]
    rfl
  · -- the page is
    obtain ⟨status, title, form, hpage, -, -, -, hform, -⟩ := bufferText_page h₁.linger ha hm
    obtain ⟨a, he⟩ := headersText_emptyLine h₁.linger form.length
    refine ⟨statusText status title ++ a, form ++ y, by rw [hpage, pageText, he]; simp, fun hnil => ?_⟩
    rw [(List.append_eq_nil_iff.1 hnil).1] at hform
    exact absurd hform (by decide)

/-- The response to HEAD is the response to GET up to the empty line, for the rest `request` of the two requests. -/
def HeadMirrorsGet (h : HttpHandler) (con : Option Nat) (users : Users) (env : Env) (request : List Byte) : Prop :=
  ∃ response, h.sent con users env (lit "GET " ++ request) = some response ∧
    h.sent con users env (lit "HEAD " ++ request) = some (throughEmptyLine response)

/-- The response to HEAD never is. -/
theorem not_headMirrorsGet {h : HttpHandler} (hr : Ready h) (con : Option Nat) (users : Users) (env : Env)
    (request : List Byte) : ¬ h.HeadMirrorsGet con users env request := by
  rintro ⟨response, -, hhead⟩
  obtain ⟨a, x, he, hx⟩ := sent_body hr hhead
  exact ne_throughEmptyLine hx response he.symm

theorem not_headMirrorsGet_fresh : ¬ (fresh 5 none .httpClient none).HeadMirrorsGet none (fun _ => none) noFiles
    (lit "/judge.html HTTP/1.1\r\n\r\n") :=
  not_headMirrorsGet (ready_fresh 5 none .httpClient none) none (fun _ => none) noFiles _

/-- HEAD for a file that does not exist: the page for 404 is sent with its text. -/
theorem headPage_sent :
    ((fresh 5 none .httpClient none).sent none (fun _ => none) noFiles (lit "HEAD /x HTTP/1.1\r\n\r\n")).map
        List.length = some 117 ∧
      ((fresh 5 none .httpClient none).sent none (fun _ => none) noFiles (lit "GET /x HTTP/1.1\r\n\r\n")).map
        (fun response => (throughEmptyLine response).length) = some 68 ∧
      ¬ (fresh 5 none .httpClient none).HeadMirrorsGet none (fun _ => none) noFiles (lit "/x HTTP/1.1\r\n\r\n") := by
  have hhead : ((fresh 5 none .httpClient none).sent none (fun _ => none) noFiles
      (lit "HEAD /x HTTP/1.1\r\n\r\n")).map List.length = some 117 := by decide +kernel
  have hget : ((fresh 5 none .httpClient none).sent none (fun _ => none) noFiles
      (lit "GET /x HTTP/1.1\r\n\r\n")).map (fun response => (throughEmptyLine response).length) = some 68 := by
    decide +kernel
  refine ⟨hhead, hget, ?_⟩
  rintro ⟨response, hget', hhead'⟩
  have hget' : (fresh 5 none .httpClient none).sent none (fun _ => none) noFiles (lit "GET /x HTTP/1.1\r\n\r\n") =
      some response := hget'
  have hhead' : (fresh 5 none .httpClient none).sent none (fun _ => none) noFiles (lit "HEAD /x HTTP/1.1\r\n\r\n") =
      some (throughEmptyLine response) := hhead'
  rw [hget', Option.map_some, Option.some.injEq] at hget
  rw [hhead', Option.map_some, Option.some.injEq, hget] at hhead
  exact absurd hhead (by decide)

end HttpHandler

end ImageServer
