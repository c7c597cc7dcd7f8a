import ImageServer.Http.Acceptance
import Mathlib.Data.List.DropRight

/-!
# The length of the body

`parse_headers_` takes the value of `Content-length` through `strtol` and a conversion to `int`, looks at an `errno` it
has not reset, and reads 0 as no body; `parse_content_` compares the length with what has been received, as signed
numbers.  A value of digits that announces a body within the received bytes is served but in two cases: `errno` is
`EINVAL` from an earlier call, or the terminator of the body does not fit behind a full buffer.  Any other value is
refused only if the number that comes out is larger than what has been received, or again for the old `errno`
(`decidesBody_iff`); so the empty value, a negative one and digits followed by junk are served.
-/

namespace ImageServer

open CLib

/-- The value of a `Content-length` header without the blanks around it. -/
def trimmedValue (h : List Byte) : List Byte := (headerValue 15 h).rdropWhile (· ∈ [SP, HT])

/-- The length the header announces: its value is a non-empty string of digits, and at most `b`. -/
def announcedLength (h : List Byte) (b : Nat) : Option Nat :=
  if trimmedValue h ≠ [] ∧ (trimmedValue h).all isDigit ∧ digitsValue (trimmedValue h) ≤ b then
    some (digitsValue (trimmedValue h))
  else none

/-- The number `parse_headers_` makes of the header, and whether `strtol` finds it out of range. -/
def convertedLength (h : List Byte) : Int × Bool :=
  (toInt32 (strtolText (headerValue 15 h)).1, (strtolText (headerValue 15 h)).2)

/-- The body `do_request_` is given: `m_content_length` bytes from `m_content` on. -/
def Parser.body (p : Parser) : Option (List Byte) :=
  if p.contentLength = 0 then some []
  else p.content.map fun c => (p.readBuf.suffix c).take p.contentLength.toNat

/-- With the announced length the request goes on to `do_request_` with that many of the bytes `rest`, without one it
is refused. -/
def DecidesBody (p : Parser) (errno : Errno) (h rest : List Byte) : Prop :=
  match announcedLength h rest.length with
  | some L => ∃ p' e, p.parse_ errno = some (.doRequest, p', e) ∧ p'.body = some (rest.take L)
  | none => ∃ p' e, p.parse_ errno = some (.returns .errorFormat, p', e)

/-- Of `n` bytes `b` are behind the head: there is room for the terminator of an announced body, a converted length
that is not announced exceeds what is there, and `errno` is not left at `EINVAL`, or is where this does no harm. -/
def LengthServes (errno : Errno) (n b : Nat) (h : List Byte) : Prop :=
  match announcedLength h b with
  | some L => errno ≠ .einval ∧ (L = 0 ∨ n - b + L < READ_BUFFER_SIZE)
  | none => (errno = .einval ∧ (convertedLength h).2 = false) ∨ (b : Int) < (convertedLength h).1

instance (errno : Errno) (n b : Nat) (h : List Byte) : Decidable (LengthServes errno n b h) := by
  unfold LengthServes
  split <;> infer_instance

/-! ### The value -/

private theorem announcedLength_some {h : List Byte} {b L : Nat} (ha : announcedLength h b = some L) :
    trimmedValue h ≠ [] ∧ (∀ x ∈ trimmedValue h, isDigit x = true) ∧ L = digitsValue (trimmedValue h) ∧ L ≤ b := by
  unfold announcedLength at ha
  split at ha
  · rename_i hc
    cases ha
    exact ⟨hc.1, List.all_eq_true.1 hc.2.1, rfl, hc.2.2⟩
  · cases ha

private theorem headerValue_trimmed (h : List Byte) :
    ∃ b, headerValue 15 h = trimmedValue h ++ b ∧ ∀ x ∈ b, IsBlank x :=
  ⟨(headerValue 15 h).rtakeWhile (· ∈ [SP, HT]), List.rdropWhile_append_rtakeWhile.symm,
    fun _ hx => of_decide_eq_true (List.mem_rtakeWhile_imp hx :)⟩

/-- An announced length is converted to itself. -/
private theorem convertedLength_announced {h : List Byte} {b L : Nat} (hb : b < READ_BUFFER_SIZE)
    (ha : announcedLength h b = some L) : convertedLength h = ((L : Int), false) := by
  obtain ⟨-, hdigits, hL, hle⟩ := announcedLength_some ha
  obtain ⟨t, ht, hblank⟩ := headerValue_trimmed h
  have hlt : L < 2 ^ 31 := by unfold READ_BUFFER_SIZE at hb; omega
  have hw : WellFormedLength h := by
    refine ⟨(h.drop 15).takeWhile (· ∈ [SP, HT]), trimmedValue h, t, ?_, ?_, hdigits, hblank, hL ▸ hlt⟩
    · rw [List.append_assoc, ← ht, headerValue, List.takeWhile_append_dropWhile]
    · exact fun x hx => of_decide_eq_true (List.mem_takeWhile_imp hx :)
  have hval : lengthValue h = L := by rw [lengthValue, ht, takeWhile_digits hdigits hblank, hL]
  obtain ⟨hstrtol, -⟩ := strtolText_wellFormed hw
  rw [hval] at hstrtol
  rw [convertedLength, hstrtol, toInt32_natCast hlt]

/-! ### The head -/

private theorem readHeader_other {x : HeadState} {h : List Byte} (hn : ¬ IsContentLength h) :
    ∃ linger, readHeader x h = some { x with linger := linger } := by
  unfold readHeader
  rw [if_neg hn]
  split
  · split
    · exact ⟨_, rfl⟩
    · exact ⟨x.linger, rfl⟩
  · exact ⟨x.linger, rfl⟩

private theorem readHeaders_other {x : HeadState} {hs : List (List Byte)} (hn : ∀ h ∈ hs, ¬ IsContentLength h) :
    ∃ linger, readHeaders x hs = some { x with linger := linger } := by
  induction hs generalizing x with
  | nil => exact ⟨x.linger, rfl⟩
  | cons h hs ih =>
    obtain ⟨linger, hl⟩ := readHeader_other (x := x) (hn h List.mem_cons_self)
    obtain ⟨linger', hl'⟩ := ih (x := { x with linger := linger }) fun h' hm => hn h' (List.mem_cons_of_mem h hm)
    exact ⟨linger', Option.bind_eq_some_iff.2 ⟨_, hl, hl'⟩⟩

private theorem readHeader_length {x : HeadState} {h : List Byte} (hc : IsContentLength h) :
    readHeader x h =
      if x.errno = .einval ∧ (convertedLength h).2 = false then none
      else some { x with
        contentLength := (convertedLength h).1, errno := if (convertedLength h).2 then .erange else x.errno } := by
  unfold readHeader convertedLength
  rw [if_neg (not_connection hc), if_pos hc]
  cases hr : (strtolText (headerValue 15 h)).2 <;> simp [hr]

/-- A header line that is refused ends the scan. -/
private theorem scanHeaders_refused {n : Nat} {x y : HeadState} {hs₁ hs₂ : List (List Byte)} {h s : List Byte}
    (hh : HeaderLines (hs₁ ++ h :: hs₂)) (hx : readHeaders x hs₁ = some y) (hr : readHeader y h = none) :
    scanHeaders n x (lines (hs₁ ++ h :: hs₂) ++ s) = .rejected := by
  obtain ⟨hp, h0⟩ := hh h (by simp)
  have hlines : lines (hs₁ ++ h :: hs₂) ++ s = lines hs₁ ++ (h ++ CR :: LF :: (lines hs₂ ++ s)) := by simp [lines]
  rw [hlines, scanHeaders_lines (fun h' hm => hh h' (List.mem_append_left _ hm)) hx,
    scanHeaders_line (takeLine_line _ hp), if_neg h0, hr]

section OneLength

variable {bs l h rest : List Byte} {hs₁ hs₂ : List (List Byte)} (hb : Head bs l (hs₁ ++ h :: hs₂) rest)
  (hn : bs.length ≤ READ_BUFFER_SIZE) (hl : AcceptedLine l) (hc : IsContentLength h)
  (honly : ∀ h' ∈ hs₁ ++ hs₂, ¬ IsContentLength h')
include hb hn hl hc honly

/-- The verdict on a head with one `Content-length` header. -/
private theorem scan_oneLength (errno : Errno) :
    (errno = .einval ∧ (convertedLength h).2 = false ∧ scan errno bs = .rejected) ∨
      (¬ (errno = .einval ∧ (convertedLength h).2 = false) ∧ ∃ x : HeadState,
        x.contentLength = (convertedLength h).1 ∧ scan errno bs = scanBody bs.length x rest) := by
  have hline : (readRequestLine l).isSome := (hb.acceptedLine hn).1 hl
  obtain ⟨g₁, hg₁⟩ := readHeaders_other (x := ⟨0, true, errno⟩) fun h' hm => honly h' (List.mem_append_left _ hm)
  by_cases herr : errno = .einval ∧ (convertedLength h).2 = false
  · refine .inl ⟨herr.1, herr.2, ?_⟩
    have hrefused : readHeader ⟨0, g₁, errno⟩ h = none := (readHeader_length hc).trans (if_pos herr)
    unfold scan
    rw [hb.bytes, takeLine_line _ hb.plain]
    simp only [hline, if_true]
    exact scanHeaders_refused hb.headers hg₁ hrefused
  · let y : HeadState := ⟨(convertedLength h).1, g₁, if (convertedLength h).2 then .erange else errno⟩
    have hread : readHeader ⟨0, g₁, errno⟩ h = some y := (readHeader_length hc).trans (if_neg herr)
    obtain ⟨g₂, hg₂⟩ := readHeaders_other (x := y) fun h' hm => honly h' (List.mem_append_right _ hm)
    refine .inr ⟨herr, { y with linger := g₂ }, rfl, scan_head hb hline ?_⟩
    unfold readHeaders at hg₁ hg₂ ⊢
    rw [List.foldlM_append, hg₁]
    simp only [List.foldlM_cons, Option.bind_eq_bind, Option.bind_some]
    rw [hread]
    exact hg₂

end OneLength

/-! ### The body -/

namespace Parser

private theorem Computes.refuses_iff {p : Parser} {res : Option (ParseEnd × Parser × Errno)} {v : Verdict}
    (h : Computes p res v) : (∃ p' e, res = some (.returns .errorFormat, p', e)) ↔ v = .rejected := by
  cases v with
  | undefined =>
    have hnone : res = none := h
    simp [hnone]
  | rejected => exact iff_of_true h rfl
  | accepted x rest =>
    obtain ⟨p', hres, -⟩ := h
    simp [hres]

theorem Computes.accepts {p p' : Parser} {res : Option (ParseEnd × Parser × Errno)} {v : Verdict} {e : Errno}
    (h : Computes p res v) (hres : res = some (.doRequest, p', e)) : ∃ x rest, v = .accepted x rest := by
  cases v with
  | undefined =>
    have hnone : res = none := h
    rw [hnone] at hres
    cases hres
  | rejected =>
    obtain ⟨p', e', hr⟩ := h
    rw [hr] at hres
    cases hres
  | accepted x rest => exact ⟨x, rest, rfl⟩

/-- The body of an accepted request is what the length says. -/
private theorem Computes.body {p : Parser} {res : Option (ParseEnd × Parser × Errno)} {x : HeadState}
    {rest : List Byte} (h : Computes p res (.accepted x rest)) {L : Nat} (hL : x.contentLength = L)
    (hle : L ≤ rest.length) :
    ∃ p' e, res = some (.doRequest, p', e) ∧ p'.body = some (rest.take L) := by
  obtain ⟨p', hres, hlen, -, -, hbody⟩ := h
  refine ⟨p', _, hres, ?_⟩
  rw [Parser.body, hlen, hL]
  by_cases h0 : L = 0
  · rw [if_pos (by omega), h0, List.take_zero]
  · obtain ⟨c, hc, -, hz⟩ := hbody (by omega)
    obtain ⟨z, hz⟩ := hz (by omega)
    rw [if_neg (by omega), hc, Option.map_some, hz, hL, Int.toNat_natCast]
    rw [List.take_append_of_le_length (by rw [List.length_take]; omega), List.take_take, Nat.min_self]

end Parser

private theorem scanBody_served {n L : Nat} {x : HeadState} {rest : List Byte} (hL : x.contentLength = L)
    (hle : L ≤ rest.length) (hn : rest.length ≤ n) :
    (L = 0 ∨ n - rest.length + L < READ_BUFFER_SIZE) ∧ scanBody n x rest = .accepted x rest ∨
      ¬ (L = 0 ∨ n - rest.length + L < READ_BUFFER_SIZE) ∧ scanBody n x rest = .undefined := by
  unfold scanBody
  dsimp only
  rw [hL]
  by_cases h0 : L = 0
  · rw [if_pos (by omega)]
    exact .inl ⟨.inl h0, rfl⟩
  · rw [if_neg (by omega), if_pos (by omega)]
    by_cases hfit : n - rest.length + L < READ_BUFFER_SIZE
    · rw [if_pos (by omega)]
      exact .inl ⟨.inr hfit, rfl⟩
    · rw [if_neg (by omega)]
      exact .inr ⟨fun h => h.elim h0 hfit, rfl⟩

private theorem scanBody_rejected_iff {n : Nat} {x : HeadState} {rest : List Byte} :
    scanBody n x rest = .rejected ↔ (rest.length : Int) < x.contentLength := by
  unfold scanBody
  dsimp only
  split
  · exact iff_of_false nofun (by omega)
  · split
    · split <;> exact iff_of_false nofun (by omega)
    · exact iff_of_true rfl (by omega)

/-- On every head with one `Content-length` header the length decides the body as it announces exactly when there is
room for it and no old `errno` in the way, or what it does not announce comes out too large. -/
theorem decidesBody_iff {q p : Parser} {bs l h rest : List Byte} {hs₁ hs₂ : List (List Byte)}
    (hb : Head bs l (hs₁ ++ h :: hs₂) rest) (hl : AcceptedLine l) (hc : IsContentLength h)
    (honly : ∀ h' ∈ hs₁ ++ hs₂, ¬ IsContentLength h') (hp : q.init_.receive bs = some p) (errno : Errno) :
    DecidesBody p errno h rest ↔ LengthServes errno bs.length rest.length h := by
  have hn : bs.length ≤ READ_BUFFER_SIZE := (Parser.receive_init hp).2.1
  have hcomp := Parser.parse_scan hp errno
  have hlen := congrArg List.length hb.bytes
  simp only [List.length_append, List.length_cons] at hlen
  have hscan := scan_oneLength hb hn hl hc honly errno
  unfold DecidesBody LengthServes
  cases ha : announcedLength h rest.length with
  | some L =>
    have hconv := convertedLength_announced (by omega) ha
    have hle : L ≤ rest.length := (announcedLength_some ha).2.2.2
    dsimp only
    rcases hscan with ⟨herr, -, hs⟩ | ⟨herr, x, hx, hs⟩
    · refine iff_of_false ?_ fun hr => hr.1 herr
      rintro ⟨p', e, hres, -⟩
      obtain ⟨x, r, hv⟩ := hcomp.accepts hres
      rw [hs] at hv
      cases hv
    · rw [hconv] at herr hx
      have hne : errno ≠ .einval := fun he => herr ⟨he, rfl⟩
      rw [hs] at hcomp
      rcases scanBody_served (n := bs.length) hx hle (by omega) with ⟨hfit, hv⟩ | ⟨hfit, hv⟩
      · rw [hv] at hcomp
        exact iff_of_true (hcomp.body hx hle) ⟨hne, hfit⟩
      · refine iff_of_false ?_ fun hr => hfit hr.2
        rintro ⟨p', e, hres, -⟩
        obtain ⟨y, r, hv'⟩ := hcomp.accepts hres
        rw [hv] at hv'
        cases hv'
  | none =>
    dsimp only
    rw [hcomp.refuses_iff]
    rcases hscan with ⟨herr, hrange, hs⟩ | ⟨herr, x, hx, hs⟩
    · exact iff_of_true hs (.inl ⟨herr, hrange⟩)
    · rw [hs, scanBody_rejected_iff, hx]
      exact ⟨.inr, fun hr => hr.resolve_left herr⟩

private theorem acceptedLine_post : AcceptedLine (lit "POST /0 HTTP/1.1") :=
  (acceptedLine_iff (by decide) (by decide)).2 (by decide +kernel)

theorem decidesBody_iff_twoByteRequest :
    ∃ p, Parser.zero.init_.receive twoByteRequest = some p ∧
      DecidesBody p .eagain (lit "Content-length: 2") (lit "ab") := by
  have hsome : (Parser.zero.init_.receive twoByteRequest).isSome := by decide +kernel
  obtain ⟨p, hp⟩ := Option.isSome_iff_exists.1 hsome
  have hb : Head twoByteRequest (lit "POST /0 HTTP/1.1") ([] ++ lit "Content-length: 2" :: []) (lit "ab") :=
    ⟨by decide, by decide, fun h hm => by cases List.mem_singleton.1 hm; decide⟩
  exact ⟨p, hp, (decidesBody_iff hb acceptedLine_post (by decide) (by simp) hp .eagain).2 (by decide +kernel)⟩

/-- Digits followed by junk. -/
def junkLength : List Byte := lit "POST /0 HTTP/1.1\r\nContent-length: 2x\r\n\r\nab"

/-- The request is served with the two bytes. -/
theorem junkLength_served :
    Head junkLength (lit "POST /0 HTTP/1.1") [lit "Content-length: 2x"] (lit "ab") ∧
      announcedLength (lit "Content-length: 2x") 2 = none ∧
      ∃ p, Parser.zero.init_.receive junkLength = some p ∧
        (∃ p' e, p.parse_ .eagain = some (.doRequest, p', e) ∧ p'.body = some (lit "ab")) ∧
        ¬ DecidesBody p .eagain (lit "Content-length: 2x") (lit "ab") := by
  refine ⟨⟨by decide, by decide, fun h hm => by cases List.mem_singleton.1 hm; decide⟩, by decide, ?_⟩
  have hsome : (Parser.zero.init_.receive junkLength).isSome := by decide +kernel
  obtain ⟨p, hp⟩ := Option.isSome_iff_exists.1 hsome
  have hserved : (Parser.zero.init_.receive junkLength).bind (fun p => (p.parse_ .eagain).map fun x =>
      (decide (x.1 = .doRequest), x.2.1.body)) = some (true, some (lit "ab")) := by decide +kernel
  rw [hp, Option.bind_some] at hserved
  obtain ⟨⟨e, p', err⟩, hparse, hx⟩ := Option.map_eq_some_iff.1 hserved
  simp only [Prod.mk.injEq, decide_eq_true_eq] at hx
  obtain ⟨rfl, hbody⟩ := hx
  refine ⟨p, hp, ⟨p', err, hparse, hbody⟩, ?_⟩
  rintro ⟨p₂, e₂, hrefused⟩
  cases hparse.symm.trans hrefused

end ImageServer
