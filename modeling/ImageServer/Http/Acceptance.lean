import Mathlib.Data.List.TakeWhile
import ImageServer.Http.ParseText

/-!
# What the parser accepts, and when it leaves the buffer

With fewer than `READ_BUFFER_SIZE` bytes received and declared lengths that are decimal numbers, `parse_` goes on to
`do_request_` exactly on the requests of the grammar (`parse_accepts_iff`).  Without these assumptions it can leave
`m_read_buf`: a search for a line end finds no NUL behind a full buffer, and the terminator of the body is written
wherever the declared length says; `parse_safe_iff` says when this happens.
-/

namespace ImageServer

open CLib

/-! ### Accepted request lines -/

/-- `parse_request_` accepts the line. -/
def AcceptedLine (l : List Byte) : Prop :=
  ∃ (p p' : Parser) (t : Nat) (r : List Byte), p.readBuf.suffix t = l ++ 0 :: 0 :: r ∧
    p.parseRequest_ t = some (.parsering, p')

theorem acceptedLine_iff {l : List Byte} (h0 : 0 ∉ l) (hlen : l.length + 2 ≤ READ_BUFFER_SIZE) :
    AcceptedLine l ↔ (readRequestLine l).isSome := by
  constructor
  · rintro ⟨p, p', t, r, hs, hp⟩
    rcases Parser.parseRequest_text hs h0 with ⟨_, q, hq, _⟩ | ⟨rl, buf, hrl, _⟩
    · rw [hp] at hq
      cases hq
    · rw [hrl]
      rfl
  · intro hr
    let z := List.replicate (READ_BUFFER_SIZE - (l.length + 2)) (0 : Byte)
    let buf : CharArray READ_BUFFER_SIZE := ⟨l ++ 0 :: 0 :: z, by
      rw [List.length_append, List.length_cons, List.length_cons, List.length_replicate]
      omega⟩
    have hs : { Parser.zero with readBuf := buf }.readBuf.suffix 0 = l ++ 0 :: 0 :: z := rfl
    rcases Parser.parseRequest_text hs h0 with ⟨hn, _⟩ | ⟨rl, buf', _, hp, _⟩
    · rw [hn] at hr
      cases hr
    · exact ⟨_, _, 0, z, hs, hp⟩

/-! ### Declared lengths -/

/-- The number a `Content-length` header declares. -/
def lengthValue (h : List Byte) : Nat := digitsValue ((headerValue 15 h).takeWhile isDigit)

/-- The number the last `Content-length` header declares; 0 when there is none. -/
def declaredLength (hs : List (List Byte)) : Nat :=
  hs.foldl (fun L h => if IsContentLength h then lengthValue h else L) 0

def IsBlank (b : Byte) : Prop := b ∈ [SP, HT]

instance (b : Byte) : Decidable (IsBlank b) := inferInstanceAs (Decidable (b ∈ [SP, HT]))

/-- The value of the header is blanks, digits of a value below 2^31, and blanks. -/
def WellFormedLength (h : List Byte) : Prop :=
  ∃ a ds b, h.drop 15 = a ++ ds ++ b ∧ (∀ x ∈ a, IsBlank x) ∧ (∀ x ∈ ds, isDigit x = true) ∧ (∀ x ∈ b, IsBlank x) ∧
    digitsValue ds < 2 ^ 31

private theorem not_digit_of_blank {x : Byte} (h : IsBlank x) : isDigit x = false := by
  rcases List.mem_cons.1 h with rfl | h
  · rfl
  · obtain rfl := List.mem_singleton.1 h
    rfl

theorem not_blank_of_digit {x : Byte} (h : isDigit x = true) : ¬ IsBlank x := fun hb => by
  rw [not_digit_of_blank hb] at h
  cases h

private theorem not_space_of_digit {x : Byte} (h : isDigit x = true) : isSpace x = false := by
  simp only [isDigit, isSpace, decide_eq_true_eq, decide_eq_false_iff_not, UInt8.le_iff_toNat_le,
    ← UInt8.toNat_inj] at h ⊢
  simp only [UInt8.reduceToNat] at h ⊢
  omega

theorem takeWhile_digits {ds b : List Byte} (hd : ∀ x ∈ ds, isDigit x = true) (hb : ∀ x ∈ b, IsBlank x) :
    (ds ++ b).takeWhile isDigit = ds := by
  rw [List.takeWhile_append_of_pos hd]
  cases b with
  | nil => simp
  | cons x b => simp [not_digit_of_blank (hb x List.mem_cons_self)]

private theorem headerValue_wellFormed {h : List Byte} (hw : WellFormedLength h) :
    ∃ ds b, headerValue 15 h = ds ++ b ∧ (∀ x ∈ ds, isDigit x = true) ∧ (∀ x ∈ b, IsBlank x) ∧
      (ds = [] → b = []) ∧ digitsValue ds < 2 ^ 31 := by
  obtain ⟨a, ds, b, he, ha, hd, hb, hv⟩ := hw
  have hdrop : ∀ s, (a ++ s).dropWhile (· ∈ [SP, HT]) = s.dropWhile (· ∈ [SP, HT]) := fun s =>
    List.dropWhile_append_of_pos fun x hx => decide_eq_true (ha x hx)
  unfold headerValue
  rw [he, List.append_assoc, hdrop]
  cases ds with
  | nil =>
    refine ⟨[], [], ?_, by simp, by simp, fun _ => rfl, hv⟩
    rw [List.nil_append, List.append_nil, List.dropWhile_eq_nil_iff]
    exact fun x hx => decide_eq_true (hb x hx)
  | cons d ds =>
    refine ⟨d :: ds, b, ?_, hd, hb, nofun, hv⟩
    have hnb : ¬ d ∈ [SP, HT] := not_blank_of_digit (hd d List.mem_cons_self)
    rw [List.cons_append, List.dropWhile_cons_of_neg (by rw [decide_eq_true_iff]; exact hnb)]

/-- `strtol` reads a well-formed length as the number it is. -/
theorem strtolText_wellFormed {h : List Byte} (hw : WellFormedLength h) :
    strtolText (headerValue 15 h) = ((lengthValue h : Int), false) ∧ lengthValue h < 2 ^ 31 := by
  obtain ⟨ds, b, he, hd, hb, h0, hv⟩ := headerValue_wellFormed hw
  have hval : lengthValue h = digitsValue ds := by rw [lengthValue, he, takeWhile_digits hd hb]
  refine ⟨?_, hval ▸ hv⟩
  have hmax : ¬ LONG_MAX < (digitsValue ds : Int) := by unfold LONG_MAX; omega
  have hmin : ¬ (digitsValue ds : Int) < LONG_MIN := by unfold LONG_MIN; omega
  rw [hval, he]
  unfold strtolText
  cases ds with
  | nil => rw [h0 rfl]; rfl
  | cons d ds =>
    have hdd := hd d List.mem_cons_self
    have h43 : d ≠ 43 := fun e => absurd (e ▸ hdd) (by decide)
    have h45 : d ≠ 45 := fun e => absurd (e ▸ hdd) (by decide)
    rw [List.cons_append, List.dropWhile_cons_of_neg (by simp [not_space_of_digit hdd])]
    have htw := takeWhile_digits hd hb
    rw [List.cons_append] at htw
    simp only [List.head?_cons, Option.some.injEq, h43, h45, or_self, if_false, htw, if_neg hmax, if_neg hmin]

/-- No header name begins with both. -/
theorem not_connection {h : List Byte} (hc : IsContentLength h) : ¬ ciPrefix (lit "Connection:") h = true := by
  intro hp
  have h1 := congrArg (List.take 4) (of_decide_eq_true hc : _ = _)
  have h2 := congrArg (List.take 4) (of_decide_eq_true hp : _ = _)
  rw [← List.map_take, ← List.map_take, List.take_take] at h1 h2
  have hlen : min 4 (lit "Content-length:").length = 4 ∧ min 4 (lit "Connection:").length = 4 := by decide
  rw [hlen.1] at h1
  rw [hlen.2] at h2
  exact absurd (h1.trans h2.symm) (by decide)

/-- A header line with a well-formed length, if it declares one, is read, and changes the declared length only. -/
private theorem readHeader_wellFormed {x : HeadState} {h : List Byte} (he : x.errno ≠ .einval)
    (hw : IsContentLength h → WellFormedLength h) :
    ∃ y, readHeader x h = some y ∧ y.errno ≠ .einval ∧
      y.contentLength = if IsContentLength h then (lengthValue h : Int) else x.contentLength := by
  unfold readHeader
  by_cases hc : IsContentLength h
  · obtain ⟨hv, hlt⟩ := strtolText_wellFormed (hw hc)
    rw [if_neg (not_connection hc), if_pos hc, if_pos hc, hv]
    refine ⟨{ x with contentLength := toInt32 (lengthValue h) }, ?_, he, ?_⟩
    · simp only [Bool.false_eq_true, if_false, if_neg he]
    · dsimp only
      rw [toInt32_natCast hlt]
  · rw [if_neg hc, if_neg hc]
    split
    · split
      · exact ⟨_, rfl, he, rfl⟩
      · exact ⟨_, rfl, he, rfl⟩
    · exact ⟨_, rfl, he, rfl⟩

theorem readHeaders_wellFormed {x : HeadState} {hs : List (List Byte)} {L : Nat} (he : x.errno ≠ .einval)
    (hL : x.contentLength = L) (hw : ∀ h ∈ hs, IsContentLength h → WellFormedLength h) :
    ∃ y, readHeaders x hs = some y ∧ y.errno ≠ .einval ∧
      y.contentLength = (hs.foldl (fun L h => if IsContentLength h then lengthValue h else L) L : Nat) := by
  induction hs generalizing x L with
  | nil => exact ⟨x, rfl, he, hL⟩
  | cons h hs ih =>
    obtain ⟨y, hy, hye, hyL⟩ := readHeader_wellFormed he (hw h List.mem_cons_self)
    have hyL' : y.contentLength = ((if IsContentLength h then lengthValue h else L : Nat) : Int) := by
      rw [hyL]
      split
      · rfl
      · exact hL
    obtain ⟨z, hz, hze, hzL⟩ := ih hye hyL' fun h hm => hw h (List.mem_cons_of_mem _ hm)
    exact ⟨z, Option.bind_eq_some_iff.2 ⟨y, hy, hz⟩, hze, hzL⟩

/-! ### The accepted requests -/

/-- `h` is one of the header lines of the bytes. -/
def HasHeader (bs h : List Byte) : Prop :=
  ∃ l hs r, Plain l ∧ HeaderLines hs ∧ Plain h ∧ bs = l ++ CR :: LF :: (lines hs ++ (h ++ CR :: LF :: r))

/-- A request line the parser accepts, header lines, an empty line, and at least as many bytes as declared. -/
def Complete (bs : List Byte) : Prop :=
  ∃ l hs rest, Head bs l hs rest ∧ AcceptedLine l ∧ declaredLength hs ≤ rest.length

theorem hasHeader_of_mem {l h r : List Byte} {hs : List (List Byte)} (hl : Plain l) (hh : HeaderLines hs)
    (hm : h ∈ hs) : HasHeader (l ++ CR :: LF :: (lines hs ++ r)) h := by
  obtain ⟨hs₁, hs₂, rfl⟩ := List.append_of_mem hm
  refine ⟨l, hs₁, lines hs₂ ++ r, hl, fun h' h'm => hh h' (by simp [h'm]), (hh h hm).1, ?_⟩
  simp [lines]

/-- What `scan` makes of a request head with an accepted request line. -/
theorem scan_head {errno : Errno} {bs l rest : List Byte} {hs : List (List Byte)} {x : HeadState}
    (hb : Head bs l hs rest) (hl : (readRequestLine l).isSome) (hx : readHeaders ⟨0, true, errno⟩ hs = some x) :
    scan errno bs = scanBody bs.length x rest := by
  unfold scan
  rw [hb.bytes, takeLine_line _ hb.plain]
  simp only [hl, if_true]
  exact scanHeaders_head hb.headers hx

private theorem scanOpen_of_lt {n : Nat} (hn : n < READ_BUFFER_SIZE) (s : List Byte) : scanOpen n s = .rejected :=
  if_neg fun h => absurd h.1 (by omega)

theorem Head.acceptedLine {bs l rest : List Byte} {hs : List (List Byte)} (hb : Head bs l hs rest)
    (hn : bs.length ≤ READ_BUFFER_SIZE) : AcceptedLine l ↔ (readRequestLine l).isSome := by
  refine acceptedLine_iff hb.plain.2.2 ?_
  have := congrArg List.length hb.bytes
  simp only [List.length_append, List.length_cons] at this
  omega

section WellFormed

variable {errno : Errno} {bs : List Byte} (hn : bs.length < READ_BUFFER_SIZE) (he : errno ≠ .einval)
  (hw : ∀ h, HasHeader bs h → IsContentLength h → WellFormedLength h)
include hn he hw

/-- With well-formed lengths, a request head is accepted when the declared number of bytes follow it. -/
private theorem scan_wellFormed {l rest : List Byte} {hs : List (List Byte)} (hb : Head bs l hs rest)
    (hl : (readRequestLine l).isSome) :
    ∃ x : HeadState, x.contentLength = declaredLength hs ∧
      scan errno bs = if declaredLength hs ≤ rest.length then .accepted x rest else .rejected := by
  have hmem : ∀ h ∈ hs, IsContentLength h → WellFormedLength h := fun h hm =>
    hw h (hb.bytes ▸ hasHeader_of_mem hb.plain hb.headers hm)
  obtain ⟨x, hx, -, hL⟩ := readHeaders_wellFormed (x := ⟨0, true, errno⟩) he rfl hmem
  have hlen := congrArg List.length hb.bytes
  simp only [List.length_append, List.length_cons] at hlen
  change x.contentLength = (declaredLength hs : Nat) at hL
  refine ⟨x, hL, ?_⟩
  rw [scan_head hb hl hx, scanBody, hL]
  by_cases h0 : declaredLength hs = 0
  · rw [if_pos (by omega), if_pos (by omega)]
  rw [if_neg (by omega)]
  by_cases hle : declaredLength hs ≤ rest.length
  · rw [if_pos (by omega), if_pos hle, if_pos (by omega)]
  · rw [if_neg (by omega), if_neg hle]

/-- With well-formed lengths `scan` accepts the complete requests and rejects the others. -/
private theorem scan_complete :
    (Complete bs ∧ ∃ x rest, scan errno bs = .accepted x rest) ∨ (¬ Complete bs ∧ scan errno bs = .rejected) := by
  have hno : scan errno bs = .rejected → ¬ Complete bs := by
    rintro hr ⟨l, hs, rest, hb, ha, hle⟩
    obtain ⟨x, -, hx⟩ := scan_wellFormed hn he hw hb ((hb.acceptedLine hn.le).1 ha)
    rw [hr, if_pos hle] at hx
    cases hx
  suffices scan errno bs = .rejected ∨ Complete bs ∧ ∃ x rest, scan errno bs = .accepted x rest by
    rcases this with h | h
    · exact Or.inr ⟨hno h, h⟩
    · exact Or.inl h
  unfold scan
  rcases ht : takeLine bs with _ | ⟨l, r⟩
  · exact Or.inl (scanOpen_of_lt hn bs)
  obtain ⟨hbs, hl⟩ := takeLine_eq_some.1 ht
  dsimp only
  split
  · rename_i hrl
    obtain ⟨hs, r', x', hh, hr, hx', ⟨_, hs'⟩ | ⟨rest, rfl, hs'⟩ | ⟨_, _, _, _, _, _, hs'⟩⟩ :=
      scanHeaders_cases bs.length ⟨0, true, errno⟩ r
    · rw [hs']
      exact Or.inl (scanOpen_of_lt hn r')
    · have hb : Head bs l hs rest := ⟨by rw [hbs, hr], hl, hh⟩
      obtain ⟨x, -, hx⟩ := scan_wellFormed hn he hw hb hrl
      rw [← scan_head hb hrl hx'] at hs'
      rw [hs', hx]
      split
      · rename_i hle
        exact Or.inr ⟨⟨l, hs, rest, hb, (hb.acceptedLine hn.le).2 hrl, hle⟩, x, rest, rfl⟩
      · exact Or.inl rfl
    · exact Or.inl hs'
  · exact Or.inl rfl

end WellFormed

/-- The parser accepts exactly the complete requests: `parse_` calls `do_request_` on them and returns
`ERROR_FORMAT` on everything else, and `m_content` is the declared part of what follows the empty line. -/
theorem parse_accepts_iff {q p : Parser} {errno : Errno} {bs : List Byte} (hn : bs.length < READ_BUFFER_SIZE)
    (hp : q.init_.receive bs = some p) (he : errno ≠ .einval)
    (hw : ∀ h, HasHeader bs h → IsContentLength h → WellFormedLength h) :
    ∃ e p' errno', p.parse_ errno = some (e, p', errno') ∧
      (e = .doRequest ↔ Complete bs) ∧ (¬ Complete bs → e = .returns .errorFormat) ∧
      (e = .doRequest → ∀ l hs rest, Head bs l hs rest → 0 < declaredLength hs →
        ∃ c z, p'.content = some c ∧ p'.readBuf.suffix c = rest.take (declaredLength hs) ++ 0 :: z) := by
  have hscan := Parser.parse_scan hp errno
  rcases scan_complete hn he hw with ⟨hc, x, rest, hx⟩ | ⟨hc, hr⟩
  · rw [hx] at hscan
    obtain ⟨p', hp', -, -, -, hcontent⟩ := hscan
    refine ⟨.doRequest, p', x.errno, hp', by simp [hc], fun h => absurd hc h, fun _ l hs rest' hb hL => ?_⟩
    obtain ⟨l₀, hs₀, rest₀, hb₀, ha₀, -⟩ := hc
    have hl : l₀ = l := by
      have h₁ := takeLine_line (lines hs₀ ++ CR :: LF :: rest₀) hb₀.plain
      rw [← hb₀.bytes, hb.bytes, takeLine_line _ hb.plain] at h₁
      exact (Prod.mk.inj (Option.some.inj h₁)).1.symm
    obtain ⟨y, hyL, hy⟩ := scan_wellFormed hn he hw hb (hl ▸ (hb₀.acceptedLine hn.le).1 ha₀)
    rw [hx] at hy
    split at hy
    · cases hy
      obtain ⟨c, hc, -, htext⟩ := hcontent (by omega)
      obtain ⟨z, hz⟩ := htext (by omega)
      rw [hyL, Int.toNat_natCast] at hz
      exact ⟨c, z, hc, hz⟩
    · cases hy
  · rw [hr] at hscan
    obtain ⟨p', errno', hp'⟩ := hscan
    exact ⟨_, p', errno', hp', by simp [hc], fun _ => rfl, fun h => by cases h⟩

/-- A request with a body of two bytes. -/
def twoByteRequest : List Byte := lit "POST /0 HTTP/1.1\r\nContent-length: 2\r\n\r\nab"

theorem twoByteRequest_headers {h : List Byte} (hh : HasHeader twoByteRequest h) :
    h = lit "Content-length: 2" ∨ h = [] := by
  obtain ⟨l, hs, r, hl, hhs, hp, hb⟩ := hh
  have next : ∀ {s a b l r : List Byte}, takeLine s = some (a, b) → s = l ++ CR :: LF :: r → Plain l →
      l = a ∧ r = b := by
    intro s a b l r ht he hl
    rw [he, takeLine_line r hl] at ht
    exact Prod.mk.inj (Option.some.inj ht)
  have t₁ : takeLine twoByteRequest = some (lit "POST /0 HTTP/1.1", lit "Content-length: 2\r\n\r\nab") := by decide
  have t₂ : takeLine (lit "Content-length: 2\r\n\r\nab") = some (lit "Content-length: 2", lit "\r\nab") := by decide
  have t₃ : takeLine (lit "\r\nab") = some ([], lit "ab") := by decide
  obtain ⟨-, hr⟩ := next t₁ hb hl
  match hs with
  | [] => exact Or.inl (next t₂ hr.symm hp).1
  | [h₁] =>
    rw [lines_cons] at hr
    obtain ⟨-, hr⟩ := next t₂ hr.symm (hhs h₁ (by simp)).1
    exact Or.inr (next t₃ hr.symm hp).1
  | h₁ :: h₂ :: hs =>
    rw [lines_cons, lines_cons] at hr
    obtain ⟨-, hr⟩ := next t₂ hr.symm (hhs h₁ (by simp)).1
    exact absurd (next t₃ hr.symm (hhs h₂ (by simp)).1).1 (hhs h₂ (by simp)).2

theorem parse_accepts_iff_twoByteRequest :
    ∃ p, Parser.zero.init_.receive twoByteRequest = some p ∧ ∃ e p' errno', p.parse_ .eagain = some (e, p', errno') ∧
      (e = .doRequest ↔ Complete twoByteRequest) ∧ (¬ Complete twoByteRequest → e = .returns .errorFormat) ∧
      (e = .doRequest → ∀ l hs rest, Head twoByteRequest l hs rest → 0 < declaredLength hs →
        ∃ c z, p'.content = some c ∧ p'.readBuf.suffix c = rest.take (declaredLength hs) ++ 0 :: z) := by
  have hsome : (Parser.zero.init_.receive twoByteRequest).isSome := by decide +kernel
  obtain ⟨p, hp⟩ := Option.isSome_iff_exists.1 hsome
  refine ⟨p, hp, parse_accepts_iff (by decide) hp (by decide) fun h hh hc => ?_⟩
  rcases twoByteRequest_headers hh with rfl | rfl
  · exact ⟨lit " ", lit "2", [], by decide +kernel, by decide +kernel, by decide +kernel, by decide +kernel,
      by decide +kernel⟩
  · exact absurd hc (by decide)

/-! ### Leaving the buffer -/

/-- The bytes before `s` are an accepted request line and header lines, which have set `x`. -/
def Reaches (errno : Errno) (bs : List Byte) (x : HeadState) (s : List Byte) : Prop :=
  ∃ l hs, bs = l ++ CR :: LF :: (lines hs ++ s) ∧ Plain l ∧ AcceptedLine l ∧ HeaderLines hs ∧
    readHeaders ⟨0, true, errno⟩ hs = some x

/-- The buffer is full, and behind the complete lines there is no NUL, and no CR or no LF. -/
def OpenEnd (errno : Errno) (bs : List Byte) : Prop :=
  bs.length = READ_BUFFER_SIZE ∧ ∃ s, (s = bs ∨ ∃ x, Reaches errno bs x s) ∧ 0 ∉ s ∧ (CR ∉ s ∨ LF ∉ s)

/-- The head is complete and declares a length that is not 0 and not more than there is, and the body of that
length would end before the buffer or at its end. -/
def BodyOutside (errno : Errno) (bs : List Byte) : Prop :=
  ∃ x rest, Reaches errno bs x (CR :: LF :: rest) ∧ x.contentLength ≠ 0 ∧ x.contentLength ≤ rest.length ∧
    ((bs.length : Int) - rest.length + x.contentLength < 0 ∨
      (bs.length : Int) - rest.length + x.contentLength = READ_BUFFER_SIZE)

private theorem takeLine_eq_none {s : List Byte} (h : CR ∉ s ∨ LF ∉ s) : takeLine s = none := by
  rcases ht : takeLine s with _ | ⟨l, r⟩
  · rfl
  · rw [(takeLine_eq_some.1 ht).1] at h
    simp at h

private theorem Reaches.scan {errno : Errno} {bs s : List Byte} {x : HeadState} (h : Reaches errno bs x s)
    (hn : bs.length ≤ READ_BUFFER_SIZE) : scan errno bs = scanHeaders bs.length x s := by
  obtain ⟨l, hs, hb, hl, ha, hh, hx⟩ := h
  have hlen := congrArg List.length hb
  simp only [List.length_append, List.length_cons] at hlen
  have hrl := (acceptedLine_iff hl.2.2 (by omega)).1 ha
  rw [ImageServer.scan, hb, takeLine_line _ hl]
  simp only [hrl, if_true]
  exact scanHeaders_lines hh hx

private theorem scanBody_undefined {n : Nat} {x : HeadState} {rest : List Byte} (hn : n ≤ READ_BUFFER_SIZE) :
    scanBody n x rest = .undefined ↔ x.contentLength ≠ 0 ∧ x.contentLength ≤ rest.length ∧
      ((n : Int) - rest.length + x.contentLength < 0 ∨
        (n : Int) - rest.length + x.contentLength = READ_BUFFER_SIZE) := by
  unfold scanBody
  by_cases h0 : x.contentLength = 0
  · simp [h0]
  by_cases hle : x.contentLength ≤ rest.length
  · rw [if_neg h0, if_pos hle]
    dsimp only
    split
    · constructor
      · intro h
        cases h
      · omega
    · exact ⟨fun _ => ⟨h0, hle, by omega⟩, fun _ => rfl⟩
  · rw [if_neg h0, if_neg hle]
    constructor
    · intro h
      cases h
    · exact fun h => absurd h.2.1 hle

private theorem scan_undefined {errno : Errno} {bs : List Byte} (hn : bs.length ≤ READ_BUFFER_SIZE) :
    scan errno bs = .undefined ↔ OpenEnd errno bs ∨ BodyOutside errno bs := by
  constructor
  · intro hu
    have hopen : ∀ {s}, scanOpen bs.length s = .undefined → Unterminated bs.length s := by
      intro s h
      by_contra hs
      rw [scanOpen, if_neg hs] at h
      cases h
    unfold scan at hu
    rcases ht : takeLine bs with _ | ⟨l, r⟩
    · rw [ht] at hu
      obtain ⟨hlen, h0, hcr⟩ := hopen hu
      exact Or.inl ⟨hlen, bs, Or.inl rfl, h0, hcr⟩
    obtain ⟨hbs, hl⟩ := takeLine_eq_some.1 ht
    have hlen := congrArg List.length hbs
    simp only [List.length_append, List.length_cons] at hlen
    rw [ht] at hu
    dsimp only at hu
    split at hu
    · rename_i hrl
      have hal := (acceptedLine_iff hl.2.2 (by omega)).2 hrl
      obtain ⟨hs, r', x', hh, hr, hx', ⟨_, hs'⟩ | ⟨rest, rfl, hs'⟩ | ⟨_, _, _, _, _, _, hs'⟩⟩ :=
        scanHeaders_cases bs.length ⟨0, true, errno⟩ r
      · rw [hs'] at hu
        obtain ⟨hlen, h0, hcr⟩ := hopen hu
        exact Or.inl ⟨hlen, r', Or.inr ⟨x', l, hs, by rw [hbs, hr], hl, hal, hh, hx'⟩, h0, hcr⟩
      · rw [hs'] at hu
        exact Or.inr ⟨x', rest, ⟨l, hs, by rw [hbs, hr], hl, hal, hh, hx'⟩, (scanBody_undefined hn).1 hu⟩
      · rw [hs'] at hu
        cases hu
    · cases hu
  · rintro (⟨hlen, s, hs, h0, hcr⟩ | ⟨x, rest, hr, hbody⟩)
    · have hopen : scanOpen bs.length s = .undefined := if_pos ⟨hlen, h0, hcr⟩
      rcases hs with rfl | ⟨x, hr⟩
      · rw [scan, takeLine_eq_none hcr]
        exact hopen
      · rw [hr.scan hn, scanHeaders_open (takeLine_eq_none hcr)]
        exact hopen
    · have ht : takeLine (CR :: LF :: rest) = some ([], rest) := takeLine_line (l := []) rest (by decide)
      rw [hr.scan hn, scanHeaders_line ht, if_pos rfl]
      exact (scanBody_undefined hn).2 hbody

/-- `parse_` stays inside `m_read_buf` except on an open end of a full buffer and on a declared length whose body
would end outside. -/
theorem parse_safe_iff {q p : Parser} {bs : List Byte} (hp : q.init_.receive bs = some p) (errno : Errno) :
    p.parse_ errno ≠ none ↔ ¬ (OpenEnd errno bs ∨ BodyOutside errno bs) := by
  have hscan := Parser.parse_scan hp errno
  rw [← scan_undefined (Parser.receive_init hp).2.1, not_iff_not]
  cases hs : scan errno bs with
  | undefined =>
    rw [hs] at hscan
    exact ⟨fun _ => rfl, fun _ => hscan⟩
  | rejected =>
    rw [hs] at hscan
    obtain ⟨p', e, h⟩ := hscan
    simp [h]
  | accepted x rest =>
    rw [hs] at hscan
    obtain ⟨p', h, _⟩ := hscan
    simp [h]

theorem parse_safe_iff_twoByteRequest :
    ∃ p, Parser.zero.init_.receive twoByteRequest = some p ∧
      (p.parse_ .eagain ≠ none ↔ ¬ (OpenEnd .eagain twoByteRequest ∨ BodyOutside .eagain twoByteRequest)) := by
  have hsome : (Parser.zero.init_.receive twoByteRequest).isSome := by decide +kernel
  obtain ⟨p, hp⟩ := Option.isSome_iff_exists.1 hsome
  exact ⟨p, hp, parse_safe_iff hp .eagain⟩

/-- A full buffer without a line end is searched past its end, and a negative length puts the terminator of the
body before its start. -/
theorem parse_leaves_buffer :
    (Parser.zero.init_.receive (List.replicate READ_BUFFER_SIZE 65)).map (fun p => p.parse_ .eagain) = some none ∧
      (Parser.zero.init_.receive (lit "POST / HTTP/1.1\r\nContent-length: -100\r\n\r\n")).map
        (fun p => p.parse_ .eagain) = some none := by
  constructor
  · decide +kernel
  · decide +kernel

end ImageServer
