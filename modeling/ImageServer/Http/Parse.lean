import ImageServer.Http.Handler

/-!
# Parsing a request

`parse_line_`, `parse_request_`, `parse_headers_`, `parse_content_` and the loop of `parse_`, on the bytes of
`m_read_buf`.  A result `none` is an access outside the buffer: C gives it no meaning.  The loop is cut at the two
calls of `do_request_` (`ParseEnd.doRequest`), so that what the parser decides is separate from what the request
then does.
-/

namespace ImageServer

open CLib

def CR : Byte := 13
def LF : Byte := 10
def SP : Byte := 32
def HT : Byte := 9
def SLASH : Byte := 47

namespace Parser

/-- What a `recv` that returns `bs` does to the buffer and its index. -/
def receive (p : Parser) (bs : List Byte) : Option Parser := do
  let k ← ptr p.readIdx
  let buf ← p.readBuf.copy k bs
  return { p with readBuf := buf, readIdx := p.readIdx + bs.length }

/-- `HttpHandler::parse_line_`. -/
def parseLine_ (p : Parser) : Option (LineState × Parser) := do
  let c ← ptr p.checkedIdx
  let slashr ← strpbrk [CR] (p.readBuf.suffix c)
  let slashn ← strpbrk [LF] (p.readBuf.suffix c)
  -- `slashr_ok` and `slashn_ok`: the offset is compared with an absolute index
  let ok (i : Nat) : Bool := (i : Int) ≤ p.readIdx - 1
  match slashn.filter ok, slashr.filter ok with
  | some n, some r =>
    let p := { p with checkedIdx := p.checkedIdx + n + 1 }
    if r + 1 = n then
      let buf ← p.readBuf.poke (c + r) 0
      let buf ← buf.poke (c + n) 0
      return (.lineOk, { p with readBuf := buf })
    else
      return (.lineBad, p)
  | some n, none => return (.lineBad, { p with checkedIdx := p.checkedIdx + n + 1 })
  | none, some r =>
    return (if (r : Int) = p.readIdx - 1 then .lineOpen else .lineBad, { p with checkedIdx := p.checkedIdx + r + 1 })
  | none, none => return (.lineOpen, { p with checkedIdx := p.readIdx })

/-- The method the text names: the chain of `strcasecmp` in `parse_request_`. -/
def methodOf (text : List Byte) : Option (Option Method) := do
  if ← strcaseeq (lit "GET") text then return some .get
  if ← strcaseeq (lit "POST") text then return some .post
  if ← strcaseeq (lit "HEAD") text then return some .head
  return none

/-- Where the path of the target at `url` starts: an `http://` or `https://` prefix is skipped, with the host. -/
def locatePath (buf : CharArray READ_BUFFER_SIZE) (url : Nat) : Option (Option Nat) := do
  if ← strncaseeq (lit "http://") (buf.suffix url) then
    return (← strpbrk [SLASH] (buf.suffix (url + 7))).map (url + 7 + ·)
  if ← strncaseeq (lit "https://") (buf.suffix url) then
    return (← strpbrk [SLASH] (buf.suffix (url + 8))).map (url + 8 + ·)
  return some url

/-- The end of `parse_request_`, from the test of `m_url` on; `version` is the offset of the version text. -/
def finishRequest (p : Parser) (version : Nat) : Option (HttpState × Parser) := do
  match p.url with
  | none => return (.errorFormat, p)
  | some u =>
    if (← p.readBuf.peek u) ≠ SLASH then return (.errorFormat, p)
    if ← strcaseeq (lit "HTTP/1.1") (p.readBuf.suffix version) then
      let buf ←
        if (← strlen (p.readBuf.suffix u)) = 1 then p.readBuf.copy (u + 1) (lit "judge.html" ++ [0])
        else some p.readBuf
      return (.parsering, { p with readBuf := buf, checkState := .checkStateHeader })
    else return (.errorFormat, p)

/-- `HttpHandler::parse_request_` on the line at `text`. -/
def parseRequest_ (p : Parser) (text : Nat) : Option (HttpState × Parser) := do
  match ← strpbrk [SP] (p.readBuf.suffix text) with
  | none => return (.errorFormat, { p with url := none })
  | some i =>
    let url := text + i + 1
    let p := { p with readBuf := ← p.readBuf.poke (text + i) 0, url := some url }
    match ← methodOf (p.readBuf.suffix text) with
    | none => return (.errorFormat, p)
    | some m =>
      let p := { p with method := m, cgi := p.cgi || decide (m = Method.post) }
      match ← strpbrk [SP] (p.readBuf.suffix url) with
      | none => return (.errorFormat, { p with version := none })
      | some j =>
        let p := { p with readBuf := ← p.readBuf.poke (url + j) 0, version := some (url + j + 1) }
        let p := { p with url := ← locatePath p.readBuf url }
        finishRequest p (url + j + 1)

/-- The headers whose value `parse_headers_` only remembers. -/
inductive Field
  | host
  | useragent
  | origin
  | contentType
  | encoding
  | upgrade
  | accept
  | referer
  | language
deriving DecidableEq

/-- The names of those headers, in the order in which they are tried. -/
def fieldNames : List (Field × List Byte) :=
  [(.host, lit "Host:"), (.useragent, lit "User-Agent:"), (.origin, lit "Origin:"),
   (.contentType, lit "Content-Type:"), (.encoding, lit "Accept-Encoding:"),
   (.upgrade, lit "Upgrade-Insecure-Requests:"), (.accept, lit "Accept:"), (.referer, lit "Referer:"),
   (.language, lit "Accept_Language:")]

def setField (p : Parser) (v : Nat) : Field → Parser
  | .host => { p with host := some v }
  | .useragent => { p with useragent := some v }
  | .origin => { p with origin := some v }
  | .contentType => { p with contentType := some v }
  | .encoding => { p with encoding := some v }
  | .upgrade => { p with upgrade := some v }
  | .accept => { p with accept := some v }
  | .referer => { p with referer := some v }
  | .language => { p with language := some v }

/-- The first of the names that the line at `text` starts with. -/
def findField (s : List Byte) : List (Field × List Byte) → Option (Option (Field × Nat))
  | [] => some none
  | (f, name) :: names => do
    if ← strncaseeq name s then return some (f, name.length) else findField s names

/-- `text += k; text += strspn(text, " \t")`. -/
def skipBlanks (buf : CharArray READ_BUFFER_SIZE) (text k : Nat) : Option Nat :=
  (strspn [SP, HT] (buf.suffix (text + k))).map (text + k + ·)

/-- The end of `parse_headers_`: the line is cut at the first blank from `text` on. -/
def cutAtBlank (p : Parser) (text : Nat) (errno : Errno) : Option (HttpState × Parser × Errno) := do
  match ← strpbrk [SP, HT] (p.readBuf.suffix text) with
  | some i => return (.parsering, { p with readBuf := ← p.readBuf.poke (text + i) 0 }, errno)
  | none => return (.parsering, p, errno)

/-- `HttpHandler::parse_headers_` on the line at `text`; `strtol` may change `errno`. -/
def parseHeaders_ (p : Parser) (text : Nat) (errno : Errno) : Option (HttpState × Parser × Errno) := do
  if (← p.readBuf.peek text) = 0 then
    if p.contentLength ≠ 0 then return (.parsering, { p with checkState := .checkStateContent }, errno)
    else return (.readyRequest, p, errno)
  else if ← strncaseeq (lit "Connection:") (p.readBuf.suffix text) then
    let text ← skipBlanks p.readBuf text 11
    if ← strncaseeq (lit "close") (p.readBuf.suffix text) then cutAtBlank { p with linger := false } text errno
    else cutAtBlank p text errno
  else if ← strncaseeq (lit "Content-length:") (p.readBuf.suffix text) then
    let text ← skipBlanks p.readBuf text 15
    let (v, range) ← strtol (p.readBuf.suffix text)
    let errno := if range then .erange else errno
    let p := { p with contentLength := toInt32 v }
    if errno = .einval then return (.errorFormat, p, errno)
    else cutAtBlank p text errno
  else
    match ← findField (p.readBuf.suffix text) fieldNames with
    | some (f, k) =>
      let text ← skipBlanks p.readBuf text k
      cutAtBlank (p.setField text f) text errno
    | none => cutAtBlank p text errno

/-- `HttpHandler::parse_content_` on the body at `text`. -/
def parseContent_ (p : Parser) (text : Nat) : Option (HttpState × Parser) := do
  if (text : Int) + p.contentLength ≤ p.readIdx then
    let e ← ptr (text + p.contentLength)
    let buf ← p.readBuf.poke e 0
    return (.readyRequest, { p with readBuf := buf, content := some text })
  else
    return (.errorFormat, p)

end Parser

/-- How the loop of `parse_` ends: with a result of its own or in a call of `do_request_`. -/
inductive ParseEnd
  | returns (ret : HttpState)
  | doRequest
  | outOfFuel
deriving DecidableEq

namespace Parser

/-- The body of the loop of `parse_` for the line at `text`; `none` in the result goes on with the loop. -/
def parseText (p : Parser) (text : Nat) (errno : Errno) : Option (Option ParseEnd × Parser × Errno) := do
  match p.checkState with
  | .checkStateRequestline =>
    let (ret, p) ← p.parseRequest_ text
    return (if ret = .errorFormat then some (.returns .errorFormat) else none, p, errno)
  | .checkStateHeader =>
    let (ret, p, errno) ← p.parseHeaders_ text errno
    return (if ret = .errorFormat then some (.returns .errorFormat)
      else if ret = .readyRequest then some .doRequest else none, p, errno)
  | .checkStateContent =>
    let (ret, p) ← p.parseContent_ text
    return (if ret = .errorFormat then some (.returns .errorFormat)
      else if ret = .readyRequest then some .doRequest else none, p, errno)

/-- The loop of `parse_`, up to `fuel` iterations; `status` is `line_status`. -/
def parseLoop : Nat → LineState → Parser → Errno → Option (ParseEnd × Parser × Errno)
  | 0, _, p, errno => some (.outOfFuel, p, errno)
  | fuel + 1, status, p, errno => do
    -- after the empty line of a request with a body the next text is not scanned for a line end
    let (status, p) ←
      if p.checkState = .checkStateContent ∧ status = .lineOk then some (status, p) else p.parseLine_
    if status ≠ .lineOk then return (.returns .errorFormat, p, errno)
    let text ← ptr p.startLine
    let (e, p, errno) ← parseText { p with startLine := p.checkedIdx } text errno
    match e with
    | some e => return (e, p, errno)
    | none => parseLoop fuel status p errno

theorem parseLoop_succ (fuel : Nat) (status : LineState) (p : Parser) (errno : Errno) :
    parseLoop (fuel + 1) status p errno =
      (if p.checkState = .checkStateContent ∧ status = .lineOk then some (status, p) else p.parseLine_).bind fun x =>
        if x.1 ≠ .lineOk then some (.returns .errorFormat, x.2, errno)
        else
          (ptr x.2.startLine).bind fun text =>
            (parseText { x.2 with startLine := x.2.checkedIdx } text errno).bind fun y =>
              match y.1 with
              | some e => some (e, y.2.1, y.2.2)
              | none => parseLoop fuel x.1 y.2.1 y.2.2 := by
  rw [parseLoop]
  split <;> rfl

/-- What a line end and a parsed line keep holds before the line that leads to `do_request_`. -/
theorem parseLoop_rule {P : Parser → Prop} (hline : ∀ p p', P p → p.parseLine_ = some (.lineOk, p') → P p')
    (htext : ∀ p p' t errno errno', P p → ptr p.startLine = some t →
      parseText { p with startLine := p.checkedIdx } t errno = some (none, p', errno') → P p')
    {fuel : Nat} {status : LineState} {p p' : Parser} {errno errno' : Errno} (hp : P p)
    (h : parseLoop fuel status p errno = some (.doRequest, p', errno')) :
    ∃ q t e, P q ∧ ptr q.startLine = some t ∧
      parseText { q with startLine := q.checkedIdx } t e = some (some .doRequest, p', errno') := by
  induction fuel generalizing status p errno with
  | zero => cases h
  | succ fuel ih =>
    rw [parseLoop_succ] at h
    obtain ⟨⟨st, q⟩, hq, h⟩ := Option.bind_eq_some_iff.1 h
    split at h
    · cases h
    rename_i hok
    rw [not_not] at hok
    obtain ⟨t, ht, h⟩ := Option.bind_eq_some_iff.1 h
    obtain ⟨⟨e, q', errno''⟩, hend, h⟩ := Option.bind_eq_some_iff.1 h
    dsimp only at hok ht hend h
    have hPq : P q := by
      split at hq
      · cases hq
        exact hp
      · exact hline p q hp (hok ▸ hq)
    cases e with
    | none => exact ih (htext q q' t errno errno'' hPq ht hend) h
    | some e =>
      cases h
      exact ⟨q, t, errno, hPq, ht, hend⟩

/-- `HttpHandler::parse_` up to its calls of `do_request_`.  `line_status` has no initial value; in the states
`init_` leaves, it is assigned before it is read. -/
def parse_ (p : Parser) (errno : Errno) : Option (ParseEnd × Parser × Errno) :=
  parseLoop (READ_BUFFER_SIZE + 2) .lineBad p errno

end Parser

end ImageServer
