import ImageServer.Http.Confinement
import ImageServer.Http.Files
import ImageServer.Http.Response

/-!
# The framing of a file

`m_file_stat.st_size` becomes `Content-Length`, the length of `m_iv[1]` and a summand of `bytes_to_send`, the first and
the last of them as an `int`.  The three fit the file as long as it, with its header block, is shorter than 2^31 bytes.
A file of length 0 never gets to the placeholder page meant for it: its `mmap` fails first, and it is answered with 500
(`framed_iff`).
-/

namespace ImageServer

open CLib Writer

/-- The header block of a body of `n` bytes. -/
def fileHead (linger : Bool) (n : Nat) : List Byte := statusText 200 (lit "OK") ++ headersText linger n

def placeholder : List Byte := lit "<html><body></body></html>"

/-- A handler that has been initialised for its first connection, whatever its parser has received and whichever
database connection it is lent, has a request that `parse_` hands to `do_request_` with the fields `p`, and the name it
resolves to is that of a readable regular file; only the empty file cannot be mapped. -/
structure RequestsFile (h : HttpHandler) (users : Users) (env : Env) (errno : Errno) (p : Parser) (file : List Byte) :
    Prop where
  fresh : ∃ (sockfd : Int) (timer : Option Nat) (type : ClientType) (content : Option Ssl) (mysql : Option Nat)
    (q : Parser), h = { HttpHandler.fresh sockfd timer type content with mysql := mysql, toParser := q }
  accepted : ∃ e, h.toParser.parse_ errno = some (.doRequest, p, e)
  found : ∃ p' r users' path, resolve env h.mysql users p h.toResource = some (p', r, users') ∧
    cstring r.realFile.bytes = some path ∧ env.stat path = some ⟨true, false, file.length⟩ ∧
    env.openFile path = true ∧ env.mmap path = if file = [] then none else some file

/-- A 200 response whose `Content-Length` is the length of `inline`, which is in `m_write_buf`, and `mapped`, which
`m_iv[1]` offers. -/
structure Framed (h : HttpHandler) (inline mapped : List Byte) : Prop where
  text : h.writeBuf.bytes.take h.writeIdx = fileHead h.linger (inline.length + mapped.length) ++ inline
  offers : h.offer = some (h.writeBuf.bytes.take h.writeIdx ++ mapped)
  counter : h.bytesToSend = h.writeIdx + mapped.length
  inRange : h.bytesToSend < 2 ^ 31

/-- `parse_` with its `do_request_`, and then `write_to_buffer_`, prepare the framed response for the file. -/
def AnswersFramed (h : HttpHandler) (users : Users) (env : Env) (errno : Errno) (file : List Byte) : Prop :=
  ∃ ret h₁ users' h₂, h.parse users env errno = some (ret, h₁, users') ∧ h₁.writeToBuffer_ ret = some (true, h₂) ∧
    Framed h₂ (if file = [] then placeholder else []) file

/-! ### The two halves of `do_request_` on the file -/

private theorem openResource_file {env : Env} {r : Resource} {path file : List Byte}
    (hpath : cstring r.realFile.bytes = some path) (hstat : env.stat path = some ⟨true, false, file.length⟩)
    (hopen : env.openFile path = true) (hmmap : env.mmap path = if file = [] then none else some file) :
    ∃ ret r', openResource env r = some (ret, r') ∧
      ((file ≠ [] ∧ env.closeFile = true) ∧ ret = .finishedRequest ∧
          r' = { r with fileStat := ⟨true, false, file.length⟩, fileAddress := .mapped file } ∨
        ¬ (file ≠ [] ∧ env.closeFile = true) ∧ ret = .internalError) := by
  unfold openResource
  simp only [hpath, hstat, hopen, hmmap, Option.bind_eq_bind, Option.bind_some, not_true, if_false, Bool.false_eq_true]
  by_cases hf : file = []
  · rw [if_pos hf]
    exact ⟨_, _, rfl, .inr ⟨fun h => h.1 hf, rfl⟩⟩
  · rw [if_neg hf]
    dsimp only
    by_cases hc : env.closeFile = true
    · rw [if_pos hc]
      exact ⟨_, _, rfl, .inl ⟨⟨hf, hc⟩, rfl, rfl⟩⟩
    · rw [if_neg hc]
      exact ⟨_, _, rfl, .inr ⟨fun h => hc h.2, rfl⟩⟩

/-- What `parse_` and its `do_request_` come to. -/
private theorem RequestsFile.parse {h : HttpHandler} {users : Users} {env : Env} {errno : Errno} {p : Parser}
    {file : List Byte} (hr : RequestsFile h users env errno p file) :
    ∃ ret h₁ users', h.parse users env errno = some (ret, h₁, users') ∧ h₁.linger = p.linger ∧
      h₁.toWriter = h.toWriter ∧
      ((file ≠ [] ∧ env.closeFile = true) ∧ ret = .finishedRequest ∧
          h₁.fileStat = ⟨true, false, file.length⟩ ∧ h₁.fileAddress = .mapped file ∨
        ¬ (file ≠ [] ∧ env.closeFile = true) ∧ ret = .internalError) := by
  obtain ⟨e, hparse⟩ := hr.accepted
  obtain ⟨p', r, users', path, hres, hpath, hstat, hopen, hmmap⟩ := hr.found
  obtain ⟨ret, r', hresource, hcases⟩ := openResource_file hpath hstat hopen hmmap
  obtain ⟨buf, name, rfl, -⟩ := resolve_frame hres
  refine ⟨ret, { h with toParser := { p with readBuf := buf }, toResource := r' }, users', ?_, rfl, rfl, ?_⟩
  · unfold HttpHandler.parse
    simp only [hparse, Option.bind_eq_bind, Option.bind_some, doRequest_eq, hres, hresource, Option.map_some]
    rfl
  · exact hcases.imp_left fun ⟨hc, hret, hr'⟩ => ⟨hc, hret, hr' ▸ rfl, hr' ▸ rfl⟩

/-- The writer of a fresh handler is empty. -/
private theorem RequestsFile.writer {h : HttpHandler} {users : Users} {env : Env} {errno : Errno} {p : Parser}
    {file : List Byte} (hr : RequestsFile h users env errno p file) : h.writeIdx = 0 ∧ h.ivCount = 0 := by
  obtain ⟨_, _, _, _, _, _, rfl⟩ := hr.fresh
  exact ⟨rfl, rfl⟩

/-! ### The response -/

/-- The status lines of a page and of a file differ in the 10th character already. -/
private theorem internalError_ne (linger linger' : Bool) (r : Resource) (n : Nat) (s : List Byte) :
    bufferText linger r .internalError ≠ fileHead linger' n ++ s := by
  intro h
  have h9 : (some 53 : Option Byte) = some 50 := congrArg (·[9]?) h
  cases h9

/-- The response with a file frames it by its length when that, with the header block, is in range. -/
theorem framed_file {h : HttpHandler} {w : Writer} {file : List Byte} (hiv : h.ivCount = 0)
    (hstat : h.fileStat = ⟨true, false, file.length⟩) (haddr : h.fileAddress = .mapped file) (hf : file ≠ [])
    (hw : Prepared h.toWriter h.linger h.toResource .finishedRequest w) :
    Framed { h with toWriter := w } [] file ↔
      file.length + (fileHead h.linger file.length).length < 2 ^ 31 := by
  have hpos : 0 < file.length := List.length_pos_iff.2 hf
  have hsize : h.fileStat.size = file.length := by rw [hstat]
  have hm : MapsFile h.toResource .finishedRequest := ⟨rfl, by omega⟩
  have hans : Answer .finishedRequest := by simp [Answer]
  obtain ⟨hiv1, hcount, hsend⟩ := hw.withFile hm
  have htext : file.length < 2 ^ 31 → bufferText h.linger h.toResource .finishedRequest =
      fileHead h.linger file.length := by
    intro hlt
    rw [bufferText_file hm, hsize, toInt32_natCast hlt]
    rfl
  constructor
  · intro hfr
    have hcounter := hfr.counter
    have hrange := hfr.inRange
    dsimp only at hcounter hrange
    rw [hsend, hsize] at hcounter hrange
    have hb := toInt32_bounds file.length
    have hlt : file.length < 2 ^ 31 := by omega
    have hidx := hw.writeIdx
    rw [htext hlt] at hidx
    omega
  · intro hrange
    have hlt : file.length < 2 ^ 31 := by omega
    have hidx := hw.writeIdx
    rw [htext hlt] at hidx
    have hwrote := hw.writeBuf
    rw [htext hlt] at hwrote
    refine ⟨?_, ?_, ?_, ?_⟩
    · rw [List.append_nil, List.length_nil, Nat.zero_add]
      exact hwrote
    · have hone := hw.iv0_bytes hans (.mapped file)
      rw [htext hlt] at hone
      have htwo : w.iv1.bytes w (.mapped file) = some file := by
        rw [hiv1, haddr, hsize, IoVec.bytes]
        dsimp only
        rw [if_neg (by omega), if_pos ⟨rfl, Int.le_refl _, by omega, by omega⟩]
        simp
      unfold HttpHandler.offer offered
      rw [haddr, hcount, hiv]
      dsimp only
      rw [hone, htwo, hwrote]
      rfl
    · show w.bytesToSend = w.writeIdx + file.length
      rw [hsend, hsize, toInt32_natCast hlt, Int.add_comm]
    · show w.bytesToSend < 2 ^ 31
      rw [hsend, hsize, toInt32_natCast hlt]
      omega

/-- The response for a file is framed by its length exactly when the file is not empty, is shorter than 2^31 bytes with
its header block, and its descriptor can be closed. -/
theorem framed_iff {h : HttpHandler} {users : Users} {env : Env} {errno : Errno} {p : Parser} {file : List Byte}
    (hr : RequestsFile h users env errno p file) :
    AnswersFramed h users env errno file ↔
      0 < file.length ∧ file.length + (fileHead p.linger file.length).length < 2 ^ 31 ∧ env.closeFile = true := by
  obtain ⟨ret, h₁, users', hparse, hlinger, hwriter, hcases⟩ := hr.parse
  obtain ⟨hidx, hiv⟩ := hr.writer
  have hidx₁ : h₁.writeIdx = 0 := hwriter ▸ hidx
  have hiv₁ : h₁.ivCount = 0 := hwriter ▸ hiv
  have hans : Answer ret := by
    rcases hcases with ⟨-, rfl, -⟩ | ⟨-, rfl⟩ <;> simp [Answer]
  obtain ⟨w, hwrite, hprep⟩ := writeToBuffer_prepared h₁.linger h₁.toResource hidx₁ hans
  have hbuf : h₁.writeToBuffer_ ret = some (true, { h₁ with toWriter := w }) := by
    rw [HttpHandler.writeToBuffer_, hwrite]
    rfl
  have hreach : AnswersFramed h users env errno file ↔
      Framed { h₁ with toWriter := w } (if file = [] then placeholder else []) file := by
    constructor
    · rintro ⟨_, _, _, h₂, hp, hb, hfr⟩
      cases hparse.symm.trans hp
      cases hbuf.symm.trans hb
      exact hfr
    · exact fun hfr => ⟨_, _, _, _, hparse, hbuf, hfr⟩
  rw [hreach]
  rcases hcases with ⟨⟨hf, hclose⟩, rfl, hstat, haddr⟩ | ⟨hc, rfl⟩
  · rw [if_neg hf, framed_file hiv₁ hstat haddr hf hprep, hlinger]
    exact ⟨fun hlt => ⟨List.length_pos_iff.2 hf, hlt, hclose⟩, fun hr => hr.2.1⟩
  · constructor
    · intro hfr
      exact absurd (hprep.writeBuf.symm.trans hfr.text) (internalError_ne _ _ _ _ _)
    · rintro ⟨hpos, -, hclose⟩
      exact absurd ⟨List.length_pos_iff.1 hpos, hclose⟩ hc

/-- A new connection has sent a request for `/a`. -/
def asksForFile : HttpHandler :=
  { HttpHandler.fresh 19 none .httpClient none with
    mysql := none, toParser := received (lit "GET /a HTTP/1.1\r\n\r\n") }

def askedForFile : Parser := (requestFor (lit "/root/a") (lit "GET /a HTTP/1.1\r\n\r\n")).parser

private theorem asksForFile_requests (file : List Byte) :
    RequestsFile asksForFile (fun _ => none) (InUse.oneFile file) .eagain askedForFile file := by
  have hres : (resolve (InUse.oneFile file) none (fun _ => none) askedForFile asksForFile.toResource).map
      (fun x => cstring x.2.1.realFile.bytes) = some (some (lit "/root/a")) := by
    have hroot : resolve (InUse.oneFile file) none (fun _ => none) askedForFile asksForFile.toResource =
        resolve (InUse.oneFile []) none (fun _ => none) askedForFile asksForFile.toResource := rfl
    rw [hroot]
    decide +kernel
  obtain ⟨x, hx, hpath⟩ := Option.map_eq_some_iff.1 hres
  exact {
    fresh := ⟨_, _, _, _, _, _, rfl⟩
    accepted := ⟨.eagain, by decide +kernel⟩
    found := ⟨_, _, _, _, hx, hpath, rfl, rfl, rfl⟩ }

theorem framed_iff_hello :
    AnswersFramed asksForFile (fun _ => none) (InUse.oneFile (lit "hello")) .eagain (lit "hello") :=
  (framed_iff (asksForFile_requests (lit "hello"))).2 (by decide +kernel)

/-- The text `write_to_buffer_` prepares for what `parse_` returns. -/
def HttpHandler.answerText (h : HttpHandler) (users : Users) (env : Env) (errno : Errno) : Option (List Byte) :=
  ((h.parse users env errno).bind fun x => x.2.1.writeToBuffer_ x.1).map fun y => y.2.writeBuf.bytes.take y.2.writeIdx

private theorem not_answersFramed {h : HttpHandler} {users : Users} {env : Env} {errno : Errno} {file : List Byte}
    {linger : Bool} {r : Resource} (ht : h.answerText users env errno = some (bufferText linger r .internalError)) :
    ¬ AnswersFramed h users env errno file := by
  rintro ⟨ret, h₁, users', h₂, hp, hb, hfr⟩
  simp only [HttpHandler.answerText, hp, hb, Option.bind_some, Option.map_some, Option.some.injEq] at ht
  exact internalError_ne linger _ r _ _ (ht.symm.trans hfr.text)

/-- The empty file is answered with 500, not with the placeholder page. -/
theorem emptyFile_notFramed :
    RequestsFile asksForFile (fun _ => none) (InUse.oneFile []) .eagain askedForFile [] ∧
      asksForFile.answerText (fun _ => none) (InUse.oneFile []) .eagain =
        some (bufferText true Resource.zero .internalError) ∧
      ¬ AnswersFramed asksForFile (fun _ => none) (InUse.oneFile []) .eagain [] := by
  have htext : asksForFile.answerText (fun _ => none) (InUse.oneFile []) .eagain =
      some (bufferText true Resource.zero .internalError) := by decide +kernel
  exact ⟨asksForFile_requests [], htext, not_answersFramed htext⟩

end ImageServer
