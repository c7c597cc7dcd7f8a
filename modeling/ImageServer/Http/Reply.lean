import ImageServer.Http.Assembly
import ImageServer.Http.FileName
import ImageServer.Http.Framing

/-!
# From the bytes of `recv` to the bytes of the first write call

What a new connection is answered with, as a function of the judgement on what it has sent and of the file system
(`Judgement.reply`): the page for a request that is refused, and for one that is accepted the page for what the file
calls come to under its name, or the file.  `process_replies` proves of the steps of `process()` that their first write
call offers exactly these bytes.  A `POST` to one of the actions on accounts is left to `FormReply`.
-/

namespace ImageServer

open CLib Transition Writer

/-! ### The reply -/

/-- The text of a response without a file. -/
def pageFor (linger : Bool) (ret : HttpState) : List Byte := bufferText linger Resource.zero ret

/-- The character behind the last slash of a path, or its NUL. -/
def actionOf (u : List Byte) : Byte := (u.rtakeWhile (· ≠ SLASH)).headD 0

/-- The name a path is looked up under. -/
def fileName (root u : List Byte) : List Byte :=
  root ++ (actionPages.lookup (actionOf u)).getD (u.take (FILENAME_LEN - root.length - 1))

/-- The response, by what the file calls say of the name. -/
def fileReply (env : Env) (linger : Bool) (name : List Byte) : List Byte :=
  match env.stat name with
  | none => pageFor linger .errorFileNotFound
  | some st =>
    if st.iroth = false then pageFor linger .errorAccessFailed
    else if st.isDir = true then pageFor linger .errorFormat
    else if env.openFile name = false then pageFor linger .errorAccessFailed
    else
      match env.mmap name with
      | none => pageFor linger .internalError
      | some file =>
        if env.closeFile = true then fileHead linger file.length ++ file else pageFor linger .internalError

namespace Judgement

/-- The path of an accepted request. -/
def path (l : List Byte) (q : RequestLine) : List Byte := servedPath ((l.drop q.url).takeWhile (· ≠ SP))

/-- The bytes the first write call offers. -/
def reply (env : Env) : Judgement → Option (List Byte)
  | .undefined => none
  | .refused linger => some (pageFor linger .errorFormat)
  | .accepted l _ x _ => (readRequestLine l).map fun q => fileReply env x.linger (fileName env.rootPath (path l q))

/-- `m_linger` in the end. -/
def linger : Judgement → Bool
  | .undefined => true
  | .refused linger => linger
  | .accepted _ _ x _ => x.linger

/-- `parse_` stays in the buffer, and an accepted request declares no negative length and is not one for an account. -/
def Ordinary : Judgement → Prop
  | .undefined => False
  | .refused _ => True
  | .accepted l _ x _ => 0 ≤ x.contentLength ∧ ∀ q, readRequestLine l = some q →
      ¬ (q.method = .post ∧ (actionOf (path l q) = 50 ∨ actionOf (path l q) = 51))

end Judgement

/-- The names of the pages fit into `m_real_file` behind the root directory. -/
structure RootFits (root : List Byte) : Prop where
  plain : 0 ∉ root
  room : root.length < FILENAME_LEN
  pages : ∀ page ∈ actionPages.map Prod.snd, root.length + page.length < FILENAME_LEN

/-- A file is mapped at the size `stat` gives, which is not 0, and it makes a response whose length is an `int`. -/
def Env.FilesFit (env : Env) : Prop :=
  ∀ name st file linger, env.stat name = some st → env.mmap name = some file →
    file ≠ [] ∧ st.size = file.length ∧ file.length + (fileHead linger file.length).length < 2 ^ 31

private theorem fileName_fits {root : List Byte} (hroot : RootFits root) (u : List Byte) :
    (fileName root u).length < FILENAME_LEN := by
  have hroom := hroot.room
  unfold fileName
  rw [List.length_append]
  rcases hlook : actionPages.lookup (actionOf u) with _ | page
  · rw [Option.getD_none, List.length_take]
    omega
  · exact hroot.pages page (List.mem_map.2 ⟨_, mem_actionPages hlook, rfl⟩)

/-! ### `do_request_` -/

private theorem actionOf_text {a b : List Byte} (hb : SLASH ∉ b) : actionOf (a ++ SLASH :: b) = b.headD 0 := by
  unfold actionOf List.rtakeWhile
  rw [List.reverse_append, List.reverse_cons, List.append_assoc, List.singleton_append,
    Request.takeWhile_stop fun h => hb (List.mem_reverse.1 h), List.reverse_reverse]

namespace Request

/-- The action of a request is that of the text at `m_url`. -/
private theorem action_of_text {q : Request} {u : List Byte} (hu : q.urlText = some u) (hslash : SLASH ∈ u) :
    q.action = some (actionOf u) := by
  obtain ⟨url, hurl, htext⟩ := Option.bind_eq_some_iff.1 hu
  rcases hi : lastIdx SLASH u with _ | i
  · exact absurd hslash (not_mem_of_lastIdx hi)
  have hlast : q.lastSlash = some (url, url + i) :=
    lastSlash_eq_some.2 ⟨i, hurl, by rw [strrchr, htext, Option.map_some, hi], rfl⟩
  obtain ⟨a, b, -, hu', -, hb, hpeek⟩ := lastSlash_text hlast
  cases hu.symm.trans hu'
  rw [action_eq, hlast, Option.bind_some, hpeek, actionOf_text hb]

/-- What `do_request_` comes to without an account: the file calls are made under the name for the path. -/
private theorem run_opened {q : Request} (users : Users) {u : List Byte} {c : Byte} (hu : q.urlText = some u)
    (hc : q.action = some c) (hno : ¬ (q.parser.cgi = true ∧ (c = 50 ∨ c = 51)))
    (hr : q.resource.realFile = CharArray.zeros _) (h0 : 0 ∉ q.env.rootPath)
    (hfits : q.env.rootPath.length + (q.target u c).length < FILENAME_LEN) :
    ∃ ret name r', q.run users = some (ret, q.parser, r', users) ∧
      Opened q.env (q.env.rootPath ++ q.target u c) { q.resource with realFile := name } ret r' := by
  rw [action_eq] at hc
  obtain ⟨⟨url, slash⟩, hs, hpeek⟩ := Option.bind_eq_some_iff.1 hc
  obtain ⟨i, hurl, hlast, rfl⟩ := lastSlash_eq_some.1 hs
  obtain ⟨file, hfile⟩ := CharArray.copy_isSome (a := q.resource.realFile) (p := 0) (s := q.env.rootPath ++ [0])
    (by rw [List.length_append, List.length_singleton]; omega)
  have hname := chooseFile_target hr h0 hurl hu hpeek hfile
  rw [if_pos hfits] at hname
  obtain ⟨name, hname, hpath⟩ := hname
  obtain ⟨ret, r', hrun, hopen, -⟩ := run_of_steps hfile hurl hlast hpeek (if_neg hno) hname hpath
  obtain ⟨path, hpath', hopened⟩ := openResource_opened hopen
  cases hpath.symm.trans hpath'
  exact ⟨ret, name, r', hrun, hopened⟩

end Request

/-- What `write_to_buffer_` makes of the result `ret` of `parse_`: a page, or the head of the file and the mapping. -/
inductive Promised (h : HttpHandler) : HttpState → List Byte → Prop
  | page {ret : HttpState} : Answer ret → ret ≠ .finishedRequest → Promised h ret (pageFor h.linger ret)
  | file {file : List Byte} : h.fileStat = ⟨true, false, file.length⟩ → h.fileAddress = .mapped file → file ≠ [] →
    file.length + (fileHead h.linger file.length).length < 2 ^ 31 →
    Promised h .finishedRequest (fileHead h.linger file.length ++ file)

/-- What the file calls come to is the reply for the name. -/
theorem Opened.promised {h : HttpHandler} {env : Env} {name : List Byte} {r r' : Resource} {ret : HttpState}
    (ho : Opened env name r ret r') (hr' : h.toResource = r') (henv : env.FilesFit) :
    Promised h ret (fileReply env h.linger name) := by
  have page : ∀ {e : HttpState}, Answer e → e ≠ .finishedRequest → fileReply env h.linger name = pageFor h.linger e →
      Promised h e (fileReply env h.linger name) := fun ha hne he => he ▸ .page ha hne
  cases ho with
  | notFound hstat => exact page (by simp [Answer]) (by decide) (by simp [fileReply, hstat])
  | noAccess hstat hr => exact page (by simp [Answer]) (by decide) (by simp [fileReply, hstat, hr])
  | directory hstat hr hd => exact page (by simp [Answer]) (by decide) (by simp [fileReply, hstat, hr, hd])
  | notOpened hstat hr hd hopen =>
    exact page (by simp [Answer]) (by decide) (by simp [fileReply, hstat, hr, hd, hopen])
  | notMapped hstat hr hd hopen hmmap =>
    exact page (by simp [Answer]) (by decide) (by simp [fileReply, hstat, hr, hd, hopen, hmmap])
  | notClosed hstat hr hd hopen hmmap hclose =>
    exact page (by simp [Answer]) (by decide) (by simp [fileReply, hstat, hr, hd, hopen, hmmap, hclose])
  | @served st file hstat hr hd hopen hmmap hclose =>
    obtain ⟨hne, hsize, hrange⟩ := henv name st file h.linger hstat hmmap
    have hreply : fileReply env h.linger name = fileHead h.linger file.length ++ file := by
      simp [fileReply, hstat, hr, hd, hopen, hmmap, hclose]
    have hst : h.fileStat = ⟨true, false, file.length⟩ := by
      rw [show h.fileStat = st from congrArg Resource.fileStat hr', ← hr, ← hd, ← hsize]
    exact hreply ▸ .file hst (congrArg Resource.fileAddress hr') hne hrange

/-! ### `write_to_buffer_` -/

/-- With no iovec counted yet, exactly that is offered. -/
theorem Promised.prepared {h : HttpHandler} {ret : HttpState} {bs : List Byte} (hp : Promised h ret bs)
    (hidx : h.writeIdx = 0) (hiv : h.ivCount = 0) :
    ∃ w, h.writeToBuffer_ ret = some (true, { h with toWriter := w }) ∧ offered w h.fileAddress = some bs := by
  cases hp with
  | page ha hret =>
    obtain ⟨w, hw, hp⟩ := writeToBuffer_prepared h.linger h.toResource hidx ha
    have hm : ¬ MapsFile h.toResource ret := fun hm => hret hm.1
    obtain ⟨-, hcount, -⟩ := hp.withoutFile hm
    refine ⟨w, by rw [HttpHandler.writeToBuffer_, hw]; rfl, ?_⟩
    rw [offered, hcount, show h.toWriter.ivCount = 0 from hiv]
    exact (hp.iv0_bytes ha h.fileAddress).trans (congrArg some (bufferText_congr fun h => absurd h hret))
  | @file file hstat haddr hne hrange =>
    obtain ⟨w, hw, hp⟩ := writeToBuffer_prepared h.linger h.toResource hidx
      (show Answer .finishedRequest by simp [Answer])
    have hframed := (framed_file hiv hstat haddr hne hp).2 hrange
    have hoffers := hframed.offers
    rw [hframed.text, List.append_nil, List.length_nil, Nat.zero_add] at hoffers
    exact ⟨w, by rw [HttpHandler.writeToBuffer_, hw]; rfl, hoffers⟩

/-! ### `process()` -/

namespace HttpHandler

/-- The steps of `read_` change the parser, and what `close()` does. -/
private theorem recvStep_frame {users : Users} {h h' : HttpHandler} {ph ph' : Phase} {r : RecvResult}
    (hs : recvStep users (h, ph) r = some (h', ph')) :
    h'.toResource = h.toResource ∧ h'.toWriter = h.toWriter ∧ h'.mysql = h.mysql ∧
      ∃ close k, h.procStep users ph (.recv r) = some (.next k users ph' close) ∧
        h' = if close then k.closeFields else k := by
  unfold recvStep at hs
  split at hs
  · rename_i tried hph
    dsimp only at hph hs
    subst hph
    split at hs
    · rename_i k users' ph₁ close hstep
      cases hs
      have hframe : k.toResource = h.toResource ∧ k.toWriter = h.toWriter ∧ k.mysql = h.mysql ∧ users' = users := by
        cases procStep_cases hstep <;> exact ⟨rfl, rfl, rfl, rfl⟩
      obtain ⟨hres, hw, hcon, rfl⟩ := hframe
      cases close
      · exact ⟨hres, hw, hcon, false, k, hstep, rfl⟩
      · exact ⟨hres, hw, hcon, true, k, hstep, rfl⟩
    · cases hs
  · cases hs

/-- The steps of `read_` are those of `process()` for the results of `recv`. -/
private theorem procRun_recv {users : Users} {h h' : HttpHandler} {ph ph' : Phase} {rs : List RecvResult}
    (hrun : run (recvStep users) (h, ph) rs = some (h', ph')) (is : List ProcInput) :
    h'.toResource = h.toResource ∧ h'.toWriter = h.toWriter ∧ h'.mysql = h.mysql ∧
      procRun h users ph (rs.map .recv ++ is) = procRun h' users ph' is := by
  induction rs generalizing h ph with
  | nil =>
    cases hrun
    exact ⟨rfl, rfl, rfl, rfl⟩
  | cons r rs ih =>
    obtain ⟨⟨h₁, ph₁⟩, hs, hrun⟩ := run_cons hrun
    obtain ⟨hres, hw, hcon, close, k, hstep, hk⟩ := recvStep_frame hs
    obtain ⟨hres', hw', hcon', hproc⟩ := ih hrun
    refine ⟨hres'.trans hres, hw'.trans hw, hcon'.trans hcon, ?_⟩
    rw [List.map_cons, List.cons_append, procRun, hstep, ← hproc, hk]

/-- `parse_` and its `do_request_` on what `read_` has left: the reply is promised, and the writer is as it was. -/
theorem promised_of_held (users : Users) {h : HttpHandler} {x : Held} {env : Env} {errno : Errno} (hx : x.In h)
    (hname : h.realFile = CharArray.zeros _) (hj : (judge x.idx errno x.text).Ordinary) (hroot : RootFits env.rootPath)
    (henv : env.FilesFit) :
    ∃ ret h₁ bs, h.parse users env errno = some (ret, h₁, users) ∧ h₁.toWriter = h.toWriter ∧ Promised h₁ ret bs ∧
      (judge x.idx errno x.text).reply env = some bs ∧ h₁.linger = (judge x.idx errno x.text).linger := by
  obtain ⟨q₀, hq₀⟩ := hx.fresh
  have hjudge := Parser.parse_judge hx.facing hx.le hq₀ errno
  generalize judge x.idx errno x.text = j at hj hjudge
  rcases j with _ | linger | ⟨l, hs, y, rest⟩
  · exact hj.elim
  · obtain ⟨p', errno', hp, hli⟩ := hjudge
    have hpage : Promised { h with toParser := p' } .errorFormat (pageFor linger .errorFormat) :=
      hli ▸ .page (by simp [Answer]) (by decide)
    refine ⟨.errorFormat, { h with toParser := p' }, _, ?_, rfl, hpage, rfl, hli⟩
    rw [HttpHandler.parse, hp]
    rfl
  · obtain ⟨p', hp, -, hli, hstored⟩ := hjudge
    obtain ⟨c, hst, -⟩ := hstored hj.1
    obtain ⟨path, hline, a, hurl, htext, -⟩ := hst.request
    obtain ⟨rl, hrl, hmethod, hpath⟩ := isRequestLine_iff.1 hline
    have hslash : SLASH ∈ Judgement.path l rl := by
      obtain ⟨m, u, v, -, -, -, -, ⟨hhead, -⟩, -⟩ := hline
      rw [Judgement.path, hpath, servedPath]
      split
      · decide
      · exact List.mem_of_mem_head? hhead
    -- the request as `do_request_` gets it
    let q : Request := ⟨env, h.mysql, p', h.toResource⟩
    have hu : q.urlText = some (Judgement.path l rl) := by
      rw [Request.urlText, show q.parser.url = some a from hurl, Option.bind_some, Judgement.path, hpath]
      exact htext
    have hno : ¬ (q.parser.cgi = true ∧
        (actionOf (Judgement.path l rl) = 50 ∨ actionOf (Judgement.path l rl) = 51)) := by
      rintro ⟨hcgi, hact⟩
      rw [show q.parser.cgi = decide (p'.method = .post) from hst.cgi, ← hmethod] at hcgi
      exact hj.2 rl hrl ⟨of_decide_eq_true hcgi, hact⟩
    have hfits := fileName_fits hroot (Judgement.path l rl)
    unfold fileName at hfits
    rw [List.length_append] at hfits
    obtain ⟨ret, name, r', hrunq, hopened⟩ := Request.run_opened users hu (Request.action_of_text hu hslash) hno hname
      hroot.plain hfits
    have hreply : Promised { h with toParser := p', toResource := r' } ret _ := hopened.promised rfl henv
    refine ⟨ret, { h with toParser := p', toResource := r' }, _, ?_, rfl, hreply, ?_, hli⟩
    · rw [HttpHandler.parse, hp]
      show (doRequest_ env h.mysql users p' h.toResource).bind _ = _
      rw [show doRequest_ env h.mysql users p' h.toResource = _ from hrunq]
      rfl
    · rw [Judgement.reply, hrl, ← hli]
      rfl

/-- On a new connection `read_` leaves what the results of `recv` come to, and the rest as it was. -/
theorem held_fresh {sockfd : Int} {timer : Option Nat} {type : ClientType} {content : Option Ssl} {con : Option Nat}
    {users : Users} {rs : List RecvResult} {h' : HttpHandler}
    (hrun : run (recvStep users) ({ fresh sockfd timer type content with mysql := con }, .reading 10) rs =
      some (h', .parse)) :
    (Held.ofResults rs).In h' ∧ h'.realFile = CharArray.zeros _ ∧ h'.writeIdx = 0 ∧ h'.ivCount = 0 ∧
      h'.mysql = con := by
  have hinit : Held.In ⟨[], 0⟩ { fresh sockfd timer type content with mysql := con } := by
    obtain ⟨hf, hle, hq⟩ := Held.In.init (zero.init sockfd timer type content)
    exact ⟨hf, hle, hq⟩
  obtain ⟨hres, hwriter, hcon, -⟩ := procRun_recv hrun []
  refine ⟨held_run hinit hrun, ?_, ?_, ?_, hcon⟩
  · exact congrArg Resource.realFile hres
  · exact congrArg Writer.writeIdx hwriter
  · exact congrArg Writer.ivCount hwriter

/-- The first write call of `process()` on a new connection offers what `parse_` and `do_request_` promise. -/
theorem procRun_promised {sockfd : Int} {timer : Option Nat} {type : ClientType} {content : Option Ssl}
    {con : Option Nat} {users users' : Users} {env : Env} {errno : Errno} {rs : List RecvResult} {h' h₁ : HttpHandler}
    {ret : HttpState} {bs : List Byte}
    (hrun : run (recvStep users) ({ fresh sockfd timer type content with mysql := con }, .reading 10) rs =
      some (h', .parse))
    (hparse : h'.parse users env errno = some (ret, h₁, users')) (hkeeps : h₁.toWriter = h'.toWriter)
    (hprom : Promised h₁ ret bs) :
    ∃ h'', procRun { fresh sockfd timer type content with mysql := con } users .enter
        (.tau :: (rs.map .recv ++ [.parse env errno, .tau])) = some (h'', users', .writing 0) ∧
      h''.offer = some bs ∧ h''.linger = h₁.linger := by
  obtain ⟨-, -, hidx, hiv, -⟩ := held_fresh hrun
  obtain ⟨-, -, -, hproc⟩ := procRun_recv hrun [.parse env errno, .tau]
  obtain ⟨w, hw, ho⟩ := hprom.prepared ((congrArg Writer.writeIdx hkeeps).trans hidx)
    ((congrArg Writer.ivCount hkeeps).trans hiv)
  refine ⟨{ h₁ with toWriter := w }, ?_, ho, rfl⟩
  have henter : procStep { fresh sockfd timer type content with mysql := con } users .enter .tau =
      some (.next { fresh sockfd timer type content with mysql := con } users (.reading 10) false) := by
    unfold procStep
    exact if_neg (show ¬ ((READ_BUFFER_SIZE : Int) ≤ 0) by decide)
  rw [procRun, henter]
  dsimp only
  rw [if_neg (by decide), hproc, procRun, procStep, hparse]
  dsimp only
  rw [if_neg (by decide), procRun, procStep, hw]
  rfl

/-- Whatever the results of `recv` on a new connection, the first write call of `process()` offers the reply to the
judgement on them, and the connection is then kept or closed as it says. -/
theorem process_replies {sockfd : Int} {timer : Option Nat} {type : ClientType} {content : Option Ssl}
    {con : Option Nat} {users : Users} {env : Env} {errno : Errno} {rs : List RecvResult} {h' : HttpHandler}
    (hrun : run (recvStep users) ({ fresh sockfd timer type content with mysql := con }, .reading 10) rs =
      some (h', .parse))
    (hj : (judge (Held.ofResults rs).idx errno (Held.ofResults rs).text).Ordinary) (hroot : RootFits env.rootPath)
    (henv : env.FilesFit) :
    ∃ h'', procRun { fresh sockfd timer type content with mysql := con } users .enter
        (.tau :: (rs.map .recv ++ [.parse env errno, .tau])) = some (h'', users, .writing 0) ∧
      h''.offer = (judge (Held.ofResults rs).idx errno (Held.ofResults rs).text).reply env ∧
      h''.linger = (judge (Held.ofResults rs).idx errno (Held.ofResults rs).text).linger := by
  obtain ⟨hheld, hname, -⟩ := held_fresh hrun
  obtain ⟨ret, h₁, bs, hparse, hkeeps, hprom, hreply, hli⟩ := promised_of_held users hheld hname hj hroot henv
  obtain ⟨h'', hproc, hoffer, hlinger⟩ := procRun_promised hrun hparse hkeeps hprom
  exact ⟨h'', hproc, hoffer.trans hreply.symm, hlinger.trans hli⟩

/-- A new connection sends a request for `/a`, and nine bytes behind it. -/
def asksForA : List RecvResult :=
  .data (lit "GET /a HTTP/1.1\r\n\r\n.........") :: List.replicate 10 .again

private theorem judge_asksForA : judge (Held.ofResults asksForA).idx .eagain (Held.ofResults asksForA).text =
    .accepted (lit "GET /a HTTP/1.1") [] ⟨0, true, .eagain⟩ (lit ".........") := by
  have hhead : Head (Held.ofResults asksForA).text (lit "GET /a HTTP/1.1") [] (lit ".........") :=
    ⟨rfl, by decide, fun h hm => absurd hm List.not_mem_nil⟩
  have hidx : (Held.ofResults asksForA).idx = 19 := by decide
  have hseen : AllSeen 19 [lit "GET /a HTTP/1.1"] ∧ AllSeen 19 [[]] := by simp [AllSeen, lit]
  rw [judge_head (x := ⟨0, true, .eagain⟩) hhead (by decide) rfl (hidx ▸ hseen.1) (hidx ▸ hseen.2)]
  rfl

theorem process_replies_hello :
    ∃ h'', procRun { fresh 19 none .httpClient none with mysql := none } (fun _ => none) .enter
        (.tau :: (asksForA.map .recv ++ [.parse (InUse.oneFile (lit "hello")) .eagain, .tau])) =
          some (h'', fun _ => none, .writing 0) ∧
      h''.offer = some (lit "HTTP/1.1 200 OK\r\nContent-Length:5\r\nConnection:keep-alive\r\n\r\nhello") ∧
      h''.linger = true := by
  have hrun : (run (recvStep fun _ => none) ({ fresh 19 none .httpClient none with mysql := none }, .reading 10)
      asksForA).map Prod.snd = some .parse := by decide +kernel
  obtain ⟨⟨h', ph⟩, hrun, rfl⟩ := Option.map_eq_some_iff.1 hrun
  have hfit : (InUse.oneFile (lit "hello")).FilesFit := by
    intro name st file linger hstat hmmap
    cases hstat
    cases hmmap
    exact ⟨by decide, rfl, by cases linger <;> decide +kernel⟩
  obtain ⟨h'', hproc, ho, hli⟩ := process_replies hrun
    (by rw [judge_asksForA]; exact ⟨by decide, fun q hq => by cases hq; decide⟩)
    ⟨by decide, by decide, by decide⟩ hfit
  rw [judge_asksForA] at ho hli
  exact ⟨h'', hproc, ho.trans (by decide +kernel), hli⟩

end HttpHandler

end ImageServer
