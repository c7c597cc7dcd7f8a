import ImageServer.Http.Forms
import ImageServer.Http.Reply

/-!
# The reply to a login and to a registration

`Reply` leaves out the forms, whose file depends on the accounts and which may add one.  For a form too the first write
call offers what the judgement on the bytes from `recv` and the file system determine, now together with the accounts:
the file of the page for the outcome (`process_answersForm`).
-/

namespace ImageServer

open CLib Transition

/-! ### The outcome -/

/-- The page for the outcome of a form. -/
def formPage (env : Env) (users : Users) (action : Byte) (name password : List Byte) : List Byte :=
  if action = 50 then login users name password
  else if users name = none ∧ (sqlInsert name password).map env.query = some 0 then lit "/log.html"
  else lit "/registerError.html"

/-- The accounts behind it: a registration adds a name that is free, whatever its `INSERT` returns. -/
def accountsAfter (users : Users) (action : Byte) (name password : List Byte) : Users :=
  if action = 51 ∧ users name = none then Function.update users name (some password) else users

/-- The texts of a form have room in the arrays of `do_request_`, and it finds their ends. -/
structure FormText (action : Byte) (name password : List Byte) : Prop where
  account : action = 50 ∨ action = 51
  nameText : 38 ∉ name ∧ 0 ∉ name ∧ name.length < 100
  passwordText : 0 ∉ password ∧ password.length < 100
  statement : action = 51 → name.length + password.length + 49 < 200

namespace Judgement

/-- The judgement accepts a `POST` of the form, with the action behind the last slash of a path that has room behind
the root directory, as the pages have. -/
def Submits (env : Env) (action : Byte) (name password : List Byte) : Judgement → Prop
  | .accepted l _ x rest =>
    x.contentLength = (formBody name password).length ∧ formBody name password <+: rest ∧
      (∃ q a b, readRequestLine l = some q ∧ q.method = .post ∧ path l q = a ++ SLASH :: action :: b ∧ SLASH ∉ b ∧
        (path l q).length ≤ 200 ∧ env.rootPath.length + (path l q).length ≤ FILENAME_LEN) ∧
      ∀ page ∈ accountPages, env.rootPath.length + page.length < FILENAME_LEN
  | _ => False

/-- The bytes the first write call offers for the form. -/
def formReply (env : Env) (users : Users) (action : Byte) (name password : List Byte) (j : Judgement) : List Byte :=
  fileReply env j.linger (env.rootPath ++ formPage env users action name password)

end Judgement

/-! ### `parse_` -/

/-- For a text anywhere before `m_read_idx` too, the body starts behind the URL and the version. -/
private theorem Parser.url_before_body {q p p' : Parser} {k : Int} {s : List Byte} {errno errno' : Errno}
    (h : Facing p k 0 s) (hp : p = { q.init_ with readBuf := p.readBuf, readIdx := p.readIdx })
    (hparse : p.parse_ errno = some (.doRequest, p', errno')) (hL : p'.contentLength ≠ 0) :
    ∃ u c, p'.url = some u ∧ p'.content = some c ∧ u + 12 ≤ c := by
  have hstate : p.checkState = .checkStateRequestline := by rw [hp]; rfl
  have hne : p.checkState ≠ .checkStateContent := by rw [hstate]; decide
  unfold parse_ at hparse
  rcases ht : seenLine k s with _ | ⟨l, r⟩
  · have hopen := parseLoop_unseen p (READ_BUFFER_SIZE + 1) .lineBad errno h ht hne
    rw [hparse] at hopen
    unfold judgeOpen at hopen
    split at hopen
    · cases hopen
    · obtain ⟨_, _, hret, -⟩ := hopen
      cases hret
  obtain ⟨rfl, hl, hseen⟩ := seenLine_eq_some.1 ht
  obtain ⟨t, hq, hloop⟩ := parseLoop_seen (READ_BUFFER_SIZE + 1) .lineBad errno h hl hseen hne
  obtain ⟨m, hm⟩ := hq.text
  rw [hloop] at hparse
  unfold parseText at hparse
  simp only [hq.checkState.trans hstate, Option.bind_eq_bind] at hparse
  rcases parseRequest_text hm hl.2.2 with ⟨-, p'', hp'', -⟩ | ⟨rl, buf, hrl, hp'', -⟩
  · rw [hp''] at hparse
    cases hparse
  · rw [hp''] at hparse
    have hurl := readRequestLine_url hrl
    refine UrlBefore.loop ⟨ParseState.noConfusion, ⟨0 + rl.url, rfl, ?_⟩, ?_⟩ hparse hL
    · dsimp only
      rw [hq.startLine]
      omega
    · dsimp only
      rw [hq.startLine, hq.checkedIdx]

/-! ### `do_request_` -/

namespace Request

/-- The accounts behind a form that is found. -/
private theorem accounts_of_form {q : Request} {users : Users} {action : Byte} {name password : List Byte}
    {x : HttpState × Parser × Resource × Users} (ha : action = 50 ∨ action = 51)
    (hform : q.form action = some (name, password)) (h : q.run users = some x) :
    x.2.2.2 = accountsAfter users action name password := by
  unfold accountsAfter
  rcases ha with rfl | rfl
  · rw [if_neg fun h => absurd h.1 (by decide)]
    obtain ⟨row, page, -, hl, -⟩ | ⟨-, -, -, -, hu⟩ | ⟨-, -, hu⟩ := run_cases h
    · exact absurd (hl.symm.trans hform) (by simp)
    · exact hu
    · exact hu
  · have hr : q.registers = some (name, password) := hform
    obtain ⟨row, page, hrow, -, -, hreg⟩ | ⟨row, hnone, -⟩ | ⟨hnone, -⟩ := run_cases h
    · obtain rfl := Option.some.inj (hr.symm.trans hrow)
      obtain ⟨sql, -, ⟨hn, hu, -⟩ | ⟨hn, hu, -⟩⟩ := register_cases hreg
      · rw [if_neg fun h => hn h.2, hu]
      · rw [if_pos ⟨rfl, hn⟩, hu]
    · rw [hr] at hnone
      cases hnone
    · rw [hr] at hnone
      cases hnone

/-- The form that `do_request_` is given is where `m_content` points, behind the URL. -/
structure FormAt (q : Request) (action : Byte) (name password : List Byte) (u c : Nat) (z : List Byte) : Prop
    extends q.SendsForm action name password where
  urlAt : q.parser.url = some u
  contentAt : q.parser.content = some c
  le : u + 12 ≤ c
  text : q.parser.readBuf.suffix c = formBody name password ++ 0 :: z
  cgi : q.parser.cgi = true

section
variable {q : Request} {users : Users} {action : Byte} {name password z : List Byte} {u c : Nat}

/-- Where the last slash is, and that the form is found. -/
private theorem FormAt.found (hf : q.FormAt action name password u c z) :
    ∃ i, strrchr SLASH (q.parser.readBuf.suffix u) = some (some i) ∧
      q.parser.readBuf.peek (u + i + 1) = some action ∧ q.form action = some (name, password) := by
  obtain ⟨a, b, htext, hb, -⟩ := hf.url
  have haction : action ≠ SLASH := by rcases hf.account with rfl | rfl <;> decide
  obtain ⟨hlast, hslash, hpeek⟩ := lastSlash_of_text hf.urlAt htext (by simp [haction.symm, hb])
  have hact : q.action = some action := by rw [action_eq, hslash, Option.bind_some, hpeek]
  refine ⟨a.length, hlast, hpeek, ?_⟩
  unfold form
  rw [if_pos ⟨hf.cgi, hact⟩, hf.contentAt, Option.bind_some, extractForm_form hf.text hf.nameText hf.passwordText]

/-- What `do_request_` comes to on a form: the file calls are made under the name of the page for the outcome. -/
private theorem FormAt.run_opened (hf : q.FormAt action name password u c z)
    (hr : q.resource.realFile = CharArray.zeros _) (hroot : RootFits q.env.rootPath)
    (hpages : ∀ page ∈ accountPages, q.env.rootPath.length + page.length < FILENAME_LEN)
    (hmysql : action = 51 → users name = none → q.mysql ≠ none) :
    ∃ ret p r r', q.run users = some (ret, p, r', accountsAfter users action name password) ∧
      p.linger = q.parser.linger ∧
      Opened q.env (q.env.rootPath ++ formPage q.env users action name password) r ret r' := by
  obtain ⟨i, hlast, hpeek, hform⟩ := hf.found
  have hpage := outcome_mem q users action name password
  have hfits := hpages _ hpage
  have hplain := accountPages_plain _ hpage
  obtain ⟨file, file', urlReal, buf, users', hfile, hfile', hbuf, haccount, -⟩ :=
    hf.account_eq hf.urlAt hf.contentAt hf.le hf.text hroot.room hmysql
  obtain ⟨rest, hbytes, hlen⟩ := realFile_account (by rw [hr]; rfl) hfile hfile'
  -- what is at `*(p + 1)` now is no action, so the name is what is left at `m_url`, the page
  obtain ⟨b', hb'⟩ : ∃ b', buf.peek (u + i + 1) = some b' := by
    obtain ⟨hlt, -⟩ := List.getElem?_eq_some_iff.1 hpeek
    rw [q.parser.readBuf.size_eq] at hlt
    exact ⟨_, List.getElem?_eq_getElem (by rw [buf.size_eq]; exact hlt)⟩
  have hlook := lookup_account (i := i + 1) hpage hbuf hpeek hf.account hb'
  obtain ⟨file'', hfile''⟩ : ∃ file'', strncpy file' q.env.rootPath.length (q.outcome users action name password)
      rest.length = some file'' := by
    refine CharArray.copy_isSome ?_
    rw [List.length_append, List.length_take, List.length_replicate]
    omega
  have hchoose : chooseFile q.env { q.parser with readBuf := buf } { q.resource with realFile := file' } u
      (u + i) = some file'' := by
    unfold chooseFile
    simp only [hb', Option.bind_eq_bind, Option.bind_some, hlook, page_of_copy hplain hbuf, ← hlen, hfile'']
  have hname := cstring_strncpy hbytes hfile'' hroot.plain hplain
  rw [List.take_of_length_le (by omega)] at hname
  obtain ⟨ret, r', hrun, hopen, -⟩ := run_of_steps hfile hf.urlAt hlast hpeek
    ((if_pos ⟨hf.cgi, hf.account⟩).trans haccount) hchoose hname
  obtain ⟨path, hpath, hopened⟩ := openResource_opened hopen
  cases hname.symm.trans hpath
  have husers := accounts_of_form hf.account hform hrun
  dsimp only at husers
  exact ⟨ret, { q.parser with readBuf := buf }, _, r', husers ▸ hrun, rfl, hopened⟩

end

end Request

/-! ### `process()` -/

namespace HttpHandler

section
variable {users : Users} {h : HttpHandler} {x : Held} {env : Env} {errno : Errno} {action : Byte}
  {name password : List Byte}

/-- `parse_` hands a form that `read_` has left to `do_request_`. -/
private theorem formAt_of_held (hx : x.In h) (hj : (judge x.idx errno x.text).Submits env action name password)
    (ht : FormText action name password) :
    ∃ p errno' url c z, h.toParser.parse_ errno = some (.doRequest, p, errno') ∧
      p.linger = (judge x.idx errno x.text).linger ∧
      Request.FormAt ⟨env, h.mysql, p, h.toResource⟩ action name password url c z := by
  obtain ⟨q₀, hq₀⟩ := hx.fresh
  have hjudge := Parser.parse_judge hx.facing hx.le hq₀ errno
  generalize judge x.idx errno x.text = j at hj hjudge
  rcases j with _ | linger | ⟨l, hs, y, rest⟩
  · exact hj.elim
  · exact hj.elim
  obtain ⟨hlen, ⟨rest', rfl⟩, ⟨rl, a, b, hrl, hpost, hpath, hb, h200, hfits⟩, -⟩ := hj
  obtain ⟨p, hp, hlength, hli, hstored⟩ := hjudge
  obtain ⟨c, hst, hcontent⟩ := hstored (by rw [hlen]; exact Int.natCast_nonneg _)
  have hne : y.contentLength ≠ 0 := by
    rw [hlen, formBody]
    simp [lit]
    omega
  obtain ⟨hc, z, hz⟩ := hcontent hne
  rw [hlen, Int.toNat_natCast, List.take_left] at hz
  obtain ⟨path, hline, url, hurl, htext, -⟩ := hst.request
  obtain ⟨rl', hrl', hmethod, hpath'⟩ := isRequestLine_iff.1 hline
  cases hrl.symm.trans hrl'
  have htext : cstring (p.readBuf.suffix url) = some (a ++ SLASH :: action :: b) := by
    rw [htext, ← hpath, Judgement.path, hpath']
  rw [hpath] at h200 hfits
  obtain ⟨url', c', hurl', hc', hle⟩ := Parser.url_before_body hx.facing hq₀ hp (by rw [hlength]; exact hne)
  cases hurl.symm.trans hurl'
  cases hc.symm.trans hc'
  refine ⟨p, y.errno, url, c, z, hp, hli, ?_⟩
  exact {
    post := hmethod ▸ hpost
    account := ht.account
    url := ⟨a, b, by rw [Request.urlText, show p.url = some url from hurl]; exact htext, hb, h200, hfits⟩
    body := by
      rw [Parser.body, if_neg (show p.contentLength ≠ 0 by rw [hlength]; exact hne), show p.content = _ from hc,
        Option.map_some, show p.readBuf.suffix c = _ from hz, show p.contentLength = _ from hlength.trans hlen,
        Int.toNat_natCast, List.take_left]
    nameText := ht.nameText
    passwordText := ht.passwordText
    statement := ht.statement
    urlAt := hurl
    contentAt := hc
    le := hle
    text := hz
    cgi := by
      rw [hst.cgi, ← hmethod, hpost]
      rfl }

/-- `parse_` and its `do_request_` on a form: the reply is promised, and the writer is as it was. -/
theorem promised_of_form (hx : x.In h) (hfile : h.realFile = CharArray.zeros _)
    (hj : (judge x.idx errno x.text).Submits env action name password) (ht : FormText action name password)
    (hroot : RootFits env.rootPath) (henv : env.FilesFit) (hmysql : action = 51 → users name = none → h.mysql ≠ none) :
    ∃ ret h₁, h.parse users env errno = some (ret, h₁, accountsAfter users action name password) ∧
      h₁.toWriter = h.toWriter ∧ h₁.linger = (judge x.idx errno x.text).linger ∧
      Promised h₁ ret ((judge x.idx errno x.text).formReply env users action name password) := by
  obtain ⟨p, errno', url, c, z, hp, hli, hf⟩ := formAt_of_held hx hj ht
  have hpages : ∀ page ∈ accountPages, env.rootPath.length + page.length < FILENAME_LEN := by
    generalize judge x.idx errno x.text = j at hj
    rcases j with _ | linger | ⟨l, hs, y, rest⟩
    · exact hj.elim
    · exact hj.elim
    · exact hj.2.2.2
  obtain ⟨ret, p', r, r', hrun, hlinger, hopened⟩ := hf.run_opened hfile hroot hpages hmysql
  have hli' : p'.linger = (judge x.idx errno x.text).linger := hlinger.trans hli
  refine ⟨ret, { h with toParser := p', toResource := r' }, ?_, rfl, hli', ?_⟩
  · rw [HttpHandler.parse, hp]
    show (doRequest_ env h.mysql users p h.toResource).bind _ = _
    rw [show doRequest_ env h.mysql users p h.toResource = _ from hrun]
    rfl
  · rw [Judgement.formReply, ← hli']
    exact hopened.promised rfl henv

/-- A registration that `do_request_` has come through had a database connection. -/
theorem mysql_of_parse {ret : HttpState} {h' : HttpHandler} {users' : Users} (hx : x.In h)
    (hj : (judge x.idx errno x.text).Submits env action name password) (ht : FormText action name password)
    (hp : h.parse users env errno = some (ret, h', users')) (ha : action = 51) (hn : users name = none) :
    h.mysql ≠ none := by
  subst ha
  obtain ⟨p, errno', url, c, z, hparse, -, hf⟩ := formAt_of_held hx hj ht
  obtain ⟨-, -, -, hform⟩ := hf.found
  rw [HttpHandler.parse, hparse] at hp
  obtain ⟨y, hy, hp⟩ := Option.bind_eq_some_iff.1 hp
  cases hy
  obtain ⟨y, hrun, -⟩ := Option.bind_eq_some_iff.1 hp
  exact Request.mysql_of_form hform hn hrun

end

/-- Whatever the results of `recv` on a new connection, when they come to the form of a login or a registration the
first write call of `process()` offers the reply with the page for its outcome, and the accounts are as the form
leaves them. -/
theorem process_answersForm {sockfd : Int} {timer : Option Nat} {type : ClientType} {content : Option Ssl}
    {con : Option Nat} {users : Users} {env : Env} {errno : Errno} {rs : List RecvResult} {h' : HttpHandler}
    {action : Byte} {name password : List Byte}
    (hrun : run (recvStep users) ({ fresh sockfd timer type content with mysql := con }, .reading 10) rs =
      some (h', .parse))
    (hj : (judge (Held.ofResults rs).idx errno (Held.ofResults rs).text).Submits env action name password)
    (ht : FormText action name password) (hroot : RootFits env.rootPath) (henv : env.FilesFit)
    (hmysql : action = 51 → users name = none → con ≠ none) :
    ∃ h'', procRun { fresh sockfd timer type content with mysql := con } users .enter
        (.tau :: (rs.map .recv ++ [.parse env errno, .tau])) =
          some (h'', accountsAfter users action name password, .writing 0) ∧
      h''.offer = some ((judge (Held.ofResults rs).idx errno (Held.ofResults rs).text).formReply env users action name
        password) ∧
      h''.linger = (judge (Held.ofResults rs).idx errno (Held.ofResults rs).text).linger := by
  obtain ⟨hheld, hfile, -, -, hcon⟩ := held_fresh hrun
  obtain ⟨ret, h₁, hparse, hkeeps, hli, hprom⟩ := promised_of_form hheld hfile hj ht hroot henv
    fun ha hn => by rw [hcon]; exact hmysql ha hn
  obtain ⟨h'', hproc, hoffer, hlinger⟩ := procRun_promised hrun hparse hkeeps hprom
  exact ⟨h'', hproc, hoffer, hlinger.trans hli⟩

/-- A new connection sends a registration, and nine bytes behind it. -/
def registersBob : List RecvResult :=
  .data (Accounts.registerBob ++ lit ".........") :: List.replicate 10 .again

private theorem judge_registersBob :
    judge (Held.ofResults registersBob).idx .eagain (Held.ofResults registersBob).text =
      .accepted (lit "POST /3 HTTP/1.1") [lit "Content-length: 22"] ⟨22, true, .eagain⟩
        (lit "user=bob&password=open.........") := by
  have hhead : Head (Held.ofResults registersBob).text (lit "POST /3 HTTP/1.1") [lit "Content-length: 22"]
      (lit "user=bob&password=open.........") :=
    ⟨by decide +kernel, by decide, List.forall_mem_singleton.2 (by decide)⟩
  have hidx : (Held.ofResults registersBob).idx = 62 := by decide +kernel
  have hseen : AllSeen 62 [lit "POST /3 HTTP/1.1", lit "Content-length: 22"] ∧ AllSeen 62 [[]] := by
    simp [AllSeen, lit]
  have hx : (readHeaders ⟨0, true, .eagain⟩ [lit "Content-length: 22"]).map
      (fun x => (x.contentLength, x.linger, x.errno)) = some (22, true, .eagain) := by decide +kernel
  obtain ⟨⟨L, linger, e⟩, hx, he⟩ := Option.map_eq_some_iff.1 hx
  cases he
  have hlen : (lines [lit "Content-length: 22"]).length = 20 := by decide +kernel
  rw [judge_head hhead (by decide) hx (hidx ▸ hseen.1) (hidx ▸ hseen.2), hidx, hlen]
  exact judgeBody_accepts (by decide) (by decide) (by decide)

/-- The `INSERT` fails, and the account is there all the same. -/
theorem process_answersForm_bob :
    ∃ h'', procRun { fresh 19 none .httpClient none with mysql := some 3 } (fun _ => none) .enter
        (.tau :: (registersBob.map .recv ++ [.parse (InUse.oneFile (lit "hello")) .eagain, .tau])) =
          some (h'', Function.update (fun _ => none) (lit "bob") (some (lit "open")), .writing 0) ∧
      h''.offer = some (lit "HTTP/1.1 200 OK\r\nContent-Length:5\r\nConnection:keep-alive\r\n\r\nhello") ∧
      h''.linger = true := by
  have hrun : (run (recvStep fun _ => none) ({ fresh 19 none .httpClient none with mysql := some 3 }, .reading 10)
      registersBob).map Prod.snd = some .parse := by decide +kernel
  obtain ⟨⟨h', ph⟩, hrun, rfl⟩ := Option.map_eq_some_iff.1 hrun
  have hfit : (InUse.oneFile (lit "hello")).FilesFit := by
    intro name st file linger hstat hmmap
    cases hstat
    cases hmmap
    exact ⟨by decide, rfl, by cases linger <;> decide +kernel⟩
  have htext : FormText 51 (lit "bob") (lit "open") := ⟨by decide, by decide, by decide, by decide⟩
  obtain ⟨h'', hproc, ho, hli⟩ := process_answersForm hrun
    (by rw [judge_registersBob]; exact ⟨by decide, by decide, ⟨_, [], [], rfl, by decide⟩, by decide⟩) htext
    ⟨by decide, by decide, by decide⟩ hfit fun _ _ => by simp
  rw [judge_registersBob] at ho hli
  exact ⟨h'', hproc, ho.trans (by decide +kernel), hli⟩

end HttpHandler

end ImageServer
