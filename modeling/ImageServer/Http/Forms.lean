import ImageServer.Http.Bounds

/-!
# Login and registration

A form `user=N&password=P` is taken apart by its fixed positions and its `&`, and the page for its outcome is copied
over the URL.  `*(p + 1)`, which then chooses the file, is a character of that page, of what is left of the URL behind
it, or its NUL, by the depth of the URL; none of these is the digit of another action, so the file is the page
(`form_outcome`).  Only a registration of a free name that has been lent no database connection comes to no page
(`form_outcome_iff`): `mysql_query` is then called with a null pointer.
-/

namespace ImageServer

open CLib Accounts

/-- The body of a form. -/
def formBody (name password : List Byte) : List Byte := lit "user=" ++ name ++ lit "&password=" ++ password

namespace Request

/-- A `POST` whose URL has the action `action` behind its last slash, and whose body is a form; the URL and the form
have room in the buffers, for a registration the statement too. -/
structure SendsForm (q : Request) (action : Byte) (name password : List Byte) : Prop where
  post : q.parser.method = .post
  account : action = 50 ∨ action = 51
  url : ∃ a b, q.urlText = some (a ++ SLASH :: action :: b) ∧ SLASH ∉ b ∧ (a ++ SLASH :: action :: b).length ≤ 200 ∧
    q.env.rootPath.length + (a ++ SLASH :: action :: b).length ≤ FILENAME_LEN
  body : q.parser.body = some (formBody name password)
  nameText : 38 ∉ name ∧ 0 ∉ name ∧ name.length < 100
  passwordText : 0 ∉ password ∧ password.length < 100
  statement : action = 51 → name.length + password.length + 49 < 200

/-- The page for the outcome. -/
def outcome (q : Request) (users : Users) (action : Byte) (name password : List Byte) : List Byte :=
  if action = 50 then if users name = some password then lit "/welcome.html" else lit "/logError.html"
  else if users name = none ∧ q.insertResult (name, password) = some 0 then lit "/log.html"
  else lit "/registerError.html"

/-! ### The form -/

private theorem copyUntil_text {stop : Byte} {room : Nat} {t r : List Byte} (hn : stop ∉ t) (hlt : t.length < room) :
    copyUntil stop room (t ++ stop :: r) = some t := copyUntil_eq_some.2 ⟨r, rfl, hn, hlt⟩

/-- The two loops find the name and the password of a form. -/
theorem extractForm_form {buf : CharArray READ_BUFFER_SIZE} {c : Nat} {name password z : List Byte}
    (h : buf.suffix c = formBody name password ++ 0 :: z) (hn : 38 ∉ name ∧ 0 ∉ name ∧ name.length < 100)
    (hp : 0 ∉ password ∧ password.length < 100) : extractForm buf c = some (name, password) := by
  have huser : (lit "user=").length = 5 := by decide
  have hname : buf.suffix (c + 5) = name ++ 38 :: (lit "password=" ++ password ++ 0 :: z) := by
    have hs := CharArray.suffix_add (l := lit "user=")
      (r := name ++ 38 :: (lit "password=" ++ password ++ 0 :: z)) (by rw [h, formBody]; simp [lit])
    rwa [huser] at hs
  have hpassword : buf.suffix (c + 5 + name.length + 10) = password ++ 0 :: z := by
    have hs := CharArray.suffix_add (l := lit "&password=") (r := password ++ 0 :: z)
      (CharArray.suffix_add (l := name) (by rw [hname]; simp [lit]))
    exact hs
  have hplain : name.takeWhile (· ≠ 0) = name := by
    rw [List.takeWhile_eq_self_iff]
    intro b hb
    simpa using fun he : b = 0 => hn.2.1 (he ▸ hb)
  unfold extractForm
  rw [hname, copyUntil_text hn.1 hn.2.2]
  simp only [Option.bind_eq_bind, Option.bind_some]
  rw [hpassword, copyUntil_text hp.1 hp.2]
  simp only [Option.bind_some, hplain]
  rfl

/-- The body of the form is where `m_content` points. -/
private theorem SendsForm.content {p₀ p₁ : Parser} {bs : List Byte} {errno errno' : Errno} {q : Request}
    {action : Byte} {name password : List Byte} (hf : q.SendsForm action name password)
    (hbs : p₀.init_.receive bs = some p₁) (hparse : p₁.parse_ errno = some (.doRequest, q.parser, errno')) :
    ∃ url c z, q.parser.url = some url ∧ q.parser.content = some c ∧ url + 12 ≤ c ∧
      q.parser.readBuf.suffix c = formBody name password ++ 0 :: z := by
  have hne : formBody name password ≠ [] := by simp [formBody, lit]
  have hL : 0 < q.parser.contentLength := by
    by_contra hle
    have hbody := hf.body
    unfold Parser.body at hbody
    rw [Int.toNat_of_nonpos (by omega)] at hbody
    split at hbody
    · exact hne (Option.some.inj hbody).symm
    · obtain ⟨c, -, hc⟩ := Option.map_eq_some_iff.1 hbody
      exact hne hc.symm
  obtain ⟨c, body, z, hc, hz, -, hbody⟩ := Parser.parse_body hbs hparse hL
  obtain ⟨url, c', hurl, hc', hle⟩ := Parser.parse_url hbs hparse (by omega)
  cases hc.symm.trans hc'
  cases hf.body.symm.trans hbody
  exact ⟨url, c, z, hurl, hc, hle, hz⟩

/-! ### The page -/

theorem outcome_mem (q : Request) (users : Users) (action : Byte) (name password : List Byte) :
    q.outcome users action name password ∈ accountPages := by
  unfold outcome
  split <;> split <;> decide

/-- A login leaves the accounts, and a registration has a statement to send; both end with the page for the outcome. -/
private theorem SendsForm.page {q : Request} {users : Users} {action : Byte} {name password : List Byte}
    (hf : q.SendsForm action name password) (hmysql : action = 51 → users name = none → q.mysql ≠ none) :
    ∃ users', (if action = 51 then register q.env q.mysql users name password
        else some (login users name password, users)) = some (q.outcome users action name password, users') ∧
      (action = 50 → users' = users) := by
  rcases hf.account with rfl | rfl
  · exact ⟨users, rfl, fun _ => rfl⟩
  · have hsql := sqlInsert_eq_some.2 ⟨hf.statement rfl, rfl⟩
    rw [if_pos rfl, outcome, if_neg (by decide), insertResult]
    unfold register
    rw [hsql]
    cases hn : users name with
    | some _ => exact ⟨users, by simp, fun _ => rfl⟩
    | none =>
      obtain ⟨conn, hconn⟩ := Option.ne_none_iff_exists'.1 (hmysql rfl hn)
      refine ⟨Function.update users name (some password), by simp [hconn], fun h => ?_⟩
      exact absurd h (by decide)

end Request

/-- The file calls always return. -/
private theorem openResource_isSome (env : Env) (r : Resource) {path : List Byte}
    (h : cstring r.realFile.bytes = some path) :
    ∃ ret r', openResource env r = some (ret, r') := by
  unfold openResource
  rw [h]
  simp only [Option.bind_eq_bind, Option.bind_some, Option.pure_def]
  split
  · exact ⟨_, _, rfl⟩
  split
  · exact ⟨_, _, rfl⟩
  split
  · exact ⟨_, _, rfl⟩
  split
  · exact ⟨_, _, rfl⟩
  split
  · exact ⟨_, _, rfl⟩
  split <;> exact ⟨_, _, rfl⟩

namespace Request

/-- When everything before `stat` goes through, the request is answered, and the name stays in `m_real_file`. -/
theorem run_of_steps {q : Request} {users users' : Users} {p : Parser} {r : Resource}
    {file name : CharArray FILENAME_LEN} {url i : Nat} {action : Byte} {path : List Byte}
    (hfile : q.resource.realFile.copy 0 (q.env.rootPath ++ [0]) = some file) (hurl : q.parser.url = some url)
    (hlast : strrchr SLASH (q.parser.readBuf.suffix url) = some (some i))
    (haction : q.parser.readBuf.peek (url + i + 1) = some action)
    (hacc : (if q.parser.cgi ∧ (action = 50 ∨ action = 51) then
      doAccount q.env q.mysql users q.parser { q.resource with realFile := file } url action
      else some (q.parser, { q.resource with realFile := file }, users)) = some (p, r, users'))
    (hchoose : chooseFile q.env p r url (url + i) = some name) (hname : cstring name.bytes = some path) :
    ∃ ret r', q.run users = some (ret, p, r', users') ∧
      openResource q.env { r with realFile := name } = some (ret, r') ∧ cstring r'.realFile.bytes = some path := by
  have hresolve := resolve_eq_some hfile hurl hlast haction hacc hchoose
  obtain ⟨ret, r', hopen⟩ := openResource_isSome q.env { r with realFile := name } hname
  refine ⟨ret, r', ?_, hopen, ?_⟩
  · rw [run, doRequest_eq, hresolve, Option.bind_some, hopen]
    rfl
  · rw [(openResource_path hopen).1]
    exact hname

/-- Where the last slash is, and the action behind it. -/
theorem lastSlash_of_text {q : Request} {url : Nat} {action : Byte} {a b : List Byte} (hurl : q.parser.url = some url)
    (hu : q.urlText = some (a ++ SLASH :: action :: b)) (hb : SLASH ∉ action :: b) :
    strrchr SLASH (q.parser.readBuf.suffix url) = some (some a.length) ∧ q.lastSlash = some (url, url + a.length) ∧
      q.parser.readBuf.peek (url + a.length + 1) = some action := by
  have hu' : cstring (q.parser.readBuf.suffix url) = some (a ++ SLASH :: action :: b) := by
    simpa [urlText, hurl] using hu
  have hlast : strrchr SLASH (q.parser.readBuf.suffix url) = some (some a.length) := by
    rw [strrchr, hu', Option.map_some, lastIdx_text a hb]
  have hslash : q.lastSlash = some (url, url + a.length) := lastSlash_eq_some.2 ⟨_, hurl, hlast, rfl⟩
  obtain ⟨a', b', -, hu'', hlen, -, hpeek⟩ := lastSlash_text hslash
  rw [hu] at hu''
  obtain ⟨-, hbb⟩ := List.append_inj (Option.some.inj hu'') (by omega)
  rw [← (List.cons.inj hbb).2] at hpeek
  exact ⟨hlast, hslash, hpeek⟩

/-- The branch on the account goes through, and leaves the page in `m_url` with `m_real_file` ended by a NUL. -/
theorem SendsForm.account_eq {q : Request} {users : Users} {url c : Nat} {action : Byte} {name password z : List Byte}
    (hf : q.SendsForm action name password) (hurl : q.parser.url = some url) (hc : q.parser.content = some c)
    (hle : url + 12 ≤ c) (hz : q.parser.readBuf.suffix c = formBody name password ++ 0 :: z)
    (hroot : q.env.rootPath.length < FILENAME_LEN) (hmysql : action = 51 → users name = none → q.mysql ≠ none) :
    ∃ file file' urlReal buf users', q.resource.realFile.copy 0 (q.env.rootPath ++ [0]) = some file ∧
      file.copy q.env.rootPath.length (urlReal ++ [0]) = some file' ∧
      q.parser.readBuf.copy url (q.outcome users action name password ++ [0]) = some buf ∧
      doAccount q.env q.mysql users q.parser { q.resource with realFile := file } url action =
        some ({ q.parser with readBuf := buf }, { q.resource with realFile := file' }, users') ∧
      (action = 50 → users' = users) := by
  obtain ⟨a, b, hu, -, h200, hfits⟩ := hf.url
  obtain ⟨users', hpage, husers⟩ := hf.page hmysql
  have hlen : 2 ≤ (a ++ SLASH :: action :: b).length := by
    simp only [List.length_append, List.length_cons]
    omega
  generalize a ++ SLASH :: action :: b = u at hu hlen h200 hfits
  have hreal : ([[SLASH], u.drop 2].flatten).length < 200 := by
    simp only [List.flatten_cons, List.flatten_nil, List.length_append, List.length_singleton, List.append_nil,
      List.length_drop]
    omega
  have hlong : 16 ≤ (q.parser.readBuf.suffix c).length := by
    rw [hz]
    simp [formBody, lit]
    omega
  rw [CharArray.suffix_length] at hlong
  have hshort := actionPages_short _ (List.mem_append_left _ (outcome_mem q users action name password))
  have hbuffer : READ_BUFFER_SIZE = 2048 := rfl
  obtain ⟨file, hfile⟩ := CharArray.copy_isSome (a := q.resource.realFile) (p := 0) (s := q.env.rootPath ++ [0])
    (by rw [List.length_append, List.length_singleton]; omega)
  obtain ⟨file', hfile'⟩ := CharArray.copy_isSome (a := file) (p := q.env.rootPath.length)
    (s := [[SLASH], u.drop 2].flatten ++ [0]) (by
      simp only [List.flatten_cons, List.flatten_nil, List.length_append, List.length_singleton, List.append_nil,
        List.length_drop]
      omega)
  obtain ⟨buf, hbuf⟩ := CharArray.copy_isSome (a := q.parser.readBuf) (p := url)
    (s := q.outcome users action name password ++ [0]) (by rw [List.length_append, List.length_singleton]; omega)
  refine ⟨file, file', _, buf, users', hfile, hfile', hbuf, ?_, husers⟩
  unfold doAccount
  rw [urlText_rest hurl hu hlen]
  simp only [Option.bind_eq_bind, Option.bind_some, concatInto, if_pos hreal, hfile', hc,
    extractForm_form hz hf.nameText hf.passwordText, hpage, hbuf]
  rfl

/-- `do_request_` finds the name and the password of the form, looks up the page for the outcome under the root
directory, and leaves the accounts on a login. -/
structure FormOutcome (q : Request) (users : Users) (action : Byte) (name password : List Byte) : Prop where
  found : q.form action = some (name, password)
  looksUp : ∃ x, q.run users = some x ∧
    cstring x.2.2.1.realFile.bytes = some (q.env.rootPath ++ q.outcome users action name password) ∧
    (action = 50 → x.2.2.2 = users)

/-- For every accepted `POST` of a form to the action 2 or 3, whatever its URL, as long as a registration of a free name
has a database connection. -/
theorem form_outcome {p₀ p₁ : Parser} {bs : List Byte} {errno errno' : Errno} {q : Request} {users : Users}
    {action : Byte} {name password : List Byte} (hbs : p₀.init_.receive bs = some p₁)
    (hparse : p₁.parse_ errno = some (.doRequest, q.parser, errno')) (hf : q.SendsForm action name password)
    (hr : q.resource.realFile = CharArray.zeros _) (h0 : 0 ∉ q.env.rootPath)
    (hroot : ∀ page ∈ accountPages, q.env.rootPath.length + page.length < FILENAME_LEN)
    (hmysql : action = 51 → users name = none → q.mysql ≠ none) :
    q.FormOutcome users action name password := by
  obtain ⟨url, c, z, hurl, hc, hle, hz⟩ := hf.content hbs hparse
  obtain ⟨a, b, hu, hb, -⟩ := hf.url
  have haction : action ≠ SLASH := by rcases hf.account with rfl | rfl <;> decide
  obtain ⟨hlast, hslash, hpeek⟩ := lastSlash_of_text hurl hu (by simp [haction.symm, hb])
  have hcgi : q.parser.cgi = true := by
    rw [Parser.parse_cgi hbs hparse, hf.post]
    rfl
  have hpage := outcome_mem q users action name password
  have hfits := hroot _ hpage
  have hform : q.form action = some (name, password) := by
    have hact : q.action = some action := by rw [action_eq, hslash, Option.bind_some, hpeek]
    unfold form
    rw [if_pos ⟨hcgi, hact⟩, hc, Option.bind_some, extractForm_form hz hf.nameText hf.passwordText]
  obtain ⟨file, file', urlReal, buf, users', hfile, hfile', hbuf, haccount, husers⟩ :=
    hf.account_eq hurl hc hle hz (by omega) hmysql
  obtain ⟨rest, hbytes, hlen⟩ := realFile_account (by rw [hr]; rfl) hfile hfile'
  have hplain := accountPages_plain _ hpage
  -- `*(p + 1)` is no action now
  have hlt : url + a.length + 1 < READ_BUFFER_SIZE := by
    have hsome := hpeek
    unfold CharArray.peek at hsome
    obtain ⟨hlt, -⟩ := List.getElem?_eq_some_iff.1 hsome
    rwa [q.parser.readBuf.size_eq] at hlt
  obtain ⟨b', hb'⟩ : ∃ b', buf.peek (url + a.length + 1) = some b' :=
    ⟨_, List.getElem?_eq_getElem (by rw [buf.size_eq]; exact hlt)⟩
  have hlook := lookup_account (i := a.length + 1) hpage hbuf hpeek hf.account hb'
  obtain ⟨file'', hfile''⟩ : ∃ file'', strncpy file' q.env.rootPath.length (q.outcome users action name password)
      rest.length = some file'' := by
    refine CharArray.copy_isSome ?_
    rw [List.length_append, List.length_take, List.length_replicate]
    omega
  have hchoose : chooseFile q.env { q.parser with readBuf := buf } { q.resource with realFile := file' } url
      (url + a.length) = some file'' := by
    unfold chooseFile
    simp only [hb', Option.bind_eq_bind, Option.bind_some, hlook, page_of_copy hplain hbuf, ← hlen, hfile'']
  have hname : cstring file''.bytes = some (q.env.rootPath ++ q.outcome users action name password) := by
    have h := cstring_strncpy hbytes hfile'' h0 hplain
    rwa [List.take_of_length_le (by omega)] at h
  obtain ⟨ret, r', hrun, -, hpath⟩ := run_of_steps hfile hurl hlast hpeek
    ((if_pos ⟨hcgi, hf.account⟩).trans haccount) hchoose hname
  exact ⟨hform, (ret, { q.parser with readBuf := buf }, r', users'), hrun, hpath, husers⟩

/-- A registration of a free name that comes to a result has been given a database connection. -/
theorem mysql_of_form {q : Request} {users : Users} {name password : List Byte}
    {x : HttpState × Parser × Resource × Users} (hform : q.form 51 = some (name, password)) (hn : users name = none)
    (h : q.run users = some x) : q.mysql ≠ none := by
  obtain ⟨row, page, hrow, -, -, hreg⟩ | ⟨row, hnone, -⟩ | ⟨hnone, -⟩ := run_cases h
  · cases hform.symm.trans hrow
    intro hmysql
    rw [hmysql] at hreg
    obtain ⟨sql, -, hreg⟩ := Option.bind_eq_some_iff.1 hreg
    simp [hn] at hreg
  · cases hform.symm.trans hnone
  · cases hform.symm.trans hnone

/-- An accepted form has the outcome it should have exactly when it is a login, its name is taken, or the handler has
been lent a database connection. -/
theorem form_outcome_iff {p₀ p₁ : Parser} {bs : List Byte} {errno errno' : Errno} {q : Request} {users : Users}
    {action : Byte} {name password : List Byte} (hbs : p₀.init_.receive bs = some p₁)
    (hparse : p₁.parse_ errno = some (.doRequest, q.parser, errno')) (hf : q.SendsForm action name password)
    (hr : q.resource.realFile = CharArray.zeros _) (h0 : 0 ∉ q.env.rootPath)
    (hroot : ∀ page ∈ accountPages, q.env.rootPath.length + page.length < FILENAME_LEN) :
    q.FormOutcome users action name password ↔ action = 50 ∨ users name ≠ none ∨ q.mysql ≠ none := by
  constructor
  · rintro ⟨hform, x, hx, -⟩
    rcases hf.account with rfl | rfl
    · exact .inl rfl
    · by_cases hn : users name = none
      · exact .inr (.inr (mysql_of_form hform hn hx))
      · exact .inr (.inl hn)
  · intro hc
    refine form_outcome hbs hparse hf hr h0 hroot fun ha hn => ?_
    subst ha
    exact (hc.resolve_left (by decide)).resolve_left (not_not.2 hn)

/-- `bob` registers with a password. -/
private theorem registerBob_form : (requestOf registerBob 0).SendsForm 51 (lit "bob") (lit "open") where
  post := by decide +kernel
  account := .inr rfl
  url := ⟨[], [], by decide +kernel⟩
  body := by decide +kernel
  nameText := by decide
  passwordText := by decide
  statement := by decide

theorem form_outcome_iff_bob : (requestOf registerBob 0).FormOutcome (fun _ => none) 51 (lit "bob") (lit "open") := by
  have hbs : Parser.zero.init_.receive registerBob = some (received registerBob) := by decide +kernel
  have hparse : (received registerBob).parse_ .eagain =
      some (.doRequest, (requestOf registerBob 0).parser, .eagain) := by decide +kernel
  exact (form_outcome_iff hbs hparse registerBob_form rfl (by decide) (by decide)).2 (.inr (.inr (by decide)))

/-- The same registration on a handler that has been lent no connection: `get_connection` had none left. -/
def registerUnlent : Request := { requestOf registerBob 0 with mysql := none }

/-- It comes to no page. -/
theorem registerUnlent_noOutcome :
    Parser.zero.init_.receive registerBob = some (received registerBob) ∧
      (received registerBob).parse_ .eagain = some (.doRequest, registerUnlent.parser, .eagain) ∧
      registerUnlent.SendsForm 51 (lit "bob") (lit "open") ∧ registerUnlent.run (fun _ => none) = none ∧
      ¬ registerUnlent.FormOutcome (fun _ => none) 51 (lit "bob") (lit "open") := by
  have hrun : (registerUnlent.run fun _ => none).isNone := by decide +kernel
  have hnone := Option.isNone_iff_eq_none.1 hrun
  have hform := registerBob_form
  refine ⟨by decide +kernel, by decide +kernel, ⟨hform.post, hform.account, hform.url, hform.body, hform.nameText,
    hform.passwordText, hform.statement⟩, hnone, fun hf => ?_⟩
  obtain ⟨x, hx, -⟩ := hf.looksUp
  cases hnone.symm.trans hx

end Request

end ImageServer
