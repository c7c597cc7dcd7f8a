import ImageServer.Http.Resolve
import ImageServer.Lib.Transition
import Mathlib.Data.List.Induction

/-!
# The accounts and the table they come from

`initmysql_result` loads `HttpHandler::users` from the table `user`; from then on every registration has to keep
the two in step, with an `INSERT` for the table and `users.insert` for the map.  `Accounts` is the pair of them, and
`handle` what `do_request_` does to it: the statement it sends adds the row when `mysql_query` returns 0 and leaves
the table alone otherwise.

The map is extended whatever the query returns.  So the two agree after every request of a history exactly when no
`INSERT` of the history fails (`accounts_agree_iff`).
-/

namespace ImageServer

open CLib Transition

/-- A row of the table `user`: `username` and `passwd`. -/
abbrev Row := List Byte × List Byte

/-- `initmysql_result`, on the rows its `SELECT` returns. -/
def initmysqlResult (rows : List Row) : Users :=
  rows.foldl (fun users row => Function.update users row.1 (some row.2)) fun _ => none

/-- The accounts in memory, and those in the database. -/
structure Accounts where
  users : Users
  table : List Row

/-- The server after `initmysql_result`. -/
def Accounts.load (rows : List Row) : Accounts := { users := initmysqlResult rows, table := rows }

/-- A call of `do_request_`: the handler's `mysql`, the request as `parse_` leaves it, and the answers. -/
structure Request where
  env : Env
  mysql : Option Nat
  parser : Parser
  resource : Resource

namespace Request

/-- The character `*(p + 1)` behind the last slash of the URL. -/
def action (q : Request) : Option Byte := do
  let url ← q.parser.url
  let slash ← (← strrchr SLASH (q.parser.readBuf.suffix url)).map (url + ·)
  q.parser.readBuf.peek (slash + 1)

/-- The name and the password of a `POST` with the action `c`. -/
def form (q : Request) (c : Byte) : Option Row :=
  if q.parser.cgi = true ∧ q.action = some c then q.parser.content.bind (extractForm q.parser.readBuf) else none

/-- The account a login names. -/
def logsIn (q : Request) : Option Row := q.form 50

/-- The account a registration names. -/
def registers (q : Request) : Option Row := q.form 51

/-- What `mysql_query` returns for the `INSERT` of the account. -/
def insertResult (q : Request) (row : Row) : Option Int := (sqlInsert row.1 row.2).map q.env.query

/-- `do_request_`. -/
def run (q : Request) (users : Users) : Option (HttpState × Parser × Resource × Users) :=
  doRequest_ q.env q.mysql users q.parser q.resource

/-- The page that is in `m_url` after `do_request_`. -/
def page (q : Request) (p : Parser) : Option (List Byte) := q.parser.url.bind fun url => cstring (p.readBuf.suffix url)

end Request

namespace Accounts

/-- The account whose `INSERT` the request sends: that of a registration whose name is not in the map. -/
def inserts (s : Accounts) (q : Request) : Option Row := q.registers.filter fun row => s.users row.1 = none

/-- The table after the request. -/
def tableAfter (s : Accounts) (q : Request) : List Row :=
  match s.inserts q with
  | none => s.table
  | some row => if q.insertResult row = some 0 then s.table ++ [row] else s.table

/-- One request. -/
def handle (s : Accounts) (q : Request) : Option Accounts :=
  (q.run s.users).map fun x => { users := x.2.2.2, table := s.tableAfter q }

/-- The map and the table hold the same accounts. -/
def Agrees (s : Accounts) : Prop := ∀ row : Row, s.users row.1 = some row.2 ↔ row ∈ s.table

/-- The request sends an `INSERT`, and it fails. -/
def FailsInsert (s : Accounts) (q : Request) : Prop := ∃ row ∈ s.inserts q, q.insertResult row ≠ some 0

instance (s : Accounts) (q : Request) : Decidable (s.FailsInsert q) :=
  inferInstanceAs (Decidable (∃ row ∈ s.inserts q, q.insertResult row ≠ some 0))

/-- The map and the table agree after the request; it logs in an account of the table only; and when it refuses a
registration it leaves the map as it was. -/
structure InStep (s : Accounts) (q : Request) (p : Parser) (s' : Accounts) : Prop where
  agrees : s'.Agrees
  login : ∀ row, q.logsIn = some row → q.page p = some (lit "/welcome.html") → row ∈ s.table
  refused : q.registers ≠ none → q.page p = some (lit "/registerError.html") → s'.users = s.users

/-- Whatever `do_request_` returns for the request is in step. -/
def KeepsStep (s : Accounts) (q : Request) : Prop :=
  ∀ x, q.run s.users = some x → s.InStep q x.2.1 { users := x.2.2.2, table := s.tableAfter q }

end Accounts

/-! ### What `do_request_` does to the map -/

/-- A page copied over `m_url` is read back. -/
theorem page_of_copy {buf buf' : CharArray READ_BUFFER_SIZE} {url : Nat} {page : List Byte} (h0 : 0 ∉ page)
    (hc : buf.copy url (page ++ [0]) = some buf') : cstring (buf'.suffix url) = some page := by
  obtain ⟨hle, hb⟩ := CharArray.copy_bytes hc
  have hlen : (buf.bytes.take url).length = url := by
    rw [List.length_take, buf.size_eq]
    omega
  unfold CharArray.suffix
  rw [hb, List.append_assoc, List.drop_left' hlen, List.append_assoc]
  exact cstring_text h0

/-- The pages of a registration or a login. -/
def accountPages : List (List Byte) :=
  [lit "/log.html", lit "/registerError.html", lit "/welcome.html", lit "/logError.html"]

theorem accountPages_plain : ∀ page ∈ accountPages, 0 ∉ page := by decide

private theorem login_page (users : Users) (name password : List Byte) : login users name password ∈ accountPages := by
  unfold login
  split <;> decide

/-- A registration answers with one of two pages; only one that adds an account says that it has. -/
theorem register_cases {env : Env} {mysql : Option Nat} {users users' : Users} {name password page : List Byte}
    (h : register env mysql users name password = some (page, users')) :
    ∃ sql, sqlInsert name password = some sql ∧
      (users name ≠ none ∧ users' = users ∧ page = lit "/registerError.html" ∨
        users name = none ∧ users' = Function.update users name (some password) ∧
          page = if env.query sql = 0 then lit "/log.html" else lit "/registerError.html") := by
  unfold register at h
  obtain ⟨sql, hsql, h⟩ := Option.bind_eq_some_iff.1 h
  refine ⟨sql, hsql, ?_⟩
  split at h
  · rename_i pw hpw
    cases h
    refine Or.inl ⟨?_, rfl, rfl⟩
    rw [hpw]
    exact Option.some_ne_none _
  · rename_i hn
    obtain ⟨_, -, h⟩ := Option.bind_eq_some_iff.1 h
    cases h
    exact Or.inr ⟨hn, rfl, rfl⟩

private theorem register_page {env : Env} {mysql : Option Nat} {users users' : Users} {name password page : List Byte}
    (h : register env mysql users name password = some (page, users')) : page ∈ accountPages := by
  obtain ⟨sql, -, ⟨-, -, rfl⟩ | ⟨-, -, rfl⟩⟩ := register_cases h
  · decide
  · split <;> decide

/-- What the branch on the account writes, and where: the page over the URL, and the URL behind the root directory. -/
theorem doAccount_cases {env : Env} {mysql : Option Nat} {users users' : Users} {p p' : Parser} {r r' : Resource}
    {url : Nat} {action : Byte} (h : doAccount env mysql users p r url action = some (p', r', users')) :
    ∃ row page urlReal, p.content.bind (extractForm p.readBuf) = some row ∧ page ∈ accountPages ∧
      p.readBuf.copy url (page ++ [0]) = some p'.readBuf ∧
      r.realFile.copy env.rootPath.length (urlReal ++ [0]) = some r'.realFile ∧
      (if action = 51 then register env mysql users row.1 row.2
        else some (login users row.1 row.2, users)) = some (page, users') := by
  unfold doAccount at h
  obtain ⟨_, -, h⟩ := Option.bind_eq_some_iff.1 h
  obtain ⟨urlReal, -, h⟩ := Option.bind_eq_some_iff.1 h
  obtain ⟨realFile, hfile, h⟩ := Option.bind_eq_some_iff.1 h
  obtain ⟨content, hcontent, h⟩ := Option.bind_eq_some_iff.1 h
  obtain ⟨row, hrow, h⟩ := Option.bind_eq_some_iff.1 h
  obtain ⟨⟨page, users₁⟩, hpage, h⟩ := Option.bind_eq_some_iff.1 h
  obtain ⟨buf, hbuf, h⟩ := Option.bind_eq_some_iff.1 h
  cases h
  have hmem : page ∈ accountPages := by
    split at hpage
    · exact register_page hpage
    · cases hpage
      exact login_page _ _ _
  refine ⟨row, page, urlReal, ?_, hmem, hbuf, hfile, hpage⟩
  rw [hcontent]
  exact hrow

/-- What a request has gone through when `do_request_` returns. -/
theorem Request.run_steps {q : Request} {users : Users} {x : HttpState × Parser × Resource × Users}
    (h : q.run users = some x) :
    ∃ (file name : CharArray FILENAME_LEN) (url i : Nat) (action : Byte) (r : Resource),
      q.resource.realFile.copy 0 (q.env.rootPath ++ [0]) = some file ∧ q.parser.url = some url ∧
      strrchr SLASH (q.parser.readBuf.suffix url) = some (some i) ∧
      q.parser.readBuf.peek (url + i + 1) = some action ∧
      (if q.parser.cgi ∧ (action = 50 ∨ action = 51) then
        doAccount q.env q.mysql users q.parser { q.resource with realFile := file } url action
        else some (q.parser, { q.resource with realFile := file }, users)) = some (x.2.1, r, x.2.2.2) ∧
      chooseFile q.env x.2.1 r url (url + i) = some name ∧
      openResource q.env { r with realFile := name } = some (x.1, x.2.2.1) := by
  rw [run, doRequest_eq] at h
  obtain ⟨⟨p, r', users'⟩, hresolve, h⟩ := Option.bind_eq_some_iff.1 h
  obtain ⟨⟨ret, r''⟩, hopen, rfl⟩ := Option.map_eq_some_iff.1 h
  obtain ⟨file, name, url, i, action, r, hfile, hurl, hlast, haction, hacc, hname, rfl⟩ := resolve_steps hresolve
  exact ⟨file, name, url, i, action, r, hfile, hurl, hlast, haction, hacc, hname, hopen⟩

theorem Request.action_of_slash {q : Request} {url i : Nat} {action : Byte} (hurl : q.parser.url = some url)
    (hlast : strrchr SLASH (q.parser.readBuf.suffix url) = some (some i))
    (haction : q.parser.readBuf.peek (url + i + 1) = some action) : q.action = some action := by
  simp [Request.action, hurl, hlast, haction]

/-- What a request is, and what it does: a registration, a login, or neither. -/
theorem Request.run_cases {q : Request} {users : Users} {x : HttpState × Parser × Resource × Users}
    (h : q.run users = some x) :
    (∃ row page, q.registers = some row ∧ q.logsIn = none ∧ q.page x.2.1 = some page ∧
      register q.env q.mysql users row.1 row.2 = some (page, x.2.2.2)) ∨
    (∃ row, q.registers = none ∧ q.logsIn = some row ∧ q.page x.2.1 = some (login users row.1 row.2) ∧
      x.2.2.2 = users) ∨
    q.registers = none ∧ q.logsIn = none ∧ x.2.2.2 = users := by
  obtain ⟨file, -, url, i, action, r, -, hurl, hlast, haction, hacc, -, -⟩ := Request.run_steps h
  obtain ⟨ret, p, r', users'⟩ := x
  dsimp only at hacc ⊢
  have hact := Request.action_of_slash hurl hlast haction
  have hform : ∀ c, q.form c = if q.parser.cgi = true ∧ action = c then
      q.parser.content.bind (extractForm q.parser.readBuf) else none := by
    intro c
    simp [Request.form, hact]
  have hpage : q.page p = cstring (p.readBuf.suffix url) := by
    simp [Request.page, hurl]
  unfold Request.registers Request.logsIn
  rw [hform, hform]
  split at hacc
  · rename_i hc
    obtain ⟨row, page, -, hrow, hmem, hbuf, -, hres⟩ := doAccount_cases hacc
    have htext := page_of_copy (accountPages_plain page hmem) hbuf
    rcases hc.2 with rfl | rfl
    · right; left
      cases hres
      refine ⟨row, by simp, ?_, hpage.trans htext, rfl⟩
      rw [if_pos ⟨hc.1, rfl⟩, hrow]
    · left
      refine ⟨row, page, ?_, by simp, hpage.trans htext, hres⟩
      rw [if_pos ⟨hc.1, rfl⟩, hrow]
  · rename_i hc
    cases hacc
    right; right
    refine ⟨if_neg fun h => hc ⟨h.1, Or.inr h.2⟩, if_neg fun h => hc ⟨h.1, Or.inl h.2⟩, rfl⟩

/-! ### Histories -/

namespace Accounts

private theorem initmysqlResult_append (rows : List Row) (row : Row) :
    initmysqlResult (rows ++ [row]) = Function.update (initmysqlResult rows) row.1 (some row.2) := by
  simp [initmysqlResult, List.foldl_append]

/-- Adding the same new account to both keeps them in agreement. -/
theorem Agrees.insert {s : Accounts} (h : s.Agrees) {row : Row} (hn : s.users row.1 = none) :
    Agrees { users := Function.update s.users row.1 (some row.2), table := s.table ++ [row] } := by
  intro other
  have hnew : ∀ password, (row.1, password) ∉ s.table := by
    intro password hm
    rw [← h, hn] at hm
    cases hm
  rw [List.mem_append, List.mem_singleton]
  dsimp only
  by_cases hname : other.1 = row.1
  · rw [hname, Function.update_self]
    constructor
    · intro hp
      right
      exact Prod.ext hname (Option.some.inj hp).symm
    · rintro (hm | rfl)
      · have he : other = (row.1, other.2) := Prod.ext hname rfl
        rw [he] at hm
        exact absurd hm (hnew other.2)
      · rfl
  · rw [Function.update_of_ne hname, h other]
    constructor
    · exact Or.inl
    · rintro (hm | rfl)
      · exact hm
      · exact absurd rfl hname

/-- What `initmysql_result` loads is the table. -/
private theorem load_agrees {rows : List Row} (h : (rows.map Prod.fst).Nodup) : (load rows).Agrees := by
  induction rows using List.reverseRecOn with
  | nil =>
    intro row
    exact iff_of_false (Option.some_ne_none _).symm (List.not_mem_nil)
  | append_singleton rows row ih =>
    rw [List.map_append, List.nodup_append] at h
    have hrows : (load rows).Agrees := ih h.1
    have hn : initmysqlResult rows row.1 = none := by
      by_contra hne
      obtain ⟨password, hp⟩ := Option.ne_none_iff_exists'.1 hne
      have hm : (row.1, password) ∈ rows := (hrows (row.1, password)).1 hp
      have hfst : row.1 ∈ rows.map Prod.fst := List.mem_map.2 ⟨_, hm, rfl⟩
      exact h.2.2 row.1 hfst row.1 (by simp) rfl
    have hload : load (rows ++ [row]) =
        { users := Function.update (load rows).users row.1 (some row.2), table := (load rows).table ++ [row] } := by
      rw [load, initmysqlResult_append]
      rfl
    rw [hload]
    exact hrows.insert hn

private theorem inserts_of_found {s : Accounts} {q : Request} {row : Row} (hr : q.registers = some row)
    (hn : s.users row.1 ≠ none) : s.inserts q = none := by
  simp [inserts, hr, hn]

private theorem inserts_of_new {s : Accounts} {q : Request} {row : Row} (hr : q.registers = some row)
    (hn : s.users row.1 = none) : s.inserts q = some row := by
  simp [inserts, hr, hn]

/-- A request whose `INSERT` does not fail leaves everything in step. -/
private theorem Agrees.keepsStep {s : Accounts} (h : s.Agrees) {q : Request} (hq : ¬ s.FailsInsert q) :
    s.KeepsStep q := by
  intro x hx
  obtain ⟨row, page, hr, hl, hpage, hreg⟩ | ⟨row, hr, hl, hpage, hu⟩ | ⟨hr, hl, hu⟩ := Request.run_cases hx
  · obtain ⟨sql, hsql, ⟨hn, hu, -⟩ | ⟨hn, hu, hp⟩⟩ := register_cases hreg
    · -- the name is taken: no statement is sent
      have htable : s.tableAfter q = s.table := by rw [tableAfter, inserts_of_found hr hn]
      rw [htable, hu]
      exact ⟨h, fun _ hrow => absurd hrow (by simp [hl]), fun _ _ => rfl⟩
    · have hins := inserts_of_new hr hn
      have hres : q.insertResult row = some 0 := by
        by_contra hne
        exact hq ⟨row, hins, hne⟩
      have hquery : q.env.query sql = 0 := by
        simpa [Request.insertResult, hsql] using hres
      have htable : s.tableAfter q = s.table ++ [row] := by
        rw [tableAfter, hins]
        exact if_pos hres
      rw [htable, hu]
      refine ⟨h.insert hn, fun _ hrow => absurd hrow (by simp [hl]), fun _ hrefused => ?_⟩
      rw [hpage, hp, if_pos hquery] at hrefused
      exact absurd hrefused (by decide)
  · have htable : s.tableAfter q = s.table := by
      have hins : s.inserts q = none := by simp [inserts, hr]
      rw [tableAfter, hins]
    rw [htable, hu]
    refine ⟨h, fun row' hrow hw => ?_, fun hne => absurd hr hne⟩
    cases hl.symm.trans hrow
    rw [hpage] at hw
    unfold login at hw
    split at hw
    · rename_i hfound
      exact (h row).1 hfound
    · exact absurd hw (by decide)
  · have htable : s.tableAfter q = s.table := by
      have hins : s.inserts q = none := by simp [inserts, hr]
      rw [tableAfter, hins]
    rw [htable, hu]
    exact ⟨h, fun _ hrow => absurd hrow (by simp [hl]), fun hne => absurd hr hne⟩

/-- After a failed `INSERT` the map has an account that the table has not. -/
private theorem Agrees.not_keepsStep {s s' : Accounts} (h : s.Agrees) {q : Request} (hq : s.FailsInsert q)
    (hs : s.handle q = some s') : ¬ s.KeepsStep q := by
  intro hk
  obtain ⟨x, hx, -⟩ := Option.map_eq_some_iff.1 hs
  have hagrees := (hk x hx).agrees
  obtain ⟨row, hins, hres⟩ := hq
  obtain ⟨hr, hn⟩ := Option.filter_eq_some_iff.1 hins
  have hn : s.users row.1 = none := of_decide_eq_true hn
  have htable : s.tableAfter q = s.table := by
    rw [tableAfter, hins]
    exact if_neg hres
  rw [htable] at hagrees
  obtain ⟨row', page, hr', -, -, hreg⟩ | ⟨row', hr', -⟩ | ⟨hr', -⟩ := Request.run_cases hx
  · cases hr.symm.trans hr'
    obtain ⟨sql, -, ⟨hne, -⟩ | ⟨-, hu, -⟩⟩ := register_cases hreg
    · exact hne hn
    · have hmem : row ∈ s.table := (hagrees row).1 (by rw [hu]; exact Function.update_self ..)
      rw [← h row, hn] at hmem
      cases hmem
  · cases hr.symm.trans hr'
  · cases hr.symm.trans hr'

/-- A request is in step exactly when it has no failing `INSERT`. -/
private theorem Agrees.keepsStep_iff {s s' : Accounts} (h : s.Agrees) {q : Request} (hs : s.handle q = some s') :
    s.KeepsStep q ↔ ¬ s.FailsInsert q := by
  constructor
  · intro hk hq
    exact h.not_keepsStep hq hs hk
  · exact h.keepsStep

/-- The map agrees with the table as it is loaded, and every request of a history is in step, exactly when no
`INSERT` of the history fails. -/
theorem accounts_agree_iff {rows : List Row} (hrows : (rows.map Prod.fst).Nodup) {qs : List Request} {s : Accounts}
    (h : Transition.run handle (load rows) qs = some s) :
    ((load rows).Agrees ∧ Meets handle KeepsStep (load rows) qs) ↔
      Meets handle (fun s q => ¬ s.FailsInsert q) (load rows) qs := by
  have hload := load_agrees hrows
  rw [← meets_congr (P := Agrees) (fun s q s' hs hq => hs.keepsStep_iff hq) ?_ hload h]
  · exact and_iff_right hload
  · intro s q s' hs hq hs'
    obtain ⟨x, hx, rfl⟩ := Option.map_eq_some_iff.1 hs'
    exact (hs.keepsStep hq x hx).agrees

/-- A request on a handler that has received `bs`, in an environment without files in which `mysql_query` returns
`res`. -/
def requestOf (bs : List Byte) (res : Int) : Request :=
  { env := { noFiles with query := fun _ => res }, mysql := some 0, resource := .zero
    parser := (((Parser.zero.init_.receive bs).bind (Parser.parse_ · .eagain)).map (·.2.1)).getD .zero }

def registerBob : List Byte := lit "POST /3 HTTP/1.1\r\nContent-length: 22\r\n\r\nuser=bob&password=open"

def logInBob : List Byte := lit "POST /2 HTTP/1.1\r\nContent-length: 22\r\n\r\nuser=bob&password=open"

theorem accounts_agree_iff_bob :
    ∃ s, Transition.run handle (load [(lit "eve", lit "shut")])
        [requestOf registerBob 0, requestOf logInBob 0] = some s ∧
      Meets handle KeepsStep (load [(lit "eve", lit "shut")]) [requestOf registerBob 0, requestOf logInBob 0] :=
  exists_run (by decide +kernel) fun _ h => ((accounts_agree_iff (by decide) h).2 (by decide +kernel)).2

/-- The `INSERT` of a registration fails, and the account can be logged in to. -/
theorem failedInsert_logsIn :
    ∃ s, Transition.run handle (load []) [requestOf registerBob 1] = some s ∧ s.table = [] ∧ ¬ s.Agrees ∧
      ((requestOf logInBob 1).run s.users).map (fun x => (requestOf logInBob 1).page x.2.1) =
        some (some (lit "/welcome.html")) := by
  refine exists_run_map
    (f := fun s => (s.table, s.users (lit "bob"),
      ((requestOf logInBob 1).run s.users).map fun x => (requestOf logInBob 1).page x.2.1))
    (a := ([], some (lit "open"), some (some (lit "/welcome.html")))) (by decide +kernel) fun s hs => ?_
  simp only [Prod.mk.injEq] at hs
  obtain ⟨htable, hbob, hpage⟩ := hs
  refine ⟨htable, fun hagrees => ?_, hpage⟩
  have hmem : (lit "bob", lit "open") ∈ s.table := (hagrees _).1 hbob
  rw [htable] at hmem
  exact List.not_mem_nil hmem

end Accounts

end ImageServer
