import ImageServer.Http.Parse

/-!
# Serving a request

`do_request_` as `define.h` configures it (`SYNSQL`): login and registration, the choice of the page, and the
file calls.  What the operating system and the database answer is a parameter (`Env`); the root directory is the
macro `__ROOTPATH__`.  Buffers on the stack and the heap have the sizes the source gives them, and a result `none`
is again an access outside one of them, or through a null pointer.
-/

namespace ImageServer

open CLib

/-- The answers of the system calls of one call of `do_request_`, by path, and of `mysql_query`, by statement. -/
structure Env where
  rootPath : List Byte
  stat : List Byte → Option FileStat
  openFile : List Byte → Bool
  mmap : List Byte → Option (List Byte)
  closeFile : Bool
  query : List Byte → Int

/-- A file system without files. -/
def noFiles : Env :=
  { rootPath := lit "/root", stat := fun _ => none, openFile := fun _ => false, mmap := fun _ => none,
    closeFile := true, query := fun _ => 1 }

/-- Copy characters up to `stop` into an array of `room` characters and terminate it there. -/
def copyUntil (stop : Byte) : Nat → List Byte → Option (List Byte)
  | 0, _ => none
  | _ + 1, [] => none
  | room + 1, b :: s => if b = stop then some [] else (copyUntil stop room s).map (b :: ·)

/-- The characters before the first `stop`, when there is room for them. -/
theorem copyUntil_eq_some {stop : Byte} {room : Nat} {s t : List Byte} :
    copyUntil stop room s = some t ↔ ∃ r, s = t ++ stop :: r ∧ stop ∉ t ∧ t.length < room := by
  induction room generalizing s t with
  | zero => simp [copyUntil]
  | succ room ih =>
    cases s with
    | nil => simp [copyUntil]
    | cons b s =>
      unfold copyUntil
      split
      · rename_i hb
        subst hb
        constructor
        · intro h
          cases h
          exact ⟨s, rfl, List.not_mem_nil, Nat.succ_pos _⟩
        · rintro ⟨r, hr, hn, -⟩
          cases t with
          | nil => rfl
          | cons c t =>
            cases hr
            exact absurd (List.mem_cons_self ..) hn
      · rename_i hb
        rw [Option.map_eq_some_iff]
        constructor
        · rintro ⟨t', ht', rfl⟩
          obtain ⟨r, rfl, hn, hlt⟩ := ih.1 ht'
          exact ⟨r, rfl, by simp [Ne.symm hb, hn], Nat.succ_lt_succ hlt⟩
        · rintro ⟨r, hr, hn, hlt⟩
          cases t with
          | nil =>
            cases hr
            exact absurd rfl hb
          | cons c t =>
            cases hr
            exact ⟨t, ih.2 ⟨r, rfl, fun hm => hn (List.mem_cons_of_mem _ hm), Nat.lt_of_succ_lt_succ hlt⟩, rfl⟩

/-- `strcpy` and `strcat` of the parts into an array of `size` characters. -/
def concatInto (size : Nat) (parts : List (List Byte)) : Option (List Byte) :=
  if parts.flatten.length < size then some parts.flatten else none

/-- The pages of the branches on `*(p + 1)` at the end of `do_request_`. -/
def actionPages : List (Byte × List Byte) :=
  [(48, lit "/register.html"), (49, lit "/log.html"), (53, lit "/picture.html"), (54, lit "/video.html"),
   (55, lit "/fans.html")]

/-- `strncpy(dst + off, src, count)` for a source text of `src`: it is padded with NULs. -/
def strncpy {n : Nat} (dst : CharArray n) (off : Nat) (src : List Byte) (count : Nat) : Option (CharArray n) :=
  dst.copy off (src.take count ++ List.replicate (count - src.length) 0)

/-- The name and the password of the form in `m_content`. -/
def extractForm (buf : CharArray READ_BUFFER_SIZE) (content : Nat) : Option (List Byte × List Byte) := do
  let name ← copyUntil 38 100 (buf.suffix (content + 5))
  let password ← copyUntil 0 100 (buf.suffix (content + 5 + name.length + 10))
  return (name.takeWhile (· ≠ 0), password)

/-- `sql_insert`. -/
def sqlInsert (name password : List Byte) : Option (List Byte) :=
  concatInto 200
    [lit "INSERT INTO user(username, passwd) VALUES(", lit "'", name, lit "', '", password, lit "')"]

/-- The statement is 49 characters longer than its two texts. -/
theorem statement_length (name password : List Byte) :
    [lit "INSERT INTO user(username, passwd) VALUES(", lit "'", name, lit "', '", password, lit "')"].flatten.length =
      name.length + password.length + 49 := by
  have h1 : (lit "INSERT INTO user(username, passwd) VALUES(").length = 42 := by decide
  have h2 : (lit "'").length = 1 := by decide
  have h3 : (lit "', '").length = 4 := by decide
  have h4 : (lit "')").length = 2 := by decide
  simp only [List.flatten_cons, List.flatten_nil, List.length_append, List.length_nil, h1, h2, h3, h4]
  omega

theorem sqlInsert_eq_some {name password sql : List Byte} :
    sqlInsert name password = some sql ↔ name.length + password.length + 49 < 200 ∧
      sql = [lit "INSERT INTO user(username, passwd) VALUES(", lit "'", name, lit "', '", password,
        lit "')"].flatten := by
  unfold sqlInsert concatInto
  rw [statement_length]
  split
  · rename_i h
    simp [h, eq_comm]
  · rename_i h
    simp [h]

/-- The page of a registration (action 3), and the accounts after it. -/
def register (env : Env) (mysql : Option Nat) (users : Users) (name password : List Byte) :
    Option (List Byte × Users) := do
  let sql ← sqlInsert name password
  match users name with
  | some _ => return (lit "/registerError.html", users)
  | none =>
    let _ ← mysql
    let res := env.query sql
    -- `users.insert` comes before the test on the result of the query
    let users := Function.update users name (some password)
    return (if res = 0 then lit "/log.html" else lit "/registerError.html", users)

/-- The page of a login (action 2). -/
def login (users : Users) (name password : List Byte) : List Byte :=
  if users name = some password then lit "/welcome.html" else lit "/logError.html"

/-- The body of the `if` on `m_cgi`, for the actions 2 and 3: `m_url` is overwritten with the page. -/
def doAccount (env : Env) (mysql : Option Nat) (users : Users) (p : Parser) (r : Resource) (url : Nat)
    (action : Byte) : Option (Parser × Resource × Users) := do
  let rest ← cstring (p.readBuf.suffix (url + 2))
  let urlReal ← concatInto 200 [[SLASH], rest]
  let realFile ← r.realFile.copy env.rootPath.length (urlReal ++ [0])
  let content ← p.content
  let (name, password) ← extractForm p.readBuf content
  let (page, users) ←
    (if action = 51 then register env mysql users name password else some (login users name password, users))
  let buf ← p.readBuf.copy url (page ++ [0])
  return ({ p with readBuf := buf }, { r with realFile := realFile }, users)

/-- The choice of `m_real_file` by `*(p + 1)`, where `p` points at the last slash. -/
def chooseFile (env : Env) (p : Parser) (r : Resource) (url slash : Nat) : Option (CharArray FILENAME_LEN) := do
  let len := env.rootPath.length
  match actionPages.lookup (← p.readBuf.peek (slash + 1)) with
  | some page => strncpy r.realFile len page page.length
  | none => strncpy r.realFile len (← cstring (p.readBuf.suffix url)) (FILENAME_LEN - len - 1)

/-- The file calls at the end of `do_request_`. -/
def openResource (env : Env) (r : Resource) : Option (HttpState × Resource) := do
  let path ← cstring r.realFile.bytes
  match env.stat path with
  | none => return (.errorFileNotFound, r)
  | some st =>
    let r := { r with fileStat := st }
    if ¬ st.iroth then return (.errorAccessFailed, r)
    else if st.isDir then return (.errorFormat, r)
    else if ¬ env.openFile path then return (.errorAccessFailed, r)
    else
      match env.mmap path with
      | none => return (.internalError, { r with fileAddress := .mapFailed })
      | some file =>
        let r := { r with fileAddress := .mapped file }
        if env.closeFile then return (.finishedRequest, r) else return (.internalError, r)

/-- What the file calls under the name `path` can come to. -/
inductive Opened (env : Env) (path : List Byte) (r : Resource) : HttpState → Resource → Prop
  | notFound (hstat : env.stat path = none) : Opened env path r .errorFileNotFound r
  | noAccess {st : FileStat} (hstat : env.stat path = some st) (hr : st.iroth = false) :
    Opened env path r .errorAccessFailed { r with fileStat := st }
  | directory {st : FileStat} (hstat : env.stat path = some st) (hr : st.iroth = true) (hd : st.isDir = true) :
    Opened env path r .errorFormat { r with fileStat := st }
  | notOpened {st : FileStat} (hstat : env.stat path = some st) (hr : st.iroth = true) (hd : st.isDir = false)
    (hopen : env.openFile path = false) : Opened env path r .errorAccessFailed { r with fileStat := st }
  | notMapped {st : FileStat} (hstat : env.stat path = some st) (hr : st.iroth = true) (hd : st.isDir = false)
    (hopen : env.openFile path = true) (hmmap : env.mmap path = none) :
    Opened env path r .internalError { r with fileStat := st, fileAddress := .mapFailed }
  | notClosed {st : FileStat} {file : List Byte} (hstat : env.stat path = some st) (hr : st.iroth = true)
    (hd : st.isDir = false) (hopen : env.openFile path = true) (hmmap : env.mmap path = some file)
    (hclose : env.closeFile = false) :
    Opened env path r .internalError { r with fileStat := st, fileAddress := .mapped file }
  | served {st : FileStat} {file : List Byte} (hstat : env.stat path = some st) (hr : st.iroth = true)
    (hd : st.isDir = false) (hopen : env.openFile path = true) (hmmap : env.mmap path = some file)
    (hclose : env.closeFile = true) :
    Opened env path r .finishedRequest { r with fileStat := st, fileAddress := .mapped file }

/-- The file calls are made with the name in `m_real_file`. -/
theorem openResource_opened {env : Env} {r r' : Resource} {ret : HttpState}
    (h : openResource env r = some (ret, r')) :
    ∃ path, cstring r.realFile.bytes = some path ∧ Opened env path r ret r' := by
  unfold openResource at h
  obtain ⟨path, hpath, h⟩ := Option.bind_eq_some_iff.1 h
  refine ⟨path, hpath, ?_⟩
  cases hstat : env.stat path with
  | none =>
    rw [hstat] at h
    cases h
    exact .notFound hstat
  | some st =>
    simp only [hstat] at h
    split at h
    · rename_i hr
      cases h
      exact .noAccess hstat (Bool.eq_false_of_not_eq_true hr)
    rename_i hr
    split at h
    · rename_i hd
      cases h
      exact .directory hstat (not_not.1 hr) hd
    rename_i hd
    split at h
    · rename_i ho
      cases h
      exact .notOpened hstat (not_not.1 hr) (Bool.eq_false_of_not_eq_true hd) (Bool.eq_false_of_not_eq_true ho)
    rename_i ho
    cases hmmap : env.mmap path with
    | none =>
      simp only [hmmap] at h
      cases h
      exact .notMapped hstat (not_not.1 hr) (Bool.eq_false_of_not_eq_true hd) (not_not.1 ho) hmmap
    | some file =>
      simp only [hmmap] at h
      split at h
      · rename_i hc
        cases h
        exact .served hstat (not_not.1 hr) (Bool.eq_false_of_not_eq_true hd) (not_not.1 ho) hmmap hc
      · rename_i hc
        cases h
        exact .notClosed hstat (not_not.1 hr) (Bool.eq_false_of_not_eq_true hd) (not_not.1 ho) hmmap
          (Bool.eq_false_of_not_eq_true hc)

/-- `HttpHandler::do_request_`. -/
def doRequest_ (env : Env) (mysql : Option Nat) (users : Users) (p : Parser) (r : Resource) :
    Option (HttpState × Parser × Resource × Users) := do
  let realFile ← r.realFile.copy 0 (env.rootPath ++ [0])
  let r := { r with realFile := realFile }
  let url ← p.url
  let slash ← (← strrchr SLASH (p.readBuf.suffix url)).map (url + ·)
  let action ← p.readBuf.peek (slash + 1)
  let (p, r, users) ←
    (if p.cgi ∧ (action = 50 ∨ action = 51) then doAccount env mysql users p r url action else some (p, r, users))
  -- `*(p + 1)` is read again: the page may have been written over it
  let realFile ← chooseFile env p r url slash
  let (ret, r) ← openResource env { r with realFile := realFile }
  return (ret, p, r, users)

end ImageServer
