import ImageServer.Http.DoRequest

/-!
# The two halves of `do_request_`

`do_request_` first makes up `m_real_file` (`resolve`), with the login or the registration on the way, and then asks
the operating system for the file (`openResource`).
-/

namespace ImageServer

open CLib

/-- `do_request_` up to the call of `stat`. -/
def resolve (env : Env) (mysql : Option Nat) (users : Users) (p : Parser) (r : Resource) :
    Option (Parser × Resource × Users) := do
  let realFile ← r.realFile.copy 0 (env.rootPath ++ [0])
  let r := { r with realFile := realFile }
  let url ← p.url
  let slash ← (← strrchr SLASH (p.readBuf.suffix url)).map (url + ·)
  let action ← p.readBuf.peek (slash + 1)
  let (p, r, users) ←
    (if p.cgi ∧ (action = 50 ∨ action = 51) then doAccount env mysql users p r url action else some (p, r, users))
  let realFile ← chooseFile env p r url slash
  return (p, { r with realFile := realFile }, users)

/-- The steps of `resolve`, one after the other. -/
theorem resolve_eq_some {env : Env} {mysql : Option Nat} {users users' : Users} {p p' : Parser} {r r' : Resource}
    {file name : CharArray FILENAME_LEN} {url i : Nat} {action : Byte}
    (hfile : r.realFile.copy 0 (env.rootPath ++ [0]) = some file) (hurl : p.url = some url)
    (hlast : strrchr SLASH (p.readBuf.suffix url) = some (some i))
    (haction : p.readBuf.peek (url + i + 1) = some action) (hacc : (if p.cgi ∧ (action = 50 ∨ action = 51) then
      doAccount env mysql users p { r with realFile := file } url action
      else some (p, { r with realFile := file }, users)) = some (p', r', users'))
    (hchoose : chooseFile env p' r' url (url + i) = some name) :
    resolve env mysql users p r = some (p', { r' with realFile := name }, users') := by
  unfold resolve
  rw [hfile, hurl]
  simp only [Option.bind_eq_bind, Option.bind_some, hlast, Option.map_some, haction, hacc, hchoose]
  rfl

/-- A result of `resolve` has gone through all of its steps. -/
theorem resolve_steps {env : Env} {mysql : Option Nat} {users : Users} {p : Parser} {r : Resource}
    {x : Parser × Resource × Users} (h : resolve env mysql users p r = some x) :
    ∃ (file name : CharArray FILENAME_LEN) (url i : Nat) (action : Byte) (r' : Resource),
      r.realFile.copy 0 (env.rootPath ++ [0]) = some file ∧ p.url = some url ∧
      strrchr SLASH (p.readBuf.suffix url) = some (some i) ∧ p.readBuf.peek (url + i + 1) = some action ∧
      (if p.cgi ∧ (action = 50 ∨ action = 51) then
        doAccount env mysql users p { r with realFile := file } url action
        else some (p, { r with realFile := file }, users)) = some (x.1, r', x.2.2) ∧
      chooseFile env x.1 r' url (url + i) = some name ∧ x.2.1 = { r' with realFile := name } := by
  unfold resolve at h
  obtain ⟨file, hfile, h⟩ := Option.bind_eq_some_iff.1 h
  obtain ⟨url, hurl, h⟩ := Option.bind_eq_some_iff.1 h
  obtain ⟨last, hlast, h⟩ := Option.bind_eq_some_iff.1 h
  obtain ⟨slash, hslash, h⟩ := Option.bind_eq_some_iff.1 h
  obtain ⟨action, haction, h⟩ := Option.bind_eq_some_iff.1 h
  obtain ⟨⟨p', r', users'⟩, hacc, h⟩ := Option.bind_eq_some_iff.1 h
  obtain ⟨name, hname, h⟩ := Option.bind_eq_some_iff.1 h
  cases h
  obtain ⟨i, rfl, rfl⟩ := Option.map_eq_some_iff.1 hslash
  exact ⟨file, name, url, i, action, r', hfile, hurl, hlast, haction, hacc, hname, rfl⟩

theorem doRequest_eq (env : Env) (mysql : Option Nat) (users : Users) (p : Parser) (r : Resource) :
    doRequest_ env mysql users p r = (resolve env mysql users p r).bind fun x =>
      (openResource env x.2.1).map fun y => (y.1, x.1, y.2, x.2.2) := by
  simp only [doRequest_, resolve, Option.bind_eq_bind, Option.bind_assoc, Option.pure_def, Option.bind_some,
    Option.map_eq_bind]
  rfl

private theorem doAccount_frame {env : Env} {mysql : Option Nat} {users users' : Users} {p p' : Parser}
    {r r' : Resource} {url : Nat} {action : Byte}
    (h : doAccount env mysql users p r url action = some (p', r', users')) :
    ∃ buf name, p' = { p with readBuf := buf } ∧ r' = { r with realFile := name } := by
  unfold doAccount at h
  obtain ⟨_, -, h⟩ := Option.bind_eq_some_iff.1 h
  obtain ⟨_, -, h⟩ := Option.bind_eq_some_iff.1 h
  obtain ⟨realFile, -, h⟩ := Option.bind_eq_some_iff.1 h
  obtain ⟨_, -, h⟩ := Option.bind_eq_some_iff.1 h
  obtain ⟨_, -, h⟩ := Option.bind_eq_some_iff.1 h
  obtain ⟨_, -, h⟩ := Option.bind_eq_some_iff.1 h
  obtain ⟨buf, -, h⟩ := Option.bind_eq_some_iff.1 h
  cases h
  exact ⟨buf, realFile, rfl, rfl⟩

/-- What comes before `stat` changes the buffers, the accounts and the name only. -/
theorem resolve_frame {env : Env} {mysql : Option Nat} {users users' : Users} {p p' : Parser} {r r' : Resource}
    (h : resolve env mysql users p r = some (p', r', users')) :
    ∃ buf name, p' = { p with readBuf := buf } ∧ r' = { r with realFile := name } := by
  obtain ⟨_, name, _, _, _, r₁, -, -, -, -, hacc, -, hr⟩ := resolve_steps h
  dsimp only at hacc hr
  rw [hr]
  split at hacc
  · obtain ⟨buf, _, rfl, rfl⟩ := doAccount_frame hacc
    exact ⟨buf, name, rfl, rfl⟩
  · cases hacc
    exact ⟨p.readBuf, name, rfl, rfl⟩

end ImageServer
