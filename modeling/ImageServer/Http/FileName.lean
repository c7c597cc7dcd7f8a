import ImageServer.Http.Forms

/-!
# The name a path is read under

For `GET` and `HEAD` the name given to `stat` and `open` should be the root directory and the path.  The digits 0, 1,
5, 6 and 7 behind the last slash stand for a page instead, whatever the method, and `strncpy` cuts a path that is too
long without a word; the request is answered as it should be only where there is no such digit and the path fits, or
the file that is opened in its place is not served (`readsPath_iff`).
-/

namespace ImageServer

open CLib

/-- The file calls under the name all succeed. -/
def Serves (env : Env) (path : List Byte) : Prop :=
  (∃ st ∈ env.stat path, st.iroth = true ∧ st.isDir = false) ∧ env.openFile path = true ∧
    (env.mmap path).isSome = true ∧ env.closeFile = true

instance (env : Env) (path : List Byte) : Decidable (Serves env path) := by
  unfold Serves
  infer_instance

private theorem openResource_serves {env : Env} {r r' : Resource} {path : List Byte} {ret : HttpState}
    (hpath : cstring r.realFile.bytes = some path) (h : openResource env r = some (ret, r')) :
    ret = .finishedRequest ↔ Serves env path := by
  obtain ⟨path', hpath', ho⟩ := openResource_opened h
  cases hpath.symm.trans hpath'
  unfold Serves
  cases ho with
  | notFound hstat => simp [hstat]
  | noAccess hstat hr => simp [hstat, hr]
  | directory hstat hr hd => simp [hstat, hd]
  | notOpened hstat hr hd hopen => simp [hopen]
  | notMapped hstat hr hd hopen hmmap => simp [hmmap]
  | notClosed hstat hr hd hopen hmmap hclose => simp [hclose]
  | served hstat hr hd hopen hmmap hclose => simp [hstat, hr, hd, hopen, hmmap, hclose]

namespace Request

/-- The path is read under its own name when that fits, and is answered with an error when it does not. -/
def Faithful (q : Request) (users : Users) : Prop :=
  ∃ u x, q.urlText = some u ∧ q.run users = some x ∧
    if q.env.rootPath.length + u.length < FILENAME_LEN then
      cstring x.2.2.1.realFile.bytes = some (q.env.rootPath ++ u)
    else x.1 ≠ .finishedRequest

/-- The name of the file the request is answered with. -/
def servedName (q : Request) (users : Users) : Option (List Byte) :=
  (q.run users).bind fun x => if x.1 = .finishedRequest then cstring x.2.2.1.realFile.bytes else none

/-- What is put behind the root directory: the page of the action, or as much of the path as there is room for. -/
def target (q : Request) (u : List Byte) (c : Byte) : List Byte := (actionPages.lookup c).getD (u.take q.room)

/-- A path that fits has no action in its last segment; what is read for one that does not fit is not served. -/
def ReadsPath (q : Request) : Prop :=
  ∃ u ∈ q.urlText, ∃ c ∈ q.action,
    if q.env.rootPath.length + u.length < FILENAME_LEN then actionPages.lookup c = none
    else q.env.rootPath.length + (q.target u c).length < FILENAME_LEN ∧ ¬ Serves q.env (q.env.rootPath ++ q.target u c)

instance (q : Request) : Decidable q.ReadsPath := by
  unfold ReadsPath
  infer_instance

/-- `m_real_file` for a request without an account. -/
theorem chooseFile_target {q : Request} {u : List Byte} {c : Byte} {url slash : Nat} {file : CharArray FILENAME_LEN}
    (hr : q.resource.realFile = CharArray.zeros _) (h0 : 0 ∉ q.env.rootPath) (hurl : q.parser.url = some url)
    (hu : q.urlText = some u) (hpeek : q.parser.readBuf.peek (slash + 1) = some c)
    (hfile : q.resource.realFile.copy 0 (q.env.rootPath ++ [0]) = some file) :
    if q.env.rootPath.length + (q.target u c).length < FILENAME_LEN then
      ∃ name, chooseFile q.env q.parser { q.resource with realFile := file } url slash = some name ∧
        cstring name.bytes = some (q.env.rootPath ++ q.target u c)
    else ∀ name, chooseFile q.env q.parser { q.resource with realFile := file } url slash = some name →
      cstring name.bytes = none := by
  have hbytes := realFile_root (a := q.resource.realFile) (by rw [hr]; rfl) hfile
  have hroot := (CharArray.copy_bytes hfile).1
  rw [List.length_append, List.length_singleton] at hroot
  have htext : cstring (q.parser.readBuf.suffix url) = some u := by simpa [urlText, hurl] using hu
  obtain ⟨-, -, hu0⟩ := cstring_eq_some htext
  unfold chooseFile target
  simp only [hpeek, Option.bind_eq_bind, Option.bind_some, htext]
  cases hlook : actionPages.lookup c with
  | none =>
    have hlen : q.env.rootPath.length + (u.take q.room).length < FILENAME_LEN := by
      rw [List.length_take, room]
      omega
    dsimp only [Option.getD_none]
    rw [if_pos hlen]
    rw [List.replicate_succ'] at hbytes
    obtain ⟨name, hname⟩ := CharArray.copy_isSome (a := file) (p := q.env.rootPath.length)
      (s := u.take q.room ++ List.replicate (q.room - u.length) 0) (by
        rw [List.length_append, List.length_take, List.length_replicate, room]
        omega)
    refine ⟨name, hname, ?_⟩
    have hcopy : strncpy file q.env.rootPath.length u (List.replicate q.room (0 : Byte)).length = some name := by
      rwa [List.length_replicate]
    have hstr := cstring_strncpy hbytes hcopy h0 hu0
    rwa [List.length_replicate] at hstr
  | some page =>
    have hp0 := pages_plain page (lookup_pages hlook)
    dsimp only [Option.getD_some]
    split
    · rename_i hfits
      obtain ⟨name, hname⟩ := CharArray.copy_isSome (a := file) (p := q.env.rootPath.length)
        (s := page.take page.length ++ List.replicate (page.length - page.length) 0) (by
          rw [List.take_length, Nat.sub_self, List.replicate_zero, List.append_nil]
          omega)
      refine ⟨name, hname, ?_⟩
      have hk : FILENAME_LEN - q.env.rootPath.length - 1 + 1 - page.length =
          FILENAME_LEN - q.env.rootPath.length - 1 - page.length + 1 := by omega
      rw [strncpy_page hbytes hname, hk, List.replicate_succ]
      exact cstring_text (by simp [h0, hp0])
    · rename_i hfits
      intro name hname
      by_contra hne
      obtain ⟨path, hpath⟩ := Option.ne_none_iff_exists'.1 hne
      have hk : FILENAME_LEN - q.env.rootPath.length - 1 + 1 - page.length = 0 := by omega
      rw [strncpy_page hbytes hname, hk, List.replicate_zero, List.append_nil] at hpath
      obtain ⟨z, hz, -⟩ := cstring_eq_some hpath
      have hmem : (0 : Byte) ∈ q.env.rootPath ++ page := by rw [hz]; simp
      rcases List.mem_append.1 hmem with hm | hm
      · exact h0 hm
      · exact hp0 hm

private theorem run_action {q : Request} {users : Users} {x : HttpState × Parser × Resource × Users}
    (h : q.run users = some x) : ∃ c, q.action = some c := by
  obtain ⟨_, _, _, _, action, _, -, hurl, hlast, haction, -⟩ := run_steps h
  exact ⟨action, action_of_slash hurl hlast haction⟩

/-- No page has its own action in its last segment. -/
private theorem page_action {q : Request} {c : Byte} {page : List Byte} (hc : q.action = some c)
    (hlook : actionPages.lookup c = some page) : q.urlText ≠ some page := by
  intro hu
  have hown : ∀ x ∈ actionPages, lastIdx SLASH x.2 = some 0 ∧ x.2.tail.headD 0 ≠ x.1 := by decide
  obtain ⟨hlast, hne⟩ := hown _ (mem_actionPages hlook)
  rw [action_eq] at hc
  obtain ⟨⟨url, slash⟩, hs, hpeek⟩ := Option.bind_eq_some_iff.1 hc
  obtain ⟨a, b, -, hu', -, hb, hpeek'⟩ := lastSlash_text hs
  cases hu.symm.trans hu'
  rw [lastIdx_text a hb] at hlast
  cases List.length_eq_zero_iff.1 (Option.some.inj hlast)
  rw [hpeek'] at hpeek
  exact hne (Option.some.inj hpeek)

/-- What `do_request_` comes to without an account. -/
private theorem run_target {q : Request} (users : Users) (hcgi : q.parser.cgi = false)
    (hr : q.resource.realFile = CharArray.zeros _) (h0 : 0 ∉ q.env.rootPath) {u : List Byte} (hu : q.urlText = some u)
    {c : Byte} (hc : q.action = some c) :
    if q.env.rootPath.length + (q.target u c).length < FILENAME_LEN then
      ∃ x, q.run users = some x ∧ cstring x.2.2.1.realFile.bytes = some (q.env.rootPath ++ q.target u c) ∧
        (x.1 = .finishedRequest ↔ Serves q.env (q.env.rootPath ++ q.target u c))
    else q.run users = none := by
  rw [action_eq] at hc
  obtain ⟨⟨url, slash⟩, hs, hpeek⟩ := Option.bind_eq_some_iff.1 hc
  obtain ⟨i, hurl, hlast, rfl⟩ := lastSlash_eq_some.1 hs
  have hno : ∀ action : Byte, ¬ (q.parser.cgi = true ∧ (action = 50 ∨ action = 51)) := by simp [hcgi]
  have hchoose : ∀ file, q.resource.realFile.copy 0 (q.env.rootPath ++ [0]) = some file → _ := fun file hfile =>
    chooseFile_target hr h0 hurl hu hpeek hfile
  split
  · rename_i hfits
    obtain ⟨file, hfile⟩ := CharArray.copy_isSome (a := q.resource.realFile) (p := 0) (s := q.env.rootPath ++ [0])
      (by rw [List.length_append, List.length_singleton]; omega)
    have hname := hchoose file hfile
    rw [if_pos hfits] at hname
    obtain ⟨name, hname, hpath⟩ := hname
    have hacc : (if q.parser.cgi = true ∧ (c = 50 ∨ c = 51) then
        doAccount q.env q.mysql users q.parser { q.resource with realFile := file } url c
        else some (q.parser, { q.resource with realFile := file }, users)) = _ := if_neg (hno c)
    obtain ⟨ret, r', hrun, hopen, hpath'⟩ := run_of_steps hfile hurl hlast hpeek hacc hname hpath
    exact ⟨(ret, q.parser, r', users), hrun, hpath', openResource_serves hpath hopen⟩
  · rename_i hfits
    by_contra hne
    obtain ⟨x, hx⟩ := Option.ne_none_iff_exists'.1 hne
    obtain ⟨file, name, url', i', action, r₁, hfile, hurl', hlast', -, hacc, hname, hopen⟩ := run_steps hx
    obtain ⟨ret, p, r', users'⟩ := x
    dsimp only at hacc hname hopen
    cases hurl.symm.trans hurl'
    cases hlast.symm.trans hlast'
    rw [if_neg (hno action)] at hacc
    cases hacc
    have hnone := hchoose file hfile
    rw [if_neg hfits] at hnone
    obtain ⟨-, path, hpath⟩ := openResource_path hopen
    cases (hnone name hname).symm.trans hpath

private theorem Faithful.servedName {q : Request} {users : Users} {name : List Byte} (h : q.Faithful users)
    (hname : q.servedName users = some name) : ∃ u, q.urlText = some u ∧ name = q.env.rootPath ++ u := by
  obtain ⟨u, x, hu, hx, hfaithful⟩ := h
  unfold Request.servedName at hname
  rw [hx, Option.bind_some] at hname
  refine ⟨u, hu, ?_⟩
  split at hname
  · rename_i hret
    split at hfaithful
    · exact Option.some.inj (hname.symm.trans hfaithful)
    · exact absurd hret hfaithful
  · cases hname

/-- An accepted `GET` or `HEAD` is read under its own path exactly when that fits and has no action in its last
segment, or does not fit and nothing is served in its place; and two paths that are read so are not served from one
file. -/
theorem readsPath_iff {p₀ p₁ : Parser} {bs : List Byte} {errno errno' : Errno} {q : Request} {users : Users}
    (hbs : p₀.init_.receive bs = some p₁) (hparse : p₁.parse_ errno = some (.doRequest, q.parser, errno'))
    (hmethod : q.parser.method = .get ∨ q.parser.method = .head) (hr : q.resource.realFile = CharArray.zeros _)
    (h0 : 0 ∉ q.env.rootPath) :
    (q.Faithful users ↔ q.ReadsPath) ∧
      ∀ (q' : Request) (users' : Users) (name : List Byte), q.Faithful users → q'.Faithful users' →
        q'.env.rootPath = q.env.rootPath → q.servedName users = some name → q'.servedName users' = some name →
        q'.urlText = q.urlText := by
  refine ⟨?_, fun q' users' name hq hq' hroot hname hname' => ?_⟩
  rotate_left
  · obtain ⟨u, hu, rfl⟩ := hq.servedName hname
    obtain ⟨u', hu', he⟩ := hq'.servedName hname'
    rw [hroot] at he
    rw [hu, hu', List.append_cancel_left he]
  have hcgi : q.parser.cgi = false := by
    rw [Parser.parse_cgi hbs hparse]
    rcases hmethod with hm | hm <;> rw [hm] <;> rfl
  have hroom : ∀ u c, q.env.rootPath.length + u.length < FILENAME_LEN → actionPages.lookup c = none →
      q.target u c = u := by
    intro u c hfits hlook
    rw [target, hlook, Option.getD_none, List.take_of_length_le (by rw [room]; omega)]
  constructor
  · rintro ⟨u, x, hu, hx, hfaithful⟩
    obtain ⟨c, hc⟩ := run_action hx
    have hrun := run_target users hcgi hr h0 hu hc
    split at hrun
    · rename_i ht
      obtain ⟨x', hx', hpath, hserves⟩ := hrun
      cases hx.symm.trans hx'
      refine ⟨u, hu, c, hc, ?_⟩
      split
      · rename_i hfits
        rw [if_pos hfits, hpath] at hfaithful
        have htarget := List.append_cancel_left (Option.some.inj hfaithful)
        cases hlook : actionPages.lookup c with
        | none => rfl
        | some page =>
          rw [target, hlook, Option.getD_some] at htarget
          exact absurd (hu.trans (congrArg some htarget.symm)) (page_action hc hlook)
      · rename_i hfits
        rw [if_neg hfits] at hfaithful
        exact ⟨ht, fun hs => hfaithful (hserves.2 hs)⟩
    · rw [hx] at hrun
      cases hrun
  · rintro ⟨u, hu, c, hc, hreads⟩
    have hrun := run_target users hcgi hr h0 hu hc
    split at hreads
    · rename_i hfits
      rw [hroom u c hfits hreads, if_pos hfits] at hrun
      obtain ⟨x, hx, hpath, -⟩ := hrun
      exact ⟨u, x, hu, hx, by rwa [if_pos hfits]⟩
    · rename_i hfits
      rw [if_pos hreads.1] at hrun
      obtain ⟨x, hx, -, hserves⟩ := hrun
      refine ⟨u, x, hu, hx, ?_⟩
      rw [if_neg hfits]
      exact fun he => hreads.2 (hserves.1 he)

theorem readsPath_iff_getBack : (requestFor (lit "/root/a/../b.html") getBack).Faithful fun _ => none := by
  have hbs : Parser.zero.init_.receive getBack = some (received getBack) := by decide +kernel
  have hparse : (received getBack).parse_ .eagain =
      some (.doRequest, (requestFor (lit "/root/a/../b.html") getBack).parser, .eagain) := by decide +kernel
  exact (readsPath_iff hbs hparse (.inl (by decide +kernel)) rfl (by decide)).1.2 (by decide +kernel)

/-- What to look at in the result. -/
theorem faithful_of_run {q : Request} {users : Users} {u : List Byte} {ret : HttpState} {path : Option (List Byte)}
    (hu : q.urlText = some u)
    (h : (q.run users).map (fun x => (x.1, cstring x.2.2.1.realFile.bytes)) = some (ret, path)) :
    q.Faithful users ↔ if q.env.rootPath.length + u.length < FILENAME_LEN then path = some (q.env.rootPath ++ u)
      else ret ≠ .finishedRequest := by
  obtain ⟨x, hx, he⟩ := Option.map_eq_some_iff.1 h
  cases he
  constructor
  · rintro ⟨u', x', hu', hx', hf⟩
    cases hu.symm.trans hu'
    cases hx.symm.trans hx'
    exact hf
  · exact fun hf => ⟨u, x, hu, hx, hf⟩

def getFive : List Byte := lit "GET /5.txt HTTP/1.1\r\n\r\n"

/-- A path of 200 characters. -/
def getLong : List Byte := lit "GET /" ++ List.replicate 199 97 ++ lit " HTTP/1.1\r\n\r\n"

/-- A `GET` of `/5.txt` looks up `/picture.html`, although there is a file `/5.txt`; and a path that is too long is
served from the file under the part of it that fits. -/
theorem getFive_shadowed :
    ((received getFive).parse_ .eagain =
        some (.doRequest, (requestFor (lit "/root/5.txt") getFive).parser, .eagain) ∧
      ((requestFor (lit "/root/5.txt") getFive).run fun _ => none).map
          (fun x => (x.1, cstring x.2.2.1.realFile.bytes)) =
        some (.errorFileNotFound, some (lit "/root/picture.html")) ∧
      ¬ (requestFor (lit "/root/5.txt") getFive).Faithful fun _ => none) ∧
    (received getLong).parse_ .eagain =
        some (.doRequest, (requestFor (lit "/root/" ++ List.replicate 193 97) getLong).parser, .eagain) ∧
      ((requestFor (lit "/root/" ++ List.replicate 193 97) getLong).run fun _ => none).map
          (fun x => (x.1, cstring x.2.2.1.realFile.bytes)) =
        some (.finishedRequest, some (lit "/root/" ++ List.replicate 193 97)) ∧
      ¬ (requestFor (lit "/root/" ++ List.replicate 193 97) getLong).Faithful fun _ => none := by
  have hfive : ((requestFor (lit "/root/5.txt") getFive).run fun _ => none).map
      (fun x => (x.1, cstring x.2.2.1.realFile.bytes)) =
        some (.errorFileNotFound, some (lit "/root/picture.html")) := by decide +kernel
  have hlong : ((requestFor (lit "/root/" ++ List.replicate 193 97) getLong).run fun _ => none).map
      (fun x => (x.1, cstring x.2.2.1.realFile.bytes)) =
        some (.finishedRequest, some (lit "/root/" ++ List.replicate 193 97)) := by decide +kernel
  have hfiveUrl : (requestFor (lit "/root/5.txt") getFive).urlText = some (lit "/5.txt") := by decide +kernel
  have hlongUrl : (requestFor (lit "/root/" ++ List.replicate 193 97) getLong).urlText =
      some (SLASH :: List.replicate 199 97) := by decide +kernel
  refine ⟨⟨by decide +kernel, hfive, ?_⟩, by decide +kernel, hlong, ?_⟩
  · rw [faithful_of_run hfiveUrl hfive]
    decide +kernel
  · rw [faithful_of_run hlongUrl hlong]
    decide +kernel

end Request

end ImageServer
