import ImageServer.Http.Accepted
import ImageServer.Http.Confinement
import ImageServer.Http.Resolve

/-!
# The arrays of `do_request_`

`do_request_` copies the root directory, the URL, the name and the password of a form and a statement made of them into
arrays of 200 and 100 characters, with functions and loops that go on to a NUL or to an `&`.  `accesses` lists how far
each of them goes, up to the first that leaves its array; the model's own copies agree with it (`account_inside`).
They all stay inside exactly for the requests that `Fits` describes (`staysInside_iff`).
-/

namespace ImageServer

open CLib Accounts

/-- The arrays `do_request_` fills, and the body of the request, which it reads. -/
inductive Area
  | realFile
  | urlReal
  | sqlInsert
  | name
  | password
  | content
deriving DecidableEq

/-- The number of characters; behind the body there is a NUL. -/
def Area.size (contentLength : Int) : Area → Int
  | .realFile => FILENAME_LEN
  | .urlReal => 200
  | .sqlInsert => 200
  | .name => 100
  | .password => 100
  | .content => contentLength + 1

/-- The characters of the area before the offset `upTo` are written, or read in the body. -/
structure Access where
  area : Area
  upTo : Nat
deriving DecidableEq

def Access.Inside (contentLength : Int) (a : Access) : Prop := a.upTo ≤ a.area.size contentLength

instance (contentLength : Int) (a : Access) : Decidable (a.Inside contentLength) :=
  inferInstanceAs (Decidable ((a.upTo : Int) ≤ a.area.size contentLength))

/-- The end of `do_request_` before `stat`: the page of an action, or `strncpy` of the URL. -/
def pageAccesses (env : Env) (p : Parser) (slash : Nat) : List Access :=
  match p.readBuf.peek (slash + 1) with
  | none => []
  | some action =>
    match actionPages.lookup action with
    | some page => [⟨.urlReal, page.length + 1⟩, ⟨.realFile, env.rootPath.length + page.length⟩]
    | none => [⟨.realFile, env.rootPath.length + (FILENAME_LEN - env.rootPath.length - 1)⟩]

namespace Request

/-- `m_url`, and the last slash in it. -/
def lastSlash (q : Request) : Option (Nat × Nat) := do
  let url ← q.parser.url
  let slash ← (← strrchr SLASH (q.parser.readBuf.suffix url)).map (url + ·)
  return (url, slash)

/-- The branch on the account, for the URL behind its second character and the text at `m_content`; through a null
pointer nothing can be read. -/
def accountAccesses (q : Request) (url : Nat) (action : Byte) : List Access :=
  match cstring (q.parser.readBuf.suffix (url + 2)) with
  | none => []
  | some rest =>
    let text := q.parser.content.elim [] q.parser.readBuf.suffix
    let name := (text.drop 5).takeWhile (· ≠ 38)
    let password := (text.drop (5 + name.length + 10)).takeWhile (· ≠ 0)
    [⟨.urlReal, 1 + rest.length + 1⟩, ⟨.realFile, q.env.rootPath.length + (1 + rest.length) + 1⟩,
      ⟨.content, 5 + name.length + 1⟩, ⟨.name, name.length + 1⟩,
      ⟨.content, 5 + name.length + 10 + password.length + 1⟩, ⟨.password, password.length + 1⟩] ++
    if action = 51 then
      [⟨.sqlInsert, ([lit "INSERT INTO user(username, passwd) VALUES(", lit "'", name.takeWhile (· ≠ 0), lit "', '",
        password, lit "')"].flatten).length + 1⟩]
    else []

/-- The branch on the account, behind the copy of the root directory. -/
def account (q : Request) (users : Users) (url : Nat) (action : Byte) : Option (Parser × Resource × Users) := do
  let realFile ← q.resource.realFile.copy 0 (q.env.rootPath ++ [0])
  doAccount q.env q.mysql users q.parser { q.resource with realFile := realFile } url action

/-- The accesses of `do_request_`, in its order. -/
def accesses (q : Request) (users : Users) : List Access :=
  ⟨.realFile, q.env.rootPath.length + 1⟩ ::
    match q.lastSlash with
    | none => []
    | some (url, slash) =>
      match q.parser.readBuf.peek (slash + 1) with
      | none => []
      | some action =>
        if q.parser.cgi ∧ (action = 50 ∨ action = 51) then
          q.accountAccesses url action ++ (q.account users url action).elim [] fun x => pageAccesses q.env x.1 slash
        else pageAccesses q.env q.parser slash

/-- `do_request_` stays inside its arrays and the body. -/
def StaysInside (q : Request) (users : Users) : Prop :=
  ∀ a ∈ q.accesses users, a.Inside q.parser.contentLength

instance (q : Request) (users : Users) : Decidable (q.StaysInside users) :=
  inferInstanceAs (Decidable (∀ a ∈ q.accesses users, a.Inside q.parser.contentLength))

/-- The texts of the form in the body, before and behind the `&`. -/
def formTexts (q : Request) : Option (List Byte × List Byte) :=
  q.parser.body.bind fun body => cut 38 (body.drop 5)

/-- There is room for the URL behind the root directory, and the body is a form whose name and password have room. -/
def FormFits (q : Request) (action : Byte) : Prop :=
  (∃ u ∈ q.urlText, u.length ≤ 200 ∧ q.env.rootPath.length + u.length ≤ FILENAME_LEN) ∧
    ∃ form ∈ q.formTexts, form.1.length < 100 ∧ 9 ≤ form.2.length ∧
      ((form.2.drop 9).takeWhile (· ≠ 0)).length < 100 ∧
      (action = 51 → (form.1.takeWhile (· ≠ 0)).length + ((form.2.drop 9).takeWhile (· ≠ 0)).length + 49 < 200)

instance (q : Request) (action : Byte) : Decidable (q.FormFits action) := by
  unfold FormFits
  infer_instance

/-- There is room for the root directory, and for the form or the page behind it. -/
def Fits (q : Request) : Prop :=
  q.env.rootPath.length < FILENAME_LEN ∧ ∀ action ∈ q.action,
    if q.parser.cgi ∧ (action = 50 ∨ action = 51) then q.FormFits action
    else ∀ page ∈ actionPages.lookup action, q.env.rootPath.length + page.length ≤ FILENAME_LEN

instance (q : Request) : Decidable q.Fits := @instDecidableAnd _ _ _ (Option.decidableForallMem q.action)

end Request

/-! ### The pages -/

theorem actionPages_short : ∀ page ∈ pages, page.length < 20 := by decide

/-- Behind a root directory that fits, `strncpy` fits, and so does the page of an action if there is room for it. -/
private theorem pageAccesses_inside {env : Env} {p : Parser} {slash : Nat} (L : Int)
    (hroot : env.rootPath.length < FILENAME_LEN) :
    (∀ a ∈ pageAccesses env p slash, a.Inside L) ↔
      ∀ b ∈ p.readBuf.peek (slash + 1), ∀ page ∈ actionPages.lookup b,
        env.rootPath.length + page.length ≤ FILENAME_LEN := by
  have hlen : FILENAME_LEN = 200 := rfl
  unfold pageAccesses
  cases p.readBuf.peek (slash + 1) with
  | none => simp
  | some b =>
    cases hb : actionPages.lookup b with
    | none =>
      simp only [List.forall_mem_singleton, Access.Inside, Area.size, Option.mem_def, Option.some.injEq,
        forall_eq', hb, reduceCtorEq, false_implies, implies_true, iff_true]
      omega
    | some page =>
      have hshort := actionPages_short page (lookup_pages hb)
      simp only [List.forall_mem_cons, Access.Inside, Area.size, Option.mem_def, Option.some.injEq, forall_eq', hb,
        List.not_mem_nil, false_implies, implies_true, and_true]
      omega

/-! ### The form -/

namespace Request

/-- The URL and the character behind its last slash. -/
theorem action_eq (q : Request) : q.action = q.lastSlash.bind fun x => q.parser.readBuf.peek (x.2 + 1) := by
  simp only [action, lastSlash, Option.bind_eq_bind, Option.bind_assoc, Option.pure_def, Option.bind_some]

theorem lastSlash_eq_some {q : Request} {url slash : Nat} : q.lastSlash = some (url, slash) ↔
    ∃ i, q.parser.url = some url ∧ strrchr SLASH (q.parser.readBuf.suffix url) = some (some i) ∧ slash = url + i := by
  constructor
  · intro h
    obtain ⟨url', hurl, h⟩ := Option.bind_eq_some_iff.1 h
    obtain ⟨last, hlast, h⟩ := Option.bind_eq_some_iff.1 h
    obtain ⟨slash', hslash, h⟩ := Option.bind_eq_some_iff.1 h
    cases h
    obtain ⟨i, rfl, rfl⟩ := Option.map_eq_some_iff.1 hslash
    exact ⟨i, hurl, hlast, rfl⟩
  · rintro ⟨i, hurl, hlast, rfl⟩
    simp [lastSlash, hurl, hlast]

/-- The text of the URL around its last slash, and the character behind that. -/
theorem lastSlash_text {q : Request} {url slash : Nat} (h : q.lastSlash = some (url, slash)) :
    ∃ a b, q.parser.url = some url ∧ q.urlText = some (a ++ SLASH :: b) ∧ slash = url + a.length ∧ SLASH ∉ b ∧
      q.parser.readBuf.peek (slash + 1) = some (b.headD 0) := by
  obtain ⟨i, hurl, hlast, rfl⟩ := lastSlash_eq_some.1 h
  obtain ⟨u, hu, hi⟩ := Option.map_eq_some_iff.1 hlast
  obtain ⟨a, b, rfl, rfl, hb⟩ := lastIdx_eq_some hi
  obtain ⟨z, hz, -⟩ := cstring_eq_some hu
  refine ⟨a, b, hurl, by simp [urlText, hurl, hu], rfl, hb, ?_⟩
  have hsuf := CharArray.suffix_add (l := a ++ [SLASH]) (r := b ++ 0 :: z) (by rw [hz]; simp)
  rw [List.length_append, List.length_singleton, ← Nat.add_assoc] at hsuf
  rw [CharArray.peek_suffix, hsuf]
  cases b <;> rfl

theorem takeWhile_stop {stop : Byte} {a r : List Byte} (h : stop ∉ a) :
    (a ++ stop :: r).takeWhile (· ≠ stop) = a := by
  rw [List.takeWhile_append_of_pos fun b hb => by simpa using fun he : b = stop => h (he ▸ hb)]
  simp

private theorem takeWhile_nul (l r : List Byte) : (l ++ 0 :: r).takeWhile (· ≠ 0) = l.takeWhile (· ≠ 0) := by
  induction l with
  | nil => rfl
  | cons b l ih => by_cases hb : b = 0 <;> simp [hb] at ih ⊢; exact ih

private theorem statementAccess_inside (action : Byte) (name password : List Byte) (L : Int) :
    (∀ a ∈ if action = 51 then [Access.mk .sqlInsert ([lit "INSERT INTO user(username, passwd) VALUES(", lit "'", name,
        lit "', '", password, lit "')"].flatten.length + 1)] else [], a.Inside L) ↔
      (action = 51 → name.length + password.length + 49 < 200) := by
  rw [statement_length]
  split
  · rename_i h
    simp only [List.forall_mem_singleton, Access.Inside, Area.size, h, true_implies]
    omega
  · rename_i h
    simp [h]

theorem urlText_rest {q : Request} {url : Nat} {u : List Byte} (hurl : q.parser.url = some url)
    (hu : q.urlText = some u) (hlen : 2 ≤ u.length) :
    cstring (q.parser.readBuf.suffix (url + 2)) = some (u.drop 2) := by
  have hu' : cstring (q.parser.readBuf.suffix url) = some u := by simpa [urlText, hurl] using hu
  have hd := cstring_drop hu' hlen
  rwa [CharArray.suffix, List.drop_drop] at hd

/-- The accesses of the branch on the account, when the body is followed by its NUL. -/
private theorem accountAccesses_inside {q : Request} {url : Nat} {action : Byte} {u body z : List Byte} {c : Nat}
    (hurl : q.parser.url = some url) (hu : q.urlText = some u) (hlen : 2 ≤ u.length)
    (hc : q.parser.content = some c) (hz : q.parser.readBuf.suffix c = body ++ 0 :: z)
    (hL : body.length = q.parser.contentLength) (hbody : q.parser.body = some body) :
    (∀ a ∈ q.accountAccesses url action, a.Inside q.parser.contentLength) ↔ q.FormFits action := by
  have hsize : FILENAME_LEN = 200 := rfl
  unfold accountAccesses FormFits formTexts
  rw [urlText_rest hurl hu hlen, hc, hbody, Option.bind_some, ← hL]
  dsimp only [Option.elim_some]
  rw [hz]
  cases hcut : cut 38 (body.drop 5) with
  | none =>
    -- the search for the `&` goes on behind the NUL
    refine iff_of_false (fun hall => ?_) (by simp)
    have hread := hall ⟨.content, 5 + (((body ++ 0 :: z).drop 5).takeWhile (· ≠ 38)).length + 1⟩ (by simp)
    have hname : 5 ≤ body.length → ∃ t, ((body ++ 0 :: z).drop 5).takeWhile (· ≠ 38) = body.drop 5 ++ 0 :: t := by
      intro h5
      rw [List.drop_append_of_le_length h5, List.takeWhile_append_of_pos]
      · exact ⟨z.takeWhile (· ≠ 38), by simp⟩
      · intro b hb
        simpa using fun he : b = 38 => cut_eq_none hcut (he ▸ hb)
    simp only [Access.Inside, Area.size] at hread
    by_cases h5 : 5 ≤ body.length
    · obtain ⟨t, ht⟩ := hname h5
      rw [ht, List.length_append, List.length_drop, List.length_cons] at hread
      omega
    · omega
  | some form =>
    obtain ⟨name, tail⟩ := form
    obtain ⟨hdrop, hn⟩ := cut_eq_some hcut
    have hblen := congrArg List.length hdrop
    rw [List.length_drop, List.length_append, List.length_cons] at hblen
    have htext : (body ++ 0 :: z).drop 5 = name ++ 38 :: (tail ++ 0 :: z) := by
      rw [List.drop_append_of_le_length (by omega), hdrop, List.append_assoc, List.cons_append]
    have hbehind : (body ++ 0 :: z).drop (5 + name.length + 10) = (tail ++ 0 :: z).drop 9 := by
      rw [Nat.add_assoc, ← List.drop_drop, htext, ← List.drop_drop, List.drop_left]
      rfl
    rw [htext, takeWhile_stop hn, hbehind]
    have hpassword : 9 ≤ tail.length → ((tail ++ 0 :: z).drop 9).takeWhile (· ≠ 0) = (tail.drop 9).takeWhile (· ≠ 0) ∧
        ((tail.drop 9).takeWhile (· ≠ 0)).length ≤ tail.length - 9 := by
      intro h9
      refine ⟨?_, ?_⟩
      · rw [List.drop_append_of_le_length h9, takeWhile_nul]
      · rw [← List.length_drop]
        exact (List.takeWhile_sublist _).length_le
    generalize ((tail ++ 0 :: z).drop 9).takeWhile (· ≠ 0) = password at hpassword ⊢
    rw [List.forall_mem_append, statementAccess_inside]
    simp only [List.forall_mem_cons, List.not_mem_nil, false_implies, implies_true, and_true, Access.Inside, Area.size,
      hu, Option.mem_def, Option.some.injEq, exists_eq_left', hsize, List.length_drop]
    by_cases h9 : 9 ≤ tail.length
    · obtain ⟨hp, hle⟩ := hpassword h9
      rw [← hp] at hle ⊢
      constructor
      · rintro ⟨⟨h1, h2, h3, h4, h5, h6⟩, h7⟩
        exact ⟨⟨by omega, by omega⟩, by omega, h9, by omega, h7⟩
      · rintro ⟨⟨h1, h2⟩, h3, -, h4, h5⟩
        exact ⟨⟨by omega, by omega, by omega, by omega, by omega, by omega⟩, h5⟩
    · -- the password starts behind the NUL
      refine iff_of_false ?_ fun h => h9 h.2.2.1
      rintro ⟨⟨-, -, -, -, h5, -⟩, -⟩
      omega

/-- Without a body the first character of the name is outside already. -/
private theorem accountAccesses_noBody {q : Request} {url : Nat} {action : Byte} {u : List Byte}
    (hurl : q.parser.url = some url) (hu : q.urlText = some u) (hlen : 2 ≤ u.length)
    (hL : q.parser.contentLength ≤ 0) :
    (∀ a ∈ q.accountAccesses url action, a.Inside q.parser.contentLength) ↔ q.FormFits action := by
  refine iff_of_false (fun hall => ?_) ?_
  · unfold accountAccesses at hall
    rw [urlText_rest hurl hu hlen] at hall
    have hread := hall ⟨.content, 5 + (((q.parser.content.elim [] q.parser.readBuf.suffix).drop 5).takeWhile
      (· ≠ 38)).length + 1⟩ (by simp)
    simp only [Access.Inside, Area.size] at hread
    omega
  · rintro ⟨-, form, hform, -⟩
    have hnone : q.formTexts = none := by
      unfold formTexts Parser.body
      rw [Int.toNat_of_nonpos hL]
      split
      · rfl
      · cases q.parser.content <;> rfl
    rw [hnone] at hform
    cases hform

/-- Where the branch on the account has a result, its copies have stayed inside. -/
private theorem account_writes {q : Request} {users : Users} {url : Nat} {action : Byte}
    {x : Parser × Resource × Users} (h : q.account users url action = some x) :
    ∀ a ∈ q.accountAccesses url action, a.area ≠ .content → a.Inside q.parser.contentLength := by
  obtain ⟨file, -, h⟩ := Option.bind_eq_some_iff.1 h
  unfold doAccount at h
  obtain ⟨rest, hrest, h⟩ := Option.bind_eq_some_iff.1 h
  obtain ⟨urlReal, hreal, h⟩ := Option.bind_eq_some_iff.1 h
  obtain ⟨file', hfile, h⟩ := Option.bind_eq_some_iff.1 h
  obtain ⟨c, hc, h⟩ := Option.bind_eq_some_iff.1 h
  obtain ⟨⟨name, password⟩, hform, h⟩ := Option.bind_eq_some_iff.1 h
  obtain ⟨⟨page, users'⟩, hpage, -⟩ := Option.bind_eq_some_iff.1 h
  obtain ⟨text, htext, hform⟩ := Option.bind_eq_some_iff.1 hform
  obtain ⟨password', hpassword, hform⟩ := Option.bind_eq_some_iff.1 hform
  cases hform
  obtain ⟨r, hr, hn, hnlen⟩ := copyUntil_eq_some.1 htext
  obtain ⟨r', hr', hp, hplen⟩ := copyUntil_eq_some.1 hpassword
  have hcopy := (CharArray.copy_bytes hfile).1
  unfold concatInto at hreal
  split at hreal
  · rename_i hlt
    cases hreal
    have hinsert : action = 51 → (text.takeWhile (· ≠ 0)).length + password.length + 49 < 200 := by
      intro h51
      rw [if_pos h51] at hpage
      obtain ⟨sql, hsql, -⟩ := register_cases hpage
      exact (sqlInsert_eq_some.1 hsql).1
    have hname : ((q.parser.readBuf.suffix c).drop 5).takeWhile (· ≠ 38) = text := by
      rw [CharArray.suffix, List.drop_drop, ← CharArray.suffix, hr, takeWhile_stop hn]
    have hpass : ((q.parser.readBuf.suffix c).drop (5 + text.length + 10)).takeWhile (· ≠ 0) = password := by
      rw [CharArray.suffix, List.drop_drop, ← CharArray.suffix, ← Nat.add_assoc, ← Nat.add_assoc, hr',
        takeWhile_stop hp]
    simp only [List.flatten_cons, List.flatten_nil, List.length_append, List.length_cons, List.length_nil,
      List.append_nil] at hlt hcopy
    unfold accountAccesses
    rw [hrest, hc]
    dsimp only [Option.elim_some]
    rw [hname, hpass]
    intro a ha
    rcases List.mem_append.1 ha with ha | ha
    · simp only [List.mem_cons, List.not_mem_nil, or_false] at ha
      rcases ha with rfl | rfl | rfl | rfl | rfl | rfl <;> simp only [Access.Inside, Area.size, ne_eq, not_true,
        false_implies, reduceCtorEq, not_false_iff, true_implies] <;> omega
    · exact fun _ => (statementAccess_inside action _ _ _).2 hinsert a ha
  · cases hreal

private theorem chooseFile_writes {env : Env} {p : Parser} {r : Resource} {url slash : Nat}
    {file : CharArray FILENAME_LEN} (L : Int) (hroot : env.rootPath.length < FILENAME_LEN)
    (h : chooseFile env p r url slash = some file) :
    ∀ a ∈ pageAccesses env p slash, a.Inside L := by
  refine (pageAccesses_inside L hroot).2 fun b hb page hpage => ?_
  unfold chooseFile at h
  rw [Option.mem_def.1 hb] at h
  simp only [Option.bind_eq_bind, Option.bind_some, Option.mem_def.1 hpage] at h
  have hcopy := (CharArray.copy_bytes h).1
  rwa [List.take_length, Nat.sub_self, List.replicate_zero, List.append_nil] at hcopy

/-- Where `do_request_` gets to `stat`, no copy has left its array. -/
theorem resolve_writes {q : Request} {users : Users} {x : Parser × Resource × Users}
    (h : resolve q.env q.mysql users q.parser q.resource = some x) :
    ∀ a ∈ q.accesses users, a.area ≠ .content → a.Inside q.parser.contentLength := by
  obtain ⟨file, name, url, i, action, r, hfile, hurl, hlast, haction, hacc, hname, -⟩ := resolve_steps h
  have hroot : q.env.rootPath.length < FILENAME_LEN := by
    have hcopy := (CharArray.copy_bytes hfile).1
    rw [List.length_append, List.length_singleton] at hcopy
    omega
  have hs : q.lastSlash = some (url, url + i) := lastSlash_eq_some.2 ⟨i, hurl, hlast, rfl⟩
  intro a ha
  unfold accesses at ha
  rw [hs] at ha
  dsimp only at ha
  rw [haction] at ha
  dsimp only at ha
  rcases List.mem_cons.1 ha with rfl | ha
  · simp only [Access.Inside, Area.size]
    omega
  · split at ha
    · rename_i hc
      rw [if_pos hc] at hacc
      have haccount : q.account users url action = some (x.1, r, x.2.2) := by
        unfold account
        rw [hfile]
        exact hacc
      rw [haccount] at ha
      rcases List.mem_append.1 ha with ha | ha
      · exact account_writes haccount a ha
      · exact fun _ => chooseFile_writes _ hroot hname a ha
    · rename_i hc
      rw [if_neg hc] at hacc
      have hx : q.parser = x.1 := congrArg Prod.fst (Option.some.inj hacc)
      rw [hx] at ha
      exact fun _ => chooseFile_writes _ hroot hname a ha

/-- For every request that `parse_` accepts, `do_request_` stays inside its arrays and the body exactly when there is
room for the root directory, and for the page of the action or, in a login or a registration, for the URL and a form
with both its delimiters. -/
theorem staysInside_iff {p₀ p₁ : Parser} {bs : List Byte} {errno errno' : Errno} {q : Request} {users : Users}
    (hbs : p₀.init_.receive bs = some p₁) (hparse : p₁.parse_ errno = some (.doRequest, q.parser, errno')) :
    q.StaysInside users ↔ q.Fits := by
  unfold StaysInside accesses Fits
  rw [List.forall_mem_cons]
  have hfirst : (Access.mk .realFile (q.env.rootPath.length + 1)).Inside q.parser.contentLength ↔
      q.env.rootPath.length < FILENAME_LEN := by
    simp only [Access.Inside, Area.size]
    omega
  rw [hfirst]
  refine and_congr_right fun hroot => ?_
  rw [action_eq]
  cases hs : q.lastSlash with
  | none => simp
  | some x =>
    obtain ⟨url, slash⟩ := x
    obtain ⟨a, b, hurl, hu, rfl, -, hpeek⟩ := lastSlash_text hs
    dsimp only [Option.bind_some]
    rw [hpeek]
    simp only [Option.mem_def, Option.some.injEq, forall_eq']
    by_cases hc : q.parser.cgi = true ∧ (b.headD 0 = 50 ∨ b.headD 0 = 51)
    · rw [if_pos hc, if_pos hc, List.forall_mem_append]
      have hlen : 2 ≤ (a ++ SLASH :: b).length := by
        cases b with
        | nil => exact absurd hc.2 (by decide)
        | cons c b =>
          simp only [List.length_append, List.length_cons]
          omega
      have hpage : ∀ x ∈ (q.account users url (b.headD 0)).elim [] fun x => pageAccesses q.env x.1 (url + a.length),
          x.Inside q.parser.contentLength := by
        cases hx : q.account users url (b.headD 0) with
        | none => simp
        | some x =>
          -- the page of the account is no action
          obtain ⟨f, -, hx⟩ := Option.bind_eq_some_iff.1 hx
          obtain ⟨p, r, users'⟩ := x
          obtain ⟨row, page, urlReal, -, hpage, hbuf, -, -⟩ := doAccount_cases hx
          refine (pageAccesses_inside _ hroot).2 fun c hc' page' hpage' => ?_
          rw [lookup_account (i := a.length + 1) hpage hbuf hpeek hc.2 hc'] at hpage'
          cases hpage'
      rw [and_iff_left hpage]
      by_cases hL : 0 < q.parser.contentLength
      · obtain ⟨c, body, z, hcontent, hz, hlength, hbody⟩ := Parser.parse_body hbs hparse hL
        exact accountAccesses_inside hurl hu hlen hcontent hz hlength hbody
      · exact accountAccesses_noBody hurl hu hlen (by omega)
    · rw [if_neg hc, if_neg hc, pageAccesses_inside _ hroot, hpeek]
      simp only [Option.mem_def, Option.some.injEq, forall_eq']

theorem staysInside_iff_bob : (requestOf registerBob 0).StaysInside fun _ => none := by
  have hbs : Parser.zero.init_.receive registerBob = some (received registerBob) := by decide +kernel
  have hparse : (received registerBob).parse_ .eagain =
      some (.doRequest, (requestOf registerBob 0).parser, .eagain) := by decide +kernel
  exact (staysInside_iff hbs hparse).2 (by decide +kernel)

def noDelimiter : List Byte := lit "POST /2 HTTP/1.1\r\nContent-length: 8\r\n\r\nuser=bob"

/-- A login with a name of 100 characters. -/
def longName : List Byte :=
  lit "POST /2 HTTP/1.1\r\nContent-length: 116\r\n\r\nuser=" ++ List.replicate 100 97 ++ lit "&password=b"

/-- Without an `&` the body is read behind its NUL, and the NUL of a long name is written behind the array. -/
theorem longName_overflows :
    (Parser.zero.init_.receive noDelimiter = some (received noDelimiter) ∧
      (received noDelimiter).parse_ .eagain = some (.doRequest, (requestOf noDelimiter 0).parser, .eagain) ∧
      ¬ (requestOf noDelimiter 0).StaysInside fun _ => none) ∧
    Parser.zero.init_.receive longName = some (received longName) ∧
      (received longName).parse_ .eagain = some (.doRequest, (requestOf longName 0).parser, .eagain) ∧
      ⟨.name, 101⟩ ∈ (requestOf longName 0).accesses (fun _ => none) ∧
      ¬ (requestOf longName 0).StaysInside fun _ => none := by
  refine ⟨⟨?_, ?_, ?_⟩, ?_, ?_, ?_, ?_⟩ <;> decide +kernel

end Request

end ImageServer
