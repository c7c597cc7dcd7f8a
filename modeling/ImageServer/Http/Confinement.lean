import ImageServer.Http.Accounts
import ImageServer.Http.ParseText
import ImageServer.Lib.Path

/-!
# The document root

The name `do_request_` passes to `stat` and `open` is `__ROOTPATH__` with a page or the URL copied behind it, the
URL as far as `m_real_file` has room.  Nothing looks at the components of the URL, so `..` counts: the file lies
inside the root directory when the request is answered with one of the pages, and otherwise exactly when the URL,
brought to the form of some steps up followed by names, goes down again by the names of the root directory that it
went up (`confined_iff`).

The URL starts with a slash when `do_request_` is called: after `parse_request_` has seen it, the parser only writes
NULs (`Cleared`).
-/

namespace ImageServer

open CLib

namespace Parser

/-! ### The URL when `do_request_` is called -/

/-- A part of `parse_` that writes nothing but NULs. -/
structure Cleared (p p' : Parser) : Prop where
  url : p'.url = p.url
  peek : ∀ k, p'.readBuf.peek k = p.readBuf.peek k ∨ p'.readBuf.peek k = some 0

private theorem Cleared.refl (p : Parser) : Cleared p p := ⟨rfl, fun _ => Or.inl rfl⟩

private theorem Cleared.trans {p q r : Parser} (h : Cleared p q) (h' : Cleared q r) : Cleared p r where
  url := h'.url.trans h.url
  peek := by
    intro k
    rcases h'.peek k with hk | hk
    · rw [hk]
      exact h.peek k
    · exact Or.inr hk

private theorem Cleared.poke {p p' : Parser} {i : Nat} (hu : p'.url = p.url)
    (hb : p.readBuf.poke i 0 = some p'.readBuf) :
    Cleared p p' where
  url := hu
  peek := by
    intro k
    unfold CharArray.peek
    rw [CharArray.poke_bytes hb, List.getElem?_set]
    split
    · rename_i hik
      have hlt : i < p.readBuf.bytes.length := by
        have hne : p.readBuf.poke i 0 ≠ none := by rw [hb]; exact Option.some_ne_none _
        rw [Ne, CharArray.poke_eq_none] at hne
        rw [p.readBuf.size_eq]
        omega
      right
      rw [if_pos hlt]
    · exact Or.inl rfl

private theorem parseLine_cleared {p p' : Parser} {st : LineState} (h : p.parseLine_ = some (st, p')) :
    Cleared p p' ∧ p'.checkState = p.checkState := by
  unfold parseLine_ at h
  obtain ⟨c, -, h⟩ := Option.bind_eq_some_iff.1 h
  obtain ⟨slashr, -, h⟩ := Option.bind_eq_some_iff.1 h
  obtain ⟨slashn, -, h⟩ := Option.bind_eq_some_iff.1 h
  dsimp only at h
  split at h
  · split at h
    · obtain ⟨buf, hbuf, h⟩ := Option.bind_eq_some_iff.1 h
      obtain ⟨buf', hbuf', h⟩ := Option.bind_eq_some_iff.1 h
      cases h
      have h1 : Cleared p { p with readBuf := buf } := Cleared.poke rfl hbuf
      exact ⟨h1.trans (Cleared.poke (p := { p with readBuf := buf }) rfl hbuf'), rfl⟩
    · cases h
      exact ⟨⟨rfl, fun _ => Or.inl rfl⟩, rfl⟩
  · cases h
    exact ⟨⟨rfl, fun _ => Or.inl rfl⟩, rfl⟩
  · cases h
    exact ⟨⟨rfl, fun _ => Or.inl rfl⟩, rfl⟩
  · cases h
    exact ⟨⟨rfl, fun _ => Or.inl rfl⟩, rfl⟩

private theorem cutAtBlank_cleared {p p' : Parser} {t : Nat} {errno errno' : Errno} {ret : HttpState}
    (h : p.cutAtBlank t errno = some (ret, p', errno')) : Cleared p p' ∧ p'.checkState = p.checkState := by
  unfold cutAtBlank at h
  obtain ⟨found, -, h⟩ := Option.bind_eq_some_iff.1 h
  cases found with
  | none =>
    cases h
    exact ⟨.refl _, rfl⟩
  | some i =>
    obtain ⟨buf, hbuf, h⟩ := Option.bind_eq_some_iff.1 h
    cases h
    exact ⟨Cleared.poke rfl hbuf, rfl⟩

/-- A header line leaves the URL, and the state is not the initial one afterwards. -/
private theorem parseHeaders_cleared {p p' : Parser} {t : Nat} {errno errno' : Errno} {ret : HttpState}
    (h : p.parseHeaders_ t errno = some (ret, p', errno')) :
    Cleared p p' ∧ (p'.checkState = p.checkState ∨ p'.checkState = .checkStateContent) := by
  have hcut : ∀ {q : Parser} {t' : Nat} {e : Errno}, q.cutAtBlank t' e = some (ret, p', errno') → q.url = p.url →
      q.readBuf = p.readBuf → q.checkState = p.checkState →
      Cleared p p' ∧ (p'.checkState = p.checkState ∨ p'.checkState = .checkStateContent) := by
    intro q t' e hq hurl hbuf hst
    obtain ⟨h1, h2⟩ := cutAtBlank_cleared hq
    exact ⟨⟨h1.url.trans hurl, hbuf ▸ h1.peek⟩, Or.inl (h2.trans hst)⟩
  unfold parseHeaders_ at h
  obtain ⟨b, -, h⟩ := Option.bind_eq_some_iff.1 h
  split at h
  · split at h
    · cases h
      exact ⟨⟨rfl, fun _ => Or.inl rfl⟩, Or.inr rfl⟩
    · cases h
      exact ⟨.refl _, Or.inl rfl⟩
  obtain ⟨isConnection, -, h⟩ := Option.bind_eq_some_iff.1 h
  split at h
  · obtain ⟨t', -, h⟩ := Option.bind_eq_some_iff.1 h
    obtain ⟨isClose, -, h⟩ := Option.bind_eq_some_iff.1 h
    split at h
    · exact hcut h rfl rfl rfl
    · exact hcut h rfl rfl rfl
  obtain ⟨isLength, -, h⟩ := Option.bind_eq_some_iff.1 h
  split at h
  · obtain ⟨t', -, h⟩ := Option.bind_eq_some_iff.1 h
    obtain ⟨⟨v, range⟩, -, h⟩ := Option.bind_eq_some_iff.1 h
    dsimp only at h
    generalize (if range = true then Errno.erange else errno) = e at h
    split at h
    · cases h
      exact ⟨⟨rfl, fun _ => Or.inl rfl⟩, Or.inl rfl⟩
    · exact hcut h rfl rfl rfl
  obtain ⟨found, -, h⟩ := Option.bind_eq_some_iff.1 h
  cases found with
  | none => exact hcut h rfl rfl rfl
  | some f =>
    obtain ⟨t', -, h⟩ := Option.bind_eq_some_iff.1 h
    obtain ⟨f, k⟩ := f
    cases f <;> exact hcut h rfl rfl rfl

private theorem parseContent_cleared {p p' : Parser} {t : Nat} {ret : HttpState}
    (h : p.parseContent_ t = some (ret, p')) : Cleared p p' := by
  unfold parseContent_ at h
  split at h
  · obtain ⟨e, -, h⟩ := Option.bind_eq_some_iff.1 h
    obtain ⟨buf, hbuf, h⟩ := Option.bind_eq_some_iff.1 h
    cases h
    exact Cleared.poke rfl hbuf
  · cases h
    exact .refl _

/-- The URL starts with a slash, unless a NUL has been written over it. -/
def UrlSlash (p : Parser) : Prop := ∃ u, p.url = some u ∧ (p.readBuf.peek u = some SLASH ∨ p.readBuf.peek u = some 0)

private theorem UrlSlash.cleared {p p' : Parser} (h : p.UrlSlash) (hc : Cleared p p') : p'.UrlSlash := by
  obtain ⟨u, hu, hb⟩ := h
  refine ⟨u, hc.url.trans hu, ?_⟩
  rcases hc.peek u with hk | hk
  · rw [hk]
    exact hb
  · exact Or.inr hk

/-- A request line that is accepted has a URL that starts with a slash. -/
private theorem finishRequest_slash {p p' : Parser} {version : Nat} {ret : HttpState}
    (h : p.finishRequest version = some (ret, p')) (hret : ret ≠ .errorFormat) : p'.UrlSlash := by
  unfold finishRequest at h
  split at h
  · cases h
    exact absurd rfl hret
  rename_i u hu
  obtain ⟨b, hb, h⟩ := Option.bind_eq_some_iff.1 h
  split at h
  · cases h
    exact absurd rfl hret
  rename_i hslash
  rw [not_not] at hslash
  obtain ⟨ok, -, h⟩ := Option.bind_eq_some_iff.1 h
  split at h
  · obtain ⟨len, -, h⟩ := Option.bind_eq_some_iff.1 h
    rw [hslash] at hb
    dsimp only at h
    split at h
    · -- the file name goes behind the slash
      obtain ⟨buf, hbuf, h⟩ := Option.bind_eq_some_iff.1 h
      cases h
      exact ⟨u, hu, Or.inl ((CharArray.peek_copy hbuf (Nat.lt_succ_self u)).trans hb)⟩
    · obtain ⟨buf, hbuf, h⟩ := Option.bind_eq_some_iff.1 h
      cases hbuf
      cases h
      exact ⟨u, hu, Or.inl hb⟩
  · cases h
    exact absurd rfl hret

private theorem parseRequest_slash {p p' : Parser} {t : Nat} {ret : HttpState} (h : p.parseRequest_ t = some (ret, p'))
    (hret : ret ≠ .errorFormat) : p'.UrlSlash := by
  unfold parseRequest_ at h
  obtain ⟨i, -, h⟩ := Option.bind_eq_some_iff.1 h
  cases i with
  | none => cases h; exact absurd rfl hret
  | some i =>
    obtain ⟨buf, -, h⟩ := Option.bind_eq_some_iff.1 h
    obtain ⟨m, -, h⟩ := Option.bind_eq_some_iff.1 h
    cases m with
    | none => cases h; exact absurd rfl hret
    | some m =>
      obtain ⟨j, -, h⟩ := Option.bind_eq_some_iff.1 h
      cases j with
      | none => cases h; exact absurd rfl hret
      | some j =>
        obtain ⟨buf', -, h⟩ := Option.bind_eq_some_iff.1 h
        obtain ⟨url, -, h⟩ := Option.bind_eq_some_iff.1 h
        exact finishRequest_slash h hret

/-- An iteration of the loop, on the text of a line: the slash is kept, and is there when `do_request_` is called. -/
private theorem parseText_slash {p p' : Parser} {t : Nat} {errno errno' : Errno} {e : Option ParseEnd}
    (h : p.parseText t errno = some (e, p', errno')) (hp : p.checkState ≠ .checkStateRequestline → p.UrlSlash)
    (he : e = none ∨ e = some .doRequest) : p'.UrlSlash := by
  unfold parseText at h
  cases hst : p.checkState with
  | checkStateRequestline =>
    rw [hst] at h
    obtain ⟨⟨ret, q⟩, hq, h⟩ := Option.bind_eq_some_iff.1 h
    simp only [Option.pure_def, Option.some.injEq, Prod.mk.injEq] at h
    obtain ⟨hend, rfl, -⟩ := h
    refine parseRequest_slash hq fun hbad => ?_
    rw [if_pos hbad] at hend
    rw [← hend] at he
    rcases he with he | he <;> cases he
  | checkStateHeader =>
    rw [hst] at h
    obtain ⟨⟨ret, q, errno''⟩, hq, h⟩ := Option.bind_eq_some_iff.1 h
    simp only [Option.pure_def, Option.some.injEq, Prod.mk.injEq] at h
    obtain ⟨-, rfl, -⟩ := h
    exact (hp (by rw [hst]; decide)).cleared (parseHeaders_cleared hq).1
  | checkStateContent =>
    rw [hst] at h
    obtain ⟨⟨ret, q⟩, hq, h⟩ := Option.bind_eq_some_iff.1 h
    simp only [Option.pure_def, Option.some.injEq, Prod.mk.injEq] at h
    obtain ⟨-, rfl, -⟩ := h
    exact (hp (by rw [hst]; decide)).cleared (parseContent_cleared hq)

/-- When a request received since `init_` is given to `do_request_`, its URL starts with a slash. -/
private theorem parse_slash {q p p' : Parser} {bs : List Byte} {errno errno' : Errno}
    (hp : q.init_.receive bs = some p) (h : p.parse_ errno = some (.doRequest, p', errno')) : p'.UrlSlash := by
  obtain ⟨-, -, hfields⟩ := receive_init hp
  have hst : p.checkState = .checkStateRequestline := by
    rw [hfields]
    rfl
  have hline : ∀ p p' : Parser, (p.checkState ≠ .checkStateRequestline → p.UrlSlash) →
      p.parseLine_ = some (.lineOk, p') → p'.checkState ≠ .checkStateRequestline → p'.UrlSlash := by
    intro p p' hp hl hne
    obtain ⟨hc, hs⟩ := parseLine_cleared hl
    exact (hp (hs ▸ hne)).cleared hc
  obtain ⟨r, t, e, hr, -, hend⟩ := parseLoop_rule (P := fun p => p.checkState ≠ .checkStateRequestline → p.UrlSlash)
    hline (fun p p' t _ _ hp _ ht _ => parseText_slash ht hp (.inl rfl)) (fun hne => absurd hst hne) h
  exact parseText_slash hend hr (.inr rfl)

end Parser

/-! ### The file name -/

/-- The components of a path, `/` between them. -/
def pathSteps (path : List Byte) : List (Path.Step (List Byte)) :=
  (path.splitOn SLASH).map fun c => if c = [] ∨ c = lit "." then .stay else if c = lit ".." then .up else .down c

/-- The names on the way from the root of the file system to the file, `.` and `..` resolved. -/
def location (path : List Byte) : List (List Byte) := Path.resolve [] (pathSteps path)

/-- The file is the directory `root` or lies inside it. -/
def Inside (root path : List Byte) : Prop := location root <+: location path

private theorem pathSteps_slash (a b : List Byte) : pathSteps (a ++ SLASH :: b) = pathSteps a ++ pathSteps b := by
  unfold pathSteps
  rw [List.splitOn_append_cons_self, List.map_append]

/-- What follows the root directory decides, in its normal form. -/
private theorem inside_append_iff (root : List Byte) {t : List Byte} (ht : t = [] ∨ t.head? = some SLASH) :
    Inside root (root ++ t) ↔
      (Path.relative (pathSteps t)).left (location root) <+: (Path.relative (pathSteps t)).names := by
  unfold Inside
  rcases ht with rfl | ht
  · rw [List.append_nil]
    refine iff_of_true (List.prefix_refl _) ?_
    simp [pathSteps, Path.relative, Path.Relative.left, Path.Relative.follow]
  · obtain ⟨b, rfl⟩ : ∃ b, t = SLASH :: b := by
      cases t with
      | nil => cases ht
      | cons c b => exact ⟨b, by rw [Option.some.inj ht]⟩
    have h : location (root ++ SLASH :: b) = Path.resolve (location root) (pathSteps (SLASH :: b)) := by
      have hb : pathSteps (SLASH :: b) = pathSteps [] ++ pathSteps b := pathSteps_slash [] b
      have hnil : ∀ dir : List (List Byte), Path.resolve dir (pathSteps []) = dir := fun _ => rfl
      unfold location
      rw [pathSteps_slash, hb, Path.resolve_append, Path.resolve_append, hnil]
    rw [h]
    exact Path.prefix_resolve_iff _ _

namespace Request

/-- The text at `m_url` when `do_request_` is called. -/
def urlText (q : Request) : Option (List Byte) :=
  q.parser.url.bind fun url => cstring (q.parser.readBuf.suffix url)

/-- What of a URL there is room for in `m_real_file`, behind the root directory and before the NUL. -/
def room (q : Request) : Nat := FILENAME_LEN - q.env.rootPath.length - 1

/-- The request is answered with one of the pages: it registers or logs in, or has one of the other actions. -/
def ServesPage (q : Request) : Prop :=
  q.parser.cgi = true ∧ (q.action = some 50 ∨ q.action = some 51) ∨
    ∃ c, q.action = some c ∧ (actionPages.lookup c).isSome = true

/-- The URL, in its normal form, goes down again by the names of the root directory it went up. -/
def ComesBack (q : Request) : Prop :=
  ∀ u ∈ q.urlText,
    (Path.relative (pathSteps (u.take q.room))).left (location q.env.rootPath) <+:
      (Path.relative (pathSteps (u.take q.room))).names

instance (q : Request) : Decidable q.ComesBack :=
  inferInstanceAs (Decidable (∀ u ∈ q.urlText,
    (Path.relative (pathSteps (u.take q.room))).left (location q.env.rootPath) <+:
      (Path.relative (pathSteps (u.take q.room))).names))

end Request

/-- The pages that stand for the URL of a request. -/
def pages : List (List Byte) := accountPages ++ actionPages.map Prod.snd

/-- `strncpy` into an array up to its last byte, a NUL, leaves the text it is copied behind and the source. -/
theorem cstring_strncpy {n : Nat} {a a' : CharArray n} {l r src : List Byte} (ha : a.bytes = l ++ (r ++ [0]))
    (h : strncpy a l.length src r.length = some a') (hl : 0 ∉ l) (hs : 0 ∉ src) :
    cstring a'.bytes = some (l ++ src.take r.length) := by
  obtain ⟨-, hb⟩ := CharArray.copy_bytes h
  have hcount : (src.take r.length ++ List.replicate (r.length - src.length) 0).length = r.length := by
    rw [List.length_append, List.length_take, List.length_replicate]
    omega
  have hdrop : (l ++ (r ++ [0])).drop (l.length + r.length) = [0] := by
    rw [← List.append_assoc, ← List.length_append, List.drop_left]
  rw [ha, hcount, List.take_left, hdrop] at hb
  have h0 : 0 ∉ l ++ src.take r.length := by
    intro hm
    rcases List.mem_append.1 hm with hm | hm
    · exact hl hm
    · exact hs (List.mem_of_mem_take hm)
  have hzeros : a'.bytes = (l ++ src.take r.length) ++ List.replicate (r.length - src.length + 1) 0 := by
    rw [hb, List.replicate_succ']
    simp only [List.append_assoc]
  rw [hzeros, List.replicate_succ]
  exact cstring_text h0

/-- `strncpy` of a page over NULs. -/
theorem strncpy_page {n k : Nat} {a a' : CharArray n} {l page : List Byte} (ha : a.bytes = l ++ List.replicate k 0)
    (h : strncpy a l.length page page.length = some a') :
    a'.bytes = l ++ page ++ List.replicate (k - page.length) 0 := by
  obtain ⟨-, hb⟩ := CharArray.copy_bytes h
  rw [List.take_length, Nat.sub_self, List.replicate_zero, List.append_nil, ha, List.take_left, ← List.drop_drop,
    List.drop_left, List.drop_replicate] at hb
  exact hb

private theorem cstring_page {n k : Nat} {a a' : CharArray n} {l page path : List Byte}
    (ha : a.bytes = l ++ List.replicate k 0) (h : strncpy a l.length page page.length = some a') (h0 : 0 ∉ l)
    (hp : 0 ∉ page) (hpath : cstring a'.bytes = some path) : path = l ++ page := by
  rw [strncpy_page ha h] at hpath
  refine cstring_zeros (fun hm => ?_) hpath
  rcases List.mem_append.1 hm with hm | hm
  · exact h0 hm
  · exact hp hm

/-- The file calls are made with the name in `m_real_file`, and leave it there. -/
theorem openResource_path {env : Env} {r r' : Resource} {ret : HttpState}
    (h : openResource env r = some (ret, r')) :
    r'.realFile = r.realFile ∧ ∃ path, cstring r.realFile.bytes = some path := by
  obtain ⟨path, hpath, ho⟩ := openResource_opened h
  refine ⟨?_, path, hpath⟩
  cases ho <;> rfl

/-- The account pages do not look like another action, wherever `*(p + 1)` points now. -/
theorem lookup_account {buf buf' : CharArray READ_BUFFER_SIZE} {url i : Nat} {page : List Byte} {action b : Byte}
    (hpage : page ∈ accountPages) (hbuf : buf.copy url (page ++ [0]) = some buf')
    (hact : buf.peek (url + i) = some action) (haction : action = 50 ∨ action = 51)
    (hb : buf'.peek (url + i) = some b) : actionPages.lookup b = none := by
  have hchars : ∀ page ∈ accountPages, ∀ c ∈ page ++ [0], actionPages.lookup c = none := by decide +kernel
  rw [CharArray.peek_copy_add hbuf] at hb
  split at hb
  · exact hchars page hpage b (List.mem_of_getElem? hb)
  · rw [hact] at hb
    cases hb
    rcases haction with rfl | rfl <;> decide

/-- `m_real_file` when the root directory has been copied to it. -/
theorem realFile_root {root : List Byte} {a a' : CharArray FILENAME_LEN}
    (ha : a.bytes = List.replicate FILENAME_LEN 0) (hroot : a.copy 0 (root ++ [0]) = some a') :
    a'.bytes = root ++ List.replicate (FILENAME_LEN - root.length - 1 + 1) 0 := by
  obtain ⟨-, hb⟩ := CharArray.copy_bytes hroot
  have hrest : FILENAME_LEN - (0 + (root.length + 1)) = FILENAME_LEN - root.length - 1 := by omega
  rw [hb, ha, List.take_zero, List.nil_append, List.drop_replicate, List.append_assoc, List.length_append,
    List.length_singleton, List.replicate_succ, hrest]
  rfl

/-- The same when `m_url_real` has been copied behind it: the page has room up to the last byte. -/
theorem realFile_account {root urlReal : List Byte} {a a' a'' : CharArray FILENAME_LEN}
    (ha : a.bytes = List.replicate FILENAME_LEN 0) (hroot : a.copy 0 (root ++ [0]) = some a')
    (hurl : a'.copy root.length (urlReal ++ [0]) = some a'') :
    ∃ r, a''.bytes = root ++ (r ++ [0]) ∧ r.length = FILENAME_LEN - root.length - 1 := by
  obtain ⟨hle, hb⟩ := CharArray.copy_bytes hroot
  obtain ⟨hle', hb'⟩ := CharArray.copy_bytes hurl
  rw [List.length_append, List.length_singleton] at hle hle'
  have htake : a'.bytes.take root.length = root := by
    rw [hb, List.take_zero, List.nil_append, List.append_assoc, List.take_left]
  have hdrop : ∃ m, a'.bytes.drop (root.length + (urlReal ++ [0]).length) = List.replicate m 0 := by
    refine ⟨FILENAME_LEN - (root.length + 1) - (root.length + (urlReal ++ [0]).length - (root.length + 1)), ?_⟩
    rw [hb, List.take_zero, List.nil_append, ha, List.drop_replicate, List.drop_append]
    have h1 : (root ++ [0]).drop (root.length + (urlReal ++ [0]).length) = [] := by
      rw [List.drop_eq_nil_iff, List.length_append, List.length_append, List.length_singleton]
      omega
    rw [h1, List.nil_append, List.drop_replicate, List.length_append, List.length_append, List.length_singleton]
    congr 1
    omega
  obtain ⟨m, hm⟩ := hdrop
  have hbytes : a''.bytes = root ++ ((urlReal ++ List.replicate m 0) ++ [0]) := by
    rw [hb', htake, hm]
    simp only [List.append_assoc]
    rw [← List.replicate_succ', List.singleton_append, List.replicate_succ]
  refine ⟨urlReal ++ List.replicate m 0, hbytes, ?_⟩
  have hlen := congrArg List.length hbytes
  rw [a''.size_eq, List.length_append, List.length_append, List.length_singleton] at hlen
  omega

theorem mem_actionPages {c : Byte} {page : List Byte} (h : actionPages.lookup c = some page) :
    (c, page) ∈ actionPages := by
  obtain ⟨l₁, l₂, hl, -⟩ := List.lookup_eq_some_iff.1 h
  rw [hl]
  simp

theorem lookup_pages {c : Byte} {page : List Byte} (h : actionPages.lookup c = some page) : page ∈ pages :=
  List.mem_append_right _ (List.mem_map_of_mem (mem_actionPages h))

theorem pages_plain : ∀ page ∈ pages, 0 ∉ page := by decide

/-- A request whose URL is copied as it is. -/
private theorem Request.not_servesPage {q : Request} {action : Byte} (hact : q.action = some action)
    (hc : ¬ (q.parser.cgi = true ∧ (action = 50 ∨ action = 51))) (hlook : actionPages.lookup action = none) :
    ¬ q.ServesPage := by
  rintro (⟨hcgi, ha⟩ | ⟨c, ha, hsome⟩)
  · rw [hact] at ha
    exact hc ⟨hcgi, ha.imp Option.some.inj Option.some.inj⟩
  · rw [hact] at ha
    cases ha
    rw [hlook] at hsome
    cases hsome

/-- The name in `m_real_file` is the root directory with a page behind it, or what there is room for of one or of the
URL. -/
private theorem Request.run_file {q : Request} {users : Users} {x : HttpState × Parser × Resource × Users}
    (h : q.run users = some x) (hr : q.resource.realFile = CharArray.zeros _) (h0 : 0 ∉ q.env.rootPath) :
    ∃ t, cstring x.2.2.1.realFile.bytes = some (q.env.rootPath ++ t) ∧
      ((q.ServesPage ∧ ∃ page ∈ pages, ∃ k, t = page.take k) ∨
        ¬ q.ServesPage ∧ ∃ u, q.urlText = some u ∧ t = u.take q.room) := by
  obtain ⟨realFile, file, url, i, action, r, hroot, hurl, hlast, haction, hacc, hchoose, hopen⟩ := Request.run_steps h
  obtain ⟨ret, p, r', users'⟩ := x
  obtain ⟨hsame, path, hpath⟩ := openResource_path hopen
  have hact := Request.action_of_slash hurl hlast haction
  have hzeros : q.resource.realFile.bytes = List.replicate FILENAME_LEN 0 := by rw [hr]; rfl
  dsimp only at hsame hpath hacc hchoose ⊢
  rw [hsame]
  unfold chooseFile at hchoose
  obtain ⟨b, hb, hchoose⟩ := Option.bind_eq_some_iff.1 hchoose
  split at hacc
  · -- the page of a registration or a login is in `m_url` now
    rename_i hc
    obtain ⟨row, page, urlReal, -, hpage, hbuf, hfile, -⟩ := doAccount_cases hacc
    rw [Nat.add_assoc] at haction hb
    rw [lookup_account hpage hbuf haction hc.2 hb] at hchoose
    obtain ⟨text, htext, hchoose⟩ := Option.bind_eq_some_iff.1 hchoose
    rw [page_of_copy (accountPages_plain page hpage) hbuf] at htext
    cases htext
    obtain ⟨rest, hbytes, hlen⟩ := realFile_account hzeros hroot hfile
    rw [← hlen] at hchoose
    refine ⟨page.take rest.length, cstring_strncpy hbytes hchoose h0 (accountPages_plain page hpage), Or.inl ⟨?_, ?_⟩⟩
    · exact Or.inl ⟨hc.1, by rw [hact]; exact hc.2.imp (congrArg some) (congrArg some)⟩
    · exact ⟨page, List.mem_append_left _ hpage, _, rfl⟩
  · rename_i hc
    cases hacc
    rw [haction] at hb
    cases hb
    have hbytes := realFile_root hzeros hroot
    cases hlook : actionPages.lookup action with
    | some page =>
      rw [hlook] at hchoose
      have hmem := lookup_pages hlook
      have hp := cstring_page hbytes hchoose h0 (pages_plain page hmem) hpath
      refine ⟨page, by rw [hpath, hp], Or.inl ⟨Or.inr ⟨action, hact, by rw [hlook]; rfl⟩, page, hmem, page.length, ?_⟩⟩
      rw [List.take_length]
    | none =>
      rw [hlook] at hchoose
      obtain ⟨text, htext, hchoose⟩ := Option.bind_eq_some_iff.1 hchoose
      obtain ⟨-, -, htext0⟩ := cstring_eq_some htext
      rw [List.replicate_succ'] at hbytes
      dsimp only at hchoose
      rw [← List.length_replicate (n := FILENAME_LEN - q.env.rootPath.length - 1) (a := (0 : Byte))] at hchoose
      have hfinal := cstring_strncpy hbytes hchoose h0 htext0
      rw [List.length_replicate] at hfinal
      have hu : q.urlText = some text := by simp [Request.urlText, hurl, htext]
      exact ⟨text.take q.room, hfinal, Or.inr ⟨Request.not_servesPage hact hc hlook, text, hu, rfl⟩⟩

/-- A page, cut or not, never goes up. -/
private theorem pages_ups : ∀ page ∈ pages, ∀ k, (Path.relative (pathSteps (page.take k))).ups = 0 := by
  have hshort : ∀ page ∈ pages, page.length < 20 := by decide
  have hups : ∀ page ∈ pages, ∀ k < 20, (Path.relative (pathSteps (page.take k))).ups = 0 := by decide
  intro page hp k
  by_cases hk : k < 20
  · exact hups page hp k hk
  · have hlen := hshort page hp
    rw [List.take_of_length_le (by omega), ← List.take_length (l := page)]
    exact hups page hp page.length hlen

private theorem pages_head : ∀ page ∈ pages, ∀ k, page.take k = [] ∨ (page.take k).head? = some SLASH := by
  have hhead : ∀ page ∈ pages, page.head? = some SLASH := by decide
  intro page hp k
  cases k with
  | zero => exact Or.inl List.take_zero
  | succ k =>
    right
    rw [List.head?_take, if_neg (Nat.succ_ne_zero k)]
    exact hhead page hp

/-- The text of a URL that starts with a slash, as far as it is copied. -/
private theorem Request.url_head {q : Request} {u : List Byte} (hslash : q.parser.UrlSlash) (hu : q.urlText = some u)
    (k : Nat) : u.take k = [] ∨ (u.take k).head? = some SLASH := by
  obtain ⟨url, hurl, hb⟩ := hslash
  have hu' : cstring (q.parser.readBuf.suffix url) = some u := by
    simpa [Request.urlText, hurl] using hu
  obtain ⟨z, hz, hu0⟩ := cstring_eq_some hu'
  rw [CharArray.peek_suffix, hz] at hb
  cases k with
  | zero => exact Or.inl List.take_zero
  | succ k =>
    cases u with
    | nil => exact Or.inl List.take_nil
    | cons c u =>
      right
      rcases hb with hb | hb
      · exact hb
      · cases hb
        exact absurd (List.mem_cons_self ..) hu0

/-- For every request that `parse_` accepts, in the state `init_` leaves: the file whose name is passed to `stat` and
`open` lies inside the root directory exactly when the request is answered with a page, or its URL comes back to the
root directory after each time it has gone up. -/
theorem confined_iff {p₀ p₁ : Parser} {bs : List Byte} {errno errno' : Errno} {q : Request} {users : Users}
    {x : HttpState × Parser × Resource × Users} (hbs : p₀.init_.receive bs = some p₁)
    (hparse : p₁.parse_ errno = some (.doRequest, q.parser, errno')) (hr : q.resource.realFile = CharArray.zeros _)
    (hroot : 0 ∉ q.env.rootPath) (h : q.run users = some x) :
    (∃ path, cstring x.2.2.1.realFile.bytes = some path ∧ Inside q.env.rootPath path) ↔
      q.ServesPage ∨ q.ComesBack := by
  obtain ⟨t, hpath, ht⟩ := Request.run_file h hr hroot
  have hinside : (∃ path, cstring x.2.2.1.realFile.bytes = some path ∧ Inside q.env.rootPath path) ↔
      Inside q.env.rootPath (q.env.rootPath ++ t) := by
    constructor
    · rintro ⟨path, hp, hin⟩
      rw [hpath] at hp
      rw [Option.some.inj hp]
      exact hin
    · exact fun hin => ⟨_, hpath, hin⟩
  rw [hinside]
  rcases ht with ⟨hpage, page, hmem, k, rfl⟩ | ⟨hpage, u, hu, rfl⟩
  · refine iff_of_true ?_ (Or.inl hpage)
    rw [inside_append_iff _ (pages_head page hmem k), Path.left_of_ups (pages_ups page hmem k)]
    exact List.nil_prefix
  · have hhead := Request.url_head (Parser.parse_slash hbs hparse) hu q.room
    rw [inside_append_iff _ hhead]
    constructor
    · intro hin
      right
      intro u' hu'
      cases hu.symm.trans hu'
      exact hin
    · rintro (hbad | hback)
      · exact absurd hbad hpage
      · exact hback u hu

/-- A handler that has received `bs`. -/
def received (bs : List Byte) : Parser := (Parser.zero.init_.receive bs).getD .zero

/-- An environment in which the path names a file, and the request that is left when `bs` has been parsed. -/
def requestFor (path bs : List Byte) : Request :=
  { env := { noFiles with
      stat := fun p => if p = path then some ⟨true, false, 4⟩ else none, openFile := fun p => p = path
      mmap := fun p => if p = path then some (lit "root") else none }
    mysql := none, resource := .zero
    parser := (((received bs).parse_ .eagain).map (·.2.1)).getD .zero }

def getBack : List Byte := lit "GET /a/../b.html HTTP/1.1\r\n\r\n"

theorem confined_iff_getBack :
    ∃ x, (requestFor (lit "/root/a/../b.html") getBack).run (fun _ => none) = some x ∧
      ∃ path, cstring x.2.2.1.realFile.bytes = some path ∧ Inside (lit "/root") path := by
  have hsome : ((requestFor (lit "/root/a/../b.html") getBack).run fun _ => none).isSome = true := by decide +kernel
  obtain ⟨x, hx⟩ := Option.isSome_iff_exists.1 hsome
  have hbs : Parser.zero.init_.receive getBack = some (received getBack) := by decide +kernel
  have hparse : (received getBack).parse_ .eagain =
      some (.doRequest, (requestFor (lit "/root/a/../b.html") getBack).parser, .eagain) := by decide +kernel
  exact ⟨x, hx, (confined_iff hbs hparse rfl (by decide) hx).2 (Or.inr (by decide +kernel))⟩

def getPasswd : List Byte := lit "GET /../etc/passwd HTTP/1.1\r\n\r\n"

/-- The file served is outside the root directory. -/
theorem dotDot_escapes :
    Parser.zero.init_.receive getPasswd = some (received getPasswd) ∧
      (received getPasswd).parse_ .eagain =
        some (.doRequest, (requestFor (lit "/root/../etc/passwd") getPasswd).parser, .eagain) ∧
      ((requestFor (lit "/root/../etc/passwd") getPasswd).run fun _ => none).map
          (fun x => (x.1, cstring x.2.2.1.realFile.bytes, x.2.2.1.fileAddress)) =
        some (.finishedRequest, some (lit "/root/../etc/passwd"), .mapped (lit "root")) ∧
      ¬ Inside (lit "/root") (lit "/root/../etc/passwd") := by
  refine ⟨by decide +kernel, by decide +kernel, by decide +kernel, ?_⟩
  unfold Inside
  decide +kernel

end ImageServer
