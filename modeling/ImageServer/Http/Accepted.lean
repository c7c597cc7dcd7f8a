import ImageServer.Http.ContentLength

/-!
# What `parse_` hands to `do_request_`

The fields `do_request_` is given fit together, whatever the lines of the request: `m_cgi` says whether the method is
`POST`, and when there is a body, `m_content` points at it, behind the URL and with its NUL in the buffer.
-/

namespace ImageServer

open CLib

namespace Parser

/-! ### What a line keeps -/

/-- A line end moves `m_checked_idx` on, and the buffer is the only other thing it writes. -/
private theorem parseLine_frame {p p' : Parser} (h : p.parseLine_ = some (.lineOk, p')) :
    ∃ buf idx, p' = { p with readBuf := buf, checkedIdx := idx } ∧ p.checkedIdx ≤ idx := by
  unfold parseLine_ at h
  obtain ⟨c, -, h⟩ := Option.bind_eq_some_iff.1 h
  obtain ⟨slashr, -, h⟩ := Option.bind_eq_some_iff.1 h
  obtain ⟨slashn, -, h⟩ := Option.bind_eq_some_iff.1 h
  dsimp only at h
  split at h
  · split at h
    · obtain ⟨buf, -, h⟩ := Option.bind_eq_some_iff.1 h
      obtain ⟨buf', -, h⟩ := Option.bind_eq_some_iff.1 h
      cases h
      exact ⟨buf', _, rfl, by omega⟩
    · cases h
  · cases h
  · split at h <;> cases h
  · cases h

/-- The fields of the request line, and the place in the buffer, are the same. -/
structure SameRequest (p p' : Parser) : Prop where
  method : p'.method = p.method
  cgi : p'.cgi = p.cgi
  url : p'.url = p.url
  startLine : p'.startLine = p.startLine
  checkedIdx : p'.checkedIdx = p.checkedIdx

theorem cutAtBlank_same {p p' q : Parser} {t : Nat} {errno errno' : Errno} {ret : HttpState} (hs : SameRequest p q)
    (h : q.cutAtBlank t errno = some (ret, p', errno')) :
    SameRequest p p' ∧ p'.checkState = q.checkState ∧ ret = .parsering := by
  unfold cutAtBlank at h
  obtain ⟨found, -, h⟩ := Option.bind_eq_some_iff.1 h
  cases found with
  | none =>
    cases h
    exact ⟨hs, rfl, rfl⟩
  | some i =>
    obtain ⟨buf, -, h⟩ := Option.bind_eq_some_iff.1 h
    cases h
    exact ⟨⟨hs.method, hs.cgi, hs.url, hs.startLine, hs.checkedIdx⟩, rfl, rfl⟩

/-- A header line keeps the request; only the empty line of a request without a body makes it ready. -/
theorem parseHeaders_same {p p' : Parser} {t : Nat} {errno errno' : Errno} {ret : HttpState}
    (h : p.parseHeaders_ t errno = some (ret, p', errno')) :
    SameRequest p p' ∧ (p'.checkState = p.checkState ∨ p'.checkState = .checkStateContent) ∧
      (ret = .readyRequest → p'.contentLength = 0) := by
  have hrefl : SameRequest p p := ⟨rfl, rfl, rfl, rfl, rfl⟩
  have hcut : ∀ {q : Parser} {t' : Nat} {e : Errno}, q.cutAtBlank t' e = some (ret, p', errno') →
      SameRequest p q → q.checkState = p.checkState →
      SameRequest p p' ∧ (p'.checkState = p.checkState ∨ p'.checkState = .checkStateContent) ∧
        (ret = .readyRequest → p'.contentLength = 0) := by
    intro q t' e hq hs hst
    obtain ⟨hs', hst', hret⟩ := cutAtBlank_same hs hq
    refine ⟨hs', .inl (hst'.trans hst), fun hr => ?_⟩
    rw [hret] at hr
    cases hr
  unfold parseHeaders_ at h
  obtain ⟨b, -, h⟩ := Option.bind_eq_some_iff.1 h
  split at h
  · split at h
    · cases h
      exact ⟨⟨rfl, rfl, rfl, rfl, rfl⟩, .inr rfl, nofun⟩
    · rename_i hzero
      cases h
      exact ⟨hrefl, .inl rfl, fun _ => not_not.1 hzero⟩
  obtain ⟨isConnection, -, h⟩ := Option.bind_eq_some_iff.1 h
  split at h
  · obtain ⟨t', -, h⟩ := Option.bind_eq_some_iff.1 h
    obtain ⟨isClose, -, h⟩ := Option.bind_eq_some_iff.1 h
    split at h
    · exact hcut h ⟨rfl, rfl, rfl, rfl, rfl⟩ rfl
    · exact hcut h hrefl rfl
  obtain ⟨isLength, -, h⟩ := Option.bind_eq_some_iff.1 h
  split at h
  · obtain ⟨t', -, h⟩ := Option.bind_eq_some_iff.1 h
    obtain ⟨⟨v, range⟩, -, h⟩ := Option.bind_eq_some_iff.1 h
    dsimp only at h
    generalize (if range = true then Errno.erange else errno) = e at h
    split at h
    · cases h
      exact ⟨⟨rfl, rfl, rfl, rfl, rfl⟩, .inl rfl, nofun⟩
    · exact hcut h ⟨rfl, rfl, rfl, rfl, rfl⟩ rfl
  obtain ⟨found, -, h⟩ := Option.bind_eq_some_iff.1 h
  cases found with
  | none => exact hcut h hrefl rfl
  | some f =>
    obtain ⟨t', -, h⟩ := Option.bind_eq_some_iff.1 h
    obtain ⟨f, k⟩ := f
    cases f <;> exact hcut h ⟨rfl, rfl, rfl, rfl, rfl⟩ rfl

/-! ### The method -/

/-- `m_cgi` is set for `POST`, once there is a method. -/
def CgiMethod (p : Parser) : Prop :=
  if p.checkState = .checkStateRequestline then p.cgi = false else p.cgi = decide (p.method = .post)

theorem finishRequest_frame {p p' : Parser} {version : Nat} {ret : HttpState}
    (h : p.finishRequest version = some (ret, p')) (hret : ret ≠ .errorFormat) :
    ∃ buf, p' = { p with readBuf := buf, checkState := .checkStateHeader } := by
  unfold finishRequest at h
  split at h
  · cases h
    exact absurd rfl hret
  obtain ⟨b, -, h⟩ := Option.bind_eq_some_iff.1 h
  split at h
  · cases h
    exact absurd rfl hret
  obtain ⟨ok, -, h⟩ := Option.bind_eq_some_iff.1 h
  split at h
  · obtain ⟨len, -, h⟩ := Option.bind_eq_some_iff.1 h
    dsimp only at h
    split at h
    all_goals
      obtain ⟨buf, -, h⟩ := Option.bind_eq_some_iff.1 h
      cases h
      exact ⟨buf, rfl⟩
  · cases h
    exact absurd rfl hret

private theorem parseRequest_cgi {p p' : Parser} {t : Nat} {ret : HttpState} (hp : p.cgi = false)
    (h : p.parseRequest_ t = some (ret, p')) (hret : ret ≠ .errorFormat) :
    p'.checkState = .checkStateHeader ∧ p'.cgi = decide (p'.method = .post) := by
  unfold parseRequest_ at h
  obtain ⟨i, -, h⟩ := Option.bind_eq_some_iff.1 h
  cases i with
  | none => cases h; exact absurd rfl hret
  | some i =>
    obtain ⟨buf, -, h⟩ := Option.bind_eq_some_iff.1 h
    obtain ⟨m, -, h⟩ := Option.bind_eq_some_iff.1 h
    cases m with
    | none => cases h; exact absurd rfl hret
    | some m =>
      obtain ⟨j, -, h⟩ := Option.bind_eq_some_iff.1 h
      cases j with
      | none => cases h; exact absurd rfl hret
      | some j =>
        obtain ⟨buf', -, h⟩ := Option.bind_eq_some_iff.1 h
        obtain ⟨url, -, h⟩ := Option.bind_eq_some_iff.1 h
        obtain ⟨buf'', rfl⟩ := finishRequest_frame h hret
        exact ⟨rfl, by simp [hp]⟩

private theorem parseContent_same {p p' : Parser} {t : Nat} {ret : HttpState}
    (h : p.parseContent_ t = some (ret, p')) :
    SameRequest p p' ∧ p'.checkState = p.checkState ∧ (ret = .readyRequest → p'.content = some t) := by
  unfold parseContent_ at h
  split at h
  · obtain ⟨e, -, h⟩ := Option.bind_eq_some_iff.1 h
    obtain ⟨buf, -, h⟩ := Option.bind_eq_some_iff.1 h
    cases h
    exact ⟨⟨rfl, rfl, rfl, rfl, rfl⟩, rfl, fun _ => rfl⟩
  · cases h
    exact ⟨⟨rfl, rfl, rfl, rfl, rfl⟩, rfl, nofun⟩

/-- Behind the request line, the text of a line keeps the request; it ends in `do_request_` without a body, or with one
at its start. -/
private theorem parseText_same {p p' : Parser} {t : Nat} {errno errno' : Errno} {e : Option ParseEnd}
    (h : p.parseText t errno = some (e, p', errno')) (hst : p.checkState ≠ .checkStateRequestline) :
    SameRequest p p' ∧ p'.checkState ≠ .checkStateRequestline ∧
      (e = some .doRequest → p'.contentLength = 0 ∨ p'.content = some t) := by
  unfold parseText at h
  cases hs : p.checkState with
  | checkStateRequestline => exact absurd hs hst
  | checkStateHeader =>
    rw [hs] at h
    obtain ⟨⟨ret, q, errno''⟩, hq, h⟩ := Option.bind_eq_some_iff.1 h
    simp only [Option.pure_def, Option.some.injEq, Prod.mk.injEq] at h
    obtain ⟨hend, rfl, -⟩ := h
    obtain ⟨hsame, hstate, hready⟩ := parseHeaders_same hq
    refine ⟨hsame, ?_, fun he => .inl (hready ?_)⟩
    · rcases hstate with hstate | hstate <;> rw [hstate]
      · exact hst
      · decide
    · rw [he] at hend
      cases ret <;> first | rfl | cases hend
  | checkStateContent =>
    rw [hs] at h
    obtain ⟨⟨ret, q⟩, hq, h⟩ := Option.bind_eq_some_iff.1 h
    simp only [Option.pure_def, Option.some.injEq, Prod.mk.injEq] at h
    obtain ⟨hend, rfl, -⟩ := h
    obtain ⟨hsame, hstate, hready⟩ := parseContent_same hq
    refine ⟨hsame, hstate ▸ hst, fun he => .inr (hready ?_)⟩
    rw [he] at hend
    cases ret <;> first | rfl | cases hend

private theorem parseText_cgi {p p' : Parser} {t : Nat} {errno errno' : Errno} {e : Option ParseEnd} (hp : p.CgiMethod)
    (h : p.parseText t errno = some (e, p', errno')) (he : e = none ∨ e = some .doRequest) :
    p'.checkState ≠ .checkStateRequestline ∧ p'.cgi = decide (p'.method = .post) := by
  unfold CgiMethod at hp
  by_cases hst : p.checkState = .checkStateRequestline
  · rw [if_pos hst] at hp
    unfold parseText at h
    rw [hst] at h
    obtain ⟨⟨ret, q⟩, hq, h⟩ := Option.bind_eq_some_iff.1 h
    simp only [Option.pure_def, Option.some.injEq, Prod.mk.injEq] at h
    obtain ⟨hend, rfl, -⟩ := h
    have hret : ret ≠ .errorFormat := by
      intro hbad
      rw [if_pos hbad] at hend
      rw [← hend] at he
      rcases he with he | he <;> cases he
    obtain ⟨hstate, hcgi⟩ := parseRequest_cgi hp hq hret
    exact ⟨by rw [hstate]; decide, hcgi⟩
  · rw [if_neg hst] at hp
    obtain ⟨hsame, hstate, -⟩ := parseText_same h hst
    exact ⟨hstate, by rw [hsame.cgi, hsame.method, hp]⟩

/-- When a request received since `init_` is given to `do_request_`, `m_cgi` says whether it is a `POST`. -/
theorem parse_cgi {q p p' : Parser} {bs : List Byte} {errno errno' : Errno} (hp : q.init_.receive bs = some p)
    (h : p.parse_ errno = some (.doRequest, p', errno')) : p'.cgi = decide (p'.method = .post) := by
  obtain ⟨-, -, hfields⟩ := receive_init hp
  have hinit : p.CgiMethod := by
    unfold CgiMethod
    rw [hfields]
    rfl
  have hline : ∀ p p' : Parser, p.CgiMethod → p.parseLine_ = some (.lineOk, p') → p'.CgiMethod := by
    intro p p' hp hl
    obtain ⟨buf, idx, rfl, -⟩ := parseLine_frame hl
    exact hp
  have htext : ∀ (p p' : Parser) (t : Nat) (errno errno' : Errno), p.CgiMethod → ptr p.startLine = some t →
      parseText { p with startLine := p.checkedIdx } t errno = some (none, p', errno') → p'.CgiMethod := by
    intro p p' t errno errno' hp _ ht
    obtain ⟨hstate, hcgi⟩ := parseText_cgi (p := { p with startLine := p.checkedIdx }) hp ht (.inl rfl)
    unfold CgiMethod
    rw [if_neg hstate]
    exact hcgi
  obtain ⟨r, t, e, hr, -, hend⟩ := parseLoop_rule hline htext hinit h
  exact (parseText_cgi (p := { r with startLine := r.checkedIdx }) hr hend (.inr rfl)).2

/-! ### The body -/

private theorem scan_length {errno : Errno} {bs rest : List Byte} {x : HeadState}
    (h : scan errno bs = .accepted x rest) :
    x.contentLength ≤ rest.length := by
  have hbody : ∀ {n : Nat} {y : HeadState} {r : List Byte}, scanBody n y r = .accepted x rest →
      x.contentLength ≤ rest.length := by
    intro n y r hb
    unfold scanBody at hb
    dsimp only at hb
    split at hb
    · cases hb
      omega
    split at hb
    · split at hb <;> cases hb
      omega
    · cases hb
  unfold scan at h
  split at h
  · unfold scanOpen at h
    split at h <;> cases h
  rename_i l r _
  split at h
  · obtain ⟨hs, r', y, -, -, -, ⟨-, he⟩ | ⟨r'', -, he⟩ | ⟨_, _, -, -, -, -, he⟩⟩ :=
      scanHeaders_cases bs.length ⟨0, true, errno⟩ r
    · rw [he, scanOpen] at h
      split at h <;> cases h
    · exact hbody (he ▸ h)
    · rw [he] at h
      cases h
  · cases h

/-- The body of a request with a positive length, and the NUL behind it. -/
theorem parse_body {q p p' : Parser} {bs : List Byte} {errno errno' : Errno} (hp : q.init_.receive bs = some p)
    (h : p.parse_ errno = some (.doRequest, p', errno')) (hL : 0 < p'.contentLength) :
    ∃ c body z, p'.content = some c ∧ p'.readBuf.suffix c = body ++ 0 :: z ∧ body.length = p'.contentLength ∧
      p'.body = some body := by
  have hcomp := parse_scan hp errno
  obtain ⟨x, rest, hscan⟩ := hcomp.accepts h
  have hle := scan_length hscan
  rw [hscan] at hcomp
  obtain ⟨p'', hres, hlen, -, -, hbody⟩ := hcomp
  cases h.symm.trans hres
  obtain ⟨c, hc, -, hz⟩ := hbody (by omega)
  obtain ⟨z, hz⟩ := hz (by omega)
  have htake : (rest.take x.contentLength.toNat).length = x.contentLength.toNat := by
    rw [List.length_take]
    omega
  refine ⟨c, rest.take x.contentLength.toNat, z, hc, hz, by rw [htake, hlen]; omega, ?_⟩
  rw [body, if_neg (by omega), hc, Option.map_some, hz, hlen, List.take_left' htake]

/-- The URL stands before the rest of the line, which holds the version. -/
theorem readRequestLine_url {l : List Byte} {rl : RequestLine} (h : readRequestLine l = some rl) :
    rl.url + 10 ≤ l.length := by
  unfold readRequestLine at h
  obtain ⟨⟨m, l'⟩, hm, h⟩ := Option.bind_eq_some_iff.1 h
  obtain ⟨method, -, h⟩ := Option.bind_eq_some_iff.1 h
  obtain ⟨⟨u, v⟩, hu, h⟩ := Option.bind_eq_some_iff.1 h
  obtain ⟨o, -, h⟩ := Option.bind_eq_some_iff.1 h
  have hml := congrArg List.length (cut_eq_some hm).1
  have hul := congrArg List.length (cut_eq_some hu).1
  simp only [List.length_append, List.length_cons] at hml hul
  split at h
  · rename_i hc
    cases h
    have hv : v.length = 8 := by
      have hlen := congrArg List.length (of_decide_eq_true hc.2)
      rw [List.length_map, List.length_map] at hlen
      exact hlen.symm.trans (by decide)
    have ho : o < u.length := by
      by_contra hle
      rw [List.drop_eq_nil_of_le (by omega)] at hc
      cases hc.1
    dsimp only
    omega
  · cases h

/-- Behind the request line: where the URL is. -/
structure UrlBefore (p : Parser) : Prop where
  state : p.checkState ≠ .checkStateRequestline
  url : ∃ u : Nat, p.url = some u ∧ (u : Int) + 12 ≤ p.startLine
  start : p.startLine ≤ p.checkedIdx

private theorem UrlBefore.line {p p' : Parser} (hp : p.UrlBefore) (h : p.parseLine_ = some (.lineOk, p')) :
    p'.UrlBefore := by
  obtain ⟨buf, idx, rfl, hidx⟩ := parseLine_frame h
  exact ⟨hp.state, hp.url, Int.le_trans hp.start hidx⟩

private theorem UrlBefore.text {p p' : Parser} {t : Nat} {errno errno' : Errno} {e : Option ParseEnd}
    (hp : p.UrlBefore) (h : parseText { p with startLine := p.checkedIdx } t errno = some (e, p', errno')) :
    p'.UrlBefore := by
  obtain ⟨hsame, hstate, -⟩ := parseText_same h hp.state
  obtain ⟨u, hu, hle⟩ := hp.url
  refine ⟨hstate, ⟨u, hsame.url.trans hu, ?_⟩, ?_⟩
  · rw [hsame.startLine]
    exact Int.le_trans hle hp.start
  · rw [hsame.startLine, hsame.checkedIdx]

/-- From the header lines on, the loop ends with the body behind the URL. -/
theorem UrlBefore.loop {fuel : Nat} {status : LineState} {p p' : Parser} {errno errno' : Errno} (hp : p.UrlBefore)
    (h : parseLoop fuel status p errno = some (.doRequest, p', errno')) (hL : p'.contentLength ≠ 0) :
    ∃ u c, p'.url = some u ∧ p'.content = some c ∧ u + 12 ≤ c := by
  obtain ⟨r, t, e, hr, ht, hend⟩ := parseLoop_rule (fun _ _ hp hl => UrlBefore.line hp hl)
    (fun _ _ _ _ _ hp _ ht => UrlBefore.text hp ht) hp h
  obtain ⟨hsame, -, hbody⟩ := parseText_same hend hr.state
  obtain ⟨u, hu, hle⟩ := hr.url
  have hstart := ptr_eq_some.1 ht
  exact ⟨u, t, hsame.url.trans hu, (hbody rfl).resolve_left hL, by omega⟩

/-- The body starts behind the URL and the version. -/
theorem parse_url {q p p' : Parser} {bs : List Byte} {errno errno' : Errno} (hp : q.init_.receive bs = some p)
    (h : p.parse_ errno = some (.doRequest, p', errno')) (hL : p'.contentLength ≠ 0) :
    ∃ u c, p'.url = some u ∧ p'.content = some c ∧ u + 12 ≤ c := by
  obtain ⟨hat, -, hfields⟩ := receive_init hp
  have hst : p.checkState = .checkStateRequestline := by rw [hfields]; rfl
  have hne : p.checkState ≠ .checkStateContent := by rw [hst]; decide
  unfold parse_ at h
  rcases ht : takeLine bs with _ | ⟨l, r⟩
  · have hopen := parseLoop_open (READ_BUFFER_SIZE + 1) .lineBad errno hat ht hne
    obtain ⟨x, rest, hscan⟩ := hopen.accepts h
    unfold scanOpen at hscan
    split at hscan <;> cases hscan
  obtain ⟨rfl, hl⟩ := takeLine_eq_some.1 ht
  obtain ⟨s, hs, hloop⟩ := parseLoop_line (READ_BUFFER_SIZE + 1) .lineBad errno hat hl hne
  obtain ⟨m, hm⟩ := hs.text
  rw [hloop] at h
  unfold parseText at h
  simp only [hs.checkState.trans hst, Option.bind_eq_bind] at h
  rcases parseRequest_text hm hl.2.2 with ⟨-, p'', hp'', -⟩ | ⟨rl, buf, hrl, hp'', -⟩
  · rw [hp''] at h
    cases h
  · rw [hp''] at h
    have hurl := readRequestLine_url hrl
    refine UrlBefore.loop ⟨ParseState.noConfusion, ⟨0 + rl.url, rfl, ?_⟩, ?_⟩ h hL
    · dsimp only
      rw [hs.startLine]
      omega
    · dsimp only
      rw [hs.startLine, hs.checkedIdx]

end Parser

end ImageServer
