import ImageServer.Http.Acceptance
import ImageServer.Http.Reuse
import ImageServer.Http.Stale

/-!
# A stream of requests on one connection

`serve` is one call of `process()` that is given the bytes `bs` and whose write call accepts everything.  Whatever the
bytes are, it answers them with one response and wipes the buffer, so a stream is served as its requests are alone
only when every delivery is one request (`StreamSemantics.deliveries`), and then only as long as `m_iv_count` stays
within the two elements of `m_iv` (`stream_iff`).
-/

namespace ImageServer

open CLib Writer

namespace HttpHandler

/-- `read_` and `parse_` of a `process()` that is given the bytes `bs`.  `m_read_idx` goes to their end here: that
`read_` takes nine from it while it waits for more is left out. -/
def readAndParse (h : HttpHandler) (con : Option Nat) (users : Users) (env : Env) (bs : List Byte) :
    Option (HttpState × HttpHandler × Users) := do
  let p ← h.toParser.receive bs
  HttpHandler.parse { h with mysql := con, toParser := p } users env .eagain

/-- A `process()` that is given the bytes `bs`, has its response accepted as a whole, and keeps the connection: the
response, the handler and the accounts after it. -/
def serve (h : HttpHandler) (con : Option Nat) (users : Users) (env : Env) (bs : List Byte) :
    Option (List Byte × HttpHandler × Users) := do
  let (ret, h, users) ← h.readAndParse con users env bs
  let (ok, h) ← h.writeToBuffer_ ret
  let response ← h.offer
  match ok, h.writeStep 0 (.count response.length) with
  | true, .finished h => some (response, h, users)
  | _, _ => none

/-- One `process()` after the other on the same handler. -/
def serveAll (con : Option Nat) (env : Env) : HttpHandler → Users → List (List Byte) →
    Option (List (List Byte) × HttpHandler × Users)
  | h, users, [] => some ([], h, users)
  | h, users, d :: ds => do
    let (response, h, users) ← h.serve con users env d
    let (responses, h, users) ← serveAll con env h users ds
    return (response :: responses, h, users)

/-- The responses to the requests, each on the fresh handler `f`, and whether they are sent from a mapped file. -/
def serveAlone (con : Option Nat) (env : Env) (f : HttpHandler) : Users → List (List Byte) →
    Option (List (List Byte × Bool))
  | _, [] => some []
  | users, d :: ds => do
    let (ret, h, _) ← f.readAndParse con users env d
    let (response, _, users) ← f.serve con users env d
    let responses ← serveAlone con env f users ds
    return ((response, decide (MapsFile h.toResource ret)) :: responses)

/-- The bytes received and not answered yet. -/
def pending (h : HttpHandler) : List Byte := h.readBuf.bytes.take h.readIdx.toNat

/-- The handler between two requests. -/
structure Ready (h : HttpHandler) : Prop where
  parser : ∃ q : Parser, h.toParser = q.init_
  realFile : h.realFile = CharArray.zeros _
  fileAddress : h.fileAddress = .null
  writeIdx : h.writeIdx = 0
  bytesToSend : h.bytesToSend = 0

theorem ready_fresh (sockfd : Int) (timer : Option Nat) (type : ClientType) (content : Option Ssl) :
    Ready (fresh sockfd timer type content) :=
  ⟨⟨Parser.zero, rfl⟩, rfl, rfl, rfl, rfl⟩

private theorem Ready.pending {h : HttpHandler} (hr : Ready h) : h.pending = [] := by
  obtain ⟨q, hq⟩ := hr.parser
  show h.toParser.readBuf.bytes.take h.toParser.readIdx.toNat = []
  rw [hq]
  rfl

/-- What there is to know of a `process()` that is served. -/
private theorem serve_eq_some {h h' : HttpHandler} {con : Option Nat} {users users' : Users} {env : Env}
    {bs response : List Byte}
    (hr : Ready h) (hs : h.serve con users env bs = some (response, h', users')) :
    ∃ ret h₁ w, h.readAndParse con users env bs = some (ret, h₁, users') ∧ Answer ret ∧ h₁.toWriter = h.toWriter ∧
      Prepared h.toWriter h₁.linger h₁.toResource ret w ∧ offered w h₁.fileAddress = some response ∧
      h₁.linger = true ∧ Ready h' ∧ h'.ivCount = w.ivCount ∧ h'.iv1 = w.iv1 := by
  unfold serve at hs
  obtain ⟨⟨ret, h₁, u⟩, hp, hs⟩ := Option.bind_eq_some_iff.1 hs
  obtain ⟨⟨ok, h₂⟩, hb, hs⟩ := Option.bind_eq_some_iff.1 hs
  obtain ⟨bytes, ho, hs⟩ := Option.bind_eq_some_iff.1 hs
  split at hs
  · rename_i hw _
    cases hs
    obtain ⟨p, -, hparse⟩ := Option.bind_eq_some_iff.1 hp
    have ha := parse_answer hparse
    have hw₁ : h₁.toWriter = h.toWriter := (parse_toWriter hparse :)
    obtain ⟨-, hr', he⟩ := writeToBuffer_counted (by rw [hw₁]; exact hr.writeIdx) ha hb
    obtain ⟨hl, w', rfl, hc, hv⟩ := writeStep_finished hw
    rw [hw₁] at hr'
    rw [he] at ho hl
    exact ⟨ret, h₁, h₂.toWriter, hp, ha, hw₁, hr', ho, hl, ⟨⟨h₂.toParser, rfl⟩, rfl, rfl, rfl, rfl⟩, hc, hv⟩
  · cases hs

/-! ### The deliveries -/

private theorem serveAll_length {con : Option Nat} {env : Env} {h h' : HttpHandler} {users users' : Users}
    {ds responses : List (List Byte)} (hr : Ready h)
    (hs : serveAll con env h users ds = some (responses, h', users')) :
    responses.length = ds.length ∧ Ready h' := by
  induction ds generalizing h users responses with
  | nil => cases hs; exact ⟨rfl, hr⟩
  | cons d ds ih =>
    obtain ⟨⟨response, h₁, u₁⟩, h1, hs⟩ := Option.bind_eq_some_iff.1 hs
    obtain ⟨⟨rest, h₂, u₂⟩, h2, hs⟩ := Option.bind_eq_some_iff.1 hs
    cases hs
    obtain ⟨_, _, _, _, _, _, _, _, _, hr₁, _⟩ := serve_eq_some hr h1
    obtain ⟨hlen, hr₂⟩ := ih hr₁ h2
    exact ⟨by rw [List.length_cons, List.length_cons, hlen], hr₂⟩

private theorem serveAlone_length {con : Option Nat} {env : Env} {f : HttpHandler} {users : Users}
    {ds : List (List Byte)} {responses : List (List Byte × Bool)}
    (hs : serveAlone con env f users ds = some responses) :
    responses.length = ds.length := by
  induction ds generalizing users responses with
  | nil => cases hs; rfl
  | cons d ds ih =>
    obtain ⟨_, -, hs⟩ := Option.bind_eq_some_iff.1 hs
    obtain ⟨_, -, hs⟩ := Option.bind_eq_some_iff.1 hs
    obtain ⟨rest, h2, hs⟩ := Option.bind_eq_some_iff.1 hs
    cases hs
    rw [List.length_cons, List.length_cons, ih h2]

/-- The stream of the requests `rs`, cut into the deliveries `ds`, is served as it should be: after each delivery the
responses are those of the first requests, in order, and the bytes not answered are still in the buffer; at the end
all requests are answered. -/
def StreamSemantics (f : HttpHandler) (con : Option Nat) (users : Users) (env : Env) (rs ds : List (List Byte)) :
    Prop :=
  ∃ alone, serveAlone con env f users rs = some alone ∧
    ∀ j ≤ ds.length, ∃ responses h users', serveAll con env f users (ds.take j) = some (responses, h, users') ∧
      ∃ n ≤ rs.length, responses = (alone.map Prod.fst).take n ∧
        (rs.take n).flatten ++ pending h = (ds.take j).flatten ∧ (j = ds.length → n = rs.length)

private theorem eq_of_flatten_take {α : Type} {l l' : List (List α)} (hlen : l.length = l'.length)
    (h : ∀ j ≤ l'.length, (l.take j).flatten = (l'.take j).flatten) : l = l' := by
  refine List.ext_getElem hlen fun i hi hi' => ?_
  have h1 := h (i + 1) hi'
  rw [List.take_succ_eq_append_getElem hi, List.take_succ_eq_append_getElem hi', List.flatten_append,
    List.flatten_append, h i (Nat.le_of_lt hi')] at h1
  simpa using h1

/-- Every delivery is answered at once, so each has to be one request. -/
theorem StreamSemantics.deliveries {f : HttpHandler} {con : Option Nat} {users : Users} {env : Env}
    {rs ds : List (List Byte)} (hf : Ready f) (h : StreamSemantics f con users env rs ds) : ds = rs := by
  obtain ⟨alone, ha, hj⟩ := h
  have hlen := serveAlone_length ha
  have step : ∀ j ≤ ds.length, (rs.take j).flatten = (ds.take j).flatten ∧ (j = ds.length → j = rs.length) := by
    intro j hle
    obtain ⟨responses, h', users', hs, n, hn, hresp, hbytes, hend⟩ := hj j hle
    obtain ⟨hl, hr'⟩ := serveAll_length hf hs
    have hnj : n = j := by
      have := congrArg List.length hresp
      rw [hl, List.length_take, List.length_take, List.length_map, hlen] at this
      omega
    subst hnj
    rw [hr'.pending, List.append_nil] at hbytes
    exact ⟨hbytes, hend⟩
  have hlen' := (step ds.length (Nat.le_refl _)).2 rfl
  exact (eq_of_flatten_take hlen'.symm fun j hle => (step j hle).1).symm

/-! ### The iovecs -/

/-- A handler between two requests decides as the fresh one does, wherever that decides. -/
private theorem readAndParse_agree {f h f' : HttpHandler} {con : Option Nat} {users users' : Users} {env : Env}
    {bs : List Byte} {ret : HttpState} (hf : Ready f) (hc : f.content = none) (hh : Ready h)
    (hp : f.readAndParse con users env bs = some (ret, f', users')) :
    ∃ h', h.readAndParse con users env bs = some (ret, h', users') ∧ f'.linger = h'.linger ∧
      f'.toResource.Same h'.toResource ∧ (ret = .finishedRequest → f'.fileStat = h'.fileStat) := by
  obtain ⟨q₀, hq₀⟩ := hf.parser
  obtain ⟨q₁, hq₁⟩ := hh.parser
  have hres : f.toResource.Same h.toResource :=
    ⟨hf.realFile.trans hh.realFile.symm, hf.fileAddress.trans hh.fileAddress.symm⟩
  unfold readAndParse at hp ⊢
  obtain ⟨p₀, hr₀, hp⟩ := Option.bind_eq_some_iff.1 hp
  rw [hq₀] at hr₀
  obtain ⟨p₁, hr₁⟩ := Parser.receive_isSome q₁ (Parser.receive_init hr₀).2.1
  have hc₀ : q₀.content = none := by
    have : f.toParser.content = none := hc
    rw [hq₀] at this
    exact this
  rw [hq₁, hr₁]
  unfold parse at hp ⊢
  obtain ⟨⟨e, p', n⟩, he, hp⟩ := Option.bind_eq_some_iff.1 hp
  obtain ⟨p'', he', hcore, hagree⟩ := Parser.parse_agree hr₀ hr₁ hc₀ he
  simp only [Option.bind_eq_bind, Option.bind_some, he']
  have hlinger : p'.core.linger = p''.core.linger := by rw [hcore]
  cases e with
  | outOfFuel => cases hp
  | returns ret' =>
    cases hp
    exact ⟨_, rfl, hlinger, hres, fun hret => by
      rw [Parser.parseLoop_returns he] at hret
      cases hret⟩
  | doRequest =>
    obtain ⟨⟨ret', p₂, r₂, u₂⟩, hd, hp⟩ := Option.bind_eq_some_iff.1 hp
    cases hp
    obtain ⟨q₂, r₂', hd', hcore₂, hsame, hst⟩ := doRequest_agree (hagree rfl) hres hd
    have hlinger₂ : p₂.core.linger = q₂.core.linger := by rw [hcore₂]
    simp only [hd', Option.bind_some]
    exact ⟨_, rfl, hlinger₂, hsame, hst⟩

private theorem mapsFile_congr {r r' : Resource} {ret : HttpState}
    (h : ret = .finishedRequest → r.fileStat = r'.fileStat) :
    MapsFile r ret ↔ MapsFile r' ret := by
  unfold MapsFile
  constructor
  · rintro ⟨hr, hs⟩
    exact ⟨hr, h hr ▸ hs⟩
  · rintro ⟨hr, hs⟩
    exact ⟨hr, (h hr).symm ▸ hs⟩

theorem offered_le {w : Writer} {live : FileAddress} {bs : List Byte} (h : offered w live = some bs) :
    w.ivCount ≤ 2 := by
  unfold offered at h
  split at h
  · omega
  · omega
  · omega
  · cases h

/-- Every response leaves its iovecs in the count, which has to stay within `m_iv`. -/
private theorem serveAll_count {con : Option Nat} {env : Env} {h h' : HttpHandler} {users users' : Users}
    {ds responses : List (List Byte)} (hr : Ready h) (hc : h.ivCount ≤ 2)
    (hs : serveAll con env h users ds = some (responses, h', users')) : h.ivCount + ds.length ≤ 2 := by
  induction ds generalizing h users responses with
  | nil => exact hc
  | cons d ds ih =>
    obtain ⟨⟨response, h₁, u₁⟩, h1, hs⟩ := Option.bind_eq_some_iff.1 hs
    obtain ⟨⟨rest, h₂, u₂⟩, h2, hs⟩ := Option.bind_eq_some_iff.1 hs
    cases hs
    obtain ⟨_, _, w, _, _, _, hp, ho, _, hr₁, hcw, _⟩ := serve_eq_some hr h1
    have := ih hr₁ (hcw ▸ offered_le ho) h2
    have := hp.lt_ivCount
    rw [List.length_cons]
    omega

/-- With a page as response, `m_iv[0]` alone is counted. -/
private theorem not_mapsFile_of_count {w w' : Writer} {linger : Bool} {r : Resource} {ret : HttpState}
    (hp : Prepared w linger r ret w') (hc : w'.ivCount ≤ w.ivCount + 1) : ¬ MapsFile r ret := fun hm => by
  have := (hp.withFile hm).2.1
  omega

/-- Two requests on one handler: none of the responses is sent from a file. -/
private theorem serveAll_two {con : Option Nat} {env : Env} {f h' : HttpHandler} {users users' : Users}
    {r₁ r₂ : List Byte} {responses : List (List Byte)} {alone : List (List Byte × Bool)} (hf : Ready f)
    (hc : f.content = none) (hi : f.ivCount = 0) (ha : serveAlone con env f users [r₁, r₂] = some alone)
    (hs : serveAll con env f users [r₁, r₂] = some (responses, h', users')) : ∀ x ∈ alone, x.2 = false := by
  obtain ⟨⟨a₁, h₁, u₁⟩, h1, hs⟩ := Option.bind_eq_some_iff.1 hs
  obtain ⟨⟨rest, h₂, u₂⟩, h2, -⟩ := Option.bind_eq_some_iff.1 hs
  obtain ⟨⟨a₂, h₃, u₃⟩, h3, -⟩ := Option.bind_eq_some_iff.1 h2
  obtain ⟨ret₁, k₁, w₁, hd₁, hans₁, -, hp₁, ho₁, -, hr₁, hc₁, -⟩ := serve_eq_some hf h1
  obtain ⟨ret₂, k₂, w₂, hd₂, hans₂, -, hp₂, ho₂, -, hr₂, hc₂, -⟩ := serve_eq_some hr₁ h3
  have hle := offered_le ho₂
  have hlt := hp₂.lt_ivCount
  have hlt₁ := hp₁.lt_ivCount
  have hm₁ : ¬ MapsFile k₁.toResource ret₁ := not_mapsFile_of_count hp₁ (by omega)
  have hm₂ : ¬ MapsFile k₂.toResource ret₂ := not_mapsFile_of_count hp₂ (by omega)
  obtain ⟨⟨ret₁', k₁', _⟩, e1, ha⟩ := Option.bind_eq_some_iff.1 ha
  obtain ⟨⟨_, _, _⟩, e2, ha⟩ := Option.bind_eq_some_iff.1 ha
  obtain ⟨tail, e3, ha⟩ := Option.bind_eq_some_iff.1 ha
  cases h1.symm.trans e2
  cases hd₁.symm.trans e1
  obtain ⟨⟨ret₂', k₂', _⟩, e4, e5⟩ := Option.bind_eq_some_iff.1 e3
  obtain ⟨_, -, e5⟩ := Option.bind_eq_some_iff.1 e5
  obtain ⟨_, e6, e5⟩ := Option.bind_eq_some_iff.1 e5
  cases e6
  cases e5
  cases ha
  obtain ⟨k, hk, -, -, hst⟩ := readAndParse_agree hf hc hr₁ e4
  cases hd₂.symm.trans hk
  have hm₂' : ¬ MapsFile k₂'.toResource ret₂ := fun h => hm₂ ((mapsFile_congr hst).1 h)
  simp [hm₁, hm₂']

/-- A page is served by a handler with at most one iovec counted, and nothing in the second one, as by a fresh
handler. -/
private theorem serve_page {f f' h : HttpHandler} {con : Option Nat} {users users' : Users} {env : Env}
    {bs response : List Byte}
    (hf : Ready f) (hc : f.content = none) (hi : f.ivCount = 0) (hh : Ready h) (hle : h.ivCount ≤ 1)
    (hv : h.iv1.len = 0) (hs : f.serve con users env bs = some (response, f', users'))
    (hm : ∀ ret k u, f.readAndParse con users env bs = some (ret, k, u) → ¬ MapsFile k.toResource ret) :
    ∃ h', h.serve con users env bs = some (response, h', users') := by
  obtain ⟨ret, k, w, hd, ha, -, hp, ho, hl, -, -, -⟩ := serve_eq_some hf hs
  obtain ⟨k', hd', hlinger, hsame, hst⟩ := readAndParse_agree hf hc hh hd
  have hm := hm _ _ _ hd
  have hm' : ¬ MapsFile k'.toResource ret := fun h => hm ((mapsFile_congr hst).2 h)
  have hw : k'.toWriter = h.toWriter := by
    obtain ⟨p, -, hparse⟩ := Option.bind_eq_some_iff.1 hd'
    exact (parse_toWriter hparse :)
  -- the text is the same, and the only one offered
  have htext : response = bufferText k.linger k.toResource ret := by
    rw [offered, show w.ivCount = 1 by have := (hp.withoutFile hm).2.1; omega] at ho
    exact (Option.some.inj ((hp.iv0_bytes ha _).symm.trans ho)).symm
  obtain ⟨w', hb, hp'⟩ := writeToBuffer_prepared (w := k'.toWriter) k'.linger k'.toResource
    (by rw [hw]; exact hh.writeIdx) ha
  rw [hlinger, bufferText_congr hst] at htext
  obtain ⟨hv', hc', hts⟩ := hp'.withoutFile hm'
  have hoff : offered w' k'.fileAddress = some response := by
    have h0 := hp'.iv0_bytes ha k'.fileAddress
    have h1 : w'.iv1.bytes w' k'.fileAddress = some [] := by
      rw [IoVec.bytes, if_pos]
      rw [hv', hw]
      exact hv
    rw [hw] at hc'
    rcases Nat.le_one_iff_eq_zero_or_eq_one.1 hle with hz | hz
    · rw [offered, show w'.ivCount = 1 by omega]
      exact h0.trans (congrArg some htext.symm)
    · rw [offered, show w'.ivCount = 2 by omega]
      simp only [h0, h1, htext, Option.bind_some, Option.map_some, List.append_nil]
  have hsend : w'.bytesToSend - response.length ≤ 0 := by
    rw [hts, hw, show h.toWriter.bytesToSend = 0 from hh.bytesToSend, htext, ← hp'.writeIdx]
    omega
  unfold serve HttpHandler.writeToBuffer_ offer
  simp only [hd', Option.bind_eq_bind, Option.bind_some, hb, Option.map_some, hoff]
  unfold writeStep
  dsimp only
  rw [if_pos hsend, if_pos (hlinger ▸ hl)]
  exact ⟨_, rfl⟩

private theorem serveAll_take {con : Option Nat} {env : Env} {h h' : HttpHandler} {users users' : Users}
    {ds responses : List (List Byte)} (hs : serveAll con env h users ds = some (responses, h', users')) (j : Nat) :
    ∃ h₁ u₁, serveAll con env h users (ds.take j) = some (responses.take j, h₁, u₁) := by
  induction ds generalizing h users responses j with
  | nil =>
    cases hs
    rw [List.take_nil]
    exact ⟨_, _, rfl⟩
  | cons d ds ih =>
    obtain ⟨⟨response, k, u⟩, h1, hs⟩ := Option.bind_eq_some_iff.1 hs
    obtain ⟨⟨rest, k', u'⟩, h2, hs⟩ := Option.bind_eq_some_iff.1 hs
    cases hs
    cases j with
    | zero => exact ⟨_, _, rfl⟩
    | succ j =>
      obtain ⟨h₁, u₁, h3⟩ := ih h2 j
      refine ⟨h₁, u₁, ?_⟩
      rw [List.take_succ_cons, List.take_succ_cons, serveAll]
      simp only [h1, h3, Option.bind_eq_bind, Option.bind_some]
      rfl

/-- Deliveries of one request each are enough, once all of them are answered as they are alone. -/
private theorem streamSemantics_of_serveAll {f h : HttpHandler} {con : Option Nat} {users users' : Users} {env : Env}
    {rs : List (List Byte)} {alone : List (List Byte × Bool)} (hf : Ready f)
    (ha : serveAlone con env f users rs = some alone)
    (hs : serveAll con env f users rs = some (alone.map Prod.fst, h, users')) :
    StreamSemantics f con users env rs rs := by
  refine ⟨alone, ha, fun j hj => ?_⟩
  obtain ⟨h₁, u₁, h1⟩ := serveAll_take hs j
  obtain ⟨-, hr⟩ := serveAll_length hf h1
  exact ⟨_, h₁, u₁, h1, j, hj, rfl, by rw [hr.pending, List.append_nil], id⟩

/-- One request, or two with pages as responses, are answered as they are alone. -/
private theorem serveAll_of_alone {f : HttpHandler} {con : Option Nat} {users : Users} {env : Env}
    {rs : List (List Byte)} {alone : List (List Byte × Bool)} (hf : Ready f) (hc : f.content = none)
    (hi : f.ivCount = 0) (hv : f.iv1.len = 0) (ha : serveAlone con env f users rs = some alone)
    (hlen : rs.length ≤ 1 ∨ rs.length = 2 ∧ ∀ x ∈ alone, x.2 = false) :
    ∃ h users', serveAll con env f users rs = some (alone.map Prod.fst, h, users') := by
  match rs with
  | [] => cases ha; exact ⟨_, _, rfl⟩
  | r₁ :: rs =>
    obtain ⟨⟨ret₁, k₁, v₁⟩, e1, ha⟩ := Option.bind_eq_some_iff.1 ha
    obtain ⟨⟨a₁, f₁, u₁⟩, e2, ha⟩ := Option.bind_eq_some_iff.1 ha
    obtain ⟨tail, e3, ha⟩ := Option.bind_eq_some_iff.1 ha
    cases ha
    obtain ⟨ret, k, w, hd, -, -, hp, -, -, hr₁, hcw, hvw⟩ := serve_eq_some hf e2
    cases hd.symm.trans e1
    match rs with
    | [] =>
      cases e3
      refine ⟨f₁, v₁, ?_⟩
      simp only [serveAll, e2, Option.bind_eq_bind, Option.bind_some]
      rfl
    | [r₂] =>
      obtain ⟨-, hpage⟩ := hlen.resolve_left (by simp)
      obtain ⟨⟨ret₂, k₂, _⟩, e4, e5⟩ := Option.bind_eq_some_iff.1 e3
      obtain ⟨⟨a₂, f₂, u₂⟩, e6, e5⟩ := Option.bind_eq_some_iff.1 e5
      cases e5
      have hm₁ : ¬ MapsFile k₁.toResource ret₁ := of_decide_eq_false (hpage _ List.mem_cons_self)
      have hm₂ : ¬ MapsFile k₂.toResource ret₂ :=
        of_decide_eq_false (hpage _ (List.mem_cons_of_mem _ List.mem_cons_self))
      obtain ⟨hiv, hcount, -⟩ := hp.withoutFile hm₁
      obtain ⟨h₂, hs₂⟩ := serve_page hf hc hi hr₁ (by omega) (by rw [hvw, hiv]; exact hv) e6 fun _ _ _ h => by
        cases h.symm.trans e4
        exact hm₂
      refine ⟨h₂, u₂, ?_⟩
      simp only [serveAll, e2, hs₂, Option.bind_eq_bind, Option.bind_some]
      rfl
    | _ :: _ :: _ => simp at hlen

/-- A stream is served as its requests are alone exactly when these have responses, each delivery is one request, and
there is at most one request, or there are two and neither response is sent from a file. -/
theorem stream_iff (sockfd : Int) (timer : Option Nat) (type : ClientType) (content : Option Ssl) (con : Option Nat)
    (users : Users) (env : Env) (rs ds : List (List Byte)) :
    StreamSemantics (fresh sockfd timer type content) con users env rs ds ↔
      ∃ alone, serveAlone con env (fresh sockfd timer type content) users rs = some alone ∧ ds = rs ∧
        (rs.length ≤ 1 ∨ rs.length = 2 ∧ ∀ x ∈ alone, x.2 = false) := by
  have hf := ready_fresh sockfd timer type content
  have hc : (fresh sockfd timer type content).content = none := rfl
  have hi : (fresh sockfd timer type content).ivCount = 0 := rfl
  have hv : (fresh sockfd timer type content).iv1.len = 0 := rfl
  generalize fresh sockfd timer type content = f at *
  constructor
  · intro h
    obtain rfl := h.deliveries hf
    obtain ⟨alone, ha, hj⟩ := h
    refine ⟨alone, ha, rfl, ?_⟩
    obtain ⟨responses, h', users', hs, -⟩ := hj ds.length (Nat.le_refl _)
    rw [List.take_length] at hs
    have hle := serveAll_count hf (by omega) hs
    by_cases h2 : ds.length = 2
    · match ds, h2 with
      | [r₁, r₂], h2 => exact Or.inr ⟨h2, serveAll_two hf hc hi ha hs⟩
    · exact Or.inl (by omega)
  · rintro ⟨alone, ha, rfl, hlen⟩
    obtain ⟨h, users', hs⟩ := serveAll_of_alone hf hc hi hv ha hlen
    exact streamSemantics_of_serveAll hf ha hs

/-- A complete request that arrives in two parts is answered twice. -/
theorem cutRequest_answeredTwice :
    Complete (lit "GET /x HTTP/1.1\r\n\r\n") ∧
      lit "GET /x HTTP/1.1\r\n\r\n" = [lit "GET /x", lit " HTTP/1.1\r\n\r\n"].flatten ∧
      (serveAlone none noFiles (fresh 5 none .httpClient none) (fun _ => none)
        [lit "GET /x HTTP/1.1\r\n\r\n"]).map List.length = some 1 ∧
      (serveAll none noFiles (fresh 5 none .httpClient none) (fun _ => none)
        [lit "GET /x", lit " HTTP/1.1\r\n\r\n"]).map (fun x => x.1.length) = some 2 ∧
      ¬ StreamSemantics (fresh 5 none .httpClient none) none (fun _ => none) noFiles
        [lit "GET /x HTTP/1.1\r\n\r\n"] [lit "GET /x", lit " HTTP/1.1\r\n\r\n"] := by
  refine ⟨?_, by decide, by decide +kernel, by decide +kernel, fun h => ?_⟩
  · have hb : Head (lit "GET /x HTTP/1.1\r\n\r\n") (lit "GET /x HTTP/1.1") [] [] :=
      ⟨by decide, by decide, fun h hm => absurd hm List.not_mem_nil⟩
    exact ⟨_, [], [], hb, (hb.acceptedLine (by decide)).2 (by decide), by decide⟩
  · exact absurd (h.deliveries (ready_fresh ..)) (by decide)

end HttpHandler

end ImageServer
