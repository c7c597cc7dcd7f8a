import ImageServer.Http.Process
import ImageServer.Http.Resolve
import ImageServer.Http.Response

/-!
# A handler after its first request

The object of a slot serves one request after the other, and `init_` does not reset `m_iv_count`: it is one or two
larger for each response prepared before (`History.ivCount`).  `respond` is what a handler makes of a request as far
as it can be seen, and `independent_iff` says that this is what a fresh handler makes of it only for the first
request.
-/

namespace ImageServer

open CLib Writer

/-! ### The results of `parse_` -/

namespace Parser

private theorem parseText_returns {p p' : Parser} {t : Nat} {errno errno' : Errno} {ret : HttpState}
    (h : p.parseText t errno = some (some (.returns ret), p', errno')) : ret = .errorFormat := by
  have hret : ∀ r : HttpState, (if r = .errorFormat then some (ParseEnd.returns .errorFormat)
      else if r = .readyRequest then some .doRequest else none) = some (.returns ret) → ret = .errorFormat := by
    intro r hr
    split at hr
    · cases hr
      rfl
    · split at hr <;> cases hr
  unfold parseText at h
  split at h
  · obtain ⟨⟨r, q⟩, -, hr⟩ := Option.bind_eq_some_iff.1 h
    have hr := (Prod.mk.inj (Option.some.inj hr)).1
    split at hr <;> cases hr
    rfl
  · obtain ⟨⟨r, q⟩, -, hr⟩ := Option.bind_eq_some_iff.1 h
    exact hret r (Prod.mk.inj (Option.some.inj hr)).1
  · obtain ⟨⟨r, q⟩, -, hr⟩ := Option.bind_eq_some_iff.1 h
    exact hret r (Prod.mk.inj (Option.some.inj hr)).1

/-- `parse_` itself returns nothing but `ERROR_FORMAT`. -/
theorem parseLoop_returns {fuel : Nat} {status : LineState} {p p' : Parser} {errno errno' : Errno} {ret : HttpState}
    (h : parseLoop fuel status p errno = some (.returns ret, p', errno')) : ret = .errorFormat := by
  induction fuel generalizing status p errno with
  | zero => cases h
  | succ fuel ih =>
    rw [parseLoop_succ] at h
    obtain ⟨⟨st, q⟩, -, h⟩ := Option.bind_eq_some_iff.1 h
    dsimp only at h
    split at h
    · cases h
      rfl
    · obtain ⟨t, -, h⟩ := Option.bind_eq_some_iff.1 h
      obtain ⟨⟨e, q', errno''⟩, ht, h⟩ := Option.bind_eq_some_iff.1 h
      dsimp only at h
      split at h
      · cases h
        exact parseText_returns ht
      · exact ih h

end Parser

private theorem openResource_answer {env : Env} {r r' : Resource} {ret : HttpState}
    (h : openResource env r = some (ret, r')) : Answer ret := by
  obtain ⟨path, -, ho⟩ := openResource_opened h
  unfold Answer
  cases ho <;> simp

private theorem doRequest_answer {env : Env} {mysql : Option Nat} {users users' : Users} {p p' : Parser}
    {r r' : Resource} {ret : HttpState} (h : doRequest_ env mysql users p r = some (ret, p', r', users')) :
    Answer ret := by
  rw [doRequest_eq] at h
  obtain ⟨x, -, h⟩ := Option.bind_eq_some_iff.1 h
  obtain ⟨y, ho, he⟩ := Option.map_eq_some_iff.1 h
  cases he
  exact openResource_answer ho

namespace HttpHandler

theorem parse_answer {h h' : HttpHandler} {users users' : Users} {env : Env} {errno : Errno} {ret : HttpState}
    (hp : h.parse users env errno = some (ret, h', users')) : Answer ret := by
  unfold parse at hp
  obtain ⟨⟨e, p, _⟩, hpe, hp⟩ := Option.bind_eq_some_iff.1 hp
  cases e with
  | outOfFuel => cases hp
  | returns r =>
    cases hp
    rw [Parser.parseLoop_returns hpe]
    exact Or.inr (Or.inl rfl)
  | doRequest =>
    obtain ⟨⟨r, _, _, _⟩, hd, hp⟩ := Option.bind_eq_some_iff.1 hp
    cases hp
    exact doRequest_answer hd

theorem parse_toWriter {h h' : HttpHandler} {users users' : Users} {env : Env} {errno : Errno} {ret : HttpState}
    (hp : h.parse users env errno = some (ret, h', users')) : h'.toWriter = h.toWriter := by
  obtain ⟨p, r, rfl⟩ := parse_frame hp
  rfl

/-! ### The count of iovecs in the course of `process()` -/

/-- The handler at the position `ph` of a `process()` that began with the writer `w`: up to `write_to_buffer_` the
writer is untouched, and from then on there is at least one iovec more. -/
def Counted (w : Writer) (h : HttpHandler) : Phase → Prop
  | .prepare ret => h.toWriter = w ∧ Answer ret
  | .writing _ => w.ivCount < h.ivCount
  | .done => w.ivCount < h.ivCount
  | _ => h.toWriter = w

theorem writeToBuffer_counted {h h' : HttpHandler} {ret : HttpState} {ok : Bool} (hw : h.writeIdx = 0)
    (ha : Answer ret) (hp : h.writeToBuffer_ ret = some (ok, h')) :
    ok = true ∧ Prepared h.toWriter h.linger h.toResource ret h'.toWriter ∧
      h' = { h with toWriter := h'.toWriter } := by
  obtain ⟨⟨ok', w⟩, hw', he⟩ := Option.map_eq_some_iff.1 hp
  obtain ⟨w', hb, hr⟩ := writeToBuffer_prepared h.linger h.toResource hw ha
  cases hb.symm.trans hw'
  cases he
  exact ⟨rfl, hr, rfl⟩

private theorem Counted.step {w : Writer} {h h' : HttpHandler} {users users' : Users} {ph ph' : Phase} {i : ProcInput}
    {close : Bool} (hw : w.writeIdx = 0) (hc : Counted w h ph)
    (hs : h.procStep users ph i = some (.next h' users' ph' close)) : Counted w h' ph' := by
  cases procStep_cases hs with
  | full | enter | data | eof | fail | triedOut | again => exact hc
  | parse hp => exact ⟨(parse_toWriter hp).trans hc, parse_answer hp⟩
  | prepare hp =>
    obtain ⟨rfl, ha⟩ := hc
    exact (writeToBuffer_counted hw ha hp).2.1.lt_ivCount
  | refuse hp =>
    obtain ⟨rfl, ha⟩ := hc
    exact (writeToBuffer_counted hw ha hp).2.1.lt_ivCount
  | write hr =>
    obtain ⟨w', rfl, he⟩ := writeStep_again hr
    exact hc.trans_eq he.symm
  | finish hr =>
    obtain ⟨-, w', rfl, he, -⟩ := writeStep_finished hr
    exact hc.trans_eq he.symm
  | close hr =>
    obtain ⟨a, w', rfl, he⟩ := writeStep_closing hr
    exact hc.trans_eq he.symm

/-- The steps of a `process()` so far, including what `close()` assigns. -/
private theorem Counted.run {w : Writer} {h h' : HttpHandler} {users users' : Users} {ph ph' : Phase}
    {is : List ProcInput} (hw : w.writeIdx = 0) (hc : Counted w h ph)
    (hr : procRun h users ph is = some (h', users', ph')) :
    Counted w h' ph' := by
  induction is generalizing h users ph with
  | nil => cases hr; exact hc
  | cons i is ih =>
    unfold procRun at hr
    split at hr
    · rename_i h₁ users₁ ph₁ close hs
      have hc₁ := hc.step hw hs
      refine ih ?_ hr
      cases close
      · exact hc₁
      · cases ph₁ <;> exact hc₁
    · cases hr

/-! ### Histories -/

/-- `h` has served `n` requests, each ended by the `init_` of `write_to_fd_` or by `close()` and the `init` of the next
connection, and is ready for the next one. -/
inductive History : HttpHandler → Nat → Prop
  | fresh (sockfd : Int) (timer : Option Nat) (type : ClientType) (content : Option Ssl) :
    History (.fresh sockfd timer type content) 0
  | reconnect {h : HttpHandler} {n : Nat} (sockfd : Int) (timer : Option Nat) (type : ClientType)
      (content : Option Ssl) : History h n → History (h.closeFields.init sockfd timer type content) n
  | kept {h h₁ h₂ : HttpHandler} {n : Nat} {con : Option Nat} {users u₁ u₂ : Users} {is : List ProcInput} {ph : Phase}
      {i : ProcInput} : History h n →
    procRun { h with mysql := con } users .enter is = some (h₁, u₁, ph) →
    h₁.procStep u₁ ph i = some (.next h₂ u₂ .done false) → History h₂ (n + 1)
  | closed {h h₁ h₂ : HttpHandler} {n : Nat} {con : Option Nat} {users u₁ u₂ : Users} {is : List ProcInput}
      {ph : Phase} {i : ProcInput} (sockfd : Int) (timer : Option Nat) (type : ClientType) (content : Option Ssl) :
    History h n →
    procRun { h with mysql := con } users .enter is = some (h₁, u₁, ph) →
    h₁.procStep u₁ ph i = some (.next h₂ u₂ .done true) →
    History (h₂.closeFields.init sockfd timer type content) (n + 1)

/-- Every request served has left an iovec behind in the count. -/
private theorem History.counted {h : HttpHandler} {n : Nat} (hh : History h n) : n ≤ h.ivCount ∧ h.writeIdx = 0 := by
  have served : ∀ {h h₁ h₂ : HttpHandler} {n : Nat} {con : Option Nat} {users u₁ u₂ : Users} {is : List ProcInput}
      {ph : Phase} {i : ProcInput} {close : Bool}, n ≤ h.ivCount ∧ h.writeIdx = 0 →
      procRun { h with mysql := con } users .enter is = some (h₁, u₁, ph) →
      h₁.procStep u₁ ph i = some (.next h₂ u₂ .done close) → n + 1 ≤ h₂.ivCount := by
    rintro h h₁ h₂ n con users u₁ u₂ is ph i close ⟨hn, hw⟩ hr hs
    have hc : Counted h.toWriter { h with mysql := con } .enter := rfl
    exact Nat.lt_of_le_of_lt hn ((hc.run hw hr).step hw hs)
  induction hh with
  | fresh => exact ⟨Nat.le_refl _, rfl⟩
  | reconnect _ _ _ _ _ ih => exact ⟨ih.1, rfl⟩
  | kept _ hr hs ih =>
    refine ⟨served ih hr hs, ?_⟩
    cases procStep_cases hs with
    | finish hw =>
      obtain ⟨-, w, rfl, -⟩ := writeStep_finished hw
      rfl
  | closed _ _ _ _ _ hr hs ih =>
    have := served ih hr hs
    exact ⟨this, rfl⟩

/-- Before its first request a handler differs from a fresh one in the connection only. -/
private theorem History.first {h : HttpHandler} (hh : History h 0) :
    h.toParser = Parser.zero.init_ ∧ h.toResource = Resource.zero.init_ ∧ h.toWriter = Writer.zero.init_ := by
  generalize hn : 0 = n at hh
  induction hh with
  | fresh => exact ⟨rfl, rfl, rfl⟩
  | reconnect _ _ _ _ _ ih =>
    obtain ⟨h1, h2, h3⟩ := ih hn
    have e1 := congrArg Parser.init_ h1
    have e2 := congrArg Resource.init_ h2
    have e3 := congrArg Writer.init_ h3
    exact ⟨e1, e2, e3⟩
  | kept => cases hn
  | closed => cases hn

/-! ### The response to the next request -/

/-- What there is to see of a request: what was parsed, and what is handed to the write call. -/
structure Observation where
  parsed : Parser
  iv : List IoVec
  ivCount : Nat
  response : Option (List Byte)

def observe (h : HttpHandler) : Observation :=
  { parsed := h.toParser, iv := [h.iv0, h.iv1].take h.ivCount, ivCount := h.ivCount, response := h.offer }

/-- The handler, given the connection `con` of the pool, receives the request `bs` and prepares its response. -/
def respond (h : HttpHandler) (con : Option Nat) (users : Users) (env : Env) (errno : Errno) (bs : List Byte) :
    Option Observation := do
  let p ← h.toParser.receive bs
  let (ret, h, _) ← HttpHandler.parse { h with mysql := con, toParser := p } users env errno
  let (_, h) ← h.writeToBuffer_ ret
  return h.observe

/-- What is to be seen of a request that is answered. -/
private theorem respond_eq_some {h : HttpHandler} {con : Option Nat} {users : Users} {env : Env} {errno : Errno}
    {bs : List Byte} {o : Observation} (hw : h.writeIdx = 0) (ho : h.respond con users env errno bs = some o) :
    ∃ (ret : HttpState) (h' : HttpHandler), Answer ret ∧ o = h'.observe ∧
      Prepared h.toWriter h'.linger h'.toResource ret h'.toWriter := by
  unfold respond at ho
  obtain ⟨p, -, ho⟩ := Option.bind_eq_some_iff.1 ho
  obtain ⟨⟨ret, h₁, u⟩, hp, ho⟩ := Option.bind_eq_some_iff.1 ho
  obtain ⟨⟨ok, h₂⟩, hb, ho⟩ := Option.bind_eq_some_iff.1 ho
  cases ho
  have ha := parse_answer hp
  have hw₁ : h₁.toWriter = h.toWriter := (parse_toWriter hp :)
  obtain ⟨-, hr, he⟩ := writeToBuffer_counted (by rw [hw₁]; exact hw) ha hb
  refine ⟨ret, h₂, ha, rfl, ?_⟩
  rw [hw₁] at hr
  rw [he]
  exact hr

/-- The connection a handler belongs to has no part in the response. -/
private theorem respond_congr {h f : HttpHandler} {con : Option Nat} {users : Users} {env : Env} {errno : Errno}
    {bs : List Byte} (h1 : h.toParser = f.toParser) (h2 : h.toResource = f.toResource) (h3 : h.toWriter = f.toWriter) :
    h.respond con users env errno bs = f.respond con users env errno bs := by
  obtain ⟨oh, ph, rh, wh⟩ := h
  obtain ⟨of, pf, rf, wf⟩ := f
  dsimp only at h1 h2 h3
  subst h1 h2 h3
  unfold respond parse writeToBuffer_
  cases hp : ph.receive bs with
  | none => rfl
  | some p =>
    simp only [Option.bind_eq_bind, Option.bind_some]
    cases hq : p.parse_ errno with
    | none => rfl
    | some x =>
      obtain ⟨e, q, _⟩ := x
      cases e with
      | outOfFuel => rfl
      | returns ret =>
        simp only [Option.bind_some, Option.pure_def]
        cases wh.writeToBuffer_ q.linger rh ret <;> rfl
      | doRequest =>
        simp only [Option.bind_some]
        cases doRequest_ env con users q rh with
        | none => rfl
        | some y =>
          obtain ⟨ret, q', r', _⟩ := y
          simp only [Option.bind_some, Option.pure_def]
          cases wh.writeToBuffer_ q'.linger r' ret <;> rfl

/-- The response to a later request differs from the response of a fresh handler: it is offered with more iovecs,
or with as many of them over another text. -/
private theorem respond_ne {h f : HttpHandler} {con : Option Nat} {users : Users} {env : Env} {errno : Errno}
    {bs : List Byte} {o : Observation} (hw : h.writeIdx = 0) (hc : 0 < h.ivCount) (fw : f.toWriter = Writer.zero.init_)
    (hf : f.respond con users env errno bs = some o) : h.respond con users env errno bs ≠ some o := by
  intro ho
  obtain ⟨ret, f', ha, rfl, hr⟩ := respond_eq_some (by rw [fw]; rfl) hf
  obtain ⟨ret', h', ha', he, hr'⟩ := respond_eq_some hw ho
  have hfc : f.ivCount = 0 := by rw [fw]; rfl
  have hcount : f'.ivCount = h'.ivCount := congrArg Observation.ivCount he
  have hiv : [f'.iv0, f'.iv1].take f'.ivCount = [h'.iv0, h'.iv1].take h'.ivCount := congrArg Observation.iv he
  have hparsed : f'.toParser = h'.toParser := congrArg Observation.parsed he
  by_cases hm : MapsFile f'.toResource ret
  · have hfc' := (hr.withFile hm).2.1
    by_cases hm' : MapsFile h'.toResource ret'
    · have := (hr'.withFile hm').2.1
      omega
    · have := (hr'.withoutFile hm').2.1
      have hlt := bufferText_lt f'.linger ha' hm hm'
      have h2 : f'.ivCount = 2 := by omega
      rw [← hcount, h2] at hiv
      have hlen : f'.iv0.len = h'.iv0.len := congrArg IoVec.len (List.cons.inj hiv).1
      rw [hr.iv0, hr'.iv0] at hlen
      dsimp only at hlen
      rw [hr.writeIdx, hr'.writeIdx, ← hparsed] at hlen
      omega
  · have hfc' := (hr.withoutFile hm).2.1
    have := hr'.lt_ivCount
    omega

/-- A handler answers a request as a fresh one would exactly when it is its first request, or when a fresh handler
has no answer. -/
theorem independent_iff {h : HttpHandler} {n : Nat} (hh : History h n) (sockfd : Int) (timer : Option Nat)
    (type : ClientType) (content : Option Ssl) (con : Option Nat) (users : Users) (env : Env) (errno : Errno)
    (bs : List Byte) :
    (∀ o, (fresh sockfd timer type content).respond con users env errno bs = some o →
        h.respond con users env errno bs = some o) ↔
      n = 0 ∨ (fresh sockfd timer type content).respond con users env errno bs = none := by
  constructor
  · intro hind
    by_contra hne
    rw [not_or] at hne
    obtain ⟨o, ho⟩ := Option.ne_none_iff_exists'.1 hne.2
    obtain ⟨hn, hw⟩ := hh.counted
    exact respond_ne hw (by omega) rfl ho (hind o ho)
  · rintro (rfl | hnone) o ho
    · obtain ⟨h1, h2, h3⟩ := hh.first
      rw [← ho]
      exact respond_congr h1 h2 h3
    · rw [hnone] at ho
      cases ho

/-- The handler after a response whose connection is kept alive. -/
def keptAlive : ProcResult → Option HttpHandler
  | .next h _ .done false => some h
  | _ => none

private theorem keptAlive_eq_some {r : ProcResult} {h : HttpHandler} (hr : keptAlive r = some h) :
    ∃ users, r = .next h users .done false := by
  unfold keptAlive at hr
  split at hr
  · cases hr
    exact ⟨_, rfl⟩
  · cases hr

private theorem badRequest_served : ∃ h, History h 1 ∧
    (h.respond none (fun _ => none) noFiles .eagain (lit "x")).map (·.ivCount) = some 2 := by
  have hrun : ((procRun { fresh 5 none .httpClient none with mysql := none } (fun _ => none) .enter badRequest).bind
      fun x => (x.1.procStep x.2.1 x.2.2 (.wrote (.count 138))).bind fun r => (keptAlive r).bind fun h =>
        (h.respond none (fun _ => none) noFiles .eagain (lit "x")).map (·.ivCount)) = some 2 := by decide +kernel
  obtain ⟨⟨h₁, u₁, ph⟩, hr, hx⟩ := Option.bind_eq_some_iff.1 hrun
  obtain ⟨r, hs, hx⟩ := Option.bind_eq_some_iff.1 hx
  obtain ⟨h₂, hk, hx⟩ := Option.bind_eq_some_iff.1 hx
  obtain ⟨u₂, rfl⟩ := keptAlive_eq_some hk
  exact ⟨h₂, .kept (.fresh 5 none .httpClient none) hr hs, hx⟩

theorem independent_iff_badRequest : ∃ h, History h 1 ∧
    ((∀ o, (fresh 5 none .httpClient none).respond none (fun _ => none) noFiles .eagain (lit "x") = some o →
        h.respond none (fun _ => none) noFiles .eagain (lit "x") = some o) ↔
      1 = 0 ∨ (fresh 5 none .httpClient none).respond none (fun _ => none) noFiles .eagain (lit "x") = none) := by
  obtain ⟨h, hh, -⟩ := badRequest_served
  exact ⟨h, hh, independent_iff hh 5 none .httpClient none none (fun _ => none) noFiles .eagain (lit "x")⟩

/-- The page for the second malformed request is offered with two iovecs. -/
theorem secondRequest_differs : ∃ h, History h 1 ∧
    ∃ o, (fresh 5 none .httpClient none).respond none (fun _ => none) noFiles .eagain (lit "x") = some o ∧
      o.ivCount = 1 ∧ h.respond none (fun _ => none) noFiles .eagain (lit "x") ≠ some o := by
  obtain ⟨h, hh, h2⟩ := badRequest_served
  have hf : ((fresh 5 none .httpClient none).respond none (fun _ => none) noFiles .eagain (lit "x")).map
      (·.ivCount) = some 1 := by decide +kernel
  obtain ⟨o, ho, h1⟩ := Option.map_eq_some_iff.1 hf
  refine ⟨h, hh, o, ho, h1, fun he => ?_⟩
  rw [he, Option.map_some, h1] at h2
  cases h2

end HttpHandler

end ImageServer
