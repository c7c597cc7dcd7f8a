import ImageServer.Http.FormReply
import ImageServer.Server.Isolation
import ImageServer.Server.Serving

/-!
# What a connection is answered

A worker serves a handler that `init` has set up, as long as nobody has touched its slot since the connection was
accepted; so `process_replies` and `process_answersForm` should hold of it although the event loop and the other
workers go on between its calls, with the accounts of the moment it calls `do_request_`.  To say so a run is recorded:
`Progress` is what the calls of one request have come to so far, and an `Exchange` is a request whose first write call
has sent bytes.

In every run that keeps connections apart, what is sent is the reply to exactly the bytes that were received on that
connection (`answered_run`).  Later write calls are left out: after a short write or `EAGAIN` the bytes offered are
not those that are left.
-/

namespace ImageServer

open Transition CLib

/-- What is recorded of the request of a worker: the connections its bytes were read from, the results of `recv`, what
`parse_` has found in the system and in the accounts, and whether a write call has been made. -/
structure Progress where
  sources : List (Option Nat)
  results : List RecvResult
  parsed : Option (Env × Errno × Users)
  called : Bool

/-- A first write call that has sent bytes: its connection, the request, and the bytes. -/
structure Exchange where
  conn : Option Nat
  request : Progress
  sent : List Byte

namespace Progress

/-- At the start of `process()`. -/
def begun : Progress := { sources := [], results := [], parsed := none, called := false }

/-- A step of `process()`, with its calls on the connection `io`, and the accounts before it. -/
def record (p : Progress) (io : Option Nat) (users : Users) : Phase → ProcInput → Progress
  | .reading _, .recv r =>
    { p with
      sources := if (ProcInput.recv r).transfers then p.sources ++ [io] else p.sources, results := p.results ++ [r] }
  | .parse, .parse env errno => { p with parsed := some (env, errno, users) }
  | .writing _, .wrote _ => { p with called := true }
  | _, _ => p

/-- What such a step on the handler `h` shows. -/
def exchange (p : Progress) (io : Option Nat) (h : HttpHandler) : Phase → ProcInput → List Exchange
  | .writing _, .wrote (.count n) => if p.called then [] else [⟨io, p, (h.offer.getD []).take n⟩]
  | _, _ => []

/-- The judgement on what `read_` has assembled. -/
def judgement (p : Progress) (errno : Errno) : Judgement :=
  judge (Held.ofResults p.results).idx errno (Held.ofResults p.results).text

/-- The reply to the request is as `P` says, unless a name, a form or a file is too long. -/
def Replies (p : Progress) (P : List Byte → Prop) : Prop :=
  ∃ env errno users, p.parsed = some (env, errno, users) ∧ (RootFits env.rootPath → env.FilesFit →
    ((p.judgement errno).Ordinary → ∃ bs, (p.judgement errno).reply env = some bs ∧ P bs) ∧
    ∀ action name password, (p.judgement errno).Submits env action name password → FormText action name password →
      P ((p.judgement errno).formReply env users action name password))

private theorem Replies.imp {p : Progress} {P Q : List Byte → Prop} (h : p.Replies P) (hPQ : ∀ bs, P bs → Q bs) :
    p.Replies Q := by
  obtain ⟨env, errno, users, hparsed, h⟩ := h
  refine ⟨env, errno, users, hparsed, fun hroot henv => ⟨fun hj => ?_, fun action name password hj ht => ?_⟩⟩
  · obtain ⟨bs, hbs, hP⟩ := (h hroot henv).1 hj
    exact ⟨bs, hbs, hPQ bs hP⟩
  · exact hPQ _ ((h hroot henv).2 action name password hj ht)

end Progress

/-- All the bytes of the request were received on the connection, and what is sent there is the reply, as far as the
write call has got. -/
structure Exchange.Correct (x : Exchange) : Prop where
  conn : x.conn ≠ none
  sources : ∀ c ∈ x.request.sources, c = x.conn
  reply : x.request.Replies fun bs => x.sent <+: bs

namespace Server

/-- The record of a step from `s`, and what it shows. -/
def record (s : Server) (progress : Nat → Progress) : Label → (Nat → Progress) × List Exchange
  | .getConnection w => (Function.update progress w .begun, [])
  | .process w i =>
    match s.workers[w]? with
    | some (.processing job _ ph) =>
      let h := s.users_ job.slot
      (Function.update progress w ((progress w).record (s.ioConn h) s.accounts ph i),
        (progress w).exchange (s.ioConn h) h ph i)
    | _ => (progress, [])
  | _ => (progress, [])

end Server

/-- A server, what is recorded of the requests of its workers, and the exchanges so far. -/
structure Recorded where
  server : Server
  progress : Nat → Progress
  exchanges : List Exchange

/-- The recorded server when `testing_` is called. -/
def Setup.recorded (c : Setup) : Recorded := { server := c.start, progress := fun _ => .begun, exchanges := [] }

/-- The process ends without a meaning. -/
def Stop.isUndefined : Stop → Bool
  | .exited => false
  | .undefined _ => true

/-- A step of the server, with its record unless it is undefined. -/
def Recorded.step (rm : RemoveFd) (R : Recorded) (l : Label) : Option Recorded :=
  (R.server.step rm l).map fun s' =>
    if s'.stop.any Stop.isUndefined then { R with server := s' }
    else
      { server := s', progress := (R.server.record R.progress l).1
        exchanges := R.exchanges ++ (R.server.record R.progress l).2 }

/-! ### One request -/

/-- No name has been looked up and no response prepared since `init_`. -/
structure Blank (h : HttpHandler) : Prop where
  realFile : h.realFile = CharArray.zeros _
  writeIdx : h.writeIdx = 0

/-- The handler is as `init_` has left it. -/
def Untouched (h : HttpHandler) : Prop := (⟨[], 0⟩ : Held).In h ∧ Blank h

private theorem untouched_init (h : HttpHandler) (sockfd : Int) (timer : Option Nat) (type : ClientType)
    (content : Option Ssl) : Untouched (h.init sockfd timer type content) :=
  ⟨.init _, rfl, rfl⟩

/-- Where a request is, by the position of its worker. -/
def Progress.Stage (p : Progress) (h : HttpHandler) : Phase → Prop
  | .enter => p.called = false ∧ p.results = [] ∧ Untouched h
  | .reading _ => p.called = false ∧ (p.results.foldl Held.add ⟨[], 0⟩).In h ∧ Blank h
  | .parse => p.called = false ∧ (Held.ofResults p.results).In h ∧ Blank h
  | .prepare ret => p.called = false ∧ h.writeIdx = 0 ∧ p.Replies (Promised h ret)
  | .writing _ => p.called = false → p.Replies fun bs => h.offer ≠ none → h.offer = some bs
  | .done => True

section Congr

variable {h h' : HttpHandler}

private theorem Held.In.congr {x : Held} (hx : x.In h) (hi : h'.toParser = h.toParser) : x.In h' :=
  ⟨hi ▸ hx.facing, hx.le, hi ▸ hx.fresh⟩

private theorem Promised.congr {ret : HttpState} {bs : List Byte} (hp : Promised h ret bs)
    (hp' : h'.toParser = h.toParser) (hr : h'.toResource = h.toResource) : Promised h' ret bs := by
  have hl : h'.linger = h.linger := congrArg Parser.linger hp'
  have hs : h'.fileStat = h.fileStat := congrArg Resource.fileStat hr
  have ha : h'.fileAddress = h.fileAddress := congrArg Resource.fileAddress hr
  cases hp with
  | page hans hret => exact hl ▸ .page hans hret
  | file hstat haddr hne hrange => exact hl ▸ .file (hs.trans hstat) (ha.trans haddr) hne (hl ▸ hrange)

private theorem Blank.congr (hb : Blank h) (hi : h'.inner = h.inner) : Blank h' :=
  ⟨(congrArg (fun x => x.2.1.realFile) hi).trans hb.realFile,
    (congrArg (fun x => x.2.2.writeIdx) hi).trans hb.writeIdx⟩

private theorem Untouched.congr (hu : Untouched h) (hi : h'.inner = h.inner) : Untouched h' :=
  ⟨hu.1.congr (congrArg Prod.fst hi), hu.2.congr hi⟩

/-- The stage of a request is that of the fields nobody else changes. -/
private theorem Progress.Stage.congr {p : Progress} {ph : Phase} (hs : p.Stage h ph) (hi : h'.inner = h.inner) :
    p.Stage h' ph := by
  have hp : h'.toParser = h.toParser := congrArg Prod.fst hi
  have hr : h'.toResource = h.toResource := congrArg (fun x => x.2.1) hi
  have hw : h'.toWriter = h.toWriter := congrArg (fun x => x.2.2) hi
  have ho : h'.offer = h.offer := by
    rw [HttpHandler.offer, hw, show h'.fileAddress = h.fileAddress from congrArg Resource.fileAddress hr]
    rfl
  cases ph with
  | enter => exact ⟨hs.1, hs.2.1, hs.2.2.congr hi⟩
  | reading => exact ⟨hs.1, hs.2.1.congr hp, hs.2.2.congr hi⟩
  | parse => exact ⟨hs.1, hs.2.1.congr hp, hs.2.2.congr hi⟩
  | prepare ret =>
    exact ⟨hs.1, (congrArg Writer.writeIdx hw).trans hs.2.1, hs.2.2.imp fun bs hbs => hbs.congr hp hr⟩
  | writing =>
    intro hc
    rw [ho]
    exact hs hc
  | done => trivial

end Congr

/-- What is promised is offered, as long as nothing an earlier response has left behind is offered with it: there are
two iovecs, and a handler that has counted one before has room for a page only. -/
private theorem Promised.offers {h h' : HttpHandler} {ret : HttpState} {bs : List Byte} (hp : Promised h ret bs)
    (hidx : h.writeIdx = 0) (hl : h.offersLeftover (.prepare ret) = false)
    (hb : h.writeToBuffer_ ret = some (true, h')) (ho : h'.offer ≠ none) : h'.offer = some bs := by
  rcases Nat.eq_zero_or_pos h.ivCount with hiv | hiv
  · obtain ⟨w, hw, hoffer⟩ := hp.prepared hidx hiv
    cases hb.symm.trans hw
    exact hoffer
  · obtain ⟨⟨ok, w⟩, hw, heq⟩ := Option.map_eq_some_iff.1 hb
    cases heq
    have hle : w.ivCount ≤ 2 := by
      by_contra hgt
      obtain ⟨k, hk⟩ := Nat.exists_eq_add_of_lt (Nat.lt_of_not_le hgt)
      refine ho ?_
      unfold HttpHandler.offer offered
      rw [show w.ivCount = k + 3 by omega]
      rfl
    rcases Writer.writeToBuffer_iv hw with ⟨-, -, hcount⟩ | ⟨hpage, hiv1, hcount⟩
    · have : w.ivCount = h.ivCount + 2 := hcount
      omega
    · have hone : h.ivCount = 1 := by
        have : w.ivCount = h.ivCount + 1 := hcount
        omega
      have htwo : w.ivCount = 2 := by
        rw [hcount]
        exact congrArg (· + 1) hone
      cases hp with
      | page ha hret =>
        obtain ⟨w', hw', hprep⟩ := Writer.writeToBuffer_prepared h.linger h.toResource hidx ha
        cases hw.symm.trans hw'
        have hlen : w.iv1.len = 0 := by
          by_contra hlen
          have hlive : w.iv1.base.isLive = true := HttpHandler.isLive_of_offer ho htwo hlen
          rw [hiv1] at hlen hlive
          simp [HttpHandler.offersLeftover, hpage, hone, hlen, hlive] at hl
        have hempty : w.iv1.bytes w h.fileAddress = some [] := by rw [IoVec.bytes, if_pos hlen]
        show offered w h.fileAddress = _
        unfold offered
        rw [htwo]
        show (w.iv0.bytes w h.fileAddress).bind _ = _
        rw [hprep.iv0_bytes ha, Option.bind_some, hempty, Option.map_some, List.append_nil]
        exact congrArg some (Writer.bufferText_congr fun h => absurd h hret)
      | file hstat _ hne _ =>
        refine absurd ⟨rfl, ?_⟩ hpage
        rw [show h.toResource.fileStat.size = _ from congrArg FileStat.size hstat]
        exact fun h0 => hne (List.length_eq_zero_iff.1 h0)

/-- A step of `process()`. -/
private theorem Progress.Stage.step {p : Progress} {h h' : HttpHandler} {users users' : Users} {ph ph' : Phase}
    {i : ProcInput} {close : Bool} (io : Option Nat) (hs : HttpHandler.ProcStep h users ph i h' users' ph' close)
    (hst : p.Stage h ph) (hl : h.offersLeftover ph = false) : (p.record io users ph i).Stage h' ph' := by
  cases hs with
  | full hfull =>
    obtain ⟨-, -, hx, -⟩ := hst
    rw [hx.facing.readIdx] at hfull
    exact absurd hfull (by decide)
  | enter =>
    obtain ⟨hc, hrs, hx, hb⟩ := hst
    refine ⟨hc, ?_, hb⟩
    show (p.results.foldl Held.add ⟨[], 0⟩).In _
    rw [hrs]
    exact hx
  | data _ hp =>
    obtain ⟨hc, hx, hb⟩ := hst
    refine ⟨hc, ?_, hb.realFile, hb.writeIdx⟩
    show ((p.results ++ [_]).foldl Held.add ⟨[], 0⟩).In _
    rw [List.foldl_append]
    exact hx.data hp
  | eof | fail | triedOut =>
    obtain ⟨hc, hx, hb⟩ := hst
    refine ⟨hc, ?_, hb⟩
    show (Held.ofResults (p.results ++ [_])).In _
    rw [Held.ofResults, List.dropLast_concat]
    exact hx
  | again =>
    obtain ⟨hc, hx, hb⟩ := hst
    refine ⟨hc, ?_, hb.realFile, hb.writeIdx⟩
    show ((p.results ++ [_]).foldl Held.add ⟨[], 0⟩).In _
    rw [List.foldl_append]
    exact hx.again
  | @parse env errno ret _ _ hp =>
    obtain ⟨hc, hx, hb⟩ := hst
    have hidx : h'.writeIdx = 0 := by
      obtain ⟨q, r, rfl⟩ := HttpHandler.parse_frame hp
      exact hb.writeIdx
    refine ⟨hc, hidx, env, errno, users, rfl, fun hroot henv => ⟨fun hj => ?_, fun action name password hj ht => ?_⟩⟩
    · obtain ⟨ret₁, h₁, bs, hp₁, -, hprom, hreply, -⟩ :=
        HttpHandler.promised_of_held users hx hb.realFile hj hroot henv
      cases hp.symm.trans hp₁
      exact ⟨bs, hreply, hprom⟩
    · obtain ⟨ret₁, h₁, hp₁, -, -, hprom⟩ := HttpHandler.promised_of_form hx hb.realFile hj ht hroot henv
        fun ha hn => HttpHandler.mysql_of_parse hx hj ht hp ha hn
      cases hp.symm.trans hp₁
      exact hprom
  | prepare hb =>
    obtain ⟨-, hidx, hrep⟩ := hst
    exact fun _ => hrep.imp fun bs hprom => hprom.offers hidx hl hb
  | write => exact fun hc => by cases hc
  | refuse | finish | close => trivial

/-- What the step shows is the reply. -/
private theorem Progress.Stage.exchange {p : Progress} {h h' : HttpHandler} {users users' : Users} {ph ph' : Phase}
    {i : ProcInput} {close : Bool} {io : Option Nat} (hs : HttpHandler.ProcStep h users ph i h' users' ph' close)
    (hst : p.Stage h ph) (hsrc : ∀ c ∈ p.sources, c = io) (hio : i.transfers = true → io ≠ none) :
    ∀ x ∈ p.exchange io h ph i, x.Correct := by
  have wrote : ∀ {newadd : Int} {r : WriteResult}, h.offer ≠ none → p.Stage h (.writing newadd) →
      (ProcInput.transfers (.wrote r) = true → io ≠ none) →
      ∀ x ∈ p.exchange io h (.writing newadd) (.wrote r), x.Correct := by
    intro newadd r ho hst hio x hx
    cases r with
    | count n =>
      rw [Progress.exchange] at hx
      split at hx
      · cases hx
      · rename_i hc
        rw [List.mem_singleton.1 hx]
        refine ⟨hio rfl, hsrc, (hst (Bool.eq_false_of_not_eq_true hc)).imp fun bs hbs => ?_⟩
        rw [hbs ho]
        exact List.take_prefix n bs
    | zero | again | fail => cases hx
  cases hs with
  | full | enter | data | eof | fail | triedOut | again | parse | prepare | refuse => exact fun x hx => by cases hx
  | write _ ho => exact wrote ho hst hio
  | finish _ ho => exact wrote ho hst hio
  | close _ ho => exact wrote ho hst hio

private theorem Progress.record_sources {p : Progress} {io c : Option Nat} {users : Users}
    (hp : ∀ b ∈ p.sources, b = c) (ph : Phase) {i : ProcInput} (hio : i.transfers = true → io = c) :
    ∀ b ∈ (p.record io users ph i).sources, b = c := by
  unfold record
  split
  · dsimp only
    split
    · intro b hb
      rcases List.mem_append.1 hb with hb | hb
      · exact hp b hb
      · rw [List.mem_singleton.1 hb]
        exact hio ‹_›
    · exact hp
  · exact hp
  · exact hp
  · exact hp

/-! ### Steps of the server -/

namespace Server

/-- Until a worker enters `process()` the handler of a connection is untouched, and from then on the request is where
its record says. -/
def recordedProps (progress : Nat → Progress) : RequestProps where
  waits := Untouched
  stage := fun w job ph h => ph ≠ .done → (∀ c ∈ (progress w).sources, c = job.conn) ∧ (progress w).Stage h ph
  waits_congr := fun hi hu => hu.congr hi
  stage_congr := fun hi hst hph => ⟨(hst hph).1, (hst hph).2.congr hi⟩
  stage_done := fun hph => absurd rfl hph

/-- The invariant, on top of `OneRequest`. -/
abbrev Answering (s : Server) (progress : Nat → Progress) : Prop := s.Serving (recordedProps progress)

private theorem record_process {s : Server} {progress : Nat → Progress} {w : Nat} {i : ProcInput} {job : Job}
    {held : Option Nat} {ph : Phase} (hw : s.workers[w]? = some (.processing job held ph)) :
    s.record progress (.process w i) =
      (Function.update progress w ((progress w).record (s.ioConn (s.users_ job.slot)) s.accounts ph i),
        (progress w).exchange (s.ioConn (s.users_ job.slot)) (s.users_ job.slot) ph i) := by
  unfold record
  simp only [hw]

/-- The record of a worker is that of its own steps. -/
private theorem record_others (s : Server) (progress : Nat → Progress) {l : Label} {k : Nat} (hk : l.worker ≠ some k) :
    (s.record progress l).1 k = progress k := by
  unfold record
  split
  · exact Function.update_of_ne (fun he => hk (congrArg some he.symm)) ..
  · split
    · exact Function.update_of_ne (fun he => hk (congrArg some he.symm)) ..
    · rfl
  · rfl

/-- A step that keeps connections apart. -/
private theorem OneRequest.servesRecorded {s : Server} {progress : Nat → Progress} {l : Label} (h1 : OneRequest s)
    (hk : s.KeepsApart l) : Serves (recordedProps progress) (recordedProps (s.record progress l).1) s l where
  waits := fun h hu => hu
  others := by
    intro k job ph h hl hst hph
    rw [record_others s progress hl]
    exact hst hph
  init := fun fd timer type content _ _ => untouched_init ..
  begins := by
    rintro w job h rfl hu -
    show (∀ c ∈ (Function.update progress w .begun w).sources, c = job.conn) ∧ _
    rw [show (s.record progress (.getConnection w)).1 w = .begun from Function.update_self ..,
      Function.update_self]
    exact ⟨fun c hc => (by cases hc), rfl, rfl, hu⟩
  goesOn := by
    rintro w i job held ph ph' hd users close rfl hw hj ha hp hst -
    have hph : ph ≠ .done := by
      rintro rfl
      cases hp
    obtain ⟨hsrc, hst⟩ := hst hph
    rw [record_process hw]
    show (∀ c ∈ (Function.update progress w _ w).sources, c = job.conn) ∧ (Function.update progress w _ w).Stage hd ph'
    rw [Function.update_self]
    exact ⟨Progress.record_sources hsrc ph fun ht => h1.ioConn hj ha ht,
      hst.step _ hp (hk.2 (job, ph, i) (by simp [serves, hw]))⟩

/-- A call that transfers bytes is made on a connection. -/
private theorem ioConn_ne_none {s : Server} {h : HttpHandler} {i : ProcInput} (ha : s.Answered h i)
    (ht : i.transfers = true) : s.ioConn h ≠ none := by
  have key : ∀ {c : Conn}, c ∈ s.conns → h.ioFd = some (c.fd : Int) → s.ioConn h ≠ none := by
    intro c hc hio hnone
    rw [ioConn, hio, Option.bind_some, Option.map_eq_none_iff, List.find?_eq_none] at hnone
    exact hnone c hc (by simp)
  cases i with
  | tau | parse => cases ht
  | recv r =>
    cases r with
    | data bs =>
      obtain ⟨c, hc, hio⟩ := ha.resolve_left (by simp)
      exact key hc hio
    | eof | again | fail => cases ht
  | wrote r =>
    cases r with
    | count n =>
      obtain ⟨c, hc, hio⟩ := ha.resolve_left (by simp)
      exact key hc hio
    | zero | again | fail => cases ht

/-- What a step that is not undefined shows is correct. -/
private theorem Answering.exchange {rm : RemoveFd} {s s' : Server} {progress : Nat → Progress} {l : Label}
    (h : Answering s progress) (h1 : OneRequest s) (hs : s.step rm l = some s')
    (hstop : s'.stop.any Stop.isUndefined = false) : ∀ x ∈ (s.record progress l).2, x.Correct := by
  cases l with
  | epollWait | dispatch | take | getConnection | releaseConnection => exact fun x hx => by cases hx
  | process w i =>
    have hproc : ∃ job held ph, s.workers[w]? = some (.processing job held ph) ∧
        s.Answered (s.users_ job.slot) i ∧ ∃ h' users ph' close,
          HttpHandler.ProcStep (s.users_ job.slot) s.accounts ph i h' users ph' close := by
      obtain ⟨-, ⟨why, hr, rfl⟩ | ⟨hr, -⟩⟩ := step_cases hs
      · obtain ⟨job, held, ph, hw, ⟨-, he⟩ | ⟨-, ha, ⟨-, he⟩ | ⟨h', users, ph', close, hp, -⟩⟩⟩ :=
          processStep_result hr
        · cases he
          cases hstop
        · cases he
          cases hstop
        · exact ⟨job, held, ph, hw, ha, h', users, ph', close, hp⟩
      · obtain ⟨job, held, ph, hw, ⟨-, he⟩ | ⟨-, ha, ⟨-, he⟩ | ⟨h', users, ph', close, hp, -⟩⟩⟩ :=
          processStep_result hr
        · cases he
        · cases he
        · exact ⟨job, held, ph, hw, ha, h', users, ph', close, hp⟩
    obtain ⟨job, held, ph, hw, ha, h', users, ph', close, hp⟩ := hproc
    have hph : ph ≠ .done := by
      rintro rfl
      cases hp
    obtain ⟨hsrc, hst⟩ := h.stages w job held ph hw hph
    have hj : job ∈ s.pending := List.mem_append_right _
      (List.mem_filterMap.2 ⟨_, List.mem_of_getElem? hw, Worker.serving_of_procStep hp⟩)
    rw [record_process hw]
    by_cases ht : i.transfers = true
    · exact hst.exchange hp (h1.ioConn hj ha ht ▸ hsrc) fun _ => ioConn_ne_none ha ht
    · intro x hx
      unfold Progress.exchange at hx
      split at hx
      · exact absurd rfl ht
      · cases hx

end Server

/-! ### Runs -/

/-- The invariant of the recorded server. -/
structure Recorded.Faithful (R : Recorded) : Prop where
  oneRequest : R.server.OneRequest
  answering : R.server.stop = none → R.server.Answering R.progress
  correct : ∀ x ∈ R.exchanges, x.Correct

theorem Recorded.Faithful.step {rm : RemoveFd} {R R' : Recorded} {l : Label} (h : R.Faithful)
    (hk : R.server.KeepsApart l) (hs : R.step rm l = some R') : R'.Faithful := by
  obtain ⟨s', hs', rfl⟩ := Option.map_eq_some_iff.1 hs
  obtain ⟨hrun, hcase⟩ := Server.step_cases hs'
  have hone : s'.OneRequest := by
    rcases hcase with ⟨why, -, rfl⟩ | ⟨-, hstep⟩
    · have hw := h.oneRequest.toWellFormed.of_step hs'
      exact h.oneRequest.mono hw (List.Subperm.refl _) (fun _ hx _ => hx) (List.Sublist.refl _) le_rfl
    · exact h.oneRequest.step hk.1 hstep
  have hans : s'.stop = none → s'.Answering (R.server.record R.progress l).1 := by
    intro hstop
    rcases hcase with ⟨why, -, rfl⟩ | ⟨-, hstep⟩
    · cases hstop
    · exact (h.answering hrun).step h.oneRequest hk.1 (h.oneRequest.servesRecorded hk) hstep
  cases hu : s'.stop.any Stop.isUndefined with
  | true =>
    rw [if_pos rfl]
    refine ⟨hone, fun hstop => ?_, h.correct⟩
    rw [hstop] at hu
    cases hu
  | false =>
    rw [if_neg Bool.false_ne_true]
    refine ⟨hone, hans, fun x hx => ?_⟩
    rcases List.mem_append.1 hx with hx | hx
    · exact h.correct x hx
    · exact (h.answering hrun).exchange h.oneRequest hs' hu x hx

/-- In every run whose steps keep connections apart, a first write call that sends bytes sends the reply to what was
received on that connection, or the start of it. -/
theorem answered_run {rm : RemoveFd} {c : Setup} {ls : List Label} {R : Recorded}
    (h : run (Recorded.step rm) c.recorded ls = some R)
    (hk : Meets (Recorded.step rm) (fun R => R.server.KeepsApart) c.recorded ls) : ∀ x ∈ R.exchanges, x.Correct := by
  have h0 : c.recorded.Faithful :=
    ⟨Server.oneRequest_start c, fun _ => Server.serving_start _ c, fun x hx => by cases hx⟩
  exact (run_invariant (P := Recorded.Faithful) (fun _ _ _ hR hc hs => hR.step hc hs) h0 hk h).correct

/-- One client is sent the page for a bad request, and the next one forty bytes of the reply to `GET /a`. -/
def twoAnswers : List Label :=
  Server.serveBadRequest ++ [.process 0 (.wrote (.count 138)), .releaseConnection 0,
    .epollWait [.input 14 none], .dispatch ⟨3, some 20, .succeeds⟩,
    .epollWait [.input 20 (some 1)], .dispatch ⟨4, none, .succeeds⟩, .take 1, .getConnection 1, .process 1 .tau] ++
    HttpHandler.asksForA.map (fun r => .process 1 (.recv r)) ++
    [.process 1 (.parse (InUse.oneFile (lit "hello")) .eagain), .process 1 .tau, .process 1 (.wrote (.count 40))]

theorem answered_run_twoClients :
    ∃ R, run (Recorded.step .asWritten) Setup.default.recorded twoAnswers = some R ∧
      (R.exchanges.map fun x => (x.conn, x.sent.length)) = [(some 0, 138), (some 1, 40)] ∧
      ∀ x ∈ R.exchanges, x.Correct := by
  have hsent : (run (Recorded.step .asWritten) Setup.default.recorded twoAnswers).map
      (fun R => R.exchanges.map fun x => (x.conn, x.sent.length)) = some [(some 0, 138), (some 1, 40)] := by
    decide +kernel
  obtain ⟨R, hR, hlens⟩ := Option.map_eq_some_iff.1 hsent
  exact ⟨R, hR, hlens, answered_run hR (by decide +kernel)⟩

end ImageServer
