import ImageServer.Http.Response
import ImageServer.Server.Pending

/-!
# Connections that share a slot

A slot is addressed by a descriptor number, and `close` and `init` do not ask whether a worker is still in `process()`
on it.  To say whose request a byte belongs to, a run is traced: `Tags` records for each slot the connections the
bytes in `m_read_buf` were read from, and the requests that `m_write_buf`, `m_file_address` and `m_iv[1]` stand for;
`Observation` is a call of `parse_`, or a write call of `write_to_fd_` that has accepted bytes.  Nothing the server
does depends on them.  As a trace goes on after every `close()`, `remove_fd` is taken to return.

Every observation is isolated as long as no connection is accepted onto a slot that has a request pending, no request
is made of the event of a connection that has been closed, and no page is offered together with what an earlier
response has left behind (`KeepsApart`, `isolated_run`).
-/

namespace ImageServer

open Transition CLib

/-- A request: the connection whose event it is processed for, and those its bytes were read from. -/
structure Source where
  conn : Option Nat
  bytes : List (Option Nat)
deriving DecidableEq

/-- The request was received on the connection `c`. -/
def Source.From (src : Source) (c : Option Nat) : Prop := src.conn = c ∧ ∀ b ∈ src.bytes, b = c

instance (src : Source) (c : Option Nat) : Decidable (src.From c) :=
  inferInstanceAs (Decidable (src.conn = c ∧ ∀ b ∈ src.bytes, b = c))

/-- What is traced of a slot: the connections the bytes in `m_read_buf` and those that were last parsed come from, and
the requests answered in `m_write_buf`, mapped at `m_file_address`, and in `m_iv[1]`. -/
structure Tags where
  read : List (Option Nat)
  parsed : List (Option Nat)
  response : List Source
  file : Source
  iv1 : Source

/-- An unused slot; nothing was read from no connection. -/
def Tags.zero : Tags := { read := [], parsed := [], response := [], file := ⟨none, []⟩, iv1 := ⟨none, []⟩ }

inductive Observation
  /-- a call of `parse_`, and the request -/
  | parsed (src : Source)
  /-- a write call that has accepted bytes on `conn`, with the requests answered in `m_write_buf` and in `m_iv[1]` -/
  | wrote (conn : Option Nat) (buffer second : List Source)
deriving DecidableEq

/-- What is parsed together was read from one connection, for whose event; and what is written to a connection is the
response to requests of that connection. -/
def Observation.Isolated : Observation → Prop
  | .parsed src => src.From src.conn
  | .wrote conn buffer second => buffer ≠ [] ∧ ∀ src ∈ buffer ++ second, src.From conn

/-! ### Tracing -/

/-- `init_` on the slot: both buffers are wiped. -/
def Tags.init_ (t : Tags) : Tags := { t with read := [], response := [] }

/-- A step of `process()` from `h` to `h'` and `ph'`, for an event of `conn`, with its calls on the connection `io`. -/
def Tags.process (t : Tags) (conn io : Option Nat) (h h' : HttpHandler) (ph' : Phase) : Phase → ProcInput → Tags
  | .reading _, .recv (.data bs) => { t with read := t.read ++ List.replicate bs.length io }
  | .parse, .parse _ _ =>
    { t with
      parsed := t.read
      file := if ph' = .prepare .finishedRequest ∨ h'.fileAddress ≠ h.fileAddress then ⟨conn, t.read⟩ else t.file }
  | .prepare ret, .tau =>
    { t with
      response := t.response ++ [⟨conn, t.parsed⟩]
      iv1 := if MapsFile h.toResource ret then t.file else t.iv1 }
  -- the correction of `m_iv` takes `m_file_address`, with a file or without
  | .writing _, .wrote .again => if h.iv0.len ≤ h.bytesHaveSend then { t with iv1 := t.file } else t
  | .writing _, .wrote (.count _) => if ph' = .done ∧ h.linger then t.init_ else t
  | _, _ => t

/-- What such a step shows. -/
def Tags.observe (t : Tags) (conn io : Option Nat) (h : HttpHandler) : Phase → ProcInput → List Observation
  | .parse, .parse _ _ => [.parsed ⟨conn, t.read⟩]
  | .writing _, .wrote (.count _) => [.wrote io t.response (if h.ivCount = 2 ∧ h.iv1.len ≠ 0 then [t.iv1] else [])]
  | _, _ => []

namespace Server

/-- The connection the handler does its calls on. -/
def ioConn (s : Server) (h : HttpHandler) : Option Nat :=
  h.ioFd.bind fun fd => (s.conns.find? fun x => (x.fd : Int) = fd).map Conn.id

/-- The tags and observations of a step from `s` to `s'`. -/
def trace (s s' : Server) (tags : Nat → Tags) (l : Label) : (Nat → Tags) × List Observation :=
  match l with
  | .process w i =>
    match s.workers[w]?, s'.workers[w]? with
    | some (.processing job _ ph), some (.processing _ _ ph') =>
      let h := s.users_ job.slot
      let t := tags job.slot
      (Function.update tags job.slot (t.process job.conn (s.ioConn h) h (s'.users_ job.slot) ph' ph i),
        t.observe job.conn (s.ioConn h) h ph i)
    | _, _ => (tags, [])
  | l =>
    match s.opens l with
    | some fd => (Function.update tags fd (tags fd).init_, [])
    | none => (tags, [])

end Server

/-- A server, the tags of its slots, and what has been observed. -/
structure Traced where
  server : Server
  tags : Nat → Tags
  log : List Observation

/-- The traced server when `testing_` is called. -/
def Setup.traced (c : Setup) : Traced := { server := c.start, tags := fun _ => .zero, log := [] }

/-- A step of the server, with its trace unless it is undefined. -/
def Traced.step (T : Traced) (l : Label) : Option Traced :=
  (T.server.step .returning l).map fun s' =>
    if s'.stop = none then
      { server := s', tags := (T.server.trace s' T.tags l).1, log := T.log ++ (T.server.trace s' T.tags l).2 }
    else { T with server := s' }

/-! ### The condition -/

/-- A live mapping. -/
def FileAddress.isMapped : FileAddress → Bool
  | .mapped _ => true
  | _ => false

/-- An address where there may be something. -/
def Base.isLive : Base → Bool
  | .null => false
  | .writeBuf _ => true
  | .file a _ => a.isMapped

/-- What is prepared is a page, but `m_iv_count` becomes 2 as if there were a file, and an earlier response has left
one in `m_iv[1]` or `m_file_address`. -/
def HttpHandler.offersLeftover (h : HttpHandler) : Phase → Bool
  | .prepare ret =>
    ¬ MapsFile h.toResource ret ∧ h.ivCount = 1 ∧ (h.iv1.len ≠ 0 ∧ h.iv1.base.isLive ∨ h.fileAddress.isMapped)
  | _ => false

namespace Server

/-- The step accepts no connection onto a slot with a request pending, makes no request of the event of a connection
that has been closed, and offers no page together with what an earlier response has left behind. -/
def KeepsApart (s : Server) (l : Label) : Prop :=
  s.KeepsSlots l ∧ ∀ r ∈ s.serves l, (s.users_ r.1.slot).offersLeftover r.2.1 = false

instance (s : Server) (l : Label) : Decidable (s.KeepsApart l) :=
  inferInstanceAs (Decidable (s.KeepsSlots l ∧ ∀ r ∈ s.serves l, (s.users_ r.1.slot).offersLeftover r.2.1 = false))

end Server

/-! ### Steps of `process()` -/

private theorem Tags.process_closeFields (t : Tags) (conn io : Option Nat) (h h' : HttpHandler) (ph ph' : Phase)
    (i : ProcInput) : t.process conn io h h'.closeFields ph' ph i = t.process conn io h h' ph' ph i := by
  unfold process
  split <;> rfl

/-- All that is in the buffers of the slot is of the connection `c`. -/
structure Tags.Clean (t : Tags) (c : Option Nat) : Prop where
  read : ∀ b ∈ t.read, b = c
  response : ∀ src ∈ t.response, src.From c

/-- What is offered besides the write buffer, or will be after `EAGAIN`, is of the connection `c`. -/
def SecondFrom (h : HttpHandler) (t : Tags) (c : Option Nat) : Prop :=
  h.ivCount = 2 → (h.iv1.len ≠ 0 → h.iv1.base.isLive = true → t.iv1.From c) ∧
    (h.fileAddress.isMapped = true → t.file.From c)

/-- What the position of the worker adds: the parsed request is of the connection `c`, and so is the response. -/
def Stage (h : HttpHandler) (t : Tags) (c : Option Nat) : Phase → Prop
  | .prepare ret => (∀ b ∈ t.parsed, b = c) ∧ (ret = .finishedRequest → t.file.From c)
  | .writing _ => t.response ≠ [] ∧ SecondFrom h t c
  | _ => True

private theorem Tags.Clean.init_ (t : Tags) (c : Option Nat) : t.init_.Clean c where
  read := by simp [Tags.init_]
  response := by simp [Tags.init_]

/-- An iovec that has a value is empty or has a live address. -/
private theorem IoVec.isLive_of_bytes {v : IoVec} {w : Writer} {live : FileAddress} (h : v.bytes w live ≠ none)
    (hlen : v.len ≠ 0) : v.base.isLive = true := by
  unfold bytes at h
  rw [if_neg hlen] at h
  split at h
  · exact absurd rfl h
  · rename_i hbase
    rw [hbase]
    rfl
  · rename_i hbase
    rw [hbase]
    rfl
  · exact absurd rfl h

theorem HttpHandler.isLive_of_offer {h : HttpHandler} (ho : h.offer ≠ none) (hc : h.ivCount = 2)
    (hlen : h.iv1.len ≠ 0) : h.iv1.base.isLive = true := by
  have hbytes : h.iv1.bytes h.toWriter h.fileAddress ≠ none := by
    intro hnone
    refine ho ?_
    unfold offer offered
    rw [hc]
    show (h.iv0.bytes h.toWriter h.fileAddress).bind _ = none
    rw [hnone]
    cases h.iv0.bytes h.toWriter h.fileAddress <;> rfl
  exact IoVec.isLive_of_bytes hbytes hlen

/-- A call that has transferred bytes. -/
def ProcInput.transfers : ProcInput → Bool
  | .recv (.data _) => true
  | .wrote (.count _) => true
  | _ => false

/-- `write_to_buffer_` appends a response to a request of the connection. -/
private theorem Tags.Clean.prepare {t : Tags} {c io : Option Nat} {h h' : HttpHandler} {ph' : Phase} {ret : HttpState}
    (ht : t.Clean c) (hp : ∀ b ∈ t.parsed, b = c) : (t.process c io h h' ph' (.prepare ret) .tau).Clean c where
  read := ht.read
  response := by
    intro src hm
    rcases List.mem_append.1 hm with hm | hm
    · exact ht.response src hm
    · rw [List.mem_singleton.1 hm]
      exact ⟨rfl, hp⟩

/-- `write_to_fd_` leaves the buffers or wipes them. -/
private theorem Tags.Clean.write {t : Tags} {c io : Option Nat} {h h' : HttpHandler} {ph' : Phase} {newadd : Int}
    {r : WriteResult} (ht : t.Clean c) : (t.process c io h h' ph' (.writing newadd) (.wrote r)).Clean c := by
  cases r with
  | count n =>
    simp only [process]
    split
    · exact .init_ t c
    · exact ht
  | zero => exact ht
  | again =>
    simp only [process]
    split
    · exact ⟨ht.read, ht.response⟩
    · exact ht
  | fail => exact ht

/-- The response is prepared. -/
private theorem Stage.prepare {h h' : HttpHandler} {t : Tags} {c io : Option Nat} {ret : HttpState}
    (hst : Stage h t c (.prepare ret)) (hl : h.offersLeftover (.prepare ret) = false)
    (hb : h.writeToBuffer_ ret = some (true, h')) :
    Stage h' (t.process c io h h' (.writing 0) (.prepare ret) .tau) c (.writing 0) := by
  obtain ⟨⟨ok, w⟩, hw, heq⟩ := Option.map_eq_some_iff.1 hb
  cases heq
  refine ⟨by simp [Tags.process], fun hcount => ?_⟩
  simp only [Tags.process]
  rcases Writer.writeToBuffer_iv hw with ⟨hmaps, -, -⟩ | ⟨hpage, hiv, hcount'⟩
  · -- both parts are the file of this request
    rw [if_pos hmaps]
    exact ⟨fun _ _ => hst.2 hmaps.1, fun _ => hst.2 hmaps.1⟩
  · -- the count was 1, so nothing may be left behind
    have hone : h.ivCount = 1 := by
      have : w.ivCount = 2 := hcount
      omega
    have hnone : ¬ ((h.iv1.len ≠ 0 ∧ h.iv1.base.isLive = true) ∨ h.fileAddress.isMapped = true) := by
      simpa [HttpHandler.offersLeftover, hpage, hone] using hl
    rw [if_neg hpage]
    refine ⟨fun hlen hlive => absurd (Or.inl ⟨?_, ?_⟩) hnone, fun hm => absurd (Or.inr hm) hnone⟩
    · exact hiv ▸ hlen
    · exact hiv ▸ hlive

/-- An iteration of `write_to_fd_` that goes on. -/
private theorem Stage.write {h h' : HttpHandler} {newadd newadd' : Int} {r : WriteResult} {t : Tags}
    {c io : Option Nat} (hst : Stage h t c (.writing newadd)) (hw : h.writeStep newadd r = .again h' newadd') :
    Stage h' (t.process c io h h' (.writing newadd') (.writing newadd) (.wrote r)) c (.writing newadd') := by
  cases r with
  | count n =>
    unfold HttpHandler.writeStep at hw
    dsimp only at hw
    split at hw
    · split at hw <;> cases hw
    · cases hw
      exact hst
  | zero => cases hw; exact hst
  | again =>
    cases hw
    unfold HttpHandler.adjustIov
    split
    · rename_i hall
      simp only [Tags.process, if_pos hall]
      exact ⟨hst.1, fun hc => ⟨fun _ => (hst.2 hc).2, (hst.2 hc).2⟩⟩
    · rename_i hall
      simp only [Tags.process, if_neg hall]
      exact hst
  | fail => cases hw

/-- A step of `process()` on a slot whose buffers are of the connection it is for. -/
private theorem Stage.step {h h' : HttpHandler} {users users' : Users} {ph ph' : Phase} {i : ProcInput} {close : Bool}
    {t : Tags} {c io : Option Nat} (hs : HttpHandler.ProcStep h users ph i h' users' ph' close) (ht : t.Clean c)
    (hst : Stage h t c ph) (hl : h.offersLeftover ph = false) (hio : i.transfers = true → io = c) :
    (t.process c io h h' ph' ph i).Clean c ∧ Stage h' (t.process c io h h' ph' ph i) c ph' := by
  cases hs with
  | full | enter | eof | fail | triedOut | again => exact ⟨ht, trivial⟩
  | data =>
    refine ⟨⟨fun b hb => ?_, ht.response⟩, trivial⟩
    rcases List.mem_append.1 hb with hb | hb
    · exact ht.read b hb
    · rw [List.eq_of_mem_replicate hb]
      exact hio rfl
  | @parse env errno ret _ _ hp =>
    refine ⟨⟨ht.read, ht.response⟩, ht.read, fun hret => ?_⟩
    simp only [Tags.process, hret, true_or, if_true]
    exact ⟨rfl, ht.read⟩
  | prepare hb => exact ⟨ht.prepare hst.1, Stage.prepare hst hl hb⟩
  | refuse hb => exact ⟨ht.prepare hst.1, trivial⟩
  | write hw ho => exact ⟨ht.write, Stage.write hst hw⟩
  | finish hw ho => exact ⟨ht.write, trivial⟩
  | close hw ho => exact ⟨ht.write, trivial⟩

/-- What the step shows is isolated. -/
private theorem Stage.isolated {h h' : HttpHandler} {users users' : Users} {ph ph' : Phase} {i : ProcInput}
    {close : Bool} {t : Tags} {c io : Option Nat} (hs : HttpHandler.ProcStep h users ph i h' users' ph' close)
    (ht : t.Clean c) (hst : Stage h t c ph) (hio : i.transfers = true → io = c) :
    ∀ o ∈ t.observe c io h ph i, o.Isolated := by
  have wrote : ∀ {newadd : Int} {r : WriteResult}, h.offer ≠ none → Stage h t c (.writing newadd) →
      (ProcInput.transfers (.wrote r) = true → io = c) →
      ∀ o ∈ t.observe c io h (.writing newadd) (.wrote r), o.Isolated := by
    intro newadd r ho hst hio o hm
    cases r with
    | count n =>
      rw [List.mem_singleton.1 hm, hio rfl]
      refine ⟨hst.1, fun src hsrc => ?_⟩
      rcases List.mem_append.1 hsrc with hsrc | hsrc
      · exact ht.response src hsrc
      · split at hsrc
        · rename_i hc
          rw [List.mem_singleton.1 hsrc]
          exact (hst.2 hc.1).1 hc.2 (HttpHandler.isLive_of_offer ho hc.1 hc.2)
        · cases hsrc
    | zero | again | fail => cases hm
  cases hs with
  | full | enter | data | eof | fail | triedOut | again | prepare | refuse => exact fun o hm => by cases hm
  | parse =>
    intro o hm
    rw [List.mem_singleton.1 hm]
    exact ⟨rfl, ht.read⟩
  | write _ ho => exact wrote ho hst hio
  | finish _ ho => exact wrote ho hst hio
  | close _ ho => exact wrote ho hst hio

/-- The fields `Stage` is about. -/
def HttpHandler.response (h : HttpHandler) : Writer × FileAddress := (h.toWriter, h.fileAddress)

private theorem Stage.congr {h h' : HttpHandler} {t : Tags} {c : Option Nat} {ph : Phase} (hst : Stage h t c ph)
    (hr : h'.response = h.response) : Stage h' t c ph := by
  obtain ⟨hw, ha⟩ : h'.toWriter = h.toWriter ∧ h'.fileAddress = h.fileAddress := Prod.mk.inj hr
  cases ph with
  | writing newadd =>
    refine ⟨hst.1, fun hc => ?_⟩
    have hcount : h'.ivCount = h.ivCount := (congrArg Writer.ivCount hw :)
    have hiv : h'.iv1 = h.iv1 := (congrArg Writer.iv1 hw :)
    rw [hiv, ha]
    exact hst.2 (hcount ▸ hc)
  | _ => exact hst

namespace Server

/-! ### Steps of the server -/

/-- The invariant, on top of `OneRequest`: the tags of a slot are those of its connection and of its request. -/
structure Apart (s : Server) (tags : Nat → Tags) : Prop where
  conns : ∀ x ∈ s.conns, x.registered = true → (tags x.fd).Clean (some x.id)
  jobs : ∀ job ∈ s.pending, (tags job.slot).Clean job.conn
  stages : ∀ job held ph, Worker.processing job held ph ∈ s.workers →
    Stage (s.users_ job.slot) (tags job.slot) job.conn ph

private theorem apart_start (c : Setup) : Apart c.start fun _ => .zero where
  conns := by simp [Setup.start]
  jobs := by
    have h : (List.replicate c.threads Worker.idle).filterMap Worker.serving = [] := by simp [Worker.serving]
    simp [pending, Setup.start, h]
  stages := by simp [Setup.start, List.mem_replicate]

/-- A step that makes no request and accepts no connection, and leaves the response in every slot. -/
private theorem Apart.frame {s s' : Server} {tags : Nat → Tags} (h : Apart s tags)
    (hc : ∀ x ∈ s'.conns, x.registered = true → ∃ y ∈ s.conns, y.registered = true ∧ x.id = y.id ∧ x.fd = y.fd)
    (hp : ∀ job ∈ s'.pending, job ∈ s.pending)
    (hw : ∀ job held ph, Worker.processing job held ph ∈ s'.workers →
      ph = .enter ∨ Worker.processing job held ph ∈ s.workers)
    (hu : ∀ slot, (s'.users_ slot).response = (s.users_ slot).response) : Apart s' tags where
  conns := by
    intro x hx hreg
    obtain ⟨y, hy, hyr, hid, hfd⟩ := hc x hx hreg
    rw [hid, hfd]
    exact h.conns y hy hyr
  jobs := fun job hj => h.jobs job (hp job hj)
  stages := by
    intro job held ph hm
    rcases hw job held ph hm with rfl | hm
    · trivial
    · exact (h.stages job held ph hm).congr (hu job.slot)

private theorem connected_response (s : Server) (w : Nat) (job : Job) (k : Nat) :
    ((s.connected w job).users_ k).response = (s.users_ k).response := by
  show (Function.update s.users_ job.slot _ k).response = _
  by_cases hk : k = job.slot
  · subst hk
    rw [Function.update_self]
    rfl
  · rw [Function.update_of_ne hk]

/-- A connection is accepted onto a slot without a request. -/
private theorem Apart.accept {s : Server} {tags : Nat → Tags} (h : Apart s tags) {fd now : Nat} {type : ClientType}
    {content : Option Ssl} (hfree : s.LowestFree fd) (hquiet : s.Quiet fd) :
    Apart (s.openConn fd now type content) (Function.update tags fd (tags fd).init_) where
  conns := by
    intro x hx hreg
    rcases List.mem_cons.1 hx with rfl | hx
    · rw [Function.update_self]
      exact .init_ _ _
    · rw [Function.update_of_ne fun he => hfree.2.1 ⟨x, hx, he⟩]
      exact h.conns x hx hreg
  jobs := by
    intro job hj
    rw [Function.update_of_ne (hquiet job hj)]
    exact h.jobs job hj
  stages := by
    intro job held ph hm
    by_cases hph : ph = .done
    · subst hph
      trivial
    · have hslot := hquiet job (mem_pending hm hph)
      rw [Function.update_of_ne hslot, openConn_users_ne s hslot]
      exact h.stages job held ph hm

/-- The request of a worker that makes a call on a connection is of that connection. -/
theorem OneRequest.ioConn {s : Server} (h : OneRequest s) {job : Job} (hj : job ∈ s.pending) {i : ProcInput}
    (ha : s.Answered (s.users_ job.slot) i) (ht : i.transfers = true) : s.ioConn (s.users_ job.slot) = job.conn := by
  have key : ∀ {x : Conn}, x ∈ s.conns → (s.users_ job.slot).ioFd = some (x.fd : Int) →
      s.ioConn (s.users_ job.slot) = job.conn := by
    intro x hx hio
    obtain ⟨hfd, y, hy, hyfd, hyr⟩ := h.io job.slot _ hio
    have hyx : y = x := h.eq_of_fd hy hx (hyfd.trans (by exact_mod_cast hfd.symm))
    subst hyx
    have hfind : s.conns.find? (fun x => decide ((x.fd : Int) = (y.fd : Int))) = some y := by
      cases hz : s.conns.find? (fun x => decide ((x.fd : Int) = (y.fd : Int))) with
      | none => exact absurd (List.find?_eq_none.1 hz y hy) (by simp)
      | some z =>
        have hzy : (z.fd : Int) = y.fd := by simpa using List.find?_some hz
        exact congrArg some (h.eq_of_fd (List.mem_of_find?_eq_some hz) hy (by exact_mod_cast hzy))
    rw [h.owner y hy hyr job hj hyfd.symm]
    unfold Server.ioConn
    rw [hio, Option.bind_some, hfind]
    rfl
  cases i with
  | tau | parse => cases ht
  | recv r =>
    cases r with
    | data bs =>
      obtain ⟨x, hx, hio⟩ := ha.resolve_left (by simp)
      exact key hx hio
    | eof | again | fail => cases ht
  | wrote r =>
    cases r with
    | count n =>
      obtain ⟨x, hx, hio⟩ := ha.resolve_left (by simp)
      exact key hx hio
    | zero | again | fail => cases ht

/-- A step of `process()`, but for the `close()` at its end. -/
private theorem Apart.served {s : Server} {tags : Nat → Tags} (h : Apart s tags) (h1 : OneRequest s) {w : Nat}
    {i : ProcInput} {job : Job} {held : Option Nat} {ph ph' : Phase} {hd : HttpHandler} {users : Users} {close : Bool}
    (hw : s.workers[w]? = some (.processing job held ph)) (ha : s.Answered (s.users_ job.slot) i)
    (hs : HttpHandler.ProcStep (s.users_ job.slot) s.accounts ph i hd users ph' close)
    (hl : (s.users_ job.slot).offersLeftover ph = false) :
    Apart (s.served w job held ph' hd users) (Function.update tags job.slot
        ((tags job.slot).process job.conn (s.ioConn (s.users_ job.slot)) (s.users_ job.slot) hd ph' ph i)) ∧
      ∀ o ∈ (tags job.slot).observe job.conn (s.ioConn (s.users_ job.slot)) (s.users_ job.slot) ph i, o.Isolated := by
  have hserving : (Worker.processing job held ph).serving = some job := Worker.serving_of_procStep hs
  have hmem := List.mem_of_getElem? hw
  have hj : job ∈ s.pending := List.mem_append_right _ (List.mem_filterMap.2 ⟨_, hmem, hserving⟩)
  have hio := h1.ioConn hj ha
  have hst := h.stages job held ph hmem
  obtain ⟨hclean, hst'⟩ := Stage.step hs (h.jobs job hj) hst hl hio
  have this : Stage ((s.served w job held ph' hd users).users_ job.slot) (Function.update tags job.slot
      ((tags job.slot).process job.conn (s.ioConn (s.users_ job.slot)) (s.users_ job.slot) hd ph' ph i) job.slot)
      job.conn ph' := by
    show Stage (Function.update s.users_ job.slot hd job.slot) _ _ _
    rw [Function.update_self, Function.update_self]
    exact hst'
  refine ⟨⟨fun x hx hreg => ?_, fun job' hj' => ?_, fun job' held' ph'' hm => ?_⟩,
    Stage.isolated hs (h.jobs job hj) hst hio⟩
  · by_cases hslot : x.fd = job.slot
    · rw [hslot, Function.update_self, ← h1.owner x hx hreg job hj hslot.symm]
      exact hclean
    · rw [Function.update_of_ne hslot]
      exact h.conns x hx hreg
  · have hj' : job' ∈ s.pending := mem_pending_set hj' hw rfl rfl (Worker.serving_procStep hs)
    by_cases hslot : job'.slot = job.slot
    · rw [hslot, Function.update_self, h1.eq_of_slot hj' hj hslot]
      exact hclean
    · rw [Function.update_of_ne hslot]
      exact h.jobs job' hj'
  · rcases List.mem_or_eq_of_mem_set hm with hold | hnew
    · by_cases hph : ph'' = .done
      · subst hph
        trivial
      · rcases h1.ne_slot hw hserving hm (Worker.serving_of_ne_done hph) with hnew | hslot
        · cases hnew
          exact this
        · show Stage (Function.update s.users_ job.slot hd job'.slot) _ _ _
          rw [Function.update_of_ne hslot, Function.update_of_ne hslot]
          exact h.stages job' held' ph'' hold
    · cases hnew
      exact this

/-- Only a step of `process()` and one that accepts a connection have a trace. -/
private theorem trace_none {s s' : Server} {tags : Nat → Tags} {l : Label} (hl : ∀ w i, l ≠ .process w i)
    (ho : s.opens l = none) : s.trace s' tags l = (tags, []) := by
  unfold trace
  split
  · exact absurd rfl (hl _ _)
  · rw [ho]

private theorem trace_opened {s s' : Server} {tags : Nat → Tags} {o : Answers} {fd : Nat}
    (ho : s.opens (.dispatch o) = some fd) :
    s.trace s' tags (.dispatch o) = (Function.update tags fd (tags fd).init_, []) := by
  unfold trace
  dsimp only
  rw [ho]

private theorem trace_process {s s' : Server} {tags : Nat → Tags} {w : Nat} {i : ProcInput} {job : Job}
    {held : Option Nat} {ph ph' : Phase} (hw : s.workers[w]? = some (.processing job held ph))
    (hw' : s'.workers = s.workers.set w (.processing job held ph')) :
    s.trace s' tags (.process w i) =
      (Function.update tags job.slot ((tags job.slot).process job.conn (s.ioConn (s.users_ job.slot))
        (s.users_ job.slot) (s'.users_ job.slot) ph' ph i),
      (tags job.slot).observe job.conn (s.ioConn (s.users_ job.slot)) (s.users_ job.slot) ph i) := by
  have hlt := (List.getElem?_eq_some_iff.1 hw).1
  unfold trace
  simp only [hw, hw', List.getElem?_set_self hlt]

private theorem served_users_self (s : Server) (w : Nat) (job : Job) (held : Option Nat) (ph : Phase) (h : HttpHandler)
    (users : Users) : (s.served w job held ph h users).users_ job.slot = h := Function.update_self ..

theorem opens_of_not_own {s : Server} {e : Event} {es : List Event} {o : Answers} (he : s.events = e :: es)
    (hown : e.fd ∉ s.own) : s.opens (.dispatch o) = none :=
  opens_eq_none he (Or.inr (Or.inr fun h => hown (h.elim (fun h => by simp [own, h]) fun h => by simp [own, h.1])))

theorem opens_of_failsHandshake {s : Server} {e : Event} {es : List Event} {o : Answers} (he : s.events = e :: es)
    (hf : s.failsHandshake (.dispatch o) = true) : s.opens (.dispatch o) = none := by
  simp only [failsHandshake, he, decide_eq_true_eq] at hf
  exact opens_eq_none he (Or.inr (Or.inr fun h => h.elim hf.1 fun h => hf.2.2.2 h.2))

/-- A step that keeps connections apart. -/
private theorem Apart.step {rm : RemoveFd} {s s' : Server} {tags : Nat → Tags} {l : Label} (h : Apart s tags)
    (h1 : OneRequest s) (hk : s.KeepsApart l) (hs : Step rm s l s') :
    Apart s' (s.trace s' tags l).1 ∧ ∀ o ∈ (s.trace s' tags l).2, o.Isolated := by
  -- the steps without a trace
  have quiet : (∀ w i, l ≠ .process w i) → s.opens l = none → Apart s' tags →
      Apart s' (s.trace s' tags l).1 ∧ ∀ o ∈ (s.trace s' tags l).2, o.Isolated := by
    intro hl ho ha
    rw [trace_none hl ho]
    exact ⟨ha, fun o hm => by cases hm⟩
  have same : ∀ x ∈ s.conns, x.registered = true → ∃ y ∈ s.conns, y.registered = true ∧ x.id = y.id ∧ x.fd = y.fd :=
    fun x hx hreg => ⟨x, hx, hreg, rfl, rfl⟩
  cases hs with
  | epollWait =>
    refine quiet (fun _ _ h => by cases h) rfl (h.frame (fun x hx hreg => ?_) (fun _ => id) (fun _ _ _ => Or.inr)
      fun _ => rfl)
    obtain ⟨y, hy, hid, hfd, hyr⟩ := mem_disarm hx
    exact ⟨y, hy, hyr ▸ hreg, hid, hfd⟩
  | ignored _ _ ho =>
    exact quiet (fun _ _ h => by cases h) ho (h.frame same (fun _ => id) (fun _ _ _ => Or.inr) fun _ => rfl)
  | @opened o e es ssls n fd type content he hown hfree ho ht =>
    have h' : Apart { s with events := es, ssls := ssls, nextSsl := n } tags :=
      h.frame same (fun _ => id) (fun _ _ _ => Or.inr) fun _ => rfl
    rw [trace_opened ho]
    exact ⟨h'.accept hfree (hk.1.1 fd ho), fun o hm => by cases hm⟩
  | sslFailed he _ _ hf =>
    refine quiet (fun _ _ h => by cases h) (opens_of_failsHandshake he hf) (h.frame (fun x hx hreg => ?_) (fun _ => id)
      (fun _ _ _ => Or.inr) fun _ => rfl)
    rcases List.mem_cons.1 hx with rfl | hx
    · cases hreg
    · exact same x hx hreg
  | timeout _ _ ht ho =>
    have hsub := timeout_conns ht
    have hresp := timeout_field (f := HttpHandler.response) (fun _ => rfl) ht
    obtain ⟨_, _, _, _, rfl⟩ := timeout_frame ht
    exact quiet (fun _ _ h => by cases h) ho (h.frame (fun x hx => same x (hsub x hx)) (fun _ => id)
      (fun _ _ _ => Or.inr) hresp)
  | term _ _ ho =>
    exact quiet (fun _ _ h => by cases h) ho (h.frame same (fun _ => id) (fun _ _ _ => Or.inr) fun _ => rfl)
  | @readable o e es id he hown hin _ _ =>
    refine quiet (fun _ _ h => by cases h) (opens_of_not_own he hown) ?_
    obtain ⟨x, hx, hreg, hof⟩ := hk.1.2 e (by simp [connEvent, he, hown]) hin
    unfold append
    split
    · exact h.frame same (fun _ hj => hj) (fun _ _ _ => Or.inr) fun _ => rfl
    · refine ⟨h.conns, fun job hj => ?_, h.stages⟩
      have hj : job ∈ s.pending ∨ job = ⟨e.fd, e.conn⟩ := by
        simp only [pending, List.mem_append, List.mem_singleton] at hj ⊢
        tauto
      rcases hj with hj | rfl
      · exact h.jobs job hj
      · rw [← hof.1, ← hof.2]
        exact h.conns x hx hreg
  | hangUp he hown =>
    refine quiet (fun _ _ h => by cases h) (opens_of_not_own he hown) (h.frame
      (fun x hx => same x (mem_closed_conns.1 hx).1) (fun _ => id) (fun _ _ _ => Or.inr) ?_)
    exact closed_field (f := HttpHandler.response) (fun _ => rfl) { s with events := _ } _
  | take hw hq =>
    refine quiet (fun _ _ h => by cases h) rfl (h.frame same (pending_take hw hq).subset
      (fun job held ph hm => Or.inr ?_) fun _ => rfl)
    exact (List.mem_or_eq_of_mem_set hm).resolve_right fun hnew => by cases hnew
  | @getConnection w job hw =>
    refine quiet (fun _ _ h => by cases h) rfl (h.frame same
      (fun _ hj => mem_pending_set hj hw rfl rfl (Or.inl rfl)) (fun job held ph hm => ?_) (connected_response s w job))
    rcases List.mem_or_eq_of_mem_set hm with hold | hnew
    · exact Or.inr hold
    · cases hnew
      exact Or.inl rfl
  | @process w i job held ph ph' hd users hw ha hs =>
    have hl := hk.2 (job, ph, i) (by simp [serves, hw])
    rw [trace_process hw rfl, served_users_self]
    exact h.served h1 hw ha hs hl
  | @close w i job held ph ph' hd users hw ha hs =>
    have hl := hk.2 (job, ph, i) (by simp [serves, hw])
    obtain ⟨hs', ho⟩ := h.served h1 hw ha hs hl
    rw [trace_process hw rfl, closed_users_self, served_users_self, Tags.process_closeFields]
    exact ⟨hs'.frame (fun x hx => fun hreg => ⟨x, (mem_closed_conns.1 hx).1, hreg, rfl, rfl⟩) (fun _ => id)
      (fun _ _ _ => Or.inr) (closed_field (f := HttpHandler.response) (fun _ => rfl) _ _), ho⟩
  | releaseConnection hw =>
    refine quiet (fun _ _ h => by cases h) rfl (h.frame same
      (fun _ hj => mem_pending_set hj hw rfl rfl (Or.inr rfl)) (fun job held ph hm => Or.inr ?_) fun _ => rfl)
    exact (List.mem_or_eq_of_mem_set hm).resolve_right fun hnew => by cases hnew

end Server

/-! ### Runs -/

/-- The invariant of the traced server. -/
structure Traced.Separate (T : Traced) : Prop where
  oneRequest : T.server.OneRequest
  apart : T.server.Apart T.tags
  isolated : ∀ o ∈ T.log, o.Isolated

private theorem Traced.Separate.step {T T' : Traced} {l : Label} (h : T.Separate) (hk : T.server.KeepsApart l)
    (hs : T.step l = some T') : T'.Separate := by
  obtain ⟨s', hs', rfl⟩ := Option.map_eq_some_iff.1 hs
  obtain ⟨hrun, ⟨why, -, rfl⟩ | ⟨-, hstep⟩⟩ := Server.step_cases hs'
  · rw [if_neg (Option.some_ne_none why)]
    have hw := h.oneRequest.toWellFormed.of_step hs'
    refine ⟨?_, ?_, h.isolated⟩
    · exact h.oneRequest.mono hw (List.Subperm.refl _) (fun _ hx _ => hx) (List.Sublist.refl _) le_rfl
    · exact h.apart.frame (fun x hx hreg => ⟨x, hx, hreg, rfl, rfl⟩) (fun _ => id) (fun _ _ _ => Or.inr) fun _ => rfl
  · rw [if_pos (hstep.goesOn.1.trans hrun)]
    obtain ⟨ha, ho⟩ := h.apart.step h.oneRequest hk hstep
    refine ⟨h.oneRequest.step hk.1 hstep, ha, fun o hm => ?_⟩
    exact (List.mem_append.1 hm).elim (h.isolated o) (ho o)

/-- The timer of a connection expires, and the next client is given its descriptor. -/
def reuseSlot : List Label :=
  [.epollWait [.input 15 none, .input 14 none],
    .dispatch ⟨16, none, .succeeds⟩, .dispatch ⟨16, some 19, .succeeds⟩]

end ImageServer
