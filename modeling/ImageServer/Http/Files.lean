import ImageServer.Http.Process
import ImageServer.Http.Resolve
import ImageServer.Lib.Transition

/-!
# Descriptors and mappings

The calls `open`, `mmap`, `close` and `munmap` that a handler makes over its life, request after request and connection
after connection, and what the kernel keeps for them (`FileTable`).  A handler in use takes the steps of `process()`;
between two of them the event loop may close it, or give it to another connection.

`do_request_` does not close the descriptor when `mmap` fails, and leaves `MAP_FAILED` in `m_file_address`, which
`unmap` then passes to `munmap`; and `close()` and `init_` leave the mapping of a response that is not finished.  These
are the only ways to lose a descriptor or a mapping (`filesBalanced_iff`).
-/

namespace ImageServer

open CLib Transition

/-- A call on files, with what it is given and whether it succeeds. -/
inductive FileCall
  | openFile (ok : Bool)
  | mmap (len : Nat) (ok : Bool)
  | closeFile
  /-- `munmap(m_file_address, len)` -/
  | munmap (len : Nat)
deriving DecidableEq

/-- A `mmap` that returns `MAP_FAILED`. -/
def FileCall.mapFails : FileCall → Bool
  | .mmap _ ok => !ok
  | _ => false

/-- The descriptors of a handler that are open, its mappings with their lengths, and the one `m_file_address` is the
address of. -/
structure FileTable where
  descriptors : Nat
  mappings : List (Nat × Nat)
  nextMapping : Nat
  held : Option Nat
  /-- `munmap` was called on something that is no mapping, or with another length -/
  misused : Bool
deriving DecidableEq

namespace FileTable

def empty : FileTable := { descriptors := 0, mappings := [], nextMapping := 0, held := none, misused := false }

/-- What a call does.  `close` gives the descriptor back whatever it returns. -/
def call (t : FileTable) : FileCall → FileTable
  | .openFile ok => { t with descriptors := if ok then t.descriptors + 1 else t.descriptors }
  | .mmap len ok =>
    if ok then
      { t with
        mappings := (t.nextMapping, len) :: t.mappings, nextMapping := t.nextMapping + 1, held := some t.nextMapping }
    else { t with held := none }
  | .closeFile => { t with descriptors := t.descriptors - 1 }
  | .munmap len =>
    match t.held with
    | none => { t with misused := true }
    | some id =>
      if (id, len) ∈ t.mappings then { t with mappings := t.mappings.erase (id, len), held := none }
      else { t with misused := true, held := none }

end FileTable

/-! ### The calls of the code -/

/-- The calls at the end of `do_request_`. -/
def openCalls (env : Env) (r : Resource) : List FileCall :=
  match (cstring r.realFile.bytes).bind fun path => (env.stat path).map fun st => (path, st) with
  | none => []
  | some (path, st) =>
    if ¬ st.iroth then []
    else if st.isDir then []
    else if ¬ env.openFile path then [.openFile false]
    else
      match env.mmap path with
      | none => [.openFile true, .mmap st.size false]
      | some _ => [.openFile true, .mmap st.size true, .closeFile]

namespace HttpHandler

/-- The calls of `unmap`. -/
def unmapCalls (h : HttpHandler) : List FileCall :=
  if h.fileAddress = .null then [] else [.munmap h.fileStat.size]

/-- The calls of a step of `process()`. -/
def fileCalls (h : HttpHandler) (users : Users) : Phase → ProcInput → List FileCall
  | .parse, .parse env errno =>
    match h.toParser.parse_ errno with
    | some (.doRequest, p, _) => (resolve env h.mysql users p h.toResource).elim [] fun x => openCalls env x.2.1
    | _ => []
  | .writing _, .wrote (.count n) => if h.bytesToSend - n ≤ 0 then h.unmapCalls else []
  | _, _ => []

end HttpHandler

/-- A write call that accepts some bytes. -/
def ProcInput.accepts : ProcInput → Bool
  | .wrote (.count _) => true
  | _ => false

/-- A handler in use: where it is in `process()`, and its files. -/
structure InUse where
  handler : HttpHandler
  users : Users
  phase : Phase
  files : FileTable

inductive UseLabel
  /-- a worker takes a request of the handler -/
  | serve
  | process (i : ProcInput)
  /-- the event loop closes the connection -/
  | close
  /-- the slot is given to another connection -/
  | init (sockfd : Int) (timer : Option Nat) (type : ClientType) (content : Option Ssl)

namespace InUse

/-- The slot before its first connection. -/
def start (users : Users) : InUse := { handler := .zero, users := users, phase := .done, files := .empty }

def step (s : InUse) : UseLabel → Option InUse
  | .serve => if s.phase = .done then some { s with phase := .enter } else none
  | .process i =>
    match s.handler.procStep s.users s.phase i with
    | some (.next h users ph close) =>
      some { handler := if close then h.closeFields else h, users := users, phase := ph,
             files := (s.handler.fileCalls s.users s.phase i).foldl FileTable.call s.files }
    | _ => none
  | .close => some { s with handler := s.handler.closeFields }
  | .init sockfd timer type content => some { s with handler := s.handler.init sockfd timer type content }

/-- The step closes the handler, or initialises it again. -/
def Ends (s : InUse) : UseLabel → Prop
  | .serve => False
  | .process i => s.handler.closes s.phase i = true ∨ s.handler.keepsAlive s.phase i = true
  | .close => True
  | .init _ _ _ _ => True

/-- No descriptor is left open, `munmap` is only called on mappings and with their length, and without a mapping
`m_file_address` is null. -/
structure Balanced (s : InUse) : Prop where
  descriptors : s.files.descriptors = 0
  unmaps : s.files.misused = false
  address : s.files.mappings = [] → s.handler.fileAddress = .null

/-- The step keeps the files balanced, and leaves no mapping to a handler that it closes or initialises again. -/
def KeepsBalanced (s : InUse) (l : UseLabel) : Prop :=
  ∀ s', s.step l = some s' → s'.Balanced ∧ (s.Ends l → s'.files.mappings = [])

/-- The mapping is live, and the step closes or initialises the handler before the response is complete. -/
def Abandons (s : InUse) (l : UseLabel) : Prop :=
  s.handler.fileAddress ≠ .null ∧
    match l with
    | .serve => False
    | .process i => s.handler.closes s.phase i = true ∧ i.accepts = false
    | .close => True
    | .init _ _ _ _ => True

/-- A call of `mmap` in the step fails. -/
def FailsMmap (s : InUse) : UseLabel → Prop
  | .process i => ∃ c ∈ s.handler.fileCalls s.users s.phase i, c.mapFails = true
  | _ => False

instance (s : InUse) (l : UseLabel) : Decidable (s.Abandons l) := by
  unfold Abandons
  cases l <;> infer_instance

instance (s : InUse) (l : UseLabel) : Decidable (s.FailsMmap l) := by
  unfold FailsMmap
  cases l <;> infer_instance

/-- Every `mmap` of the step succeeds, and it does not give up a response. -/
def Tidy (s : InUse) (l : UseLabel) : Prop := ¬ s.FailsMmap l ∧ ¬ s.Abandons l

instance (s : InUse) (l : UseLabel) : Decidable (s.Tidy l) :=
  inferInstanceAs (Decidable (¬ s.FailsMmap l ∧ ¬ s.Abandons l))

end InUse

/-! ### What a step does to the files -/

/-- The calls at the end of `do_request_`, and what they leave in `m_file_address`. -/
private theorem openCalls_cases {env : Env} {r r' : Resource} {ret : HttpState}
    (h : openResource env r = some (ret, r')) :
    ((openCalls env r = [] ∨ openCalls env r = [.openFile false]) ∧ r'.fileAddress = r.fileAddress) ∨
      (∃ len, openCalls env r = [.openFile true, .mmap len false] ∧ r'.fileAddress ≠ .null) ∨
      (∃ file, openCalls env r = [.openFile true, .mmap r'.fileStat.size true, .closeFile] ∧
        r'.fileAddress = .mapped file) := by
  obtain ⟨path, hpath, ho⟩ := openResource_opened h
  unfold openCalls
  rw [hpath, Option.bind_some]
  cases ho with
  | notFound hstat => simp [hstat]
  | noAccess hstat hr => simp [hstat, hr]
  | directory hstat hr hd => simp [hstat, hr, hd]
  | notOpened hstat hr hd hopen => simp [hstat, hr, hd, hopen]
  | notMapped hstat hr hd hopen hmmap => simp [hstat, hr, hd, hopen, hmmap]
  | notClosed hstat hr hd hopen hmmap => simp [hstat, hr, hd, hopen, hmmap]
  | served hstat hr hd hopen hmmap => simp [hstat, hr, hd, hopen, hmmap]

/-- A response is being prepared or sent. -/
def Phase.Sending : Phase → Prop
  | .prepare _ | .writing _ => True
  | .enter | .reading _ | .parse | .done => False

namespace HttpHandler

/-- What a step of `process()` does to the files: nothing, or it unmaps the one it has, or it is `do_request_`. -/
inductive FileStep (h : HttpHandler) (users : Users) (ph : Phase) (i : ProcInput) (h' : HttpHandler) (ph' : Phase)
    (close : Bool) : Prop
  | quiet : h.fileCalls users ph i = [] → h'.fileAddress = h.fileAddress → h'.fileStat = h.fileStat →
    (i.accepts = true → close = false) → (close = false → ph.Sending → ph'.Sending) →
    h.keepsAlive ph i = false → FileStep h users ph i h' ph' close
  | unmaps : i.accepts = true → h.fileCalls users ph i = h.unmapCalls → h'.fileAddress = .null →
    FileStep h users ph i h' ph' close
  | request {env : Env} {r : Resource} {ret : HttpState} : ph = .parse → ph'.Sending → close = false →
    h.keepsAlive ph i = false → h.fileCalls users ph i = openCalls env r →
    openResource env r = some (ret, h'.toResource) → r.fileAddress = h.fileAddress →
    FileStep h users ph i h' ph' close

private theorem parse_files {h h' : HttpHandler} {users users' : Users} {env : Env} {errno : Errno} {ret : HttpState}
    (hp : h.parse users env errno = some (ret, h', users')) :
    FileStep h users .parse (.parse env errno) h' (.prepare ret) false := by
  unfold parse at hp
  obtain ⟨⟨e, p, er⟩, hparse, hp⟩ := Option.bind_eq_some_iff.1 hp
  cases e with
  | outOfFuel => cases hp
  | returns ret' =>
    cases hp
    have hcalls : h.fileCalls users .parse (.parse env errno) = [] := by simp [fileCalls, hparse]
    exact .quiet hcalls rfl rfl (fun _ => rfl) (fun _ _ => True.intro) rfl
  | doRequest =>
    obtain ⟨⟨ret', p', r', users₁⟩, hdo, hp⟩ := Option.bind_eq_some_iff.1 hp
    cases hp
    rw [doRequest_eq] at hdo
    obtain ⟨⟨p₁, r₁, users₂⟩, hres, hdo⟩ := Option.bind_eq_some_iff.1 hdo
    obtain ⟨⟨ret₂, r₂⟩, hopen, hdo⟩ := Option.map_eq_some_iff.1 hdo
    cases hdo
    obtain ⟨_, name, -, rfl⟩ := resolve_frame hres
    have hcalls : h.fileCalls users .parse (.parse env errno) =
        openCalls env { h.toResource with realFile := name } := by
      simp [fileCalls, hparse, hres]
    exact .request rfl True.intro rfl rfl hcalls hopen rfl

private theorem ProcStep.files {h h' : HttpHandler} {users users' : Users} {ph ph' : Phase} {i : ProcInput}
    {close : Bool} (hs : ProcStep h users ph i h' users' ph' close) : FileStep h users ph i h' ph' close := by
  cases hs with
  | full | enter | data | eof | fail | triedOut | again =>
    exact .quiet rfl rfl rfl (by simp [ProcInput.accepts]) (fun _ hp => hp.elim) rfl
  | parse hp => exact parse_files hp
  | prepare hb =>
    obtain ⟨w, rfl⟩ := writeToBuffer_frame hb
    exact .quiet rfl rfl rfl (fun _ => rfl) (fun _ _ => True.intro) rfl
  | refuse hb =>
    obtain ⟨w, rfl⟩ := writeToBuffer_frame hb
    exact .quiet rfl rfl rfl (by simp [ProcInput.accepts]) (by simp) rfl
  | @write newadd newadd' r _ hw ho =>
    have hk := writeStep_kind ho newadd r
    rw [hw] at hk
    have hcalls : h.fileCalls users (.writing newadd) (.wrote r) = [] := by
      cases r with
      | count n =>
        by_cases hb : h.bytesToSend - n ≤ 0
        · unfold writeStep at hw
          dsimp only at hw
          rw [if_pos hb] at hw
          split at hw <;> cases hw
        · exact if_neg hb
      | zero | again | fail => rfl
    obtain ⟨w, rfl, -⟩ := writeStep_again hw
    exact .quiet hcalls rfl rfl (fun _ => rfl) (fun _ _ => True.intro) hk.2
  | @finish newadd r _ hw ho =>
    have hcalls : ∃ n, r = .count n ∧ h.fileCalls users (.writing newadd) (.wrote r) = h.unmapCalls := by
      cases r with
      | count n =>
        refine ⟨n, rfl, if_pos ?_⟩
        by_contra hb
        unfold writeStep at hw
        dsimp only at hw
        rw [if_neg hb] at hw
        cases hw
      | zero | again | fail => cases hw
    obtain ⟨n, rfl, hcalls⟩ := hcalls
    obtain ⟨-, w, rfl, -⟩ := writeStep_finished hw
    exact .unmaps rfl hcalls rfl
  | @close newadd r _ hw ho =>
    have hk := writeStep_kind ho newadd r
    rw [hw] at hk
    cases r with
    | count n =>
      have hb : h.bytesToSend - n ≤ 0 := by
        by_contra hb
        unfold writeStep at hw
        dsimp only at hw
        rw [if_neg hb] at hw
        cases hw
      refine .unmaps rfl (if_pos hb) ?_
      unfold writeStep at hw
      dsimp only at hw
      rw [if_pos hb] at hw
      split at hw
      · cases hw
      · cases hw
        rfl
    | fail =>
      cases hw
      exact .quiet rfl rfl rfl (by simp [ProcInput.accepts]) (by simp) hk.2
    | zero | again => cases hw

end HttpHandler

/-! ### The invariant -/

namespace InUse

/-- The file of the response being sent. -/
structure HasMapping (s : InUse) (id : Nat) : Prop where
  address : s.handler.fileAddress ≠ .null
  held : s.files.held = some id
  mappings : s.files.mappings = [(id, s.handler.fileStat.size)]
  sending : s.phase.Sending

/-- Between two steps: no file, or that of the response being sent. -/
structure Settled (s : InUse) : Prop where
  descriptors : s.files.descriptors = 0
  unmaps : s.files.misused = false
  mapping : (s.handler.fileAddress = .null ∧ s.files.mappings = []) ∨ ∃ id, s.HasMapping id

private theorem settled_start (users : Users) : (start users).Settled := ⟨rfl, rfl, .inl ⟨rfl, rfl⟩⟩

private theorem Settled.balanced {s : InUse} (h : s.Settled) : s.Balanced where
  descriptors := h.descriptors
  unmaps := h.unmaps
  address hm := by
    rcases h.mapping with ⟨ha, -⟩ | ⟨id, hid⟩
    · exact ha
    · rw [hid.mappings] at hm
      cases hm

/-- What a step has to do, by the condition on it. -/
structure StepsTidily (s : InUse) (l : UseLabel) (s' : InUse) : Prop where
  keeps : s.Tidy l → s'.Settled ∧ (s.Ends l → s'.files.mappings = [])
  loses : ¬ s.Tidy l → ¬ (s'.Balanced ∧ (s.Ends l → s'.files.mappings = []))

private theorem stepsTidily_of_tidy {s s' : InUse} {l : UseLabel} (ht : s.Tidy l) (hs : s'.Settled)
    (he : s.Ends l → s'.files.mappings = []) : s.StepsTidily l s' :=
  ⟨fun _ => ⟨hs, he⟩, fun hn => absurd ht hn⟩

private theorem stepsTidily_of_abandons {s s' : InUse} {l : UseLabel} (ha : s.Abandons l) (he : s.Ends l)
    (hm : s'.files.mappings ≠ []) : s.StepsTidily l s' :=
  ⟨fun ht => absurd ha ht.2, fun _ hb => hm (hb.2 he)⟩

private theorem fileAddress_closing (h : HttpHandler) (close : Bool) :
    (if close then h.closeFields else h).toResource = h.toResource := by
  cases close <;> rfl

/-- A step without calls on files. -/
private theorem Settled.quiet {s : InUse} (hs : s.Settled) {h' : HttpHandler} {users' : Users} {ph' : Phase}
    {i : ProcInput} {close : Bool} (hclose : close = s.handler.closes s.phase i)
    (hcalls : s.handler.fileCalls s.users s.phase i = []) (haddr : h'.fileAddress = s.handler.fileAddress)
    (hstat : h'.fileStat = s.handler.fileStat) (hcount : i.accepts = true → close = false)
    (hsend : close = false → s.phase.Sending → ph'.Sending) (hkeep : s.handler.keepsAlive s.phase i = false) :
    s.StepsTidily (.process i)
      { handler := if close then h'.closeFields else h', users := users', phase := ph', files := s.files } := by
  have hmmap : ¬ s.FailsMmap (.process i) := by
    rintro ⟨c, hm, -⟩
    rw [hcalls] at hm
    cases hm
  have hres := fileAddress_closing h' close
  have haddr' : (if close then h'.closeFields else h').fileAddress = s.handler.fileAddress :=
    (congrArg Resource.fileAddress hres).trans haddr
  have hstat' : (if close then h'.closeFields else h').fileStat = s.handler.fileStat :=
    (congrArg Resource.fileStat hres).trans hstat
  rcases hs.mapping with ⟨hnull, hempty⟩ | ⟨id, hid⟩
  · exact stepsTidily_of_tidy ⟨hmmap, fun ha => ha.1 hnull⟩
      ⟨hs.descriptors, hs.unmaps, .inl ⟨haddr'.trans hnull, hempty⟩⟩ fun _ => hempty
  · cases close with
    | true =>
      have hrefused : i.accepts = false := by
        rw [← Bool.not_eq_true]
        exact fun ha => Bool.noConfusion (hcount ha)
      exact stepsTidily_of_abandons ⟨hid.address, hclose.symm, hrefused⟩ (.inl hclose.symm) (by simp [hid.mappings])
    | false =>
      refine stepsTidily_of_tidy ⟨hmmap, fun ha => ?_⟩ ⟨hs.descriptors, hs.unmaps, .inr ⟨id, ?_⟩⟩ ?_
      · exact Bool.noConfusion (hclose.trans ha.2.1)
      · exact ⟨haddr' ▸ hid.address, hid.held, hid.mappings.trans (by rw [hstat']), hsend rfl hid.sending⟩
      · rintro (hc | hk)
        · rw [← hclose] at hc
          cases hc
        · rw [hkeep] at hk
          cases hk

/-- A step that completes a response. -/
private theorem Settled.unmaps_step {s : InUse} (hs : s.Settled) {h' : HttpHandler} {users' : Users} {ph' : Phase}
    {i : ProcInput} {close : Bool} (hi : i.accepts = true)
    (hcalls : s.handler.fileCalls s.users s.phase i = s.handler.unmapCalls) (haddr : h'.fileAddress = .null) :
    s.StepsTidily (.process i)
      { handler := if close then h'.closeFields else h', users := users', phase := ph',
        files := s.handler.unmapCalls.foldl FileTable.call s.files } := by
  have haddr' : (if close then h'.closeFields else h').fileAddress = .null :=
    (congrArg Resource.fileAddress (fileAddress_closing h' close)).trans haddr
  have htidy : s.Tidy (.process i) := by
    refine ⟨?_, fun ha => Bool.noConfusion (hi.symm.trans ha.2.2)⟩
    rintro ⟨c, hm, hc⟩
    rw [hcalls, HttpHandler.unmapCalls] at hm
    split at hm
    · cases hm
    · rw [List.mem_singleton.1 hm] at hc
      cases hc
  rcases hs.mapping with ⟨hnull, hempty⟩ | ⟨id, hid⟩
  · have hnone : s.handler.unmapCalls = [] := if_pos hnull
    rw [hnone]
    exact stepsTidily_of_tidy htidy ⟨hs.descriptors, hs.unmaps, .inl ⟨haddr', hempty⟩⟩ fun _ => hempty
  · have hone : s.handler.unmapCalls = [.munmap s.handler.fileStat.size] := if_neg hid.address
    have hfiles : s.handler.unmapCalls.foldl FileTable.call s.files =
        { s.files with mappings := [], held := none } := by
      rw [hone, List.foldl_cons, List.foldl_nil]
      simp [FileTable.call, hid.held, hid.mappings]
    rw [hfiles]
    exact stepsTidily_of_tidy htidy ⟨hs.descriptors, hs.unmaps, .inl ⟨haddr', rfl⟩⟩ fun _ => rfl

/-- The calls of `do_request_`. -/
private theorem Settled.request_step {s : InUse} (hs : s.Settled) {h' : HttpHandler} {users' : Users} {ph' : Phase}
    {i : ProcInput} {env : Env} {r : Resource} {ret : HttpState} (hph : ¬ s.phase.Sending) (hsend : ph'.Sending)
    (hends : ¬ s.Ends (.process i)) (hcalls : s.handler.fileCalls s.users s.phase i = openCalls env r)
    (hopen : openResource env r = some (ret, h'.toResource)) (haddr : r.fileAddress = s.handler.fileAddress) :
    s.StepsTidily (.process i)
      { handler := h', users := users', phase := ph', files := (openCalls env r).foldl FileTable.call s.files } := by
  have hmap : s.handler.fileAddress = .null ∧ s.files.mappings = [] :=
    hs.mapping.resolve_right fun ⟨id, hid⟩ => hph hid.sending
  have habandons : ¬ s.Abandons (.process i) := fun ha => ha.1 hmap.1
  rcases openCalls_cases hopen with ⟨hquiet, ha⟩ | ⟨len, hc, ha⟩ | ⟨file, hc, ha⟩
  · have hfiles : (openCalls env r).foldl FileTable.call s.files = s.files := by
      rcases hquiet with hq | hq <;> rw [hq] <;> rfl
    have htidy : s.Tidy (.process i) := by
      refine ⟨?_, habandons⟩
      rintro ⟨c, hm, hfail⟩
      rw [hcalls] at hm
      rcases hquiet with hq | hq <;> rw [hq] at hm
      · cases hm
      · rw [List.mem_singleton.1 hm] at hfail
        cases hfail
    rw [hfiles]
    exact stepsTidily_of_tidy htidy
      ⟨hs.descriptors, hs.unmaps, .inl ⟨(ha.trans haddr).trans hmap.1, hmap.2⟩⟩ fun he => absurd he hends
  · have hfails : s.FailsMmap (.process i) := ⟨.mmap len false, by rw [hcalls, hc]; simp, rfl⟩
    refine ⟨fun ht => absurd hfails ht.1, fun _ hb => ?_⟩
    have hdesc := hb.1.descriptors
    rw [hc] at hdesc
    simp [FileTable.call] at hdesc
  · have htidy : s.Tidy (.process i) := by
      refine ⟨?_, habandons⟩
      rintro ⟨c, hm, hfail⟩
      rw [hcalls, hc] at hm
      simp only [List.mem_cons, List.not_mem_nil, or_false] at hm
      rcases hm with rfl | rfl | rfl <;> cases hfail
    have hfiles : (openCalls env r).foldl FileTable.call s.files = { s.files with
        mappings := [(s.files.nextMapping, h'.fileStat.size)], nextMapping := s.files.nextMapping + 1,
        held := some s.files.nextMapping } := by
      rw [hc]
      simp [FileTable.call, hmap.2]
    rw [hfiles]
    refine stepsTidily_of_tidy htidy ⟨hs.descriptors, hs.unmaps, .inr ⟨s.files.nextMapping, ?_⟩⟩
      fun he => absurd he hends
    exact ⟨by simp [ha], rfl, rfl, hsend⟩

private theorem Settled.step {s s' : InUse} {l : UseLabel} (hs : s.Settled) (h : s.step l = some s') :
    s.StepsTidily l s' := by
  cases l with
  | serve =>
    simp only [InUse.step] at h
    split at h
    · rename_i hdone
      cases h
      have hmap : s.handler.fileAddress = .null ∧ s.files.mappings = [] := by
        refine hs.mapping.resolve_right fun ⟨id, hid⟩ => ?_
        have hsend := hid.sending
        rw [hdone] at hsend
        exact hsend
      exact stepsTidily_of_tidy ⟨id, fun ha => ha.2⟩ ⟨hs.descriptors, hs.unmaps, .inl hmap⟩ fun _ => hmap.2
    · cases h
  | process i =>
    simp only [InUse.step] at h
    split at h
    · rename_i h' users' ph' close hproc
      cases h
      have hstep := HttpHandler.procStep_cases hproc
      cases hstep.files with
      | quiet hcalls haddr hstat hcount hsend hkeep =>
        rw [hcalls]
        exact hs.quiet hstep.close_eq hcalls haddr hstat hcount hsend hkeep
      | unmaps hi hcalls haddr =>
        rw [hcalls]
        exact hs.unmaps_step hi hcalls haddr
      | request hph hsend hclose hkeep hcalls hopen haddr =>
        subst hclose
        rw [hcalls]
        refine hs.request_step (by rw [hph]; exact id) hsend ?_ hcalls hopen haddr
        rintro (hc | hk)
        · exact Bool.noConfusion (hstep.close_eq.trans hc)
        · exact Bool.noConfusion (hkeep.symm.trans hk)
    · cases h
  | close =>
    cases h
    rcases hs.mapping with ⟨hnull, hempty⟩ | ⟨id, hid⟩
    · exact stepsTidily_of_tidy ⟨id, fun ha => ha.1 hnull⟩ ⟨hs.descriptors, hs.unmaps, .inl ⟨hnull, hempty⟩⟩
        fun _ => hempty
    · exact stepsTidily_of_abandons ⟨hid.address, True.intro⟩ True.intro (by simp [hid.mappings])
  | init sockfd timer type content =>
    cases h
    rcases hs.mapping with ⟨hnull, hempty⟩ | ⟨id, hid⟩
    · exact stepsTidily_of_tidy ⟨id, fun ha => ha.1 hnull⟩ ⟨hs.descriptors, hs.unmaps, .inl ⟨hnull, hempty⟩⟩
        fun _ => hempty
    · exact stepsTidily_of_abandons ⟨hid.address, True.intro⟩ True.intro (by simp [hid.mappings])

/-- The files of a handler stay balanced over a run exactly when every `mmap` succeeds and the handler is neither
closed nor initialised again while it has a file mapped. -/
theorem filesBalanced_iff {users : Users} {ls : List UseLabel} {t : InUse}
    (h : run InUse.step (start users) ls = some t) :
    Meets InUse.step KeepsBalanced (start users) ls ↔ Meets InUse.step Tidy (start users) ls := by
  refine meets_congr (P := Settled) (fun s l s' hs hstep => ?_) (fun s l s' hs ht hstep => ?_) (settled_start users) h
  · constructor
    · intro hk
      by_contra hn
      exact (hs.step hstep).loses hn (hk s' hstep)
    · intro ht s'' hs''
      cases hstep.symm.trans hs''
      obtain ⟨hset, he⟩ := (hs.step hstep).keeps ht
      exact ⟨hset.balanced, he⟩
  · exact ((hs.step hstep).keeps ht).1

/-- A world-readable file under every name; `mmap` refuses the length 0. -/
def oneFile (file : List Byte) : Env :=
  { rootPath := lit "/root", stat := fun _ => some ⟨true, false, file.length⟩, openFile := fun _ => true,
    mmap := fun _ => if file = [] then none else some file, closeFile := true, query := fun _ => 1 }

/-- A connection asks for the file, and `r` is the result of the write call.  The bytes behind the request make up for
what `read_` takes from `m_read_idx` for its failed attempts. -/
def serveFile (file : List Byte) (r : WriteResult) : List UseLabel :=
  [.init 19 none .httpClient none, .serve, .process .tau,
    .process (.recv (.data (lit "GET /a HTTP/1.1\r\n\r\n.........")))] ++
  List.replicate 10 (.process (.recv .again)) ++
  [.process (.parse (oneFile file) .eagain), .process .tau, .process (.wrote r)]

/-- The file is sent and unmapped. -/
theorem filesBalanced_iff_hello :
    ∃ t, run InUse.step (start fun _ => none) (serveFile (lit "hello") (.count 65)) = some t ∧
      Meets InUse.step KeepsBalanced (start fun _ => none) (serveFile (lit "hello") (.count 65)) :=
  exists_run (by decide +kernel) fun _ ht => (filesBalanced_iff ht).2 (by decide +kernel)

/-- The descriptor of an empty file is never closed, and `MAP_FAILED` is passed to `munmap`; and when the write call
fails, the mapping of the file is still there after `close()`. -/
theorem emptyFile_leaks :
    (∃ t, run InUse.step (start fun _ => none) (serveFile [] (.count 128)) = some t ∧
      t.files.descriptors = 1 ∧ t.files.misused = true ∧ ¬ t.Balanced) ∧
    ∃ t, run InUse.step (start fun _ => none) (serveFile (lit "hello") .fail) = some t ∧
      t.phase = .done ∧ t.handler.sockfd = -1 ∧ t.files.mappings = [(0, 5)] := by
  constructor
  · refine exists_run_map (f := fun t => (t.files.descriptors, t.files.misused)) (a := (1, true)) (by decide +kernel)
      fun t ht => ?_
    simp only [Prod.mk.injEq] at ht
    exact ⟨ht.1, ht.2, fun hb => by simp [hb.descriptors] at ht⟩
  · refine exists_run_map (f := fun t => (t.phase, t.handler.sockfd, t.files.mappings)) (a := (.done, -1, [(0, 5)]))
      (by decide +kernel) fun t ht => ?_
    simp only [Prod.mk.injEq] at ht
    exact ht

end InUse

end ImageServer
