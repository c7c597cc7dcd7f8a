import ImageServer.Http.Accounts

/-!
# Registrations side by side

Workers are in the branch of `do_request_` for a registration at the same time.  `mutex_` is a local variable there:
every call locks a mutex of its own (`ownMutex`), so the look-up in `users`, the `INSERT` and `users.insert` of one
request come in any order with those of another.  A step is the next call of one request.

A name is registered once as long as no request looks it up in vain while another one is between its look-up and
`users.insert`, where only requests whose `INSERT` succeeds count (`registersOnce_iff`).  With one mutex for all calls
the condition always holds (`looksUpAlone_oneMutex`).
-/

namespace ImageServer

open CLib Transition

/-- Where a request is in the branch for a registration. -/
inductive RegisterAt
  /-- `mutex_.lock()` is next -/
  | arriving
  /-- `users.find` is next -/
  | locked
  /-- the name was not found, and `mysql_query` is next -/
  | missing
  /-- `users.insert` is next -/
  | queried
  /-- the page is chosen by `res` next -/
  | inserted
  /-- the name was found, and the page is chosen next -/
  | found
  /-- `mutex_.unlock()` is next -/
  | leaving (page : List Byte)
  | answered (page : List Byte)
deriving DecidableEq

/-- A registration: the account, and what `mysql_query` returns for its `INSERT`. -/
structure Registration where
  name : List Byte
  password : List Byte
  result : Int
  pos : RegisterAt
deriving DecidableEq

structure Registrations where
  users : Users
  requests : List Registration
  /-- the mutexes that are locked -/
  locked : List Nat
  /-- the requests whose `INSERT` has succeeded, in their order -/
  inserted : List Nat

/-- The `mutex_` of each request: a local variable of its call. -/
def ownMutex (i : Nat) : Nat := i

/-- From a look-up in vain to `/log.html`. -/
def RegisterAt.Won : RegisterAt → Prop
  | .missing | .queried | .inserted => True
  | .leaving page | .answered page => page = lit "/log.html"
  | .arriving | .locked | .found => False

/-- A request for `name` that finds it missing and whose `INSERT` succeeds. -/
structure Registration.Wins (name : List Byte) (x : Registration) : Prop where
  named : x.name = name
  result : x.result = 0
  won : x.pos.Won

namespace Registrations

/-- The requests have come to the branch. -/
def start (users : Users) (rows : List (List Byte × List Byte × Int)) : Registrations :=
  { users := users, requests := rows.map fun x => ⟨x.1, x.2.1, x.2.2, .arriving⟩, locked := [], inserted := [] }

def move (s : Registrations) (i : Nat) (t : Registration) (pos : RegisterAt) : Registrations :=
  { s with requests := s.requests.set i { t with pos := pos } }

/-- The next call of the request `i`; there is none when it waits for its mutex or has left the branch. -/
def step (mutexOf : Nat → Nat) (s : Registrations) (i : Nat) : Option Registrations :=
  s.requests[i]?.bind fun t =>
    match t.pos with
    | .arriving =>
      if mutexOf i ∈ s.locked then none
      else some { s.move i t .locked with locked := mutexOf i :: s.locked }
    | .locked => some (s.move i t (if s.users t.name = none then .missing else .found))
    | .missing =>
      some { s.move i t .queried with inserted := if t.result = 0 then s.inserted ++ [i] else s.inserted }
    | .queried =>
      -- `insert` leaves a name that is there
      some { s.move i t .inserted with
        users := if s.users t.name = none then Function.update s.users t.name (some t.password) else s.users }
    | .inserted =>
      some (s.move i t (.leaving (if t.result = 0 then lit "/log.html" else lit "/registerError.html")))
    | .found => some (s.move i t (.leaving (lit "/registerError.html")))
    | .leaving page => some { s.move i t (.answered page) with locked := s.locked.erase (mutexOf i) }
    | .answered _ => none

/-- A request that looks its name up in vain, and whose `INSERT` will succeed, is the only such one on its way from
the look-up to `users.insert`. -/
def LooksUpAlone (s : Registrations) (i : Nat) : Prop :=
  ∀ x ∈ s.requests[i]?, x.pos = .locked → x.result = 0 → s.users x.name = none →
    ∀ y ∈ s.requests, y.name = x.name → y.result = 0 → y.pos ≠ .missing ∧ y.pos ≠ .queried

instance (s : Registrations) (i : Nat) : Decidable (s.LooksUpAlone i) :=
  inferInstanceAs (Decidable (∀ x ∈ s.requests[i]?, _ → _ → _ → ∀ y ∈ s.requests, _ → _ → _ ∧ _))

/-- The requests for `name` whose `INSERT` has succeeded. -/
def insertedFor (s : Registrations) (name : List Byte) : List Nat :=
  s.inserted.filter fun i => (s.requests[i]?.map Registration.name) = some name

/-- The requests for `name` that are answered with `page`. -/
def answeredWith (s : Registrations) (name page : List Byte) : List Registration :=
  s.requests.filter fun x => x.name = name ∧ x.pos = .answered page

structure AtMostOnce (name : List Byte) (s : Registrations) : Prop where
  inserts : (s.insertedFor name).length ≤ 1
  logins : (s.answeredWith name (lit "/log.html")).length ≤ 1
  others : ∀ x ∈ s.requests, x.name = name → ∀ page, x.pos = .answered page →
    page = lit "/log.html" ∨ page = lit "/registerError.html"

/-! ### One step -/

variable {mutexOf : Nat → Nat} {s s' : Registrations} {i : Nat} {name : List Byte}

/-- Everything a step can do. -/
private theorem step_cases (h : s.step mutexOf i = some s') :
    ∃ x, s.requests[i]? = some x ∧
      ((x.pos = .arriving ∧ mutexOf i ∉ s.locked ∧
          s' = { s.move i x .locked with locked := mutexOf i :: s.locked }) ∨
        (x.pos = .locked ∧ s' = s.move i x (if s.users x.name = none then .missing else .found)) ∨
        (x.pos = .missing ∧ s' = { s.move i x .queried with
          inserted := if x.result = 0 then s.inserted ++ [i] else s.inserted }) ∨
        (x.pos = .queried ∧ s' = { s.move i x .inserted with
          users := if s.users x.name = none then Function.update s.users x.name (some x.password) else s.users }) ∨
        (x.pos = .inserted ∧
          s' = s.move i x (.leaving (if x.result = 0 then lit "/log.html" else lit "/registerError.html"))) ∨
        (x.pos = .found ∧ s' = s.move i x (.leaving (lit "/registerError.html"))) ∨
        ∃ page, x.pos = .leaving page ∧
          s' = { s.move i x (.answered page) with locked := s.locked.erase (mutexOf i) }) := by
  obtain ⟨x, hx, h⟩ := Option.bind_eq_some_iff.1 h
  refine ⟨x, hx, ?_⟩
  cases hpos : x.pos with
  | arriving =>
    simp only [hpos] at h
    split at h
    · cases h
    · exact .inl ⟨rfl, ‹_›, (Option.some.inj h).symm⟩
  | locked => simp_all
  | missing => simp_all
  | queried => simp_all
  | inserted => simp_all
  | found => simp_all
  | leaving page => simp_all
  | answered page => simp [hpos] at h

/-- The request that takes the step moves on, and the others stay where they are. -/
private theorem requests_step (h : s.step mutexOf i = some s') :
    ∃ x pos, s.requests[i]? = some x ∧ s'.requests = s.requests.set i { x with pos := pos } := by
  obtain ⟨x, hx, h⟩ := step_cases h
  rcases h with ⟨-, -, rfl⟩ | ⟨-, rfl⟩ | ⟨-, rfl⟩ | ⟨-, rfl⟩ | ⟨-, rfl⟩ | ⟨-, rfl⟩ | ⟨page, -, rfl⟩ <;>
    exact ⟨x, _, hx, rfl⟩

/-- The request `j` before a step. -/
private theorem request_before (h : s.step mutexOf i = some s') {j : Nat} {y : Registration}
    (hy : s'.requests[j]? = some y) :
    ∃ x, s.requests[j]? = some x ∧ y.name = x.name ∧ y.result = x.result ∧ (j ≠ i → y = x) := by
  obtain ⟨x, pos, hx, hr⟩ := requests_step h
  rw [hr, List.getElem?_set] at hy
  split at hy
  · rename_i hij
    split at hy
    · cases hy
      exact ⟨x, hij ▸ hx, rfl, rfl, fun hne => absurd hij.symm hne⟩
    · cases hy
  · exact ⟨y, hy, rfl, rfl, fun _ => rfl⟩

/-- The request `j` after a step. -/
private theorem request_after (h : s.step mutexOf i = some s') {j : Nat} {x : Registration}
    (hx : s.requests[j]? = some x) :
    ∃ y, s'.requests[j]? = some y ∧ y.name = x.name ∧ y.result = x.result ∧ (j ≠ i → y = x) := by
  obtain ⟨z, pos, hz, hr⟩ := requests_step h
  rw [hr, List.getElem?_set]
  by_cases hij : i = j
  · subst hij
    cases hx.symm.trans hz
    have hi : i < s.requests.length := (List.getElem?_eq_some_iff.1 hx).1
    exact ⟨{ x with pos := pos }, by simp [hi], rfl, rfl, fun hne => absurd rfl hne⟩
  · exact ⟨x, by simp [hij, hx], rfl, rfl, fun _ => rfl⟩

private theorem getElem?_move {x : Registration} (hx : s.requests[i]? = some x) (pos : RegisterAt) :
    (s.move i x pos).requests[i]? = some { x with pos := pos } :=
  List.getElem?_set_self (List.getElem?_eq_some_iff.1 hx).1

/-- An account in `users` stays there. -/
private theorem users_step (h : s.step mutexOf i = some s') (hu : s'.users name = none) : s.users name = none := by
  obtain ⟨x, hx, h⟩ := step_cases h
  rcases h with ⟨-, -, rfl⟩ | ⟨-, rfl⟩ | ⟨-, rfl⟩ | ⟨-, rfl⟩ | ⟨-, rfl⟩ | ⟨-, rfl⟩ | ⟨page, -, rfl⟩
  · exact hu
  · exact hu
  · exact hu
  · dsimp only at hu
    split at hu
    · rename_i hnone
      by_cases hn : name = x.name
      · rw [hn, hnone]
      · rwa [Function.update_of_ne hn] at hu
    · exact hu
  · exact hu
  · exact hu
  · exact hu

/-- A request wins by its look-up alone, and has won from then on. -/
private theorem won_step (h : s.step mutexOf i = some s') {x y : Registration} (hx : s.requests[i]? = some x)
    (hy : s'.requests[i]? = some y) (hres : x.result = 0) :
    y.pos.Won ↔ x.pos.Won ∨ (x.pos = .locked ∧ s.users x.name = none) := by
  obtain ⟨z, hz, h⟩ := step_cases h
  cases hx.symm.trans hz
  have hlost : lit "/registerError.html" ≠ lit "/log.html" := by decide
  rcases h with ⟨hpos, -, rfl⟩ | ⟨hpos, rfl⟩ | ⟨hpos, rfl⟩ | ⟨hpos, rfl⟩ | ⟨hpos, rfl⟩ | ⟨hpos, rfl⟩ |
    ⟨page, hpos, rfl⟩ <;> cases (getElem?_move hx _).symm.trans hy <;> rw [hpos]
  · simp [RegisterAt.Won]
  · by_cases hu : s.users x.name = none <;> simp [RegisterAt.Won, hu]
  · simp [RegisterAt.Won]
  · simp [RegisterAt.Won]
  · simp [RegisterAt.Won, hres]
  · simp [RegisterAt.Won, hlost]
  · simp [RegisterAt.Won]

/-- Past `users.insert` a request has been there before, or has just made its name known. -/
private theorem past_step (h : s.step mutexOf i = some s') {x y : Registration} (hx : s.requests[i]? = some x)
    (hy : s'.requests[i]? = some y) (hwon : y.pos.Won) (hmissing : y.pos ≠ .missing) (hqueried : y.pos ≠ .queried) :
    (x.pos.Won ∧ x.pos ≠ .missing ∧ x.pos ≠ .queried) ∨ s'.users x.name ≠ none := by
  obtain ⟨z, hz, h⟩ := step_cases h
  cases hx.symm.trans hz
  have hlost : lit "/registerError.html" ≠ lit "/log.html" := by decide
  rcases h with ⟨hpos, -, rfl⟩ | ⟨hpos, rfl⟩ | ⟨hpos, rfl⟩ | ⟨hpos, rfl⟩ | ⟨hpos, rfl⟩ | ⟨hpos, rfl⟩ |
    ⟨page, hpos, rfl⟩ <;> cases (getElem?_move hx _).symm.trans hy
  · exact hwon.elim
  · dsimp only at hwon hmissing
    by_cases hu : s.users x.name = none
    · rw [if_pos hu] at hmissing
      exact absurd rfl hmissing
    · rw [if_neg hu] at hwon
      exact hwon.elim
  · exact absurd rfl hqueried
  · right
    dsimp only
    split
    · simp
    · assumption
  · exact .inl ⟨hpos ▸ True.intro, by simp [hpos], by simp [hpos]⟩
  · exact absurd hwon hlost
  · exact .inl ⟨hpos ▸ hwon, by simp [hpos], by simp [hpos]⟩

/-! ### At most one winner -/

/-- One request at most has won the name, and past `users.insert` the name is in `users`. -/
structure Single (name : List Byte) (s : Registrations) : Prop where
  unique : ∀ (j k : Nat) (x y : Registration), s.requests[j]? = some x → s.requests[k]? = some y → x.Wins name →
    y.Wins name → j = k
  known : ∀ x ∈ s.requests, x.Wins name → x.pos ≠ .missing → x.pos ≠ .queried → s.users name ≠ none

private theorem single_start (users : Users) (rows : List (List Byte × List Byte × Int)) :
    Single name (start users rows) := by
  have harriving : ∀ x ∈ (start users rows).requests, ¬ x.Wins name := by
    intro x hx hw
    obtain ⟨row, -, rfl⟩ := List.mem_map.1 hx
    exact hw.won
  exact ⟨fun j k x y hx _ hw _ => absurd hw (harriving x (List.mem_of_getElem? hx)),
    fun x hx hw => absurd hw (harriving x hx)⟩

/-- A request that has not won before a step and has won after it looked the name up in vain. -/
private theorem wins_step (h : s.step mutexOf i = some s') {j : Nat} {y : Registration} (hy : s'.requests[j]? = some y)
    (hw : y.Wins name) :
    ∃ x, s.requests[j]? = some x ∧
      (x.Wins name ∨ (j = i ∧ x.name = name ∧ x.result = 0 ∧ x.pos = .locked ∧ s.users name = none)) := by
  obtain ⟨x, hx, hname, hres, hother⟩ := request_before h hy
  refine ⟨x, hx, ?_⟩
  by_cases hj : j = i
  · subst hj
    have hn : x.name = name := hname.symm.trans hw.named
    have hr : x.result = 0 := hres.symm.trans hw.result
    rcases (won_step h hx hy hr).1 hw.won with hwon | ⟨hpos, hu⟩
    · exact .inl ⟨hn, hr, hwon⟩
    · exact .inr ⟨rfl, hn, hr, hpos, hn ▸ hu⟩
  · exact .inl (hother hj ▸ hw)

/-- A request that has won stays so. -/
private theorem wins_after (h : s.step mutexOf i = some s') {j : Nat} {x : Registration} (hx : s.requests[j]? = some x)
    (hw : x.Wins name) : ∃ y, s'.requests[j]? = some y ∧ y.Wins name := by
  obtain ⟨y, hy, hname, hres, hother⟩ := request_after h hx
  refine ⟨y, hy, hname.trans hw.named, hres.trans hw.result, ?_⟩
  by_cases hj : j = i
  · subst hj
    exact (won_step h hx hy hw.result).2 (.inl hw.won)
  · exact (hother hj) ▸ hw.won

/-- When a request looks up alone, no other has won its name. -/
private theorem Single.alone (hs : Single name s) (hc : s.LooksUpAlone i) {x : Registration}
    (hx : s.requests[i]? = some x) (hn : x.name = name) (hres : x.result = 0) (hpos : x.pos = .locked)
    (hu : s.users name = none) {y : Registration} (hy : y ∈ s.requests) : ¬ y.Wins name := by
  intro hw
  obtain ⟨hmissing, hqueried⟩ := hc x hx hpos hres (hn ▸ hu) y hy (hw.named.trans hn.symm) hw.result
  exact hs.known y hy hw hmissing hqueried hu

private theorem Single.step (hs : Single name s) (hc : s.LooksUpAlone i) (h : s.step mutexOf i = some s') :
    Single name s' := by
  constructor
  · intro j k x y hx hy hxw hyw
    obtain ⟨x', hx', hxc⟩ := wins_step h hx hxw
    obtain ⟨y', hy', hyc⟩ := wins_step h hy hyw
    rcases hxc with hxc | ⟨rfl, hn, hr, hpos, hu⟩
    · rcases hyc with hyc | ⟨rfl, hn, hr, hpos, hu⟩
      · exact hs.unique j k x' y' hx' hy' hxc hyc
      · exact absurd hxc (hs.alone hc hy' hn hr hpos hu (List.mem_of_getElem? hx'))
    · rcases hyc with hyc | ⟨rfl, -⟩
      · exact absurd hyc (hs.alone hc hx' hn hr hpos hu (List.mem_of_getElem? hy'))
      · rfl
  · intro y hy hw hmissing hqueried hu
    obtain ⟨j, hj⟩ := List.getElem?_of_mem hy
    obtain ⟨x, hx, hname, hres, hother⟩ := request_before h hj
    by_cases hji : j = i
    · subst hji
      rcases past_step h hx hj hw.won hmissing hqueried with ⟨hwon, hm, hq⟩ | hknown
      · have hxw : x.Wins name := ⟨hname.symm.trans hw.named, hres.symm.trans hw.result, hwon⟩
        exact hs.known x (List.mem_of_getElem? hx) hxw hm hq (users_step h hu)
      · exact hknown ((hname.symm.trans hw.named) ▸ hu)
    · rw [hother hji] at hw hmissing hqueried
      exact hs.known x (List.mem_of_getElem? hx) hw hmissing hqueried (users_step h hu)

/-! ### What is inserted and answered -/

/-- What the steps of the requests leave behind. -/
structure Recorded (s : Registrations) : Prop where
  nodup : s.inserted.Nodup
  inserted : ∀ j ∈ s.inserted, ∃ x, s.requests[j]? = some x ∧ x.Wins x.name ∧ x.pos ≠ .missing
  pages : ∀ x ∈ s.requests, ∀ page, x.pos = .leaving page ∨ x.pos = .answered page →
    (page = lit "/log.html" ∧ x.result = 0) ∨ page = lit "/registerError.html"

private theorem recorded_start (users : Users) (rows : List (List Byte × List Byte × Int)) :
    (start users rows).Recorded where
  nodup := List.nodup_nil
  inserted j hj := absurd hj List.not_mem_nil
  pages x hx page hpage := by
    obtain ⟨row, -, rfl⟩ := List.mem_map.1 hx
    rcases hpage with h | h <;> cases h

private theorem inserted_step (h : s.step mutexOf i = some s') {x : Registration} (hx : s.requests[i]? = some x) :
    s'.inserted = s.inserted ∨ (s'.inserted = s.inserted ++ [i] ∧ x.result = 0 ∧ x.pos = .missing) := by
  obtain ⟨z, hz, h⟩ := step_cases h
  cases hx.symm.trans hz
  rcases h with ⟨-, -, rfl⟩ | ⟨-, rfl⟩ | ⟨hpos, rfl⟩ | ⟨-, rfl⟩ | ⟨-, rfl⟩ | ⟨-, rfl⟩ | ⟨page, -, rfl⟩
  · exact .inl rfl
  · exact .inl rfl
  · by_cases hres : x.result = 0
    · exact .inr ⟨if_pos hres, hres, hpos⟩
    · exact .inl (if_neg hres)
  · exact .inl rfl
  · exact .inl rfl
  · exact .inl rfl
  · exact .inl rfl

/-- A request is before its `INSERT` after its look-up only, and it is given a page by its result or because its name
is found. -/
private theorem pos_step (h : s.step mutexOf i = some s') {x y : Registration} (hx : s.requests[i]? = some x)
    (hy : s'.requests[i]? = some y) :
    (y.pos = .missing → x.pos = .locked) ∧
      ∀ page, y.pos = .leaving page ∨ y.pos = .answered page →
        x.pos = .leaving page ∨ (page = lit "/log.html" ∧ y.result = 0) ∨ page = lit "/registerError.html" := by
  obtain ⟨z, hz, h⟩ := step_cases h
  cases hx.symm.trans hz
  rcases h with ⟨hpos, -, rfl⟩ | ⟨hpos, rfl⟩ | ⟨hpos, rfl⟩ | ⟨hpos, rfl⟩ | ⟨hpos, rfl⟩ | ⟨hpos, rfl⟩ |
    ⟨page, hpos, rfl⟩ <;> cases (getElem?_move hx _).symm.trans hy <;> rw [hpos]
  · simp
  · by_cases hu : s.users x.name = none <;> simp [hu]
  · simp
  · simp
  · by_cases hres : x.result = 0 <;> simp [hres]
  · simp
  · simp

private theorem Recorded.step (hs : s.Recorded) (h : s.step mutexOf i = some s') : s'.Recorded := by
  obtain ⟨x, pos, hx, hr⟩ := requests_step h
  obtain ⟨y, hy, hname, hres, -⟩ := request_after h hx
  obtain ⟨hmissing, hpage⟩ := pos_step h hx hy
  -- what the list has stays as it is: only a look-up leads to an `INSERT`
  have hkept : ∀ j ∈ s.inserted, ∃ z, s'.requests[j]? = some z ∧ z.Wins z.name ∧ z.pos ≠ .missing := by
    intro j hj
    obtain ⟨u, hu, hw, hm⟩ := hs.inserted j hj
    obtain ⟨z, hz, hzw⟩ := wins_after h hu hw
    refine ⟨z, hz, hzw.named.symm ▸ hzw, fun hzm => ?_⟩
    by_cases hji : j = i
    · subst hji
      cases hu.symm.trans hx
      cases hz.symm.trans hy
      have hwon := hw.won
      rw [hmissing hzm] at hwon
      exact hwon
    · obtain ⟨u', hu', -, -, hother⟩ := request_before h hz
      cases hu.symm.trans hu'
      exact hm (hother hji ▸ hzm)
  constructor
  · rcases inserted_step h hx with hi | ⟨hi, -, hpos⟩
    · exact hi ▸ hs.nodup
    · rw [hi, List.nodup_append]
      refine ⟨hs.nodup, by simp, fun j hj k hk hjk => ?_⟩
      obtain ⟨u, hu, -, hm⟩ := hs.inserted j hj
      cases List.mem_singleton.1 hk
      subst hjk
      cases hu.symm.trans hx
      exact hm hpos
  · rcases inserted_step h hx with hi | ⟨hi, hzero, hpos⟩
    · exact hi ▸ hkept
    · intro j hj
      rw [hi, List.mem_append, List.mem_singleton] at hj
      rcases hj with hj | rfl
      · exact hkept j hj
      · have hxw : x.Wins x.name := ⟨rfl, hzero, hpos ▸ True.intro⟩
        obtain ⟨z, hz, hzw⟩ := wins_after h hx hxw
        cases hz.symm.trans hy
        refine ⟨y, hy, hzw.named.symm ▸ hzw, fun hym => ?_⟩
        rw [hmissing hym] at hpos
        cases hpos
  · intro z hz page hzp
    obtain ⟨j, hj⟩ := List.getElem?_of_mem hz
    by_cases hji : j = i
    · subst hji
      cases hj.symm.trans hy
      rcases hpage page hzp with hpos | hp
      · have := hs.pages x (List.mem_of_getElem? hx) page (.inl hpos)
        rwa [hres]
      · exact hp
    · obtain ⟨u, hu, -, -, hother⟩ := request_before h hj
      rw [hother hji] at hzp ⊢
      exact hs.pages u (List.mem_of_getElem? hu) page hzp

private theorem Recorded.run {users : Users} {rows : List (List Byte × List Byte × Int)} {ls : List Nat}
    {t : Registrations} (h : run (Registrations.step mutexOf) (start users rows) ls = some t) : t.Recorded :=
  run_invariant (P := Recorded) (fun _ _ _ hs _ hstep => hs.step hstep) (recorded_start users rows) Meets.trivial h

/-- A request that is answered with `/log.html` has won. -/
private theorem Recorded.wins (hr : s.Recorded) {x : Registration} (hx : x ∈ s.requests) (hn : x.name = name)
    (hpos : x.pos = .answered (lit "/log.html")) : x.Wins name := by
  rcases hr.pages x hx _ (.inr hpos) with ⟨-, hres⟩ | hlost
  · exact ⟨hn, hres, hpos ▸ rfl⟩
  · exact absurd hlost (by decide)

/-- Where there is one winner, one `INSERT` succeeds and one request is answered with `/log.html`. -/
private theorem Single.atMostOnce (hs : Single name s) (hr : s.Recorded) : AtMostOnce name s where
  inserts := by
    refine length_filter_le_one_iff.2 fun a b j k ha hb hj hk => ?_
    obtain ⟨x, hx, hxw, -⟩ := hr.inserted j (List.mem_of_getElem? ha)
    obtain ⟨y, hy, hyw, -⟩ := hr.inserted k (List.mem_of_getElem? hb)
    have hxn : x.name = name := by simpa [hx] using hj
    have hyn : y.name = name := by simpa [hy] using hk
    cases hs.unique j k x y hx hy (hxn ▸ hxw) (hyn ▸ hyw)
    exact (List.getElem?_inj (List.getElem?_eq_some_iff.1 ha).1 hr.nodup).1 (ha.trans hb.symm)
  logins := by
    refine length_filter_le_one_iff.2 fun j k x y hx hy hxp hyp => ?_
    obtain ⟨hxn, hxpos⟩ := of_decide_eq_true hxp
    obtain ⟨hyn, hypos⟩ := of_decide_eq_true hyp
    exact hs.unique j k x y hx hy (hr.wins (List.mem_of_getElem? hx) hxn hxpos)
      (hr.wins (List.mem_of_getElem? hy) hyn hypos)
  others x hx _ page hpos := (hr.pages x hx page (.inr hpos)).imp_left And.left

/-- When the requests look their names up alone, a name is registered at most once. -/
private theorem atMostOnce_of_alone {users : Users} {rows : List (List Byte × List Byte × Int)} {ls : List Nat}
    {t : Registrations} (hc : Meets (Registrations.step mutexOf) LooksUpAlone (start users rows) ls)
    (h : run (Registrations.step mutexOf) (start users rows) ls = some t) : AtMostOnce name t := by
  have hsingle : Single name t :=
    run_invariant (fun s i s' hs hc hstep => hs.step hc hstep) (single_start users rows) hc h
  exact hsingle.atMostOnce (Recorded.run h)

/-- Two requests have won one name, which was not in `users`. -/
def Overtaken (users : Users) (s : Registrations) : Prop :=
  ∃ name, users name = none ∧ ∃ (j k : Nat) (x y : Registration), j ≠ k ∧ s.requests[j]? = some x ∧
    s.requests[k]? = some y ∧ x.Wins name ∧ y.Wins name

private theorem Overtaken.step {users : Users} (ho : s.Overtaken users) (h : s.step mutexOf i = some s') :
    s'.Overtaken users := by
  obtain ⟨name, hu, j, k, x, y, hjk, hx, hy, hxw, hyw⟩ := ho
  obtain ⟨x', hx', hxw'⟩ := wins_after h hx hxw
  obtain ⟨y', hy', hyw'⟩ := wins_after h hy hyw
  exact ⟨name, hu, j, k, x', y', hjk, hx', hy', hxw', hyw'⟩

/-- A look-up in vain that is not alone gives the name a second winner. -/
private theorem overtaken_of_not_alone {users : Users} (hgrow : ∀ name, s.users name = none → users name = none)
    (hc : ¬ s.LooksUpAlone i) (h : s.step mutexOf i = some s') : s'.Overtaken users := by
  simp only [LooksUpAlone, not_forall, not_and_or, not_not] at hc
  obtain ⟨x, hx, hpos, hres, hu, y, hy, hname, hyres, hypos⟩ := hc
  obtain ⟨k, hk⟩ := List.getElem?_of_mem hy
  obtain ⟨x', hx', hxn, hxr, -⟩ := request_after h hx
  have hxw : x'.Wins x.name := ⟨hxn, hxr.trans hres, (won_step h hx hx' hres).2 (.inr ⟨hpos, hu⟩)⟩
  have hyw : y.Wins x.name := ⟨hname, hyres, by rcases hypos with hp | hp <;> rw [hp] <;> trivial⟩
  obtain ⟨y', hy', hyw'⟩ := wins_after h hk hyw
  refine ⟨x.name, hgrow _ hu, i, k, x', y', fun hik => ?_, hx', hy', hxw, hyw'⟩
  subst hik
  cases hx.symm.trans hk
  rw [hpos] at hypos
  rcases hypos with hp | hp <;> cases hp

/-- When every request is answered, a winner is answered with `/log.html`. -/
private theorem Overtaken.not_atMostOnce {users : Users} (ho : s.Overtaken users)
    (hall : ∀ x ∈ s.requests, ∃ page, x.pos = .answered page) :
    ∃ name, users name = none ∧ ¬ AtMostOnce name s := by
  obtain ⟨name, hu, j, k, x, y, hjk, hx, hy, hxw, hyw⟩ := ho
  have hanswered : ∀ z ∈ s.requests, z.Wins name → z.name = name ∧ z.pos = .answered (lit "/log.html") := by
    intro z hz hw
    obtain ⟨page, hpage⟩ := hall z hz
    have hwon := hw.won
    rw [hpage] at hwon
    exact ⟨hw.named, hpage.trans (congrArg _ hwon)⟩
  refine ⟨name, hu, fun honce => hjk ?_⟩
  exact length_filter_le_one_iff.1 honce.logins j k x y hx hy
    (decide_eq_true (hanswered x (List.mem_of_getElem? hx) hxw))
    (decide_eq_true (hanswered y (List.mem_of_getElem? hy) hyw))

/-- With a mutex for every call, names are registered at most once when the requests look them up alone; and when all
are answered, only then. -/
theorem registersOnce_iff {users : Users} {rows : List (List Byte × List Byte × Int)} {ls : List Nat}
    {t : Registrations} (h : run (Registrations.step ownMutex) (start users rows) ls = some t) :
    (Meets (Registrations.step ownMutex) LooksUpAlone (start users rows) ls →
        ∀ name, users name = none → AtMostOnce name t) ∧
      ((∀ x ∈ t.requests, ∃ page, x.pos = .answered page) → (∀ name, users name = none → AtMostOnce name t) →
        Meets (Registrations.step ownMutex) LooksUpAlone (start users rows) ls) := by
  refine ⟨fun hc _ _ => atMostOnce_of_alone hc h, fun hall honce => ?_⟩
  have hor : Occurs (Registrations.step ownMutex) (fun s i => ¬ s.LooksUpAlone i) (start users rows) ls ∨ _ :=
    occurs_or_meets _ _ _
  rcases hor with ho | hm
  · have hover : t.Overtaken users := by
      refine ho.persists (P := fun s => ∀ name, s.users name = none → users name = none) ?_ ?_ ?_ (fun _ => id) h
      · exact fun s i s' hgrow hstep name hu => hgrow name (users_step hstep hu)
      · exact fun s i s' hgrow hc hstep => overtaken_of_not_alone hgrow hc hstep
      · exact fun s i s' _ ho hstep => ho.step hstep
    obtain ⟨name, hu, hnot⟩ := hover.not_atMostOnce hall
    exact absurd (honce name hu) hnot
  · exact hm.imp fun _ _ => not_not.1

/-- Two accounts named `a`, whose `INSERT`s would both succeed. -/
def twoAlike : List (List Byte × List Byte × Int) := [(lit "a", lit "p", 0), (lit "a", lit "q", 0)]

/-- One registration after the other. -/
theorem registersOnce_iff_twoAlike :
    ∃ t, run (step ownMutex) (start (fun _ => none) twoAlike) [0, 0, 0, 0, 0, 0, 1, 1, 1, 1] = some t ∧
      ∀ name, AtMostOnce name t := by
  refine exists_run (by decide) fun t ht name => (registersOnce_iff ht).1 ?_ name rfl
  decide

/-- Both look the name up before either of them registers it. -/
theorem registeredTwice :
    ∃ t, run (step ownMutex) (start (fun _ => none) twoAlike) [0, 0, 1, 1, 0, 0, 0, 0, 1, 1, 1, 1] = some t ∧
      t.insertedFor (lit "a") = [0, 1] ∧ ¬ AtMostOnce (lit "a") t := by
  refine exists_run_map (f := fun t => (t.insertedFor (lit "a"), (t.answeredWith (lit "a") (lit "/log.html")).length))
    (a := ([0, 1], 2)) (by decide) fun t ht => ?_
  have hinserted : t.insertedFor (lit "a") = [0, 1] := congrArg Prod.fst ht
  refine ⟨hinserted, fun honce => ?_⟩
  have := honce.inserts
  rw [hinserted] at this
  simp at this

end Registrations

/-! ### One mutex for all -/

/-- A request holds its mutex from `lock` to `unlock`. -/
def RegisterAt.InSection : RegisterAt → Prop
  | .arriving | .answered _ => False
  | .locked | .missing | .queried | .inserted | .found | .leaving _ => True

namespace Registrations

variable {mutexOf : Nat → Nat} {s s' : Registrations} {i : Nat}

/-- The requests that hold a mutex have one each. -/
structure Exclusive (mutexOf : Nat → Nat) (s : Registrations) : Prop where
  nodup : s.locked.Nodup
  held : ∀ (j : Nat) (x : Registration), s.requests[j]? = some x → x.pos.InSection → mutexOf j ∈ s.locked
  unique : ∀ (j k : Nat) (x y : Registration), s.requests[j]? = some x → s.requests[k]? = some y → x.pos.InSection →
    y.pos.InSection → mutexOf j = mutexOf k → j = k

private theorem exclusive_start (users : Users) (rows : List (List Byte × List Byte × Int)) :
    Exclusive mutexOf (start users rows) := by
  have harriving : ∀ (j : Nat) (x : Registration), (start users rows).requests[j]? = some x → ¬ x.pos.InSection := by
    intro j x hx hin
    obtain ⟨row, -, rfl⟩ := List.mem_map.1 (List.mem_of_getElem? hx)
    exact hin
  exact ⟨List.nodup_nil, fun j x hx hin => absurd hin (harriving j x hx),
    fun j k x y hx _ hin => absurd hin (harriving j x hx)⟩

/-- A step locks a free mutex, unlocks its own, or stays within the section. -/
private theorem section_step (h : s.step mutexOf i = some s') {x y : Registration} (hx : s.requests[i]? = some x)
    (hy : s'.requests[i]? = some y) :
    (mutexOf i ∉ s.locked ∧ s'.locked = mutexOf i :: s.locked) ∨
      (x.pos.InSection ∧ s'.locked = s.locked) ∨
      (x.pos.InSection ∧ ¬ y.pos.InSection ∧ s'.locked = s.locked.erase (mutexOf i)) := by
  obtain ⟨z, hz, h⟩ := step_cases h
  cases hx.symm.trans hz
  rcases h with ⟨hpos, hfree, rfl⟩ | ⟨hpos, rfl⟩ | ⟨hpos, rfl⟩ | ⟨hpos, rfl⟩ | ⟨hpos, rfl⟩ | ⟨hpos, rfl⟩ |
    ⟨page, hpos, rfl⟩ <;> cases (getElem?_move hx _).symm.trans hy <;> rw [hpos]
  · exact .inl ⟨hfree, rfl⟩
  · exact .inr (.inl ⟨True.intro, rfl⟩)
  · exact .inr (.inl ⟨True.intro, rfl⟩)
  · exact .inr (.inl ⟨True.intro, rfl⟩)
  · exact .inr (.inl ⟨True.intro, rfl⟩)
  · exact .inr (.inl ⟨True.intro, rfl⟩)
  · exact .inr (.inr ⟨True.intro, id, rfl⟩)

private theorem Exclusive.step (hs : Exclusive mutexOf s) (h : s.step mutexOf i = some s') : Exclusive mutexOf s' := by
  obtain ⟨x, pos, hx, hr⟩ := requests_step h
  obtain ⟨y, hy, -, -, -⟩ := request_after h hx
  have hother : ∀ (j : Nat) (z : Registration), s'.requests[j]? = some z → j ≠ i → s.requests[j]? = some z := by
    intro j z hz hji
    obtain ⟨u, hu, -, -, hsame⟩ := request_before h hz
    rw [hsame hji]
    exact hu
  -- a request that holds a mutex after the step and is not the one that takes it held it before
  rcases section_step h hx hy with ⟨hfree, hl⟩ | ⟨hin, hl⟩ | ⟨hin, hout, hl⟩
  · refine ⟨hl ▸ List.nodup_cons.2 ⟨hfree, hs.nodup⟩, fun j z hz hzin => ?_, fun j k u v hu hv huin hvin hm => ?_⟩
    · rw [hl]
      by_cases hji : j = i
      · exact hji ▸ List.mem_cons_self
      · exact List.mem_cons_of_mem _ (hs.held j z (hother j z hz hji) hzin)
    · by_cases hji : j = i
      · by_cases hki : k = i
        · rw [hji, hki]
        · rw [hji] at hm
          exact absurd (hm ▸ hs.held k v (hother k v hv hki) hvin) hfree
      · by_cases hki : k = i
        · rw [hki] at hm
          exact absurd (hm ▸ hs.held j u (hother j u hu hji) huin) hfree
        · exact hs.unique j k u v (hother j u hu hji) (hother k v hv hki) huin hvin hm
  · have hbefore : ∀ (j : Nat) (z : Registration), s'.requests[j]? = some z → z.pos.InSection →
        ∃ u, s.requests[j]? = some u ∧ u.pos.InSection := by
      intro j z hz hzin
      by_cases hji : j = i
      · exact ⟨x, hji ▸ hx, hin⟩
      · exact ⟨z, hother j z hz hji, hzin⟩
    refine ⟨hl ▸ hs.nodup, fun j z hz hzin => ?_, fun j k u v hu hv huin hvin hm => ?_⟩
    · obtain ⟨u, hu, huin⟩ := hbefore j z hz hzin
      exact hl ▸ hs.held j u hu huin
    · obtain ⟨u', hu', huin'⟩ := hbefore j u hu huin
      obtain ⟨v', hv', hvin'⟩ := hbefore k v hv hvin
      exact hs.unique j k u' v' hu' hv' huin' hvin' hm
  · have hleft : ∀ (j : Nat) (z : Registration), s'.requests[j]? = some z → z.pos.InSection → j ≠ i := by
      rintro j z hz hzin rfl
      cases hz.symm.trans hy
      exact hout hzin
    refine ⟨hl ▸ hs.nodup.erase _, fun j z hz hzin => ?_, fun j k u v hu hv huin hvin hm => ?_⟩
    · have hji : j ≠ i := hleft j z hz hzin
      have hz' : s.requests[j]? = some z := hother j z hz hji
      rw [hl, List.mem_erase_of_ne fun hm => hji (hs.unique j i z x hz' hx hzin hin hm)]
      exact hs.held j z hz' hzin
    · exact hs.unique j k u v (hother j u hu (hleft j u hu huin)) (hother k v hv (hleft k v hv hvin)) huin hvin hm

/-- With one mutex for all calls a request always looks its name up alone. -/
theorem looksUpAlone_oneMutex {m : Nat} (hs : Exclusive (fun _ => m) s) : s.LooksUpAlone i := by
  intro x hx hpos _ _ y hy _ _
  obtain ⟨j, hj⟩ := List.getElem?_of_mem hy
  refine ⟨fun hm => ?_, fun hq => ?_⟩
  · cases hs.unique i j x y hx hj (hpos ▸ True.intro) (hm ▸ True.intro) rfl
    cases Option.some.inj (hj.symm.trans hx)
    rw [hpos] at hm
    cases hm
  · cases hs.unique i j x y hx hj (hpos ▸ True.intro) (hq ▸ True.intro) rfl
    cases Option.some.inj (hj.symm.trans hx)
    rw [hpos] at hq
    cases hq

/-- With one mutex for all calls a name is registered at most once in every run. -/
theorem atMostOnce_oneMutex {m : Nat} {users : Users} {rows : List (List Byte × List Byte × Int)} {ls : List Nat}
    {t : Registrations} (h : run (Registrations.step fun _ => m) (start users rows) ls = some t) (name : List Byte) :
    AtMostOnce name t := by
  have hboth : Exclusive (fun _ => m) t ∧ Single name t := by
    refine run_invariant (P := fun s => Exclusive (fun _ => m) s ∧ Single name s) ?_
      ⟨exclusive_start users rows, single_start users rows⟩ Meets.trivial h
    intro s i s' hs _ hstep
    exact ⟨hs.1.step hstep, hs.2.step (looksUpAlone_oneMutex hs.1) hstep⟩
  exact hboth.2.atMostOnce (Recorded.run h)

/-! ### One request alone -/

/-- A request that is not interrupted does what `register` does. -/
theorem register_alone {env : Env} {mysql : Option Nat} {x : Registration} {page : List Byte} {users : Users}
    (hx : s.requests[i]? = some x) (hpos : x.pos = .arriving) (hfree : mutexOf i ∉ s.locked)
    (hres : ∀ sql, sqlInsert x.name x.password = some sql → x.result = env.query sql)
    (hreg : register env mysql s.users x.name x.password = some (page, users)) :
    ∃ n t, run (Registrations.step mutexOf) s (List.replicate n i) = some t ∧ t.users = users ∧
      t.requests = s.requests.set i { x with pos := .answered page } ∧ t.locked = s.locked := by
  obtain ⟨sql, hsql, hcases⟩ := register_cases hreg
  obtain ⟨name, password, result, pos⟩ := x
  dsimp only at hpos hsql hcases hres
  subst hpos
  rcases hcases with ⟨hu, rfl, rfl⟩ | ⟨hu, rfl, rfl⟩
  · refine ⟨4, ?_⟩
    simp [run, Registrations.step, hx, hfree, move, hu, List.getElem?_set_self']
  · refine ⟨6, ?_⟩
    by_cases hz : env.query sql = 0 <;>
      simp [run, Registrations.step, hx, hfree, move, hu, hres sql hsql, hz, List.getElem?_set_self']

end Registrations

end ImageServer
