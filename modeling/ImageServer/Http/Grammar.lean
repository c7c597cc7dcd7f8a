import ImageServer.Http.Parse

/-!
# The parser on texts

What `parse_` decides, as a function of the received bytes alone: lines ended by CR LF are taken off one after
the other (`takeLine`), the first is read as a request line, the others as headers, and the empty line ends the
head (`scan`).  There is no buffer, no index and no writing here; that the parser of the handler computes this
function is proved in `ParseText`.

The grammar itself is then a statement about how the bytes fall into lines: `Head bs l hs rest` says that `bs`
consists of the request line `l`, the header lines `hs`, the empty line and `rest`.
-/

namespace ImageServer

open CLib

/-! ### Lines -/

/-- The text of a line: no CR, LF or NUL. -/
def Plain (l : List Byte) : Prop := CR ∉ l ∧ LF ∉ l ∧ 0 ∉ l

instance (l : List Byte) : Decidable (Plain l) := instDecidableAnd

theorem plain_decimal (n : Nat) : Plain (decimal n) := by
  refine ⟨fun h => ?_, fun h => ?_, fun h => ?_⟩ <;> exact absurd (isDigit_of_mem_decimal h) (by decide)

theorem Plain.append {a b : List Byte} (ha : Plain a) (hb : Plain b) : Plain (a ++ b) :=
  ⟨by simp [ha.1, hb.1], by simp [ha.2.1, hb.2.1], by simp [ha.2.2, hb.2.2]⟩

/-- The first line, when it is ended by CR LF, and what follows it. -/
def takeLine : List Byte → Option (List Byte × List Byte)
  | [] => none
  | b :: s =>
    if b = CR then
      match s with
      | [] => none
      | b' :: r => if b' = LF then some ([], r) else none
    else if b = LF ∨ b = 0 then none
    else (takeLine s).map fun x => (b :: x.1, x.2)

theorem takeLine_line {l : List Byte} (r : List Byte) (h : Plain l) :
    takeLine (l ++ CR :: LF :: r) = some (l, r) := by
  induction l with
  | nil => simp [takeLine]
  | cons b l ih =>
    obtain ⟨h1, h2, h3⟩ := h
    simp only [List.mem_cons, not_or] at h1 h2 h3
    have hb : ¬ (b = LF ∨ b = 0) := by
      rintro (e | e)
      · exact h2.1 e.symm
      · exact h3.1 e.symm
    simp [takeLine, Ne.symm h1.1, hb, ih ⟨h1.2, h2.2, h3.2⟩]

theorem takeLine_eq_some {s l r : List Byte} : takeLine s = some (l, r) ↔ s = l ++ CR :: LF :: r ∧ Plain l := by
  refine ⟨fun h => ?_, fun ⟨hs, hl⟩ => hs ▸ takeLine_line r hl⟩
  induction s generalizing l with
  | nil => cases h
  | cons b s ih =>
    unfold takeLine at h
    split at h
    · rename_i hb
      subst hb
      split at h
      · cases h
      · split at h
        · rename_i hb'
          subst hb'
          cases h
          exact ⟨rfl, by decide⟩
        · cases h
    · rename_i hb
      split at h
      · cases h
      · rename_i hb'
        obtain ⟨⟨l', r'⟩, ht, he⟩ := Option.map_eq_some_iff.1 h
        cases he
        obtain ⟨rfl, h1, h2, h3⟩ := ih ht
        simp only [not_or] at hb'
        exact ⟨rfl, by simp [h1, Ne.symm hb], by simp [h2, Ne.symm hb'.1], by simp [h3, Ne.symm hb'.2]⟩

theorem takeLine_length {s l r : List Byte} (h : takeLine s = some (l, r)) : r.length < s.length := by
  rw [(takeLine_eq_some.1 h).1]
  simp only [List.length_append, List.length_cons]
  omega

/-! ### The request line -/

/-- The method, and the offsets of the path and of the version in the line. -/
structure RequestLine where
  method : Method
  url : Nat
  version : Nat

def textMethod (m : List Byte) : Option Method :=
  if ciEq (lit "GET") m then some .get
  else if ciEq (lit "POST") m then some .post
  else if ciEq (lit "HEAD") m then some .head
  else none

/-- Where the path starts in the target. -/
def pathOffset (u : List Byte) : Option Nat :=
  if ciPrefix (lit "http://") u then (cut SLASH (u.drop 7)).map (7 + ·.1.length)
  else if ciPrefix (lit "https://") u then (cut SLASH (u.drop 8)).map (8 + ·.1.length)
  else some 0

/-- The path that `m_url` then holds: a lone `/` stands for the start page. -/
def servedPath (path : List Byte) : List Byte := if path = [SLASH] then lit "/judge.html" else path

/-- A method, a target with a path and the version, with single blanks between them. -/
def readRequestLine (l : List Byte) : Option RequestLine := do
  let (m, l') ← cut SP l
  let method ← textMethod m
  let (u, v) ← cut SP l'
  let o ← pathOffset u
  if (u.drop o).head? = some SLASH ∧ ciEq (lit "HTTP/1.1") v then
    return ⟨method, m.length + 1 + o, m.length + 1 + u.length + 1⟩
  else none

/-- The path in the line, from its offset. -/
theorem takeWhile_path {m u v : List Byte} {o : Nat} (hu : SP ∉ u) (ho : o ≤ u.length) :
    ((m ++ SP :: (u ++ SP :: v)).drop (m.length + 1 + o)).takeWhile (· ≠ SP) = u.drop o := by
  rw [Nat.add_assoc, List.drop_length_add_append, Nat.add_comm 1 o, List.drop_succ_cons,
    List.drop_append_of_le_length ho, List.takeWhile_append_of_pos]
  · simp
  · intro b hb
    exact decide_eq_true fun h => hu (h ▸ List.mem_of_mem_drop hb)

/-! ### The headers -/

/-- The value of a header line whose name takes `k` characters. -/
def headerValue (k : Nat) (l : List Byte) : List Byte := (l.drop k).dropWhile (· ∈ [SP, HT])

/-- The line is a `Content-length` header. -/
def IsContentLength (l : List Byte) : Prop := ciPrefix (lit "Content-length:") l = true

instance (l : List Byte) : Decidable (IsContentLength l) := instDecidableEqBool ..

/-- What the header lines read so far have set. -/
structure HeadState where
  contentLength : Int
  linger : Bool
  errno : Errno

/-- The effect of a header line; there is none when the line is answered as malformed. -/
def readHeader (x : HeadState) (l : List Byte) : Option HeadState :=
  if ciPrefix (lit "Connection:") l then
    some (if ciPrefix (lit "close") (headerValue 11 l) then { x with linger := false } else x)
  else if IsContentLength l then
    let v := strtolText (headerValue 15 l)
    let errno := if v.2 then .erange else x.errno
    if errno = .einval then none else some { x with contentLength := toInt32 v.1, errno := errno }
  else some x

/-! ### The whole request -/

/-- What `parse_` does with a request: it leaves the buffer, returns `ERROR_FORMAT`, or goes on to `do_request_`
with `rest` behind the empty line. -/
inductive Verdict
  | undefined
  | rejected
  | accepted (x : HeadState) (rest : List Byte)

/-- The buffer ends before the search for CR or for LF does. -/
def Unterminated (n : Nat) (s : List Byte) : Prop := n = READ_BUFFER_SIZE ∧ 0 ∉ s ∧ (CR ∉ s ∨ LF ∉ s)

instance (n : Nat) (s : List Byte) : Decidable (Unterminated n s) := instDecidableAnd

/-- The end of the `n` received bytes is `s` and has no complete line. -/
def scanOpen (n : Nat) (s : List Byte) : Verdict := if Unterminated n s then .undefined else .rejected

/-- The end of the `n` received bytes is `rest`, which follows the empty line. -/
def scanBody (n : Nat) (x : HeadState) (rest : List Byte) : Verdict :=
  if x.contentLength = 0 then .accepted x rest
  else if x.contentLength ≤ rest.length then
    let e := (n : Int) - rest.length + x.contentLength
    if 0 ≤ e ∧ e < READ_BUFFER_SIZE then .accepted x rest else .undefined
  else .rejected

def scanHeaders (n : Nat) (x : HeadState) (s : List Byte) : Verdict :=
  match _h : takeLine s with
  | none => scanOpen n s
  | some (l, r) =>
    if l = [] then scanBody n x r
    else
      match readHeader x l with
      | none => .rejected
      | some x' => scanHeaders n x' r
termination_by s.length
decreasing_by exact takeLine_length ‹_›

theorem scanHeaders_open {n : Nat} {x : HeadState} {s : List Byte} (h : takeLine s = none) :
    scanHeaders n x s = scanOpen n s := by
  rw [scanHeaders]
  split
  · rfl
  · rename_i h'
    rw [h] at h'
    cases h'

theorem scanHeaders_line {n : Nat} {x : HeadState} {s l r : List Byte} (h : takeLine s = some (l, r)) :
    scanHeaders n x s =
      if l = [] then scanBody n x r
      else match readHeader x l with
        | none => .rejected
        | some x' => scanHeaders n x' r := by
  rw [scanHeaders]
  split
  · rename_i h'
    rw [h] at h'
    cases h'
  · rename_i h'
    rw [h] at h'
    cases h'
    rfl

def scan (errno : Errno) (bs : List Byte) : Verdict :=
  match takeLine bs with
  | none => scanOpen bs.length bs
  | some (l, r) => if (readRequestLine l).isSome then scanHeaders bs.length ⟨0, true, errno⟩ r else .rejected

/-! ### How the bytes fall into lines -/

/-- The bytes of header lines, each with its line end. -/
def lines (hs : List (List Byte)) : List Byte := (hs.map (· ++ [CR, LF])).flatten

def HeaderLines (hs : List (List Byte)) : Prop := ∀ h ∈ hs, Plain h ∧ h ≠ []

/-- `bs` is the request line `l`, the header lines `hs`, the empty line and `rest`. -/
structure Head (bs l : List Byte) (hs : List (List Byte)) (rest : List Byte) : Prop where
  bytes : bs = l ++ CR :: LF :: (lines hs ++ CR :: LF :: rest)
  plain : Plain l
  headers : HeaderLines hs

def readHeaders (x : HeadState) (hs : List (List Byte)) : Option HeadState := hs.foldlM readHeader x

theorem lines_cons (h : List Byte) (hs : List (List Byte)) (s : List Byte) :
    lines (h :: hs) ++ s = h ++ CR :: LF :: (lines hs ++ s) := by
  simp [lines]

theorem scanHeaders_lines {n : Nat} {x x' : HeadState} {hs : List (List Byte)} {s : List Byte}
    (hh : HeaderLines hs) (hx : readHeaders x hs = some x') :
    scanHeaders n x (lines hs ++ s) = scanHeaders n x' s := by
  induction hs generalizing x with
  | nil => cases hx; rfl
  | cons h hs ih =>
    obtain ⟨hp, h0⟩ := hh h List.mem_cons_self
    obtain ⟨y, hy, hx⟩ := Option.bind_eq_some_iff.1 hx
    rw [lines_cons, scanHeaders_line (takeLine_line _ hp), if_neg h0, hy]
    exact ih (fun h hm => hh h (List.mem_cons_of_mem _ hm)) hx

theorem scanHeaders_head {n : Nat} {x x' : HeadState} {hs : List (List Byte)} {rest : List Byte}
    (hh : HeaderLines hs) (hx : readHeaders x hs = some x') :
    scanHeaders n x (lines hs ++ CR :: LF :: rest) = scanBody n x' rest := by
  have ht : takeLine (CR :: LF :: rest) = some ([], rest) := takeLine_line (l := []) rest (by decide)
  rw [scanHeaders_lines hh hx, scanHeaders_line ht, if_pos rfl]

/-- The header lines are read up to the end of the received bytes, to the empty line, or to a malformed one. -/
theorem scanHeaders_cases (n : Nat) (x : HeadState) (s : List Byte) :
    ∃ hs r x', HeaderLines hs ∧ s = lines hs ++ r ∧ readHeaders x hs = some x' ∧
      ((takeLine r = none ∧ scanHeaders n x s = scanOpen n r) ∨
       (∃ rest, r = CR :: LF :: rest ∧ scanHeaders n x s = scanBody n x' rest) ∨
       (∃ h r', r = h ++ CR :: LF :: r' ∧ Plain h ∧ h ≠ [] ∧ readHeader x' h = none ∧
          scanHeaders n x s = .rejected)) := by
  have hnil : HeaderLines [] := fun h hm => absurd hm List.not_mem_nil
  fun_induction scanHeaders n x s with
  | case1 x s ht => exact ⟨[], s, x, hnil, rfl, rfl, Or.inl ⟨ht, rfl⟩⟩
  | case2 x s r ht =>
    exact ⟨[], s, x, hnil, rfl, rfl, Or.inr (Or.inl ⟨r, (takeLine_eq_some.1 ht).1, rfl⟩)⟩
  | case3 x s l r ht h0 hx =>
    obtain ⟨hs, hl⟩ := takeLine_eq_some.1 ht
    exact ⟨[], s, x, hnil, rfl, rfl, Or.inr (Or.inr ⟨l, r, hs, hl, h0, hx, rfl⟩)⟩
  | case4 x s l r ht h0 y hx ih =>
    obtain ⟨hs', hl⟩ := takeLine_eq_some.1 ht
    obtain ⟨hs, r', x', hh, hr, hx', hcases⟩ := ih
    refine ⟨l :: hs, r', x', ?_, ?_, Option.bind_eq_some_iff.2 ⟨y, hx, hx'⟩, hcases⟩
    · intro h hm
      rcases List.mem_cons.1 hm with rfl | hm
      · exact ⟨hl, h0⟩
      · exact hh h hm
    · rw [lines_cons, ← hr]
      exact hs'

end ImageServer
