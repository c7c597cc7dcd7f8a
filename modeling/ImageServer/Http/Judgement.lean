import ImageServer.Http.HeaderValues
import ImageServer.Http.Accepted
import ImageServer.Http.RequestLine

/-!
# What `parse_` decides and keeps, wherever `m_read_idx` stands

`read_` does not leave `m_read_idx` behind the last byte it has received.  `judge` says what `parse_` makes of a text
at the start of `m_read_buf` for any value of the index: `parse_line_` compares the offset of a line end in its line
with it, and `parse_content_` the end of the body.  `Stored` says what is in the handler when the lines of a head have
been read: the path at `m_url`, and at the pointer of each header the first word of its last value.  `parse_judge`
proves both of `parse_`.
-/

namespace ImageServer

open CLib

/-- The string at the start of an array is decided by the characters up to its NUL. -/
private theorem cstring_of_take {s s' w : List Byte} {k : Nat} (h : cstring s = some w) (hk : w.length < k)
    (hs : s'.take k = s.take k) : cstring s' = some w := by
  obtain ⟨r, rfl, h0⟩ := cstring_eq_some h
  have hlen : (w ++ [(0 : Byte)]).length ≤ k := by
    rw [List.length_append, List.length_singleton]
    omega
  have hsplit : s' = w ++ 0 :: ((r.take (k - w.length - 1)) ++ s'.drop k) := by
    conv_lhs => rw [← List.take_append_drop k s', hs, show w ++ 0 :: r = (w ++ [0]) ++ r by simp, List.take_append,
      List.take_of_length_le hlen]
    simp [Nat.sub_sub]
  rw [hsplit, cstring_text h0]

namespace Parser

/-! ### The texts the pointers stand for -/

/-- The pointer kept for a header. -/
def field (p : Parser) : Field → Option Nat
  | .host => p.host
  | .useragent => p.useragent
  | .origin => p.origin
  | .contentType => p.contentType
  | .encoding => p.encoding
  | .upgrade => p.upgrade
  | .accept => p.accept
  | .referer => p.referer
  | .language => p.language

private theorem field_setField (p : Parser) (v : Nat) (f f' : Field) :
    (p.setField v f).field f' = if f' = f then some v else p.field f' := by
  cases f <;> cases f' <;> rfl

/-- The pointer `t` designates the text `w`, which with its NUL stands before `c`. -/
def TextAt (p : Parser) (t : Option Nat) (c : Nat) (w : List Byte) : Prop :=
  ∃ a, t = some a ∧ cstring (p.readBuf.suffix a) = some w ∧ a + w.length < c

/-- A text stays as long as nothing is written before `c`. -/
private theorem TextAt.keep {p p' : Parser} {t : Option Nat} {c c' : Nat} {w : List Byte} (h : TextAt p t c w)
    (hb : p'.readBuf.bytes.take c = p.readBuf.bytes.take c) (hc : c ≤ c') : TextAt p' t c' w := by
  obtain ⟨a, ha, hw, hlt⟩ := h
  refine ⟨a, ha, cstring_of_take (k := c - a) hw (by omega) ?_, by omega⟩
  have hdrop := congrArg (List.drop a) hb
  rwa [List.drop_take, List.drop_take] at hdrop

/-- What a header line makes a pointer of: the field, and the first word of the value. -/
def storedWord (l : List Byte) : Option (Field × List Byte) :=
  if ciPrefix (lit "Connection:") l ∨ IsContentLength l then none
  else (fieldNames.find? fun x => ciPrefix x.2 l).map fun x =>
    (x.1, (headerValue x.2.length l).takeWhile (· ∉ [SP, HT]))

/-- The word kept for a field when the header lines `hs` have been read: that of the last one. -/
def keptWord (f : Field) (hs : List (List Byte)) : Option (List Byte) :=
  hs.foldl (fun w h => (((storedWord h).filter (·.1 = f)).map Prod.snd).or w) none

private theorem keptWord_concat (f : Field) (hs : List (List Byte)) (h : List Byte) :
    keptWord f (hs ++ [h]) = (((storedWord h).filter (·.1 = f)).map Prod.snd).or (keptWord f hs) := by
  simp [keptWord]

/-! ### One header line -/

private theorem findField_find {l r : List Byte} (h0 : 0 ∉ l) {names : List (Field × List Byte)}
    (hn : ∀ x ∈ names, 0 ∉ x.2) :
    findField (l ++ 0 :: r) names = some ((names.find? fun x => ciPrefix x.2 l).map fun x => (x.1, x.2.length)) := by
  induction names with
  | nil => rfl
  | cons x names ih =>
    obtain ⟨f, name⟩ := x
    unfold findField
    rw [strncaseeq_text (hn _ List.mem_cons_self) h0, List.find?_cons]
    simp only [Option.bind_eq_bind, Option.bind_some]
    cases hp : ciPrefix name l with
    | true => rfl
    | false =>
      rw [if_neg (by decide)]
      exact ih fun x hx => hn x (List.mem_cons_of_mem _ hx)

/-- The pointers after a header line that ends before `c`. -/
def FieldsAfter (p p' : Parser) (c : Nat) (l : List Byte) : Prop :=
  ∀ f, match (storedWord l).filter (·.1 = f) with
    | some x => TextAt p' (p'.field f) c x.2
    | none => p'.field f = p.field f

/-- What else a header line does: it writes nothing before itself, and stores the word of its value. -/
private theorem parseHeaders_stores {p p' : Parser} {t : Nat} {l r : List Byte} {errno errno' : Errno}
    (hs : p.readBuf.suffix t = l ++ 0 :: r) (h0 : 0 ∉ l) (hl : l ≠ [])
    (h : p.parseHeaders_ t errno = some (.parsering, p', errno')) :
    p'.readBuf.bytes.take t = p.readBuf.bytes.take t ∧ FieldsAfter p p' (t + l.length + 1) l := by
  obtain ⟨b, l', rfl⟩ := List.exists_cons_of_ne_nil hl
  have hb : b ≠ 0 := fun e => h0 (by simp [e])
  -- where the cut is made: at the value, which lies in the line
  have hcut : ∀ {q : Parser} {t' : Nat} {e : Errno} {v : List Byte}, q.readBuf = p.readBuf →
      p.readBuf.suffix t' = v ++ 0 :: r → t' + v.length = t + (b :: l').length → 0 ∉ v → t ≤ t' →
      q.cutAtBlank t' e = some (.parsering, p', errno') →
      p'.readBuf.bytes.take t = p.readBuf.bytes.take t ∧ (∀ f, p'.field f = q.field f) ∧
        TextAt p' (some t') (t + (b :: l').length + 1) (v.takeWhile (· ∉ [SP, HT])) := by
    intro q t' e v hq hv hlen hv0 hle hc
    obtain ⟨buf, hbuf, -, htake, hword⟩ := cutAtBlank_text (p := q) e (hq ▸ hv) hv0
    cases hc.symm.trans hbuf
    have hshort := (List.takeWhile_sublist (p := fun x => decide (x ∉ [SP, HT])) (l := v)).length_le
    refine ⟨?_, fun f => by cases f <;> rfl, t', rfl, hword, by omega⟩
    have := congrArg (List.take t) htake
    rwa [List.take_take, List.take_take, Nat.min_eq_left hle, hq] at this
  have hvalue : ∀ k ≤ (b :: l').length, ∀ t', skipBlanks p.readBuf t k = some t' →
      p.readBuf.suffix t' = headerValue k (b :: l') ++ 0 :: r ∧
      t' + (headerValue k (b :: l')).length = t + (b :: l').length ∧ 0 ∉ headerValue k (b :: l') ∧ t ≤ t' := by
    intro k hk t' ht'
    obtain ⟨t'', ht'', hsuf, hlen⟩ := skipBlanks_text hs h0 hk
    cases ht'.symm.trans ht''
    have hle : (headerValue k (b :: l')).length ≤ (b :: l').length :=
      ((List.dropWhile_sublist _).length_le).trans (List.drop_sublist k _).length_le
    exact ⟨hsuf, hlen, fun hm => h0 (List.mem_of_mem_drop ((List.dropWhile_sublist _).subset hm)), by omega⟩
  unfold parseHeaders_ at h
  simp only [Option.bind_eq_bind, CharArray.peek_suffix, hs, List.cons_append, List.head?_cons, Option.bind_some,
    if_neg hb] at h
  rw [← List.cons_append, strncaseeq_text (by decide) h0, strncaseeq_text (by decide) h0,
    findField_find h0 (by decide +kernel)] at h
  simp only [Option.bind_some] at h
  unfold FieldsAfter storedWord
  split at h
  · rename_i hconn
    obtain ⟨t', ht', h⟩ := Option.bind_eq_some_iff.1 h
    obtain ⟨close, -, h⟩ := Option.bind_eq_some_iff.1 h
    obtain ⟨hsuf, hlen, hv0, hle⟩ := hvalue 11 (ciPrefix_length hconn) t' ht'
    rw [if_pos (Or.inl hconn)]
    split at h
    · obtain ⟨htake, hfield, -⟩ := hcut (q := { p with linger := false }) rfl hsuf hlen hv0 hle h
      exact ⟨htake, fun f => (hfield f).trans (by cases f <;> rfl)⟩
    · obtain ⟨htake, hfield, -⟩ := hcut rfl hsuf hlen hv0 hle h
      exact ⟨htake, hfield⟩
  rename_i hconn
  split at h
  · rename_i hlength
    obtain ⟨t', ht', h⟩ := Option.bind_eq_some_iff.1 h
    obtain ⟨⟨v, range⟩, -, h⟩ := Option.bind_eq_some_iff.1 h
    obtain ⟨hsuf, hlen, hv0, hle⟩ := hvalue 15 (ciPrefix_length hlength) t' ht'
    rw [if_pos (Or.inr (show IsContentLength (b :: l') from hlength))]
    dsimp only at h
    generalize (if range = true then Errno.erange else errno) = e at h
    split at h
    · cases h
    · obtain ⟨htake, hfield, -⟩ := hcut (q := { p with contentLength := toInt32 v }) rfl hsuf hlen hv0 hle h
      exact ⟨htake, fun f => (hfield f).trans (by cases f <;> rfl)⟩
  rename_i hlength
  have hlength' : ¬ IsContentLength (b :: l') := hlength
  rw [if_neg (not_or.2 ⟨hconn, hlength'⟩)]
  cases hfind : fieldNames.find? fun x => ciPrefix x.2 (b :: l') with
  | none =>
    rw [hfind] at h
    obtain ⟨htake, hfield, -⟩ := hcut (v := b :: l') rfl hs rfl h0 le_rfl h
    exact ⟨htake, hfield⟩
  | some x =>
    obtain ⟨f, name⟩ := x
    rw [hfind] at h
    simp only [Option.map_some] at h ⊢
    obtain ⟨t', ht', h⟩ := Option.bind_eq_some_iff.1 h
    have hp := List.find?_some (p := fun x : Field × List Byte => ciPrefix x.2 (b :: l')) hfind
    obtain ⟨hsuf, hlen, hv0, hle⟩ := hvalue _ (ciPrefix_length hp) t' ht'
    obtain ⟨htake, hfield, htext⟩ := hcut (setField_kept p t' f).2.1 hsuf hlen hv0 hle h
    refine ⟨htake, fun f' => ?_⟩
    rw [hfield f', field_setField, Option.filter_some]
    by_cases hf : f = f'
    · subst hf
      rw [if_pos (by simp), if_pos rfl]
      exact htext
    · rw [if_neg (by simpa using hf), if_neg (Ne.symm hf)]

end Parser

/-! ### The judgement -/

/-- What `parse_` comes to: it leaves the buffer, returns `ERROR_FORMAT` with `m_linger` as it is by then, or calls
`do_request_` for the request line `line` and the header lines `hs`, with `rest` behind the empty line. -/
inductive Judgement
  | undefined
  | refused (linger : Bool)
  | accepted (line : List Byte) (hs : List (List Byte)) (x : HeadState) (rest : List Byte)

/-- The first line, when its end is before `m_read_idx` in the comparison of `parse_line_`: the offset in the line is
compared with the index in the buffer. -/
def seenLine (k : Int) (s : List Byte) : Option (List Byte × List Byte) :=
  (takeLine s).filter fun x => (x.1.length : Int) + 1 < k

theorem seenLine_eq_some {k : Int} {s l r : List Byte} :
    seenLine k s = some (l, r) ↔ s = l ++ CR :: LF :: r ∧ Plain l ∧ (l.length : Int) + 1 < k := by
  unfold seenLine
  rw [Option.filter_eq_some_iff, takeLine_eq_some, and_assoc]
  simp

private theorem seenLine_length {k : Int} {s l r : List Byte} (h : seenLine k s = some (l, r)) :
    r.length < s.length := by
  rw [(seenLine_eq_some.1 h).1, List.length_append, List.length_cons, List.length_cons]
  omega

/-- No line is seen in the `n` bytes, of which `s` is left. -/
def judgeOpen (n : Nat) (linger : Bool) (s : List Byte) : Judgement :=
  if Unterminated n s then .undefined else .refused linger

/-- The empty line is before the offset `c`: a body that is declared has to end before `m_read_idx`. -/
def judgeBody (k : Int) (c : Nat) (line : List Byte) (hs : List (List Byte)) (x : HeadState) (rest : List Byte) :
    Judgement :=
  if x.contentLength = 0 then .accepted line hs x rest
  else if c + x.contentLength ≤ k then
    if 0 ≤ c + x.contentLength ∧ c + x.contentLength < READ_BUFFER_SIZE then .accepted line hs x rest else .undefined
  else .refused x.linger

/-- The text from the offset `c` on is `s`, and the header lines `hs` have been read. -/
def judgeHeaders (k : Int) (c : Nat) (line : List Byte) (hs : List (List Byte)) (x : HeadState) (s : List Byte) :
    Judgement :=
  match _h : seenLine k s with
  | none => judgeOpen (c + s.length) x.linger s
  | some (l, r) =>
    if l = [] then judgeBody k (c + 2) line hs x r
    else
      match readHeader x l with
      | none => .refused x.linger
      | some x' => judgeHeaders k (c + l.length + 2) line (hs ++ [l]) x' r
termination_by s.length
decreasing_by exact seenLine_length ‹_›

private theorem judgeHeaders_open {k : Int} {c : Nat} {line s : List Byte} {hs : List (List Byte)} {x : HeadState}
    (h : seenLine k s = none) : judgeHeaders k c line hs x s = judgeOpen (c + s.length) x.linger s := by
  rw [judgeHeaders]
  split
  · rfl
  · rename_i h'
    rw [h] at h'
    cases h'

theorem judgeHeaders_line {k : Int} {c : Nat} {line s l r : List Byte} {hs : List (List Byte)} {x : HeadState}
    (h : seenLine k s = some (l, r)) :
    judgeHeaders k c line hs x s =
      if l = [] then judgeBody k (c + 2) line hs x r
      else match readHeader x l with
        | none => .refused x.linger
        | some x' => judgeHeaders k (c + l.length + 2) line (hs ++ [l]) x' r := by
  conv_lhs => rw [judgeHeaders]
  split
  · rename_i h'
    rw [h] at h'
    cases h'
  · rename_i l' r' h'
    rw [h] at h'
    cases h'
    rfl

/-- What `parse_` makes of the text `s` with `m_read_idx` at `k`. -/
def judge (k : Int) (errno : Errno) (s : List Byte) : Judgement :=
  match seenLine k s with
  | none => judgeOpen s.length true s
  | some (l, r) =>
    if (readRequestLine l).isSome then judgeHeaders k (l.length + 2) l [] ⟨0, true, errno⟩ r else .refused true

namespace Parser

/-! ### Lines -/

/-- The bytes from `c` on are the text `s` and zeros, which nothing has been done to yet, and `m_read_idx` is `k`. -/
structure Facing (p : Parser) (k : Int) (c : Nat) (s : List Byte) : Prop where
  text : ∃ m, p.readBuf.suffix c = s ++ List.replicate m 0
  checkedIdx : p.checkedIdx = c
  startLine : p.startLine = c
  readIdx : p.readIdx = k
  le : c + s.length ≤ READ_BUFFER_SIZE

private theorem parseLine_seen {p : Parser} {k : Int} {c : Nat} {l r : List Byte}
    (h : Facing p k c (l ++ CR :: LF :: r)) (hl : Plain l) (hk : (l.length : Int) + 1 < k) :
    ∃ buf m, p.parseLine_ = some (.lineOk, { p with readBuf := buf, checkedIdx := (c + l.length + 2 : Nat) }) ∧
      buf.suffix c = l ++ 0 :: 0 :: (r ++ List.replicate m 0) ∧ buf.bytes.take c = p.readBuf.bytes.take c := by
  obtain ⟨m, hm⟩ := h.text
  obtain ⟨hcr, hlf, h0⟩ := hl
  have hm : p.readBuf.suffix c = l ++ CR :: LF :: (r ++ List.replicate m 0) := by rw [hm]; simp
  have hr : strpbrk [CR] (p.readBuf.suffix c) = some (some l.length) := by
    rw [hm]
    exact strpbrk_found h0 (by simpa using hcr) (by simp) (by decide)
  have hn : strpbrk [LF] (p.readBuf.suffix c) = some (some (l.length + 1)) := by
    have : p.readBuf.suffix c = (l ++ [CR]) ++ LF :: (r ++ List.replicate m 0) := by rw [hm]; simp
    rw [this, strpbrk_found (by simpa using ⟨h0, by decide⟩) (by simpa using ⟨hlf, by decide⟩) (by simp) (by decide)]
    simp
  have hread := h.readIdx
  obtain ⟨buf₁, hb₁, hs₁, ht₁⟩ := CharArray.poke_split (b := 0) hm
  have hs₁' : buf₁.suffix c = (l ++ [0]) ++ LF :: (r ++ List.replicate m 0) := by rw [hs₁]; simp
  obtain ⟨buf₂, hb₂, hs₂, ht₂⟩ := CharArray.poke_split (b := 0) hs₁'
  refine ⟨buf₂, m, ?_, by rw [hs₂]; simp, ht₂.trans ht₁⟩
  have hb₂' : buf₁.poke (c + (l.length + 1)) 0 = some buf₂ := by simpa using hb₂
  unfold parseLine_
  rw [h.checkedIdx, ptr_natCast]
  simp only [Option.bind_eq_bind, Option.bind_some, hr, hn]
  rw [Option.filter_some, if_pos (by simp; omega), Option.filter_some, if_pos (by simp; omega)]
  simp only [if_true, hb₁, hb₂', Option.bind_some, Option.pure_def, Option.some.injEq, Prod.mk.injEq, true_and]
  congr 1

/-- The two searches of `parse_line_` decide whether it stays in the buffer; that it ends in `LINE_OK` takes a line
whose end is seen. -/
private theorem parseLine_searches {p : Parser} {c : Nat} (hc : p.checkedIdx = c) :
    (strpbrk [CR] (p.readBuf.suffix c) = none ∨ strpbrk [LF] (p.readBuf.suffix c) = none) ∧ p.parseLine_ = none ∨
    (strpbrk [CR] (p.readBuf.suffix c) ≠ none ∧ strpbrk [LF] (p.readBuf.suffix c) ≠ none) ∧
      ∃ st p', p.parseLine_ = some (st, p') ∧ p'.linger = p.linger ∧
        (st = .lineOk → ∃ l r, p.readBuf.suffix c = l ++ CR :: LF :: r ∧ Plain l ∧
          (l.length : Int) + 1 < p.readIdx) := by
  unfold parseLine_
  rw [hc, ptr_natCast]
  simp only [Option.bind_eq_bind, Option.bind_some]
  rcases hr : strpbrk [CR] (p.readBuf.suffix c) with _ | r
  · exact Or.inl ⟨Or.inl rfl, rfl⟩
  rcases hn : strpbrk [LF] (p.readBuf.suffix c) with _ | n
  · exact Or.inl ⟨Or.inr rfl, rfl⟩
  refine Or.inr ⟨⟨Option.some_ne_none _, Option.some_ne_none _⟩, ?_⟩
  simp only [Option.bind_some]
  split
  · rename_i j i hj hi
    obtain ⟨rfl, hseen⟩ := Option.filter_eq_some_iff.1 hj
    obtain ⟨rfl, -⟩ := Option.filter_eq_some_iff.1 hi
    split
    · rename_i hij
      subst hij
      rcases ht : takeLine (p.readBuf.suffix c) with _ | ⟨l, r⟩
      · exact absurd ht (takeLine_ne_none hr hn)
      obtain ⟨he, hl⟩ := takeLine_eq_some.1 ht
      have hlen : l.length = i := by
        have hfound : strpbrk [CR] (l ++ CR :: LF :: r) = some (some l.length) :=
          strpbrk_found hl.2.2 (by simpa using hl.1) (by simp) (by decide)
        rw [← he, hr] at hfound
        exact (Option.some.inj (Option.some.inj hfound)).symm
      obtain ⟨buf₁, hb₁, hs₁, -⟩ := CharArray.poke_split (b := 0) he
      have hs₁' : buf₁.suffix c = (l ++ [0]) ++ LF :: r := by rw [hs₁]; simp
      obtain ⟨buf₂, hb₂, -, -⟩ := CharArray.poke_split (b := 0) hs₁'
      rw [hlen] at hb₁
      have hb₂' : buf₁.poke (c + (i + 1)) 0 = some buf₂ := by simpa [hlen] using hb₂
      simp only [hb₁, hb₂', Option.bind_some]
      refine ⟨_, _, rfl, rfl, fun _ => ⟨l, r, he, hl, ?_⟩⟩
      have := of_decide_eq_true hseen
      omega
    · exact ⟨_, _, rfl, rfl, fun h => by cases h⟩
  · exact ⟨_, _, rfl, rfl, fun h => by cases h⟩
  · refine ⟨_, _, rfl, rfl, fun h => ?_⟩
    split at h <;> cases h
  · exact ⟨_, _, rfl, rfl, fun h => by cases h⟩

/-- Where no line is seen, the search runs off a full buffer or does not end in `LINE_OK`. -/
private theorem parseLine_unseen {p : Parser} {k : Int} {c : Nat} {s : List Byte} (h : Facing p k c s)
    (hs : seenLine k s = none) :
    Unterminated (c + s.length) s ∧ p.parseLine_ = none ∨
      ¬ Unterminated (c + s.length) s ∧
        ∃ st p', st ≠ .lineOk ∧ p.parseLine_ = some (st, p') ∧ p'.linger = p.linger := by
  obtain ⟨m, hm⟩ := h.text
  -- with the index behind the text the searches are the same
  have hat : At { p with readIdx := (c + s.length : Nat) } c s := ⟨⟨m, hm⟩, h.checkedIdx, h.startLine, rfl, h.le⟩
  have hsame := parseLine_searches (p := { p with readIdx := (c + s.length : Nat) }) h.checkedIdx
  have hdecide : Unterminated (c + s.length) s ∧ parseLine_ { p with readIdx := (c + s.length : Nat) } = none ∨
      ¬ Unterminated (c + s.length) s ∧ parseLine_ { p with readIdx := (c + s.length : Nat) } ≠ none := by
    rcases ht : takeLine s with _ | ⟨l, r⟩
    · rcases parseLine_open hat ht with ⟨hu, hnone⟩ | ⟨hu, st, p', -, hsome⟩
      · exact Or.inl ⟨hu, hnone⟩
      · exact Or.inr ⟨hu, by rw [hsome]; exact Option.some_ne_none _⟩
    · obtain ⟨rfl, hl⟩ := takeLine_eq_some.1 ht
      obtain ⟨buf, m', hline, -⟩ := parseLine_line hat hl
      refine Or.inr ⟨?_, by rw [hline]; exact Option.some_ne_none _⟩
      rintro ⟨-, -, hn | hn⟩ <;> simp at hn
  rcases parseLine_searches h.checkedIdx with ⟨hsearch, hnone⟩ | ⟨hsearch, st, p', hsome, hlinger, hok⟩
  · rcases hsame with ⟨-, hnone'⟩ | ⟨hsearch', -⟩
    · exact Or.inl ⟨(hdecide.resolve_right fun hd => hd.2 hnone').1, hnone⟩
    · exact absurd hsearch (not_or.2 ⟨hsearch'.1, hsearch'.2⟩)
  · rcases hsame with ⟨hsearch', -⟩ | ⟨-, st', p'', hsome', -, -⟩
    · exact absurd hsearch' (not_or.2 ⟨hsearch.1, hsearch.2⟩)
    · refine Or.inr ⟨(hdecide.resolve_left fun hd => by rw [hsome'] at hd; cases hd.2).1, st, p', ?_, hsome, hlinger⟩
      intro hst
      obtain ⟨l, r, he, hl, hk⟩ := hok hst
      have hline : takeLine (s ++ List.replicate m 0) = some (l, r) := by rw [← hm, he, takeLine_line r hl]
      rcases ht : takeLine s with _ | ⟨l', r'⟩
      · rw [takeLine_zeros ht m] at hline
        cases hline
      · obtain ⟨rfl, hl'⟩ := takeLine_eq_some.1 ht
        rw [List.append_assoc, List.cons_append, List.cons_append, takeLine_line _ hl'] at hline
        cases hline
        rw [h.readIdx] at hk
        rw [seenLine_eq_some.2 ⟨rfl, hl', hk⟩] at hs
        cases hs

/-! ### The head -/

/-- What the handler holds of a head of the request line `l` and the header lines `hs` that ends before `c`; the
pointer of a header that is not there is still that of `p₀`. -/
structure Stored (p₀ p : Parser) (c : Nat) (l : List Byte) (hs : List (List Byte)) (x : HeadState) : Prop where
  request : ∃ path, IsRequestLine l p.method path ∧ p.TextAt p.url c (servedPath path)
  cgi : p.cgi = decide (p.method = .post)
  contentLength : p.contentLength = x.contentLength
  linger : p.linger = x.linger
  fields : ∀ f, match keptWord f hs with
    | some w => p.TextAt (p.field f) c w
    | none => p.field f = p₀.field f

/-- The fields a head sets. -/
structure SameHead (p p' : Parser) : Prop where
  method : p'.method = p.method
  cgi : p'.cgi = p.cgi
  url : p'.url = p.url
  contentLength : p'.contentLength = p.contentLength
  linger : p'.linger = p.linger
  field : ∀ f, p'.field f = p.field f

private theorem Stored.keep {p₀ p p' : Parser} {c c' : Nat} {l : List Byte} {hs : List (List Byte)} {x : HeadState}
    (h : Stored p₀ p c l hs x) (hsame : SameHead p p') (hb : p'.readBuf.bytes.take c = p.readBuf.bytes.take c)
    (hc : c ≤ c') : Stored p₀ p' c' l hs x := by
  obtain ⟨path, hline, hurl⟩ := h.request
  refine ⟨⟨path, ?_, ?_⟩, ?_, ?_, ?_, fun f => ?_⟩
  · rw [hsame.method]
    exact hline
  · rw [hsame.url]
    exact hurl.keep hb hc
  · rw [hsame.cgi, hsame.method]
    exact h.cgi
  · rw [hsame.contentLength]
    exact h.contentLength
  · rw [hsame.linger]
    exact h.linger
  · have hf := h.fields f
    rw [hsame.field]
    split at hf
    · exact hf.keep hb hc
    · exact hf

/-- A header line is stored behind the lines before it. -/
private theorem Stored.header {p₀ p p' : Parser} {c : Nat} {l h r : List Byte} {hs : List (List Byte)}
    {x x' : HeadState} {errno errno' : Errno} (hst : Stored p₀ p c l hs x) (hsuf : p.readBuf.suffix c = h ++ 0 :: r)
    (h0 : 0 ∉ h) (hne : h ≠ []) (hp : p.parseHeaders_ c errno = some (.parsering, p', errno'))
    (hL : p'.contentLength = x'.contentLength) (hli : p'.linger = x'.linger) :
    Stored p₀ p' (c + h.length + 1) l (hs ++ [h]) x' := by
  obtain ⟨hsame, -, -⟩ := parseHeaders_same hp
  obtain ⟨htake, hfields⟩ := parseHeaders_stores hsuf h0 hne hp
  obtain ⟨path, hline, hurl⟩ := hst.request
  have hle : c ≤ c + h.length + 1 := by omega
  refine ⟨⟨path, ?_, ?_⟩, ?_, hL, hli, fun f => ?_⟩
  · rw [hsame.method]
    exact hline
  · rw [hsame.url]
    exact hurl.keep htake hle
  · rw [hsame.cgi, hsame.method]
    exact hst.cgi
  · have hf := hfields f
    have hold := hst.fields f
    rw [keptWord_concat]
    rcases hw : (storedWord h).filter (·.1 = f) with _ | w <;> rw [hw] at hf ⊢
    · rcases hk : keptWord f hs with _ | w <;> rw [hk] at hold
      · exact hf.trans hold
      · rw [hf]
        exact hold.keep htake hle
    · exact hf

/-! ### What `parse_` delivers -/

/-- `res` is the end of `parse_`, called on `p₀`, that the judgement says. -/
def Delivers (p₀ : Parser) (res : Option (ParseEnd × Parser × Errno)) : Judgement → Prop
  | .undefined => res = none
  | .refused linger => ∃ p' errno, res = some (.returns .errorFormat, p', errno) ∧ p'.linger = linger
  | .accepted l hs x rest =>
    ∃ p', res = some (.doRequest, p', x.errno) ∧ p'.contentLength = x.contentLength ∧ p'.linger = x.linger ∧
      (0 ≤ x.contentLength → ∃ c, Stored p₀ p' c l hs x ∧
        (x.contentLength ≠ 0 → p'.content = some c ∧
          ∃ z, p'.readBuf.suffix c = rest.take x.contentLength.toNat ++ 0 :: z))

private theorem finishRequest_linger {p p' : Parser} {version : Nat} {ret : HttpState}
    (h : p.finishRequest version = some (ret, p')) : p'.linger = p.linger := by
  by_cases hret : ret = .errorFormat
  · unfold finishRequest at h
    split at h
    · cases h
      rfl
    obtain ⟨b, -, h⟩ := Option.bind_eq_some_iff.1 h
    split at h
    · cases h
      rfl
    obtain ⟨ok, -, h⟩ := Option.bind_eq_some_iff.1 h
    split at h
    · obtain ⟨len, -, h⟩ := Option.bind_eq_some_iff.1 h
      dsimp only at h
      split at h
      all_goals
        obtain ⟨buf, -, h⟩ := Option.bind_eq_some_iff.1 h
        cases h
        rfl
    · cases h
      rfl
  · obtain ⟨buf, rfl⟩ := finishRequest_frame h hret
    rfl

private theorem parseRequest_linger {p p' : Parser} {t : Nat} {ret : HttpState}
    (h : p.parseRequest_ t = some (ret, p')) :
    p'.linger = p.linger := by
  unfold parseRequest_ at h
  obtain ⟨i, -, h⟩ := Option.bind_eq_some_iff.1 h
  rcases i with _ | i
  · cases h
    rfl
  obtain ⟨buf, -, h⟩ := Option.bind_eq_some_iff.1 h
  obtain ⟨m, -, h⟩ := Option.bind_eq_some_iff.1 h
  rcases m with _ | m
  · cases h
    rfl
  obtain ⟨j, -, h⟩ := Option.bind_eq_some_iff.1 h
  rcases j with _ | j
  · cases h
    rfl
  obtain ⟨buf', -, h⟩ := Option.bind_eq_some_iff.1 h
  obtain ⟨url, -, h⟩ := Option.bind_eq_some_iff.1 h
  have hfinish := finishRequest_linger h
  exact hfinish

/-- A line that is refused does not change `m_linger`. -/
private theorem parseHeaders_refuses {p p' : Parser} {t : Nat} {errno errno' : Errno}
    (h : p.parseHeaders_ t errno = some (.errorFormat, p', errno')) : p'.linger = p.linger := by
  have hcut : ∀ {q : Parser} {t' : Nat} {e : Errno}, q.cutAtBlank t' e = some (.errorFormat, p', errno') → False :=
    fun hq => by cases (cutAtBlank_same ⟨rfl, rfl, rfl, rfl, rfl⟩ hq).2.2
  unfold parseHeaders_ at h
  obtain ⟨b, -, h⟩ := Option.bind_eq_some_iff.1 h
  split at h
  · split at h <;> cases h
  obtain ⟨isConnection, -, h⟩ := Option.bind_eq_some_iff.1 h
  split at h
  · obtain ⟨t', -, h⟩ := Option.bind_eq_some_iff.1 h
    obtain ⟨isClose, -, h⟩ := Option.bind_eq_some_iff.1 h
    split at h <;> exact (hcut h).elim
  obtain ⟨isLength, -, h⟩ := Option.bind_eq_some_iff.1 h
  split at h
  · obtain ⟨t', -, h⟩ := Option.bind_eq_some_iff.1 h
    obtain ⟨⟨v, range⟩, -, h⟩ := Option.bind_eq_some_iff.1 h
    dsimp only at h
    generalize (if range = true then Errno.erange else errno) = e at h
    split at h
    · cases h
      rfl
    · exact (hcut h).elim
  obtain ⟨found, -, h⟩ := Option.bind_eq_some_iff.1 h
  rcases found with _ | ⟨f, k⟩
  · exact (hcut h).elim
  · obtain ⟨t', -, h⟩ := Option.bind_eq_some_iff.1 h
    exact (hcut h).elim

/-! ### The body -/

/-- The body is looked for behind the empty line. -/
private theorem parseContent_judge {p₀ p : Parser} {k : Int} {c : Nat} {l s : List Byte} {hs : List (List Byte)}
    {x : HeadState} (fuel : Nat) (h : Facing p k c s) (hk : k ≤ (c + s.length : Nat)) (hst : Stored p₀ p c l hs x)
    (hstate : p.checkState = .checkStateContent) (hL : x.contentLength ≠ 0) :
    Delivers p₀ (parseLoop (fuel + 1) .lineOk p x.errno) (judgeBody k c l hs x s) := by
  obtain ⟨m, hm⟩ := h.text
  have hlen := hst.contentLength
  unfold parseLoop judgeBody
  simp only [hstate, if_true, and_self, Option.bind_eq_bind, Option.bind_some, h.startLine, ptr_natCast, parseText,
    ne_eq, not_true, if_false]
  unfold parseContent_
  dsimp only
  rw [if_neg hL, hlen, h.readIdx]
  by_cases hle : c + x.contentLength ≤ k
  · rw [if_pos hle, if_pos hle]
    by_cases hin : 0 ≤ (c : Int) + x.contentLength ∧ (c : Int) + x.contentLength < READ_BUFFER_SIZE
    · rw [if_pos hin]
      obtain ⟨e, he⟩ := Int.eq_ofNat_of_zero_le hin.1
      obtain ⟨buf, hbuf⟩ := CharArray.poke_isSome (a := p.readBuf) (b := 0) (show e < READ_BUFFER_SIZE by omega)
      rw [he, ptr_natCast]
      simp only [Option.bind_eq_bind, Option.bind_some, hbuf]
      refine ⟨_, rfl, rfl, hst.linger, fun hpos => ⟨c, ?_⟩⟩
      have hsplit : p.readBuf.suffix c =
          s.take x.contentLength.toNat ++ (s.drop x.contentLength.toNat ++ List.replicate m 0) := by
        rw [hm, ← List.append_assoc, List.take_append_drop]
      have hsize : (p.readBuf.suffix c).length = READ_BUFFER_SIZE - c := CharArray.suffix_length ..
      have htake : (s.take x.contentLength.toNat).length = x.contentLength.toNat := by
        rw [List.length_take]
        omega
      obtain ⟨b, r, hbr⟩ := List.exists_cons_of_length_pos
        (show 0 < (s.drop x.contentLength.toNat ++ List.replicate m 0).length by
          have := congrArg List.length hsplit
          rw [List.length_append, hsize, htake] at this
          omega)
      rw [hbr] at hsplit
      obtain ⟨buf', hbuf', hsuf, hkept⟩ := CharArray.poke_split (b := 0) hsplit
      rw [htake, show c + x.contentLength.toNat = e by omega, hbuf] at hbuf'
      cases hbuf'
      have hsame : Stored p₀ { p with
          readBuf := buf, readIdx := k, checkState := .checkStateContent, startLine := p.checkedIdx,
          contentLength := x.contentLength, content := some c } c l hs x := hst.keep
        ⟨rfl, rfl, rfl, hlen.symm, rfl, fun f => by cases f <;> rfl⟩ hkept le_rfl
      exact ⟨hsame, fun _ => ⟨rfl, r, hsuf⟩⟩
    · rw [if_neg hin]
      rcases hp : ptr (c + x.contentLength) with _ | e
      · rfl
      · rw [ptr_eq_some] at hp
        have : p.readBuf.poke e 0 = none := CharArray.poke_eq_none.2 (by omega)
        simp only [Option.bind_eq_bind, Option.bind_some, this]
        rfl
  · rw [if_neg hle, if_neg hle]
    exact ⟨_, _, rfl, hst.linger⟩

/-! ### The loop -/

/-- `q` is `p` with the line `l` at `c` taken off, and `r` left. -/
structure TakenOff (p q : Parser) (k : Int) (c : Nat) (l r : List Byte) : Prop where
  text : ∃ m, q.readBuf.suffix c = l ++ 0 :: 0 :: (r ++ List.replicate m 0)
  before : q.readBuf.bytes.take c = p.readBuf.bytes.take c
  checkedIdx : q.checkedIdx = (c + l.length + 2 : Nat)
  startLine : q.startLine = (c + l.length + 2 : Nat)
  readIdx : q.readIdx = k
  le : c + l.length + 2 + r.length ≤ READ_BUFFER_SIZE
  checkState : q.checkState = p.checkState
  same : SameHead p q

private theorem TakenOff.facing {p q p' : Parser} {k : Int} {c : Nat} {l r : List Byte} (h : TakenOff p q k c l r)
    (h1 : p'.checkedIdx = q.checkedIdx) (h2 : p'.startLine = q.startLine) (h3 : p'.readIdx = q.readIdx)
    (hs : ∀ z, q.readBuf.suffix c = l ++ 0 :: 0 :: z → p'.readBuf.suffix (c + l.length + 2) = z) :
    Facing p' k (c + l.length + 2) r := by
  obtain ⟨m, hm⟩ := h.text
  exact ⟨⟨m, hs _ hm⟩, h1.trans h.checkedIdx, h2.trans h.startLine, h3.trans h.readIdx, h.le⟩

/-- An iteration of the loop on a line that is seen. -/
theorem parseLoop_seen {p : Parser} {k : Int} {c : Nat} {l r : List Byte} (fuel : Nat) (status : LineState)
    (errno : Errno) (h : Facing p k c (l ++ CR :: LF :: r)) (hl : Plain l) (hk : (l.length : Int) + 1 < k)
    (hst : p.checkState ≠ .checkStateContent) :
    ∃ q, TakenOff p q k c l r ∧
      parseLoop (fuel + 1) status p errno = (q.parseText c errno).bind fun x =>
        match x.1 with
        | some e => some (e, x.2.1, x.2.2)
        | none => parseLoop fuel .lineOk x.2.1 x.2.2 := by
  obtain ⟨buf, m, hline, hsuf, hbefore⟩ := parseLine_seen h hl hk
  have hle := h.le
  simp only [List.length_append, List.length_cons] at hle
  refine ⟨{ p with
    readBuf := buf, checkedIdx := (c + l.length + 2 : Nat), startLine := (c + l.length + 2 : Nat) }, ?_, ?_⟩
  · exact ⟨⟨m, hsuf⟩, hbefore, rfl, rfl, h.readIdx, by omega, rfl,
      ⟨rfl, rfl, rfl, rfl, rfl, fun f => by cases f <;> rfl⟩⟩
  · rw [parseLoop, if_neg fun h => hst h.1, hline]
    simp only [Option.bind_eq_bind, Option.bind_some, h.startLine, ptr_natCast, ne_eq, not_true, if_false]
    rfl

theorem parseLoop_unseen (p₀ : Parser) {p : Parser} {k : Int} {c : Nat} {s : List Byte} (fuel : Nat)
    (status : LineState) (errno : Errno) (h : Facing p k c s) (hs : seenLine k s = none)
    (hst : p.checkState ≠ .checkStateContent) :
    Delivers p₀ (parseLoop (fuel + 1) status p errno) (judgeOpen (c + s.length) p.linger s) := by
  unfold parseLoop judgeOpen
  rw [if_neg fun h => hst h.1]
  rcases parseLine_unseen h hs with ⟨hu, hp⟩ | ⟨hu, st, p', hok, hp, hli⟩
  · rw [if_pos hu, hp]
    rfl
  · rw [if_neg hu, hp]
    simp only [Option.bind_eq_bind, Option.bind_some, if_pos hok]
    exact ⟨_, _, rfl, hli⟩

private theorem parseLoop_judge {p₀ p : Parser} {k : Int} {c : Nat} {l s : List Byte} {hs : List (List Byte)}
    {x : HeadState} (fuel : Nat) (status : LineState) (h : Facing p k c s) (hk : k ≤ (c + s.length : Nat))
    (hst : Stored p₀ p c l hs x) (hstate : p.checkState = .checkStateHeader) (hf : s.length < fuel) :
    Delivers p₀ (parseLoop fuel status p x.errno) (judgeHeaders k c l hs x s) := by
  induction fuel generalizing p c s hs x status with
  | zero => omega
  | succ fuel ih =>
    rcases ht : seenLine k s with _ | ⟨h', r⟩
    · rw [judgeHeaders_open ht, ← hst.linger]
      exact parseLoop_unseen p₀ fuel status x.errno h ht (by rw [hstate]; decide)
    rw [judgeHeaders_line ht]
    obtain ⟨rfl, hl, hseen⟩ := seenLine_eq_some.1 ht
    obtain ⟨q, hq, hloop⟩ := parseLoop_seen fuel status x.errno h hl hseen (by rw [hstate]; decide)
    obtain ⟨m, hm⟩ := hq.text
    simp only [List.length_append, List.length_cons] at hf hk
    have hstq : Stored p₀ q c l hs x := hst.keep hq.same hq.before le_rfl
    rw [hloop, parseText_header (hq.checkState.trans hstate)]
    split
    · rename_i h0
      subst h0
      -- the empty line: the request ends here, or its body is next
      have hpeek : q.readBuf.peek c = some 0 := by rw [CharArray.peek_suffix, hm]; rfl
      have hst2 : ∀ q' : Parser, SameHead q q' → q'.readBuf = q.readBuf → Stored p₀ q' (c + 2) l hs x :=
        fun q' hsame hb => hstq.keep hsame (by rw [hb]) (by omega)
      rw [parseHeaders_empty hpeek]
      by_cases hL : x.contentLength = 0
      · rw [if_neg (not_not.2 (hstq.contentLength.trans hL)), judgeBody, if_pos hL]
        refine ⟨q, rfl, hstq.contentLength, hstq.linger, fun _ => ⟨c + 2, ?_, fun h => absurd hL h⟩⟩
        exact hst2 q ⟨rfl, rfl, rfl, rfl, rfl, fun _ => rfl⟩ rfl
      · rw [if_pos (by rw [hstq.contentLength]; exact hL)]
        obtain ⟨fuel, rfl⟩ : ∃ k, fuel = k + 1 := ⟨fuel - 1, by omega⟩
        have hat : Facing { q with checkState := .checkStateContent } k (c + 0 + 2) r :=
          hq.facing rfl rfl rfl fun z hz => CharArray.suffix_add (l := [0, 0]) hz
        have hst' := hst2 { q with checkState := .checkStateContent }
          ⟨rfl, rfl, rfl, rfl, rfl, fun f => by cases f <;> rfl⟩ rfl
        exact parseContent_judge fuel hat (by simp only [List.length_nil] at hk; omega) hst' rfl hL
    · rename_i h0
      have hhead : (⟨q.contentLength, q.linger, x.errno⟩ : HeadState) = x := by
        rw [hstq.contentLength, hstq.linger]
      rcases parseHeaders_text x.errno hm hl.2.2 h0 with ⟨hx, p', e', hp⟩ | ⟨y, p', hx, hp, hkept, hcl, hli, hsuf⟩
      · rw [hp, ← hhead, hx]
        refine ⟨_, _, rfl, ?_⟩
        exact parseHeaders_refuses hp
      · have hst' := hstq.header hm hl.2.2 h0 hp hcl hli
        rw [hp, ← hhead, hx]
        have hat : Facing p' k (c + h'.length + 2) r := hq.facing hkept.checkedIdx hkept.startLine hkept.readIdx
          fun z hz => by
            rw [hm] at hz
            obtain rfl := List.cons.inj (List.cons.inj (List.append_cancel_left hz)).2 |>.2
            exact CharArray.suffix_add (l := [0, 0]) hsuf
        exact ih .lineOk hat (by omega) (hst'.keep ⟨rfl, rfl, rfl, rfl, rfl, fun _ => rfl⟩ rfl (by omega))
          (hkept.checkState.trans (hq.checkState.trans hstate)) (by omega)

/-- On a handler fresh from `init_`, with the text `s` at the start of its buffer and `m_read_idx` not behind it,
`parse_` ends as the judgement says. -/
theorem parse_judge {q p : Parser} {k : Int} {s : List Byte} (h : Facing p k 0 s) (hk : k ≤ s.length)
    (hp : p = { q.init_ with readBuf := p.readBuf, readIdx := p.readIdx }) (errno : Errno) :
    Delivers p (p.parse_ errno) (judge k errno s) := by
  have hstate : p.checkState = .checkStateRequestline := by rw [hp]; rfl
  have hcl : p.contentLength = 0 := by rw [hp]; rfl
  have hli : p.linger = true := by rw [hp]; rfl
  have hcgi : p.cgi = false := by rw [hp]; rfl
  have hle := h.le
  unfold parse_ judge
  rcases ht : seenLine k s with _ | ⟨l, r⟩
  · have := parseLoop_unseen p (READ_BUFFER_SIZE + 1) .lineBad errno h ht (by rw [hstate]; decide)
    rwa [Nat.zero_add, hli] at this
  obtain ⟨rfl, hl, hseen⟩ := seenLine_eq_some.1 ht
  obtain ⟨t, hq, hloop⟩ := parseLoop_seen (READ_BUFFER_SIZE + 1) .lineBad errno h hl hseen (by rw [hstate]; decide)
  obtain ⟨m, hm⟩ := hq.text
  simp only [List.length_append, List.length_cons] at hle hk
  rw [hloop]
  dsimp only
  unfold parseText
  simp only [hq.checkState.trans hstate, Option.bind_eq_bind]
  rcases parseRequest_text hm hl.2.2 with ⟨hrl, p', hp', -⟩ | ⟨rl, buf, hrl, hp', hurl, hsuf⟩
  · rw [hrl, hp']
    exact ⟨_, _, rfl, (parseRequest_linger hp').trans (hq.same.linger.trans hli)⟩
  · rw [hrl, hp']
    have hnext : Facing { t with
        readBuf := buf, method := rl.method, cgi := t.cgi || decide (rl.method = .post), url := some (0 + rl.url),
        version := some (0 + rl.version), checkState := .checkStateHeader } k (0 + l.length + 2) r := by
      refine hq.facing rfl rfl rfl fun z hz => ?_
      rw [hm] at hz
      obtain rfl := List.cons.inj (List.cons.inj (List.append_cancel_left hz)).2 |>.2
      exact hsuf
    have hplace := readRequestLine_url hrl
    have hpath := ((List.takeWhile_sublist (p := fun b => decide (b ≠ SP)) (l := l.drop rl.url)).length_le).trans_eq
      List.length_drop
    have hstored : Stored p { t with
        readBuf := buf, method := rl.method, cgi := t.cgi || decide (rl.method = .post), url := some (0 + rl.url),
        version := some (0 + rl.version), checkState := .checkStateHeader } (0 + l.length + 2) l []
        ⟨0, true, errno⟩ := by
      refine ⟨⟨_, isRequestLine_iff.2 ⟨rl, hrl, rfl, rfl⟩, 0 + rl.url, rfl, hurl, ?_⟩, ?_, ?_, ?_, fun f => ?_⟩
      · unfold servedPath
        split
        · rw [show (lit "/judge.html").length = 11 from rfl]
          omega
        · omega
      · show (t.cgi || decide (rl.method = .post)) = _
        rw [hq.same.cgi, hcgi, Bool.false_or]
      · exact hq.same.contentLength.trans hcl
      · exact hq.same.linger.trans hli
      · exact Eq.trans (by cases f <;> rfl) (hq.same.field f)
    have hloop' := parseLoop_judge (READ_BUFFER_SIZE + 1) .lineOk hnext (by omega) hstored rfl (by omega)
    rw [show 0 + l.length + 2 = l.length + 2 by omega] at hloop'
    exact hloop'

end Parser

end ImageServer
