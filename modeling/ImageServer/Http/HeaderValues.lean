import Mathlib.Data.List.DropRight
import ImageServer.Http.Acceptance

/-!
# Stored header values

`parse_headers_` stores where the value of a known header starts and then cuts the line at the first blank from
there on.  So the stored text is the first word of the value (`parseHeaders_field`): it is the value without the
blanks around it when no blank stands inside (`storesWhole_iff`).
-/

namespace ImageServer

open CLib

/-- The text without the blanks at its two ends. -/
def trimBlanks (v : List Byte) : List Byte := (v.dropWhile (· ∈ [SP, HT])).rdropWhile (· ∈ [SP, HT])

/-! ### The first word of a text -/

/-- The first word of a text is the trimmed text if this is one word. -/
private theorem firstWord_eq_iff (v : List Byte) :
    (v.dropWhile (· ∈ [SP, HT])).takeWhile (· ∉ [SP, HT]) = trimBlanks v ↔ ∀ b ∈ trimBlanks v, ¬ IsBlank b := by
  constructor
  · intro h b hb
    rw [← h] at hb
    have := List.mem_takeWhile_imp hb
    exact of_decide_eq_true this
  · intro h
    have hword : ∀ b ∈ trimBlanks v, decide (b ∉ [SP, HT]) = true := fun b hb => decide_eq_true (h b hb)
    -- behind the word there are only blanks
    have hblank : ((v.dropWhile (· ∈ [SP, HT])).rtakeWhile (· ∈ [SP, HT])).takeWhile (· ∉ [SP, HT]) = [] := by
      rcases hr : (v.dropWhile (· ∈ [SP, HT])).rtakeWhile (· ∈ [SP, HT]) with _ | ⟨b, r⟩
      · rfl
      · have hmem : b ∈ (v.dropWhile (· ∈ [SP, HT])).rtakeWhile (· ∈ [SP, HT]) := hr ▸ List.mem_cons_self
        have hb : decide (b ∈ [SP, HT]) = true := List.mem_rtakeWhile_imp (p := (· ∈ [SP, HT])) hmem
        rw [List.takeWhile_cons, if_neg (by simp only [decide_not, hb]; decide)]
    conv_lhs => rw [← List.rdropWhile_append_rtakeWhile (p := (· ∈ [SP, HT])) (l := v.dropWhile (· ∈ [SP, HT]))]
    rw [← trimBlanks, List.takeWhile_append_of_pos hword, hblank, List.append_nil]

/-! ### The names -/

namespace Parser

/-- No name of a stored header is a prefix of another one. -/
theorem fieldNames_apart : ∀ x ∈ fieldNames, ∀ y ∈ fieldNames,
    (x.2.map toLower).take y.2.length = (y.2.map toLower).take x.2.length → x = y := by
  decide +kernel

theorem fieldNames_other : ∀ x ∈ fieldNames, ∀ s ∈ [lit "Connection:", lit "Content-length:"],
    (x.2.map toLower).take s.length ≠ (s.map toLower).take x.2.length := by
  decide +kernel

private theorem findField_mem {l r : List Byte} {x : Field × List Byte} {names : List (Field × List Byte)} (h0 : 0 ∉ l)
    (hn : ∀ y ∈ names, 0 ∉ y.2) (hx : x ∈ names) (hp : ciPrefix x.2 l = true)
    (hother : ∀ y ∈ names, ciPrefix y.2 l = true → y = x) :
    findField (l ++ 0 :: r) names = some (some (x.1, x.2.length)) := by
  induction names with
  | nil => cases hx
  | cons y names ih =>
    obtain ⟨f, name⟩ := y
    unfold findField
    rw [strncaseeq_text (hn _ List.mem_cons_self) h0]
    simp only [Option.bind_eq_bind, Option.bind_some]
    by_cases hy : ciPrefix name l = true
    · obtain rfl := hother (f, name) List.mem_cons_self hy
      rw [if_pos hy]
      rfl
    · rw [if_neg hy]
      have hne : x ≠ (f, name) := by
        rintro rfl
        exact hy hp
      exact ih (fun y hy => hn y (List.mem_cons_of_mem _ hy)) ((List.mem_cons.1 hx).resolve_left hne)
        fun y hy => hother y (List.mem_cons_of_mem _ hy)

/-! ### The stored value -/

/-- The header line of a known name stores the first word of its value and changes nothing outside the line. -/
theorem parseHeaders_field {p : Parser} {t : Nat} {f : Field} {name n v r : List Byte} (errno : Errno)
    (hs : p.readBuf.suffix t = (n ++ v) ++ 0 :: r) (h0 : 0 ∉ v) (hf : (f, name) ∈ fieldNames)
    (hn : ciEq name n = true) :
    ∃ a buf, p.parseHeaders_ t errno = some (.parsering, { p.setField a f with readBuf := buf }, errno) ∧
      cstring (buf.suffix a) = some ((v.dropWhile (· ∈ [SP, HT])).takeWhile (· ∉ [SP, HT])) ∧
      buf.bytes.take t = p.readBuf.bytes.take t ∧ buf.suffix (t + (n ++ v).length) = 0 :: r := by
  obtain ⟨hname0, hnamepos⟩ := (show ∀ x ∈ fieldNames, 0 ∉ x.2 ∧ 0 < x.2.length by decide +kernel) _ hf
  have hlen : n.length = name.length := ciEq_length hn
  have hn0 : 0 ∉ n := by
    intro h
    obtain ⟨b, hb, hb0⟩ := List.mem_map.1 ((of_decide_eq_true hn : name.map toLower = _) ▸
      List.mem_map.2 ⟨0, h, toLower_eq_zero.2 rfl⟩)
    exact hname0 (toLower_eq_zero.1 hb0 ▸ hb)
  have hl0 : 0 ∉ n ++ v := by simp [hn0, h0]
  have hp : ciPrefix name (n ++ v) = true := ciPrefix_append hn v
  obtain ⟨b, hb, hpeek⟩ : ∃ b, b ≠ 0 ∧ p.readBuf.peek t = some b := by
    obtain ⟨b, n', rfl⟩ := List.exists_cons_of_length_pos (hlen ▸ hnamepos)
    exact ⟨b, fun h => hn0 (by simp [h]), by rw [CharArray.peek_suffix, hs]; rfl⟩
  have hother : ∀ s ∈ [lit "Connection:", lit "Content-length:"], 0 ∉ s →
      strncaseeq s (p.readBuf.suffix t) = some false := by
    intro s hmem hs0
    rw [hs, strncaseeq_text hs0 hl0, Bool.eq_false_iff.2 fun h => fieldNames_other _ hf s hmem (ciPrefix_agree hp h)]
  have hconn := hother (lit "Connection:") (by simp) (by decide +kernel)
  have hlength := hother (lit "Content-length:") (by simp) (by decide +kernel)
  have hfind : findField (p.readBuf.suffix t) fieldNames = some (some (f, name.length)) := by
    rw [hs]
    exact findField_mem hl0 (by decide +kernel) hf hp fun y hy h => fieldNames_apart _ hy _ hf (ciPrefix_agree h hp)
  obtain ⟨a, ha, hval, hend⟩ := skipBlanks_text (k := name.length) hs hl0 (ciPrefix_length hp)
  have hv : headerValue name.length (n ++ v) = v.dropWhile (· ∈ [SP, HT]) := by
    rw [headerValue, List.drop_left' hlen]
  rw [hv] at hval hend
  have hle : (v.dropWhile (· ∈ [SP, HT])).length ≤ v.length := (List.dropWhile_sublist _).length_le
  obtain ⟨-, hbuf', -, -⟩ := setField_kept p a f
  obtain ⟨buf, hcut, hrest, hbefore, hword⟩ := cutAtBlank_text (p := p.setField a f) errno (hbuf' ▸ hval)
    fun h => h0 ((List.dropWhile_sublist _).subset h)
  refine ⟨a, buf, ?_, hword, ?_, hend ▸ hrest⟩
  · unfold parseHeaders_
    simp only [Option.bind_eq_bind, hpeek, Option.bind_some, if_neg hb, hconn, hlength, hfind,
      ha, hcut, Bool.false_eq_true, if_false]
  · have hat : t ≤ a := by
      rw [List.length_append] at hend
      omega
    have := congrArg (List.take t) hbefore
    rwa [List.take_take, List.take_take, Nat.min_eq_left hat, hbuf'] at this

/-- The line `n ++ v` stores its value `v` in the field `f`, without the blanks around it, and does nothing else. -/
def StoresWhole (p : Parser) (t : Nat) (errno : Errno) (f : Field) (n v : List Byte) : Prop :=
  ∃ a buf, p.parseHeaders_ t errno = some (.parsering, { p.setField a f with readBuf := buf }, errno) ∧
    cstring (buf.suffix a) = some (trimBlanks v) ∧
    buf.bytes.take t = p.readBuf.bytes.take t ∧
    buf.suffix (t + (n ++ v).length) = p.readBuf.suffix (t + (n ++ v).length)

private theorem setField_injective {p : Parser} {a a' : Nat} {f : Field} {buf buf' : CharArray READ_BUFFER_SIZE}
    (h : { p.setField a f with readBuf := buf } = { p.setField a' f with readBuf := buf' }) : a = a' ∧ buf = buf' := by
  cases f <;> cases h <;> exact ⟨rfl, rfl⟩

/-- A value that is stored whole is its first word. -/
private theorem StoresWhole.firstWord {p : Parser} {t : Nat} {f : Field} {name n v r : List Byte} {errno : Errno}
    (h : p.StoresWhole t errno f n v) (hs : p.readBuf.suffix t = (n ++ v) ++ 0 :: r) (h0 : 0 ∉ v)
    (hf : (f, name) ∈ fieldNames) (hn : ciEq name n = true) :
    (v.dropWhile (· ∈ [SP, HT])).takeWhile (· ∉ [SP, HT]) = trimBlanks v := by
  obtain ⟨a, buf, hrun, hword, -⟩ := parseHeaders_field errno hs h0 hf hn
  obtain ⟨a', buf', hrun', hword', -, -⟩ := h
  rw [hrun] at hrun'
  obtain ⟨rfl, rfl⟩ := setField_injective (Prod.mk.inj (Prod.mk.inj (Option.some.inj hrun')).2).1
  exact Option.some.inj (hword.symm.trans hword')

/-- A value is stored whole exactly when it is one word, with nothing or blanks around it, or no word at all. -/
theorem storesWhole_iff {p : Parser} {t : Nat} {f : Field} {name n v r : List Byte} (errno : Errno)
    (hs : p.readBuf.suffix t = (n ++ v) ++ 0 :: r) (h0 : 0 ∉ v) (hf : (f, name) ∈ fieldNames)
    (hn : ciEq name n = true) : p.StoresWhole t errno f n v ↔ ∀ b ∈ trimBlanks v, ¬ IsBlank b := by
  rw [← firstWord_eq_iff]
  constructor
  · exact fun h => h.firstWord hs h0 hf hn
  · intro h
    obtain ⟨a, buf, hrun, hword, hbefore, hrest⟩ := parseHeaders_field errno hs h0 hf hn
    rw [h] at hword
    exact ⟨a, buf, hrun, hword, hbefore, by rw [hrest, CharArray.suffix_add hs]⟩

theorem storesWhole_iff_host : { zero with
    readBuf := ⟨lit "HOST:\tlocalhost " ++ List.replicate 2032 0, by decide +kernel⟩ }.StoresWhole 0 .other .host
      (lit "HOST:") (lit "\tlocalhost ") :=
  (storesWhole_iff (r := List.replicate 2031 0) .other rfl (by decide +kernel)
    (show (.host, lit "Host:") ∈ fieldNames by simp [fieldNames]) (by decide +kernel)).2 (by decide +kernel)

/-- The header line of an agent, with a blank inside its value. -/
def agentLine : Parser :=
  { zero with readBuf := ⟨lit "User-Agent: Mozilla/5.0 (X11)" ++ List.replicate 2019 0, by decide +kernel⟩ }

theorem not_storesWhole_agentLine :
    ¬ agentLine.StoresWhole 0 .other .useragent (lit "User-Agent:") (lit " Mozilla/5.0 (X11)") := by
  intro h
  have hword := h.firstWord (r := List.replicate 2018 0) rfl (by decide +kernel)
    (show (.useragent, lit "User-Agent:") ∈ fieldNames by simp [fieldNames]) (by decide +kernel)
  exact absurd hword (by decide +kernel)

end Parser

end ImageServer
