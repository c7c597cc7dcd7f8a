import ImageServer.Http.Confinement
import ImageServer.Lib.SqlText

/-!
# The statement of a registration

`sql_insert` is put together from the texts of the form as they are.  MySQL reads them back exactly when neither has a
quote, nor a backslash that it takes for an escape (`readsBack_iff`): a text with an escape is longer than its value,
and the statement has no room for two values and more than that.
-/

namespace ImageServer

open CLib Sql Accounts

/-- The statement that adds the account. -/
def insertTokens (name password : List Byte) : List Token :=
  [.word (lit "INSERT"), .word (lit "INTO"), .word (lit "user"), .symbol 40, .word (lit "username"), .symbol 44,
    .word (lit "passwd"), .symbol 41, .word (lit "VALUES"), .symbol 40, .literal name, .symbol 44, .literal password,
    .symbol 41]

/-- MySQL reads the text as the statement that adds the account. -/
def ReadsBack (sql name password : List Byte) : Prop := tokens sql = some (insertTokens name password)

instance (sql name password : List Byte) : Decidable (ReadsBack sql name password) :=
  inferInstanceAs (Decidable (tokens sql = some (insertTokens name password)))

/-- The text in front of the name has no surprises. -/
private theorem tokens_insert (s : List Byte) :
    tokens (lit "INSERT INTO user(username, passwd) VALUES(" ++ s) =
      (tokens s).map ([.word (lit "INSERT"), .word (lit "INTO"), .word (lit "user"), .symbol 40,
        .word (lit "username"), .symbol 44, .word (lit "passwd"), .symbol 41, .word (lit "VALUES"),
        .symbol 40] ++ ·) := by
  have hwords : lit "INSERT INTO user(username, passwd) VALUES(" = lit "INSERT" ++ 32 :: (lit "INTO" ++ 32 ::
      (lit "user" ++ 40 :: (lit "username" ++ 44 :: 32 :: (lit "passwd" ++ 41 :: 32 :: (lit "VALUES" ++ [40]))))) := by
    decide
  have hword : ∀ (w : List Byte) (b : Byte) (r : List Byte), w ≠ [] → (∀ x ∈ w, isWord x = true) → isWord b = false →
      tokens (w ++ b :: r) = (tokens (b :: r)).map (.word w :: ·) := fun w b r hne hw hb =>
    tokens_word hne hw fun x hx => by cases hx; exact hb
  rw [hwords]
  simp only [List.append_assoc, List.cons_append, List.nil_append]
  rw [hword _ _ _ (by decide) (by decide +kernel) (by decide), tokens_space _ (by decide),
    hword _ _ _ (by decide) (by decide +kernel) (by decide), tokens_space _ (by decide),
    hword _ _ _ (by decide) (by decide +kernel) (by decide), tokens_symbol _ (by decide) (by decide) (by decide),
    hword _ _ _ (by decide) (by decide +kernel) (by decide), tokens_symbol _ (by decide) (by decide) (by decide),
    tokens_space _ (by decide),
    hword _ _ _ (by decide) (by decide +kernel) (by decide), tokens_symbol _ (by decide) (by decide) (by decide),
    tokens_space _ (by decide),
    hword _ _ _ (by decide) (by decide +kernel) (by decide), tokens_symbol _ (by decide) (by decide) (by decide)]
  cases tokens s <;> rfl

/-- The last text of a statement has no room for an escape. -/
private theorem verbatim_of_last {v : List Byte} (h : tokens (39 :: (v ++ [39, 41])) = some [.literal v, .symbol 41]) :
    Verbatim 39 v := by
  obtain ⟨rest, hread, hts⟩ := tokens_literal_inv (.inl rfl) h
  obtain ⟨raw, hraw, hle, heq⟩ := readText_split (.inl rfl) hread
  have hlen := congrArg List.length hraw
  have hrest := tokens_length hts
  simp only [List.length_append, List.length_cons, List.length_nil, List.map_cons, List.map_nil, List.sum_cons,
    List.sum_nil, Token.size] at hlen hrest
  exact (heq (by omega)).2

/-- Nor has the first; the comma after it is no quote. -/
private theorem verbatim_of_values {v w : List Byte}
    (h : tokens (39 :: (v ++ 39 :: 44 :: 32 :: 39 :: (w ++ [39, 41]))) =
      some [.literal v, .symbol 44, .literal w, .symbol 41]) : Verbatim 39 v ∧ Verbatim 39 w := by
  obtain ⟨rest, hread, hts⟩ := tokens_literal_inv (.inl rfl) h
  obtain ⟨raw, hraw, hle, heq⟩ := readText_split (.inl rfl) hread
  have hlen := congrArg List.length hraw
  have hrest := tokens_length hts
  simp only [List.length_append, List.length_cons, List.length_nil, List.map_cons, List.map_nil, List.sum_cons,
    List.sum_nil, Token.size] at hlen hrest
  rcases Nat.eq_or_lt_of_le hle with heqlen | hlt
  · obtain ⟨rfl, hv⟩ := heq heqlen
    obtain rfl := (List.cons.inj (List.append_cancel_left hraw)).2
    rw [tokens_symbol _ (by decide) (by decide) (by decide), tokens_space _ (by decide)] at hts
    obtain ⟨ts, hts, he⟩ := Option.map_eq_some_iff.1 hts
    cases he
    exact ⟨hv, verbatim_of_last hts⟩
  · -- one character is left, so the closing quote would stand where the comma does
    have hsplit : (v ++ [39]) ++ 44 :: 32 :: 39 :: (w ++ [39, 41]) = raw ++ 39 :: rest := by
      rw [← hraw]
      simp
    obtain ⟨-, hcomma⟩ := List.append_inj hsplit (by rw [List.length_append, List.length_singleton]; omega)
    exact absurd (List.cons.inj hcomma).1 (by decide)

/-- The values of the statement. -/
private theorem tokens_values {v w : List Byte} (hv : Verbatim 39 v) (hw : Verbatim 39 w) :
    tokens (39 :: (v ++ 39 :: 44 :: 32 :: 39 :: (w ++ [39, 41]))) =
      some [.literal v, .symbol 44, .literal w, .symbol 41] := by
  have hlast : tokens [41] = some [.symbol 41] := by
    rw [tokens_symbol _ (by decide) (by decide) (by decide), tokens_nil]
    rfl
  rw [tokens_literal _ (.inl rfl), readText_verbatim _ (by simp) _ hv, Option.bind_some,
    tokens_symbol _ (by decide) (by decide) (by decide), tokens_space _ (by decide), tokens_literal _ (.inl rfl),
    readText_verbatim _ (by simp) _ hw, Option.bind_some, hlast]
  rfl

/-- The statement of a registration is read back as the account exactly when both texts stand for themselves. -/
theorem readsBack_iff {name password sql : List Byte} (h : sqlInsert name password = some sql) :
    ReadsBack sql name password ↔ Verbatim 39 name ∧ Verbatim 39 password := by
  obtain ⟨-, rfl⟩ := sqlInsert_eq_some.1 h
  have htext : [lit "INSERT INTO user(username, passwd) VALUES(", lit "'", name, lit "', '", password,
      lit "')"].flatten = lit "INSERT INTO user(username, passwd) VALUES(" ++
        (39 :: (name ++ 39 :: 44 :: 32 :: 39 :: (password ++ [39, 41]))) := by
    simp [lit]
  unfold ReadsBack
  rw [htext, tokens_insert]
  constructor
  · intro hsome
    obtain ⟨ts, hts, he⟩ := Option.map_eq_some_iff.1 hsome
    obtain rfl := List.append_cancel_left he
    exact verbatim_of_values hts
  · rintro ⟨hv, hw⟩
    rw [tokens_values hv hw]
    rfl

theorem readsBack_iff_bob :
    ∃ sql, sqlInsert (lit "bob\\%") (lit "open") = some sql ∧ ReadsBack sql (lit "bob\\%") (lit "open") := by
  have h : sqlInsert (lit "bob\\%") (lit "open") =
      some (lit "INSERT INTO user(username, passwd) VALUES('bob\\%', 'open')") := by decide
  exact ⟨_, h, (readsBack_iff h).2 (by decide)⟩

/-- The name closes its own quotes, and the rest of the statement is a comment. -/
def registerOther : List Byte :=
  lit "POST /3 HTTP/1.1\r\nContent-length: 28\r\n\r\nuser=a', 'b') -- &password=c"

/-- The request is accepted as a registration of one name, and its statement adds another. -/
theorem registerOther_altered :
    (received registerOther).parse_ .eagain = some (.doRequest, (requestOf registerOther 0).parser, .eagain) ∧
      (requestOf registerOther 0).registers = some (lit "a', 'b') -- ", lit "c") ∧
      ∃ sql, sqlInsert (lit "a', 'b') -- ") (lit "c") = some sql ∧
        tokens sql = some (insertTokens (lit "a") (lit "b")) ∧ ¬ ReadsBack sql (lit "a', 'b') -- ") (lit "c") := by
  have h : tokens (lit "INSERT INTO user(username, passwd) VALUES('a', 'b') -- ', 'c')") =
      some (insertTokens (lit "a") (lit "b")) := by decide +kernel
  refine ⟨by decide +kernel, by decide +kernel, _, by decide +kernel, h, fun hr => ?_⟩
  have he := Option.some.inj (h.symm.trans hr)
  exact absurd he (by decide)

end ImageServer
