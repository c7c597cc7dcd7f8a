import ImageServer.Http.Process

/-!
# The write call of an HTTPS connection

There is no `writev` for an SSL object: `SSL_writev` copies what `m_iv` designates into one buffer, which it takes from
the stack, and writes that.  `sslWritev_offered` says what `SSL_write` is given whenever `writev` would be offered
anything: the same bytes, as long as the buffer fits the stack.  Their number is an `int`, so a response of 2^31 bytes
or more is not handed over whole (`sslWritev_whole_iff`).
-/

namespace ImageServer

open CLib

/-- `iov_len`, a `size_t`. -/
def IoVec.size (v : IoVec) : Nat := (v.len % 2 ^ 64).toNat

namespace Writer

/-- The loop of `SSL_writev` that copies, on the rest of the array, with `bp` behind what is copied already. -/
def gather (w : Writer) (live : FileAddress) {n : Nat} :
    List IoVec → (bp toCopy : Nat) → CharArray n → Option (CharArray n)
  | [], _, _, buffer => some buffer
  | v :: vector, bp, toCopy, buffer => do
    let copy := min v.size toCopy
    let src ← ({ v with len := copy } : IoVec).bytes w live
    let buffer ← buffer.copy bp src
    if toCopy - copy = 0 then some buffer else gather w live vector (bp + copy) (toCopy - copy) buffer

/-- `SSL_writev` on the first `count` elements of `m_iv`: the buffer `SSL_write` is given, and its length as an `int`.
The buffer comes from the `stack` bytes that are left, with whatever is in them. -/
def sslWritev (w : Writer) (live : FileAddress) (stack : Nat) (raw : ∀ n, CharArray n) (count : Nat) :
    Option (List Byte × Int) := do
  -- there are two elements in `m_iv`
  if 2 < count then none
  else
    let vector := [w.iv0, w.iv1].take count
    let bytes := vector.foldl (fun bytes v => (bytes + v.size) % 2 ^ 64) 0
    if stack < bytes then none
    else
      let buffer ← gather w live vector 0 bytes (raw bytes)
      return (buffer.bytes, toInt32 bytes)

/-- The bytes that the elements of an array designate, one after the other. -/
def designated (w : Writer) (live : FileAddress) : List IoVec → Option (List Byte)
  | [] => some []
  | v :: vector => (v.bytes w live).bind fun b => (designated w live vector).map (b ++ ·)

private theorem offered_eq (w : Writer) (live : FileAddress) :
    offered w live = if w.ivCount ≤ 2 then designated w live ([w.iv0, w.iv1].take w.ivCount) else none := by
  unfold offered
  rcases hc : w.ivCount with _ | _ | _ | n
  · rfl
  · simp [designated]
  · simp only [List.take, designated, le_refl, if_true]
    cases h₁ : w.iv1.bytes w live <;> simp
  · rw [if_neg (by omega)]
    rfl

private theorem bytes_length {v : IoVec} {w : Writer} {live : FileAddress} {b : List Byte}
    (h : v.bytes w live = some b) :
    v.len = b.length := by
  unfold IoVec.bytes at h
  split at h
  · cases h
    assumption
  · split at h
    · cases h
    · split at h
      · rename_i off _ hin
        cases h
        have := w.writeBuf.size_eq
        rw [List.length_take, List.length_drop]
        omega
      · cases h
    · split at h
      · rename_i hin
        cases h
        rw [List.length_take, List.length_drop]
        omega
      · cases h
    · cases h

private theorem size_of_bytes {v : IoVec} {w : Writer} {live : FileAddress} {b : List Byte}
    (h : v.bytes w live = some b) (hlt : b.length < 2 ^ 64) : v.size = b.length := by
  rw [IoVec.size, bytes_length h, Int.emod_eq_of_lt (by omega) (by exact_mod_cast hlt), Int.toNat_natCast]

/-- What is added up is the number of the bytes, as long as that is a `size_t`. -/
private theorem sum_sizes {w : Writer} {live : FileAddress} {vector : List IoVec} {bs : List Byte}
    (h : designated w live vector = some bs) (k : Nat) (hlt : k + bs.length < 2 ^ 64) :
    vector.foldl (fun bytes v => (bytes + v.size) % 2 ^ 64) k = k + bs.length := by
  induction vector generalizing k bs with
  | nil =>
    cases h
    rfl
  | cons v vector ih =>
    obtain ⟨b, hb, h⟩ := Option.bind_eq_some_iff.1 h
    obtain ⟨r, hr, rfl⟩ := Option.map_eq_some_iff.1 h
    rw [List.length_append] at hlt ⊢
    rw [List.foldl_cons, size_of_bytes hb (by omega), Nat.mod_eq_of_lt (by omega), ih hr _ (by omega), Nat.add_assoc]

/-- The copies fill the buffer, and none of them goes beyond it. -/
private theorem gather_designated {w : Writer} {live : FileAddress} {n : Nat} {vector : List IoVec}
    {bs pre : List Byte} {buffer : CharArray n} (h : designated w live vector = some bs) (hlt : bs.length < 2 ^ 64)
    (hpre : buffer.bytes.take pre.length = pre) (hn : pre.length + bs.length = n) :
    ∃ b, gather w live vector pre.length bs.length buffer = some b ∧ b.bytes = pre ++ bs := by
  induction vector generalizing pre bs buffer with
  | nil =>
    cases h
    rw [List.length_nil, Nat.add_zero] at hn
    refine ⟨buffer, rfl, ?_⟩
    rw [List.append_nil, ← hpre, hn]
    exact (List.take_of_length_le buffer.size_eq.le).symm
  | cons v vector ih =>
    obtain ⟨b, hb, h⟩ := Option.bind_eq_some_iff.1 h
    obtain ⟨r, hr, rfl⟩ := Option.map_eq_some_iff.1 h
    rw [List.length_append] at hlt hn ⊢
    have hcopy : min v.size (b.length + r.length) = b.length := by
      rw [size_of_bytes hb (by omega)]
      omega
    have hsrc : ({ v with len := (b.length : Nat) } : IoVec).bytes w live = some b := by
      rw [← bytes_length hb]
      exact hb
    obtain ⟨buf, hbuf⟩ := CharArray.copy_isSome (a := buffer) (p := pre.length) (s := b) (by omega)
    have htake := CharArray.take_copy hbuf
    rw [hpre, ← List.length_append] at htake
    unfold gather
    dsimp only
    rw [hcopy, hsrc, Option.bind_eq_bind, Option.bind_some, hbuf, Option.bind_eq_bind, Option.bind_some,
      Nat.add_sub_cancel_left]
    split
    · rename_i hzero
      rw [List.length_eq_zero_iff.1 hzero, List.append_nil]
      refine ⟨buf, rfl, ?_⟩
      rw [← htake, List.length_append, show pre.length + b.length = n by omega]
      exact (List.take_of_length_le buf.size_eq.le).symm
    · rw [← List.length_append, ← List.append_assoc]
      exact ih hr (by omega) htake (by rw [List.length_append]; omega)

/-- Whatever `writev` would be offered, `SSL_write` is given, unless there is no room for it on the stack. -/
theorem sslWritev_offered {w : Writer} {live : FileAddress} {bs : List Byte} (h : offered w live = some bs)
    (hlt : bs.length < 2 ^ 64) (stack : Nat) (raw : ∀ n, CharArray n) :
    w.sslWritev live stack raw w.ivCount = if bs.length ≤ stack then some (bs, toInt32 bs.length) else none := by
  rw [offered_eq] at h
  split at h
  · rename_i hc
    have hsum := sum_sizes h 0 (by omega)
    rw [Nat.zero_add] at hsum
    unfold sslWritev
    rw [if_neg (by omega)]
    dsimp only
    rw [hsum]
    have hgather : ∃ b, gather w live _ ([] : List Byte).length bs.length (raw bs.length) = some b ∧
        b.bytes = [] ++ bs :=
      gather_designated h hlt rfl (Nat.zero_add _)
    obtain ⟨b, hb, hbytes⟩ := hgather
    rw [List.length_nil] at hb
    rw [hb]
    by_cases hs : bs.length ≤ stack
    · rw [if_neg (by omega), if_pos hs]
      show some (b.bytes, toInt32 bs.length) = some (bs, toInt32 bs.length)
      rw [hbytes, List.nil_append]
    · rw [if_pos (by omega), if_neg hs]
  · cases h

/-- All that `writev` would be offered is handed to `SSL_write` if and only if it fits the stack and its length is an
`int`. -/
theorem sslWritev_whole_iff {w : Writer} {live : FileAddress} {bs : List Byte} (h : offered w live = some bs)
    (hlt : bs.length < 2 ^ 64) (stack : Nat) (raw : ∀ n, CharArray n) :
    w.sslWritev live stack raw w.ivCount = some (bs, (bs.length : Int)) ↔ bs.length ≤ stack ∧ bs.length < 2 ^ 31 := by
  rw [sslWritev_offered h hlt]
  have hb := toInt32_bounds bs.length
  constructor
  · intro hw
    split at hw
    · have hint : toInt32 bs.length = bs.length := (Prod.mk.inj (Option.some.inj hw)).2
      exact ⟨‹_›, by omega⟩
    · cases hw
  · rintro ⟨hs, hi⟩
    rw [if_pos hs, toInt32_natCast hi]

/-- A header of two bytes, and a file of three. -/
def offersFile : Writer :=
  { Writer.zero with
    writeBuf := CharArray.ofBytes (lit "ab"), iv0 := ⟨.writeBuf 0, 2⟩
    iv1 := ⟨.file (.mapped (lit "cde")) 0, 3⟩, ivCount := 2 }

theorem sslWritev_whole_iff_offersFile :
    offersFile.sslWritev (.mapped (lit "cde")) 5 CharArray.zeros offersFile.ivCount = some (lit "abcde", (5 : Int)) ↔
      (lit "abcde").length ≤ 5 ∧ (lit "abcde").length < 2 ^ 31 :=
  sslWritev_whole_iff (by decide +kernel) (by decide) 5 CharArray.zeros

end Writer

end ImageServer
