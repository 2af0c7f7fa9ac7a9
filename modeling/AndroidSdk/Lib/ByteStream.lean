import AndroidSdk.Lib.LittleEndian

/-! # Reading a byte stream

A stream of bytes with a position and a limit that no read may pass, as the coded streams of
serialisation libraries have them.

* **`ByteStream.readLE`** — a little-endian field.
* **`ByteStream.readBytes`** — as many bytes as are there, up to a number.
* **`ByteStream.skip`** — move on; a negative count is refused.
* **`ByteStream.remaining`** — what is left to read; the rules of `ByteStream.Fits` say what a read
  does to it.
* **`ByteStream.Forward`** — what any read does to a stream. -/

namespace AndroidSdk.Lib

/-- A stream: its bytes, the position, and the limit of all reads. -/
structure ByteStream where
  data : List UInt8
  pos : ℕ
  limit : ℕ

namespace ByteStream

/-- Where reading ends. -/
def size (s : ByteStream) : ℕ := min s.limit s.data.length

/-- The bytes that are left. -/
def remaining (s : ByteStream) : List UInt8 := s.data.drop s.pos

/-- The stream at a later position. -/
def advance (n : ℕ) (s : ByteStream) : ByteStream := { s with pos := s.pos + n }

/-- Read a little-endian field. -/
def readLE (width : ℕ) (s : ByteStream) : Option (ℕ × ByteStream) :=
  if s.pos + width ≤ s.size then some (fieldAt s.data s.pos width, s.advance width) else none

/-- Read bytes up to a number of them. -/
def readBytes (n : ℕ) (s : ByteStream) : List UInt8 × ByteStream :=
  let count := min n (s.size - s.pos)
  ((s.data.drop s.pos).take count, s.advance count)

/-- Skip bytes: a negative count is refused, and a large one goes to the end. -/
def skip (count : ℤ) (s : ByteStream) : Bool × ByteStream :=
  if count < 0 then (false, s)
  else if s.pos + count.toNat ≤ s.size then (true, s.advance count.toNat)
  else (false, { s with pos := s.size })

/-- Move to the next multiple of an alignment. -/
def align (n : ℕ) (s : ByteStream) : ByteStream :=
  let padding := n - s.pos % n
  if padding < n then (s.skip padding).2 else s

@[simp] theorem advance_data (n : ℕ) (s : ByteStream) : (s.advance n).data = s.data := rfl

@[simp] theorem advance_pos (n : ℕ) (s : ByteStream) : (s.advance n).pos = s.pos + n := rfl

@[simp] theorem advance_limit (n : ℕ) (s : ByteStream) : (s.advance n).limit = s.limit := rfl

/-- Two moves are one. -/
@[simp] theorem advance_advance (m n : ℕ) (s : ByteStream) :
    (s.advance m).advance n = s.advance (m + n) := by
  rw [advance, advance, advance, Nat.add_assoc]

variable {s : ByteStream} {first rest : List UInt8}

/-- What is left after the first part was read. -/
theorem remaining_advance (h : s.remaining = first ++ rest) :
    (s.advance first.length).remaining = rest := by
  show s.data.drop (s.pos + first.length) = rest
  rw [← List.drop_drop]
  show s.remaining.drop first.length = rest
  rw [h, List.drop_left]

/-- The position is in the stream, and the limit does not cut it. -/
structure Fits (s : ByteStream) : Prop where
  pos : s.pos ≤ s.data.length
  limit : s.data.length ≤ s.limit

/-- The first part is within the stream. -/
theorem Fits.pos_add_le (hs : s.Fits) (h : s.remaining = first ++ rest) :
    s.pos + first.length ≤ s.data.length := by
  have hlen := congrArg List.length h
  have hpos := hs.pos
  rw [remaining, List.length_drop, List.length_append] at hlen
  omega

/-- The stream fits after the first part was read. -/
theorem Fits.advance (hs : s.Fits) (h : s.remaining = first ++ rest) :
    (s.advance first.length).Fits :=
  ⟨hs.pos_add_le h, hs.limit⟩

/-- **A field that was written is read back.** -/
theorem Fits.readLE (hs : s.Fits) {width n : ℕ} (h : s.remaining = leBytes width n ++ rest) :
    s.readLE width = some (n % 256 ^ width, s.advance width) := by
  have hle := hs.pos_add_le h
  have hlimit := hs.limit
  rw [length_leBytes] at hle
  rw [ByteStream.readLE, if_pos (by rw [size]; omega)]
  have hfield : fieldAt s.data s.pos width = n % 256 ^ width := by
    rw [fieldAt]
    show leNat (s.remaining.take width) = _
    rw [h, List.take_left' (length_leBytes width n), leNat_leBytes]
  rw [hfield]

/-- **Bytes that were written are read back.** -/
theorem Fits.readBytes (hs : s.Fits) (h : s.remaining = first ++ rest) :
    s.readBytes first.length = (first, s.advance first.length) := by
  have hle := hs.pos_add_le h
  have hlimit := hs.limit
  have hcount : min first.length (s.size - s.pos) = first.length := by
    rw [size]
    omega
  rw [ByteStream.readBytes, hcount]
  show (s.remaining.take first.length, _) = _
  rw [h, List.take_left]

/-- Bytes that are there can be skipped. -/
theorem Fits.skip (hs : s.Fits) (h : s.remaining = first ++ rest) :
    s.skip first.length = (true, s.advance first.length) := by
  have hle := hs.pos_add_le h
  have hlimit := hs.limit
  rw [ByteStream.skip, if_neg (by omega), Int.toNat_natCast, if_pos (by rw [size]; omega)]

/-- **Padding that was written is skipped.** -/
theorem Fits.align (hs : s.Fits) {n : ℕ} (hn : 0 < n) (h : s.remaining = first ++ rest)
    (hfirst : first.length < n) (haligned : (s.pos + first.length) % n = 0) :
    s.align n = s.advance first.length := by
  rw [ByteStream.align]
  have hmod : s.pos % n < n := Nat.mod_lt _ hn
  by_cases hzero : s.pos % n = 0
  · -- the position is aligned, so there is no padding
    have hlen : first.length = 0 := by
      rw [Nat.add_mod, hzero, Nat.zero_add, Nat.mod_mod, Nat.mod_eq_of_lt hfirst] at haligned
      exact haligned
    rw [hzero, hlen, if_neg (by omega)]
    rfl
  · have hlen : n - s.pos % n = first.length := by
      rw [Nat.add_mod, Nat.mod_eq_of_lt hfirst] at haligned
      have hge : n ≤ s.pos % n + first.length := by
        by_contra hlt
        rw [Nat.mod_eq_of_lt (by omega)] at haligned
        omega
      rw [Nat.mod_eq_sub_mod hge, Nat.mod_eq_of_lt (by omega)] at haligned
      omega
    rw [hlen, if_pos hfirst, hs.skip h]

/-! ## What a read does to any stream -/

/-- The stream moves on in the same bytes, up to the same limit. -/
structure Forward (s s' : ByteStream) : Prop where
  data : s'.data = s.data
  limit : s'.limit = s.limit
  pos_le : s.pos ≤ s'.pos
  pos_le_size : s.pos ≤ s.size → s'.pos ≤ s.size

namespace Forward

variable {s' s'' : ByteStream}

/-- A stream that stays. -/
theorem refl (s : ByteStream) : Forward s s := ⟨rfl, rfl, Nat.le_refl _, id⟩

/-- The stream ends at the same place. -/
theorem size_eq (h : Forward s s') : s'.size = s.size := by
  rw [size, size, h.data, h.limit]

/-- Two moves. -/
theorem trans (h : Forward s s') (h' : Forward s' s'') : Forward s s'' where
  data := h'.data.trans h.data
  limit := h'.limit.trans h.limit
  pos_le := h.pos_le.trans h'.pos_le
  pos_le_size hs := by
    have := h'.pos_le_size (by rw [h.size_eq]; exact h.pos_le_size hs)
    rwa [h.size_eq] at this

/-- A field that is read. -/
theorem of_readLE {width n : ℕ} (h : s.readLE width = some (n, s')) :
    Forward s s' ∧ s'.pos = s.pos + width ∧ s'.pos ≤ s.size ∧ n = fieldAt s.data s.pos width := by
  rw [ByteStream.readLE] at h
  split at h
  next hle =>
      cases h
      exact ⟨⟨rfl, rfl, Nat.le_add_right _ _, fun _ => hle⟩, rfl, hle, rfl⟩
  next => cases h

/-- Bytes that are read. -/
theorem readBytes (s : ByteStream) (n : ℕ) : Forward s (s.readBytes n).2 where
  data := rfl
  limit := rfl
  pos_le := Nat.le_add_right _ _
  pos_le_size _ := by
    show s.pos + min n (s.size - s.pos) ≤ s.size
    omega

/-- Bytes that are skipped. -/
theorem skip {s : ByteStream} (hs : s.pos ≤ s.size) (count : ℤ) : Forward s (s.skip count).2 := by
  rw [ByteStream.skip]
  split
  next => exact refl s
  next =>
      split
      next hle => exact ⟨rfl, rfl, Nat.le_add_right _ _, fun _ => hle⟩
      next => exact ⟨rfl, rfl, hs, fun _ => Nat.le_refl _⟩

/-- A stream that is aligned. -/
theorem align {s : ByteStream} (hs : s.pos ≤ s.size) (n : ℕ) : Forward s (s.align n) := by
  rw [ByteStream.align]
  split
  next => exact skip hs _
  next => exact refl s

end Forward

/-- Where skipping ends, if the count is not negative. -/
theorem pos_skip (s : ByteStream) (count : ℕ) :
    (s.skip count).2.pos = min (s.pos + count) s.size := by
  rw [skip, if_neg (by omega), Int.toNat_natCast]
  split
  next hle =>
      show s.pos + count = _
      omega
  next =>
      show s.size = _
      omega

/-- Where aligning ends: at the next multiple, or where the stream does. -/
theorem pos_align {s : ByteStream} (hs : s.pos ≤ s.size) (n : ℕ) :
    (s.align n).pos = min (s.pos + (if n - s.pos % n < n then n - s.pos % n else 0)) s.size := by
  rw [align]
  split
  next => rw [pos_skip]
  next =>
      show s.pos = _
      omega

end ByteStream

end AndroidSdk.Lib
