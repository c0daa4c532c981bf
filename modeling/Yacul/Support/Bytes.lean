import Mathlib.Algebra.Group.Nat.Defs
import Mathlib.Data.List.Basic

/-!
# Byte vectors as output buffers

A C library fills a caller's vector: the vector is resized to a capacity, the
library overwrites its first bytes, and the vector is resized to the number of
bytes written.  A store in the middle of a vector replaces the bytes it covers
and no others.
-/

namespace Yacul

/-- `std::vector<uint8_t>`. -/
abbrev ByteBuffer := List UInt8

namespace ByteBuffer

/-- `max_size`. -/
def maxSize : ℕ := 2 ^ 63 - 1

/-- The sizes that the machine can give a vector.  A larger one is refused
with `std::bad_alloc`, and above `max_size` with `std::length_error`. -/
structure Limit where
  size : ℕ
  size_le : size ≤ maxSize

/-- A vector that has been given a size: cut off, or filled up with zeros. -/
def resized (buffer : ByteBuffer) (size : ℕ) : ByteBuffer :=
  buffer.take size ++ List.replicate (size - buffer.length) 0

/-- `resize`; `none` is an exception. -/
def resize (limit : Limit) (buffer : ByteBuffer) (size : ℕ) :
    Option ByteBuffer :=
  if size ≤ buffer.length ∨ size ≤ limit.size then some (buffer.resized size)
  else none

/-- The bytes `written` replace the first bytes of the buffer. -/
def overwrite (buffer written : ByteBuffer) : ByteBuffer :=
  written ++ buffer.drop written.length

theorem length_resized (buffer : ByteBuffer) (size : ℕ) :
    (buffer.resized size).length = size := by
  simp only [resized, List.length_append, List.length_take,
    List.length_replicate]
  omega

theorem exists_resize {limit : Limit} {size : ℕ} (h : size ≤ limit.size)
    (buffer : ByteBuffer) :
    ∃ out, resize limit buffer size = some out ∧ out.length = size :=
  ⟨_, if_pos (.inr h), length_resized buffer size⟩

/-- An empty vector cannot be given more than the limit. -/
theorem resize_nil_of_lt {limit : Limit} {size : ℕ} (h : limit.size < size) :
    resize limit [] size = none := by
  refine if_neg fun hfits => ?_
  rw [List.length_nil] at hfits
  omega

theorem overwrite_of_length_eq {buffer written : ByteBuffer}
    (h : buffer.length = written.length) : buffer.overwrite written = written := by
  rw [overwrite, ← h, List.drop_length, List.append_nil]

/-- After the last resize the buffer is what was written. -/
theorem resized_overwrite (buffer written : ByteBuffer) :
    (buffer.overwrite written).resized written.length = written := by
  have hle : written.length - (buffer.overwrite written).length = 0 := by
    simp [overwrite]
  rw [resized, hle, List.replicate_zero, List.append_nil, overwrite,
    List.take_left]

/-- That resize does not grow the buffer, so it throws nothing. -/
theorem resize_overwrite (limit : Limit) (buffer written : ByteBuffer) :
    resize limit (buffer.overwrite written) written.length = some written := by
  have hle : written.length ≤ (buffer.overwrite written).length := by
    simp [overwrite]
  rw [resize, if_pos (.inl hle), resized_overwrite]

/-- Chunks collected beside a value are their concatenation. -/
theorem foldl_collect {α : Type*} (x : α) (data : ByteBuffer)
    (chunks : List ByteBuffer) :
    chunks.foldl (fun (st : α × ByteBuffer) chunk => (st.1, st.2 ++ chunk))
      (x, data) = (x, data ++ chunks.flatten) := by
  induction chunks generalizing data with
  | nil => simp
  | cons chunk chunks ih =>
      rw [List.foldl_cons, ih, List.flatten_cons, List.append_assoc]

/-! ## Stores in the middle -/

/-- The bytes `src` replace those from `pos` on, as far as there are any. -/
def overwriteAt (buffer : ByteBuffer) (pos : ℕ) (src : ByteBuffer) :
    ByteBuffer :=
  buffer.take pos ++ src.take (buffer.length - pos) ++
    buffer.drop (pos + src.length)

variable {buffer u v src src' : ByteBuffer} {pos k : ℕ}

theorem overwriteAt_nil (buffer : ByteBuffer) (pos : ℕ) :
    buffer.overwriteAt pos [] = buffer := by
  simp [overwriteAt]

theorem overwriteAt_of_length_le (h : buffer.length ≤ pos)
    (src : ByteBuffer) : buffer.overwriteAt pos src = buffer := by
  have hdrop : buffer.drop (pos + src.length) = [] :=
    List.drop_eq_nil_of_le (by omega)
  rw [overwriteAt, Nat.sub_eq_zero_of_le h, hdrop, List.take_of_length_le h]
  simp

theorem length_overwriteAt (buffer : ByteBuffer) (pos : ℕ)
    (src : ByteBuffer) :
    (buffer.overwriteAt pos src).length = buffer.length := by
  simp only [overwriteAt, List.length_append, List.length_take,
    List.length_drop]
  omega

theorem getElem?_overwriteAt (hk : k < buffer.length) :
    (buffer.overwriteAt pos src)[k]? =
      if pos ≤ k ∧ k < pos + src.length then src[k - pos]?
      else buffer[k]? := by
  simp only [overwriteAt, List.append_assoc, List.getElem?_append,
    List.getElem?_take, List.getElem?_drop, List.length_take]
  have hpast : pos + src.length ≤ k →
      pos + src.length + (k - min pos buffer.length -
        min (buffer.length - pos) src.length) = k := by omega
  have hfrom : pos ≤ k → k - min pos buffer.length = k - pos := by omega
  by_cases hpos : k < pos
  · have hmin : k < min pos buffer.length := by omega
    rw [if_pos hmin, if_pos hpos, if_neg (by omega)]
  · rw [if_neg (show ¬ k < min pos buffer.length by omega)]
    by_cases hend : k < pos + src.length
    · rw [if_pos (by omega), if_pos (by omega), hfrom (by omega),
        if_pos (by omega)]
    · rw [if_neg (by omega), if_neg (by omega), hpast (by omega)]

/-- Two stores behind each other are one store. -/
theorem overwriteAt_overwriteAt (buffer : ByteBuffer) (pos : ℕ)
    (src src' : ByteBuffer) :
    (buffer.overwriteAt pos src).overwriteAt (pos + src.length) src' =
      buffer.overwriteAt pos (src ++ src') := by
  apply List.ext_getElem?
  intro k
  by_cases hk : k < buffer.length
  · rw [getElem?_overwriteAt (by rwa [length_overwriteAt]),
      getElem?_overwriteAt hk, getElem?_overwriteAt hk, List.length_append,
      List.getElem?_append]
    have hsub : k - (pos + src.length) = k - pos - src.length := by omega
    split_ifs <;> first | rfl | omega | rw [hsub]
  · rw [List.getElem?_eq_none (by simp only [length_overwriteAt]; omega),
      List.getElem?_eq_none (by simp only [length_overwriteAt]; omega)]

/-- A store that ends in the first part. -/
theorem overwriteAt_append_left (h : pos + src.length ≤ u.length)
    (v : ByteBuffer) :
    (u ++ v : ByteBuffer).overwriteAt pos src = u.overwriteAt pos src ++ v := by
  have htake : src.take (u.length + v.length - pos) = src :=
    List.take_of_length_le (by omega)
  have htake' : src.take (u.length - pos) = src :=
    List.take_of_length_le (by omega)
  simp only [overwriteAt, List.length_append, htake, htake']
  rw [List.take_append_of_le_length (by omega), List.drop_append_of_le_length h]
  simp only [List.append_assoc]

/-- A store that starts in the second part. -/
theorem overwriteAt_append_right (u v : ByteBuffer) (k : ℕ)
    (src : ByteBuffer) :
    (u ++ v : ByteBuffer).overwriteAt (u.length + k) src =
      u ++ v.overwriteAt k src := by
  have hlen : u.length + v.length - (u.length + k) = v.length - k := by omega
  simp only [overwriteAt, List.length_append, hlen, Nat.add_assoc,
    List.take_length_add_append, List.drop_length_add_append]
  simp only [List.append_assoc]

end ByteBuffer

end Yacul
