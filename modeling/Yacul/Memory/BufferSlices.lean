import Yacul.Memory.BufferRings
import Yacul.Memory.BufferSharing

/-!
# Slices

`Slice` compares the end of the range with the size of the view, and
`Slice(offset)` computes the length of the range first.  Both are computed in
`size_t`, so a range that ends at `2 ^ 64` or behind it is compared by what is
left after the wrap.  A slice that is in range has the bytes of the range.
-/

namespace Yacul
namespace Memory

/-- The slice is made exactly when it is in range, and then the new buffer
holds `bytes`. -/
structure Slices (s : State) (r : Option State) (inRange : Prop)
    (bytes : ByteBuffer) : Prop where
  passes : r.isSome = true ↔ inRange
  holds : ∀ s', r = some s' →
    ∃ c, s'.buf? s.bufs.length = some c ∧ toBytes s' c = bytes

section Slices

variable {s : State} {i offset len : ℕ} {b : Buffer}

/-! ## What a slice sees -/

theorem length_toBytes (s : State) (b : Buffer) :
    (toBytes s b).length = b.length := by
  simp [toBytes]

/-- A part of the view, byte by byte. -/
theorem take_drop_toBytes (s : State) (h : offset + len ≤ b.length) :
    ((toBytes s b).drop offset).take len =
      (List.range len).map fun k => s.view b (offset + k) := by
  apply List.ext_getElem
  · simp only [List.length_take, List.length_drop, length_toBytes,
      List.length_map, List.length_range]
    omega
  · intro k _ _
    simp [toBytes]

theorem view_retainPhysical (s : State) (physical : Option ℕ) (b : Buffer) :
    (retainPhysical s physical).view b = s.view b := by
  have hbytes : (retainPhysical s physical).sharing.bytes? =
      s.sharing.bytes? := by
    funext p
    rw [sharing_retainPhysical]
    exact Sharing.bytes?_update s.sharing (Or.inr fun _ => rfl)
  funext k
  rw [view_eq, view_eq, hbytes]

/-- A view that starts later. -/
theorem view_shift (s : State) (b : Buffer) (offset len n p k : ℕ) :
    s.view ⟨b.physical, b.data + offset, len, n, p⟩ k =
      s.view b (offset + k) := by
  simp only [State.view, Nat.add_assoc]

/-! ## The check -/

theorem slice_of_buf? (hb : s.buf? i = some b) (offset len : ℕ) :
    slice s i offset len =
      if addSize offset len ≤ b.length then
        some (newBuffer (retainPhysical s b.physical) b.physical
          (b.data + offset) len)
      else none := by
  simp only [slice, hb, Option.bind_eq_bind, Option.bind_some]

theorem sliceFrom_of_buf? (hb : s.buf? i = some b) (offset : ℕ) :
    sliceFrom s i offset = slice s i offset (subSize b.length offset) := by
  -- `subSize` has to stay folded: the kernel would count to `2 ^ 64`.
  have hbind : sliceFrom s i offset = (s.buf? i).bind fun b =>
      slice s i offset (subSize b.length offset) := rfl
  rw [hbind, hb, Option.bind_some]

theorem isSome_slice (hb : s.buf? i = some b) :
    (slice s i offset len).isSome = true ↔ addSize offset len ≤ b.length := by
  rw [slice_of_buf? hb]
  split_ifs with h <;> simp [h]

/-- A slice that is in range holds the bytes of the range. -/
theorem slice_holds (hb : s.buf? i = some b) (h : offset + len ≤ b.length)
    {s' : State} (hs' : slice s i offset len = some s') :
    ∃ c, s'.buf? s.bufs.length = some c ∧
      toBytes s' c = ((toBytes s b).drop offset).take len := by
  rw [slice_of_buf? hb, Option.ite_none_right_eq_some] at hs'
  obtain ⟨-, hs'⟩ := hs'
  obtain rfl := Option.some.inj hs'
  refine ⟨⟨b.physical, b.data + offset, len, s.bufs.length, s.bufs.length⟩,
    ?_, ?_⟩
  · rw [buf?_newBuffer, retainPhysical_bufs, if_pos rfl]
  · rw [take_drop_toBytes s h, toBytes]
    apply List.map_congr_left
    intro k _
    have hview : (newBuffer (retainPhysical s b.physical) b.physical
        (b.data + offset) len).view = (retainPhysical s b.physical).view := rfl
    rw [hview, view_retainPhysical, view_shift]

theorem addSize_eq_add (h : offset + len < sizeModulus) :
    addSize offset len = offset + len :=
  Nat.mod_eq_of_lt h

/-- The sum of two sizes wraps at most once. -/
theorem addSize_eq_sub (ho : offset < sizeModulus) (hl : len < sizeModulus)
    (h : sizeModulus ≤ offset + len) :
    addSize offset len = offset + len - sizeModulus := by
  rw [addSize, Nat.mod_eq_sub_mod h, Nat.mod_eq_of_lt (by omega)]

/-- `Slice(offset)` always asks for a range that ends at the size of the view,
up to a wrap. -/
theorem addSize_subSize (hl : len < sizeModulus) (ho : offset < sizeModulus) :
    addSize offset (subSize len offset) = len := by
  rw [addSize, subSize, Nat.add_mod_mod]
  have hsum : offset + (len + sizeModulus - offset) = len + sizeModulus := by
    omega
  rw [hsum, Nat.add_mod_right, Nat.mod_eq_of_lt hl]

theorem slices_iff (hb : s.buf? i = some b) (hsize : b.length < sizeModulus)
    (ho : offset < sizeModulus) (hl : len < sizeModulus) :
    Slices s (slice s i offset len) (offset + len ≤ b.length)
        (((toBytes s b).drop offset).take len) ↔
      offset + len < sizeModulus ∨ b.length < offset + len - sizeModulus := by
  constructor
  · intro h
    by_contra hwrap
    rw [not_or, not_lt, not_lt] at hwrap
    have hpass := (isSome_slice hb).mpr
      ((addSize_eq_sub ho hl hwrap.1).trans_le hwrap.2)
    have hin := h.passes.mp hpass
    omega
  · rintro (hlt | hout)
    · have hcheck : (slice s i offset len).isSome = true ↔ _ :=
        isSome_slice hb
      rw [addSize_eq_add hlt] at hcheck
      refine ⟨hcheck, fun s' hs' => ?_⟩
      have hin := hcheck.mp (by rw [hs']; rfl)
      exact slice_holds hb hin hs'
    · have hnone : slice s i offset len = none := by
        rw [slice_of_buf? hb, if_neg]
        rw [addSize_eq_sub ho hl (by omega)]
        omega
      rw [hnone]
      exact ⟨⟨fun h => (nomatch h), fun h => by omega⟩, fun _ h => nomatch h⟩

theorem slicesFrom_iff (hb : s.buf? i = some b)
    (hsize : b.length < sizeModulus) (ho : offset < sizeModulus) :
    Slices s (sliceFrom s i offset) (offset ≤ b.length)
        ((toBytes s b).drop offset) ↔ offset ≤ b.length := by
  have hpass : (sliceFrom s i offset).isSome = true := by
    rw [sliceFrom_of_buf? hb, isSome_slice hb, addSize_subSize hsize ho]
  constructor
  · exact fun h => h.passes.mp hpass
  · intro hle
    refine ⟨⟨fun _ => hle, fun _ => hpass⟩, fun s' hs' => ?_⟩
    have hsub : subSize b.length offset = b.length - offset := by
      rw [subSize, Nat.mod_eq_sub_mod (by omega), Nat.mod_eq_of_lt (by omega)]
      omega
    rw [sliceFrom_of_buf? hb, hsub] at hs'
    obtain ⟨c, hc, hbytes⟩ := slice_holds hb (by omega) hs'
    refine ⟨c, hc, hbytes.trans (List.take_of_length_le ?_)⟩
    rw [List.length_drop, length_toBytes]

/-- `Slice(offset, len)` is right exactly when the end of the range does not
wrap to a size inside the view, and `Slice(offset)` exactly when `offset` is
inside the view. -/
theorem slice_right_iff (hb : s.buf? i = some b)
    (hsize : b.length < sizeModulus) (offset len : UInt64) :
    (Slices s (slice s i offset.toNat len.toNat)
          (offset.toNat + len.toNat ≤ b.length)
          (((toBytes s b).drop offset.toNat).take len.toNat) ↔
        offset.toNat + len.toNat < sizeModulus ∨
          b.length < offset.toNat + len.toNat - sizeModulus) ∧
      (Slices s (sliceFrom s i offset.toNat) (offset.toNat ≤ b.length)
          ((toBytes s b).drop offset.toNat) ↔
        offset.toNat ≤ b.length) :=
  ⟨slices_iff hb hsize offset.toNat_lt len.toNat_lt,
    slicesFrom_iff hb hsize offset.toNat_lt⟩

end Slices

/-! ## Five bytes -/

/-- `Buffer::CopyFrom("short")`. -/
def shortCopy : List Action := [.copyFrom [115, 104, 111, 114, 116]]

theorem shortCopy_runs :
    (Transition.run (perform (filled 0)) init shortCopy).isSome = true := by
  decide

/-- `Slice(2, 3)` and `Slice(2)` of five bytes are right. -/
theorem slice_right_iff_shortCopy :
    Slices ((Transition.run (perform (filled 0)) init shortCopy).get
        shortCopy_runs)
      (slice ((Transition.run (perform (filled 0)) init shortCopy).get
        shortCopy_runs) 0 2 3) (2 + 3 ≤ 5) [111, 114, 116] :=
  (slice_right_iff (b := ⟨some 0, 0, 5, 0, 0⟩) rfl (by decide) 2 3).1.mpr
    (Or.inl (by decide))

/-- `Slice(2 ^ 64 - 1, 1)` of five bytes passes its check, and so does
`Slice(2 ^ 64 - 1)`. -/
theorem exists_slice_outside :
    ¬ ∀ uninit s i b (offset len : UInt64),
      Transition.Reachable (perform uninit) {init} s → s.buf? i = some b →
      Slices s (slice s i offset.toNat len.toNat)
          (offset.toNat + len.toNat ≤ b.length)
          (((toBytes s b).drop offset.toNat).take len.toNat) ∧
        Slices s (sliceFrom s i offset.toNat) (offset.toNat ≤ b.length)
          ((toBytes s b).drop offset.toNat) := by
  intro hall
  have hreach := Transition.reachable_get_run (Set.mem_singleton init)
    shortCopy_runs
  have hright := (hall _ _ 0 ⟨some 0, 0, 5, 0, 0⟩ 18446744073709551615 1
    hreach rfl).1
  exact absurd (hright.passes.mp (by decide)) (by decide)

end Memory
end Yacul
