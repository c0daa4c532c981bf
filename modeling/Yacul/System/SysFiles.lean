import Mathlib.Algebra.Group.Nat.Defs
import Yacul.Support.Scanning

/-!
# Numbers in system files

`ReadUint64File` takes what `std::stoull` makes of a file.  That function
accepts a minus sign and negates the number in its type, so a file that says
`-1` is not one without a number.
-/

namespace Yacul
namespace SystemInfo

open Scanning

/-- `SystemInfo::ReadFile`; a file that does not open reads as empty. -/
def readFile (file : Option Text) : Text :=
  file.getD []

/-- `SystemInfo::ReadUint64File`. -/
def readUint64File (file : Option Text) (default_value : UInt64) : UInt64 :=
  let content := readFile file
  if content.isEmpty then default_value
  else (stoull content).getD default_value

/-- White space, the sign, and a longest run of digits that denotes `v` are
the start of the content. -/
def Spells (content : Text) (sign : Sign) (v : ℕ) : Prop :=
  ∃ spaces number digits rest,
    spaces ++ (sign.text ++ number) = content ∧
    (∀ c ∈ spaces, isSpace c = true) ∧
    Cut isDigit number digits rest ∧ digits ≠ [] ∧ v = ofDigits digits

/-- Exactly the unsigned numerals below `2 ^ 64` are read, everything else
gives the default. -/
structure ParsesUnsigned (file : Option Text) (default_value : UInt64) :
    Prop where
  numeral : ∀ sign v, sign ≠ .minus → Spells (readFile file) sign v →
    v < 2 ^ 64 → (readUint64File file default_value).toNat = v
  other : (∀ sign v, sign ≠ .minus → Spells (readFile file) sign v →
      2 ^ 64 ≤ v) →
    readUint64File file default_value = default_value

variable {content : Text} {file : Option Text} {default_value : UInt64}

theorem Spells.scanNumeral {sign : Sign} {v : ℕ}
    (h : Spells content sign v) :
    ∃ rest, Scanning.scanNumeral content = some ⟨sign.negative, v, rest⟩ := by
  obtain ⟨spaces, number, digits, rest, happend, hspaces, hcut, hne, hv⟩ := h
  exact ⟨rest, scanNumeral_eq_some_iff.mpr
    ⟨spaces, sign, number, digits, happend, hspaces, hcut, hne, rfl, hv⟩⟩

theorem exists_spells {n : Numeral} (h : scanNumeral content = some n) :
    ∃ sign, sign.negative = n.negative ∧ Spells content sign n.magnitude := by
  obtain ⟨spaces, sign, number, digits, happend, hspaces, hcut, hne, hnegative,
    hmagnitude⟩ := scanNumeral_eq_some_iff.mp h
  exact ⟨sign, hnegative.symm, spaces, number, digits, n.rest, happend, hspaces,
    hcut, hne, hmagnitude⟩

theorem negative_eq_true_iff {sign : Sign} :
    sign.negative = true ↔ sign = .minus := by
  cases sign <;> decide

theorem readUint64File_none (h : scanNumeral (readFile file) = none) :
    readUint64File file default_value = default_value := by
  have hthrows : stoull (readFile file) = none := by
    rw [stoull, h, Option.bind_none]
  simp only [readUint64File, hthrows, Option.getD_none, ite_self]

theorem readUint64File_some {n : Numeral}
    (h : scanNumeral (readFile file) = some n) :
    readUint64File file default_value =
      if n.magnitude < 2 ^ 64 then n.toUInt64 else default_value := by
  have hne : (readFile file).isEmpty = false := by
    cases hcontent : readFile file with
    | nil =>
        rw [hcontent] at h
        cases h
    | cons c content => rfl
  simp only [readUint64File, hne, Bool.false_eq_true, if_false, stoull, h,
    Option.bind_some]
  split
  · rfl
  · rfl

/-- The function parses unsigned numerals exactly if there is no number with
a minus sign, or its negation in the type happens to be the default. -/
theorem parsesUnsigned_iff (file : Option Text) (default_value : UInt64) :
    ParsesUnsigned file default_value ↔
      ∀ v, Spells (readFile file) .minus v → v < 2 ^ 64 →
        -UInt64.ofNat v = default_value := by
  cases hscan : scanNumeral (readFile file) with
  | none =>
      have hnone : ∀ sign v, ¬ Spells (readFile file) sign v := by
        intro sign v hspells
        obtain ⟨rest, hsome⟩ := hspells.scanNumeral
        rw [hscan] at hsome
        cases hsome
      refine iff_of_true ⟨fun sign v _ h => absurd h (hnone sign v),
        fun _ => readUint64File_none hscan⟩ fun v h => absurd h (hnone _ v)
  | some n =>
      have hread := @readUint64File_some file default_value n hscan
      obtain ⟨sign, hsign, hspells⟩ := exists_spells hscan
      -- The content spells one number only.
      have honly : ∀ sign' v, Spells (readFile file) sign' v →
          sign'.negative = n.negative ∧ v = n.magnitude := by
        intro sign' v h
        obtain ⟨rest, hsome⟩ := h.scanNumeral
        rw [hscan] at hsome
        obtain rfl := Option.some.inj hsome
        exact ⟨rfl, rfl⟩
      cases hnegative : n.negative with
      | true =>
          have hminus : Spells (readFile file) .minus n.magnitude := by
            rw [hnegative] at hsign
            exact negative_eq_true_iff.mp hsign ▸ hspells
          have hunsigned : ∀ sign' v, sign' ≠ .minus →
              ¬ Spells (readFile file) sign' v := by
            intro sign' v hne h
            have hsign' := (honly sign' v h).1
            rw [hnegative] at hsign'
            exact hne (negative_eq_true_iff.mp hsign')
          constructor
          · rintro ⟨-, hother⟩ v hv hlt
            obtain rfl := (honly _ v hv).2
            have hdefault := hother fun sign' v hne h =>
              absurd h (hunsigned sign' v hne)
            rw [hread, if_pos hlt] at hdefault
            simpa [Numeral.toUInt64, hnegative] using hdefault
          · intro hdefault
            refine ⟨fun sign' v hne h => absurd h (hunsigned sign' v hne),
              fun _ => ?_⟩
            rw [hread]
            split
            · next hlt =>
              simpa [Numeral.toUInt64, hnegative] using
                hdefault n.magnitude hminus hlt
            · rfl
      | false =>
          have hnone : ∀ v, ¬ Spells (readFile file) .minus v := by
            intro v h
            have hsign' := (honly _ v h).1
            rw [hnegative] at hsign'
            exact Bool.noConfusion hsign'
          refine iff_of_true ⟨?_, ?_⟩ fun v h => absurd h (hnone v)
          · intro sign' v _ h hlt
            obtain rfl := (honly sign' v h).2
            rw [hread, if_pos hlt, Numeral.toUInt64, hnegative]
            exact UInt64.toNat_ofNat_of_lt hlt
          · intro hbig
            have hplus : sign ≠ .minus := by
              rintro rfl
              exact hnone _ hspells
            rw [hread, if_neg (Nat.not_lt.mpr (hbig sign _ hplus hspells))]

/-- The speed of a link that is down: `-1`, and a newline. -/
def downSpeed : Text := [0x2d, 0x31, 0x0a]

theorem exists_negativeRead :
    readUint64File (some downSpeed) 0 = 18446744073709551615 ∧
      ¬ ParsesUnsigned (some downSpeed) 0 := by
  have hread : readUint64File (some downSpeed) 0 = 18446744073709551615 := by
    decide
  refine ⟨hread, fun h => ?_⟩
  have hdefault := h.other fun sign v hne hspells => by
    obtain ⟨rest, hscan⟩ := hspells.scanNumeral
    have hminus : scanNumeral (readFile (some downSpeed)) =
        some ⟨true, 1, [0x0a]⟩ := by decide
    rw [hminus] at hscan
    have hsign := congrArg Numeral.negative (Option.some.inj hscan)
    exact absurd (negative_eq_true_iff.mp hsign.symm) hne
  rw [hread] at hdefault
  exact absurd hdefault (by decide)

end SystemInfo
end Yacul
