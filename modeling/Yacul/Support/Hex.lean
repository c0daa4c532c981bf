import Yacul.Support.Rendering

/-!
# Hexadecimal numbers in text

A number to base 16 is scanned like a decimal one: white space, one sign, and
digits, with a prefix `0x` that may be there or not.
-/

namespace Yacul.Scanning

/-- `isxdigit`. -/
def isHexDigit (c : UInt8) : Bool :=
  isDigit c || (0x61 ≤ c && c ≤ 0x66) || (0x41 ≤ c && c ≤ 0x46)

/-- The value of a digit. -/
def hexValue (c : UInt8) : ℕ :=
  if isDigit c then c.toNat - 0x30
  else if 0x61 ≤ c then c.toNat - 0x57
  else c.toNat - 0x37

/-- The number that digits denote. -/
def ofHexDigits (digits : Text) : ℕ :=
  digits.foldl (fun n c => 16 * n + hexValue c) 0

/-- The second byte of the prefix. -/
def isRadix (c : UInt8) : Bool := c = 0x78 || c = 0x58

/-- The longest run of digits, if there is a digit. -/
def scanHexDigits (negative : Bool) (text : Text) : Option Numeral :=
  if (text.takeWhile isHexDigit).isEmpty then none
  else
    some
      { negative := negative
        magnitude := ofHexDigits (text.takeWhile isHexDigit)
        rest := text.dropWhile isHexDigit }

/-- Digits after the prefix, or without it.  Where no digit follows the prefix,
`strtoul` takes the zero alone, and streams take nothing. -/
def scanHexRadix (strtoul negative : Bool) : Text → Option Numeral
  | 0x30 :: x :: rest =>
      if isRadix x then
        match scanHexDigits negative rest with
        | some n => some n
        | none => if strtoul then some ⟨negative, 0, x :: rest⟩ else none
      else scanHexDigits negative (0x30 :: x :: rest)
  | text => scanHexDigits negative text

/-- White space, a sign or none, and a number to base 16. -/
def scanHexNumeral (strtoul : Bool) (text : Text) : Option Numeral :=
  match text.dropWhile isSpace with
  | [] => none
  | c :: rest =>
      if c = 0x2d then scanHexRadix strtoul true rest
      else if c = 0x2b then scanHexRadix strtoul false rest
      else scanHexRadix strtoul false (c :: rest)

/-- `std::stoul` with base 16: it throws where this is `none`. -/
def stoulHex (text : Text) : Option UInt64 :=
  (scanHexNumeral true text).bind fun n =>
    if n.magnitude < 2 ^ 64 then some n.toUInt64 else none

/-- `>> std::hex` into an unsigned number of width `w` that is zero. -/
def IStringStream.readHex (w : ℕ) (ss : IStringStream) : ℕ × IStringStream :=
  if ss.fail then (0, ss)
  else
    match scanHexNumeral false ss.rest with
    | none => (0, { ss with fail := true })
    | some n =>
        if 2 ^ w ≤ n.magnitude then
          (2 ^ w - 1, { rest := n.rest, fail := true })
        else
          (if n.negative then (2 ^ w - n.magnitude) % 2 ^ w else n.magnitude,
            { rest := n.rest })

/-- Digits to base 16, and at least one. -/
structure IsHex (digits : Text) : Prop where
  ne_nil : digits ≠ []
  digits : ∀ c ∈ digits, isHexDigit c = true

/-! ## Digits -/

theorem isHexDigit_iff {c : UInt8} :
    isHexDigit c = true ↔ 48 ≤ c.toNat ∧ c.toNat ≤ 57 ∨
      97 ≤ c.toNat ∧ c.toNat ≤ 102 ∨ 65 ≤ c.toNat ∧ c.toNat ≤ 70 := by
  simp only [isHexDigit, Bool.or_eq_true, Bool.and_eq_true, decide_eq_true_eq,
    UInt8.le_iff_toNat_le, isDigit_iff, or_assoc]
  exact Iff.rfl

/-- A digit is no white space, no sign and no part of the prefix. -/
theorem isHexDigit_apart {c : UInt8} (h : isHexDigit c = true) :
    isSpace c = false ∧ c ≠ 0x2d ∧ c ≠ 0x2b ∧ c ≠ 0x3a ∧
      isRadix c = false := by
  rw [isHexDigit_iff] at h
  simp only [isSpace, isRadix, Bool.or_eq_false_iff, Bool.and_eq_false_iff,
    decide_eq_false_iff_not, UInt8.le_iff_toNat_le, ← UInt8.toNat_inj, ne_eq]
  have hspace : (0x20 : UInt8).toNat = 32 := rfl
  have htab : (0x09 : UInt8).toNat = 9 := rfl
  have hcr : (0x0d : UInt8).toNat = 13 := rfl
  have hminus : (0x2d : UInt8).toNat = 45 := rfl
  have hplus : (0x2b : UInt8).toNat = 43 := rfl
  have hcolon : (0x3a : UInt8).toNat = 58 := rfl
  have hlower : (0x78 : UInt8).toNat = 120 := rfl
  have hupper : (0x58 : UInt8).toNat = 88 := rfl
  omega

theorem IsHex.isWord {digits : Text} (h : IsHex digits) : IsWord digits :=
  ⟨h.ne_nil, fun c hc => (isHexDigit_apart (h.digits c hc)).1⟩

/-! ## Reading -/

/-- A byte that a number to base 16 may have. -/
def isHexByte (c : UInt8) : Bool := isHexDigit c || isRadix c

section

variable {spaces digits rest : Text} (hdigits : IsHex digits)
  (hrest : Stops isHexByte rest)

include hdigits hrest

theorem scanHexDigits_digits (negative : Bool) :
    scanHexDigits negative (digits ++ rest) =
      some ⟨negative, ofHexDigits digits, rest⟩ := by
  have hstops : Stops isHexDigit rest := fun c hc =>
    (Bool.or_eq_false_iff.mp (hrest c hc)).1
  obtain ⟨htake, hdrop⟩ :=
    cut_iff.mp (⟨rfl, hdigits.digits, hstops⟩ :
      Cut isHexDigit (digits ++ rest) digits rest)
  have hne : digits.isEmpty = false :=
    List.isEmpty_eq_false_iff.mpr hdigits.ne_nil
  rw [scanHexDigits, htake, hdrop, hne]
  rfl

/-- There is no prefix in front of digits. -/
theorem scanHexRadix_digits (strtoul negative : Bool) :
    scanHexRadix strtoul negative (digits ++ rest) =
      some ⟨negative, ofHexDigits digits, rest⟩ := by
  rw [← scanHexDigits_digits hdigits hrest]
  unfold scanHexRadix
  split
  · next x text htext =>
      have hradix : isRadix x = false := by
        obtain ⟨d, digits', rfl⟩ := List.exists_cons_of_ne_nil hdigits.ne_nil
        obtain ⟨-, htail⟩ := List.cons.inj htext
        cases digits' with
        | nil =>
            have hrest' : rest = x :: text := htail
            have hhead : rest.head? = some x := by rw [hrest', List.head?_cons]
            exact (Bool.or_eq_false_iff.mp (hrest x hhead)).2
        | cons y digits' =>
            obtain ⟨rfl, -⟩ := List.cons.inj htail
            have hy : isHexDigit y = true := hdigits.digits y (by simp)
            exact (isHexDigit_apart hy).2.2.2.2
      rw [hradix, ← htext]
      rfl
  · rfl

theorem scanHexNumeral_digits (strtoul : Bool)
    (hspaces : ∀ c ∈ spaces, isSpace c = true) :
    scanHexNumeral strtoul (spaces ++ (digits ++ rest)) =
      some ⟨false, ofHexDigits digits, rest⟩ := by
  rw [← scanHexRadix_digits hdigits hrest strtoul false]
  obtain ⟨c, digits', rfl⟩ := List.exists_cons_of_ne_nil hdigits.ne_nil
  obtain ⟨hspace, hminus, hplus, -⟩ :=
    isHexDigit_apart (hdigits.digits c List.mem_cons_self)
  rw [scanHexNumeral, List.dropWhile_append_of_pos hspaces, List.cons_append,
    List.dropWhile_cons, hspace]
  simp only [Bool.false_eq_true, if_false, if_neg hminus, if_neg hplus]

end

theorem stoulHex_digits {digits : Text} (hdigits : IsHex digits)
    (hlt : ofHexDigits digits < 2 ^ 64) :
    stoulHex digits = some (UInt64.ofNat (ofHexDigits digits)) := by
  have hspaces : ∀ c ∈ ([] : Text), isSpace c = true := nofun
  have hscan := scanHexNumeral_digits hdigits (stops_nil isHexByte) true hspaces
  rw [List.nil_append, List.append_nil] at hscan
  rw [stoulHex, hscan, Option.bind_some, if_pos hlt]
  rfl

/-- A number in front of another field. -/
theorem IStringStream.readHex_fields {gap : ℕ → Text} {rest digits : Text}
    (h : IsLayout gap) (hdigits : IsHex digits) {w : ℕ}
    (hlt : ofHexDigits digits < 2 ^ w) (i : ℕ) (field : Text)
    (more : List Text) :
    readHex w { rest := fields gap i (digits :: field :: more) rest } =
      (ofHexDigits digits,
        { rest := fields gap (i + 1) (field :: more) rest }) := by
  have hstops : Stops isHexByte (fields gap (i + 1) (field :: more) rest) := by
    intro c hc
    obtain ⟨d, gap', hgap⟩ :=
      List.exists_cons_of_ne_nil (h.ne_nil (i + 1) (Nat.succ_pos i))
    simp only [fields, hgap, List.cons_append, List.head?_cons] at hc
    obtain rfl := Option.some.inj hc
    have hspace := (h.spaces (i + 1) d (by simp [hgap])).1
    rw [← Bool.not_eq_true, isHexByte, Bool.or_eq_true]
    rintro (hhex | hradix)
    · cases (isHexDigit_apart hhex).1.symm.trans hspace
    · simp only [isRadix, Bool.or_eq_true, decide_eq_true_eq] at hradix
      rcases hradix with rfl | rfl
      · exact absurd hspace (by decide)
      · exact absurd hspace (by decide)
  have hscan := scanHexNumeral_digits hdigits hstops false
    fun c hc => (h.spaces i c hc).1
  simp only [readHex, fields, Bool.false_eq_true, if_false]
  simp only [fields] at hscan
  simp only [hscan, if_neg (not_le.mpr hlt), Bool.false_eq_true, if_false]

end Yacul.Scanning
