import Mathlib.Algebra.Group.Int.Defs
import Mathlib.Algebra.Group.Nat.Defs
import Mathlib.Data.Int.Notation
import Mathlib.Data.List.TakeWhile

/-!
# Scanning numbers in text

Text is a list of bytes.  A number is scanned the way `strtol` and the
formatted input of streams do in the "C" locale: white space is skipped, one
sign is read, then as many digits as there are.  What a number out of the
range of its type becomes is where the two differ.
-/

namespace Yacul.Scanning

/-- Text as bytes. -/
abbrev Text := List UInt8

/-- `isspace` in the "C" locale. -/
def isSpace (c : UInt8) : Bool :=
  c = 0x20 || (0x09 ≤ c && c ≤ 0x0d)

/-- `isdigit`. -/
def isDigit (c : UInt8) : Bool :=
  0x30 ≤ c && c ≤ 0x39

/-- The lines of a text, as `getline` gives them: a last line without a
newline counts, unless it is empty. -/
def lines : Text → List Text
  | [] => []
  | c :: text =>
      if c = 0x0a then [] :: lines text
      else
        match lines text with
        | [] => [[c]]
        | line :: rest => (c :: line) :: rest

/-- The number that digits denote. -/
def ofDigits (digits : Text) : ℕ :=
  digits.foldl (fun n c => 10 * n + (c.toNat - 0x30)) 0

/-- A scanned number and the text after it. -/
structure Numeral where
  negative : Bool
  magnitude : ℕ
  rest : Text
deriving DecidableEq, Repr

namespace Numeral

def toInt (n : Numeral) : ℤ :=
  if n.negative then -(n.magnitude : ℤ) else n.magnitude

/-- Unsigned numbers are negated in their type. -/
def toUInt64 (n : Numeral) : UInt64 :=
  if n.negative then -UInt64.ofNat n.magnitude else UInt64.ofNat n.magnitude

end Numeral

/-- The longest run of digits, if there is a digit. -/
def scanDigits (negative : Bool) (text : Text) : Option Numeral :=
  if (text.takeWhile isDigit).isEmpty then none
  else
    some
      { negative := negative
        magnitude := ofDigits (text.takeWhile isDigit)
        rest := text.dropWhile isDigit }

/-- White space, a sign or none, and digits. -/
def scanNumeral (text : Text) : Option Numeral :=
  match text.dropWhile isSpace with
  | [] => none
  | c :: rest =>
      if c = 0x2d then scanDigits true rest
      else if c = 0x2b then scanDigits false rest
      else scanDigits false (c :: rest)

/-- `std::stoi`: it throws where this is `none`. -/
def stoi (text : Text) : Option ℤ :=
  (scanNumeral text).bind fun n =>
    if -2 ^ 31 ≤ n.toInt ∧ n.toInt < 2 ^ 31 then some n.toInt else none

/-- `std::stol`, likewise. -/
def stol (text : Text) : Option ℤ :=
  (scanNumeral text).bind fun n =>
    if -2 ^ 63 ≤ n.toInt ∧ n.toInt < 2 ^ 63 then some n.toInt else none

/-- `std::stoull`: it throws where this is `none`.  A number with a minus sign
is negated after its range has been checked. -/
def stoull (text : Text) : Option UInt64 :=
  (scanNumeral text).bind fun n =>
    if n.magnitude < 2 ^ 64 then some n.toUInt64 else none

/-! ## The grammar of numbers -/

/-- A text cut where the run of `p` at its start ends. -/
structure Cut (p : UInt8 → Bool) (text run rest : Text) : Prop where
  append : run ++ rest = text
  run : ∀ c ∈ run, p c = true
  ends : ∀ c, rest.head? = some c → p c = false

theorem cut_iff {p : UInt8 → Bool} {text run rest : Text} :
    Cut p text run rest ↔
      text.takeWhile p = run ∧ text.dropWhile p = rest := by
  constructor
  · rintro ⟨rfl, hrun, hends⟩
    rw [List.takeWhile_append_of_pos hrun, List.dropWhile_append_of_pos hrun]
    cases rest with
    | nil => simp
    | cons c rest =>
        have hc := hends c rfl
        simp [hc]
  · rintro ⟨rfl, rfl⟩
    refine ⟨List.takeWhile_append_dropWhile, fun c hc => List.mem_takeWhile_imp hc,
      fun c hc => ?_⟩
    have hnot := List.head?_dropWhile_not p text
    rw [hc] at hnot
    exact hnot

/-- What stands between white space and digits. -/
inductive Sign
  | absent
  | plus
  | minus
deriving DecidableEq, Repr

def Sign.text : Sign → Text
  | .absent => []
  | .plus => [0x2b]
  | .minus => [0x2d]

def Sign.negative : Sign → Bool
  | .minus => true
  | .absent | .plus => false

theorem scanDigits_eq_some_iff {negative : Bool} {text : Text} {n : Numeral} :
    scanDigits negative text = some n ↔
      ∃ digits, Cut isDigit text digits n.rest ∧ digits ≠ [] ∧
        n.negative = negative ∧ n.magnitude = ofDigits digits := by
  unfold scanDigits
  constructor
  · intro h
    split at h
    · cases h
    · next hdigits =>
      obtain rfl := Option.some.inj h
      refine ⟨text.takeWhile isDigit, cut_iff.mpr ⟨rfl, rfl⟩, ?_, rfl, rfl⟩
      simpa using hdigits
  · rintro ⟨digits, hcut, hne, hnegative, hmagnitude⟩
    obtain ⟨hdigits, hrest⟩ := cut_iff.mp hcut
    rw [hdigits, hrest, if_neg (by simpa using hne), ← hnegative, ← hmagnitude]

/-- After white space comes a sign or a digit. -/
theorem cut_spaces {spaces number digits rest : Text} {sign : Sign}
    (hspaces : ∀ c ∈ spaces, isSpace c = true)
    (hcut : Cut isDigit number digits rest) (hne : digits ≠ []) :
    Cut isSpace (spaces ++ (sign.text ++ number)) spaces
      (sign.text ++ number) := by
  refine ⟨rfl, hspaces, fun c hc => ?_⟩
  cases sign with
  | absent =>
      obtain ⟨d, digits, rfl⟩ := List.exists_cons_of_ne_nil hne
      rw [← hcut.append] at hc
      obtain rfl : d = c := Option.some.inj hc
      have hdigit := hcut.run d List.mem_cons_self
      simp only [isDigit, Bool.and_eq_true, decide_eq_true_eq,
        UInt8.le_iff_toNat_le] at hdigit
      simp only [isSpace, Bool.or_eq_false_iff, Bool.and_eq_false_iff,
        decide_eq_false_iff_not, UInt8.le_iff_toNat_le, ← UInt8.toNat_inj]
      have hlow : (0x30 : UInt8).toNat = 48 := rfl
      have hspace : (0x20 : UInt8).toNat = 32 := rfl
      have hcr : (0x0d : UInt8).toNat = 13 := rfl
      omega
  | plus =>
      obtain rfl : 0x2b = c := Option.some.inj hc
      rfl
  | minus =>
      obtain rfl : 0x2d = c := Option.some.inj hc
      rfl

/-- The sign is the first byte, if that is one. -/
theorem scanNumeral_of_cut {text spaces number digits rest : Text} {sign : Sign}
    (hspaces : Cut isSpace text spaces (sign.text ++ number))
    (hcut : Cut isDigit number digits rest) (hne : digits ≠ []) :
    scanNumeral text = scanDigits sign.negative number := by
  unfold scanNumeral
  rw [(cut_iff.mp hspaces).2]
  cases sign with
  | absent =>
      obtain ⟨d, digits, rfl⟩ := List.exists_cons_of_ne_nil hne
      have hdigit := hcut.run d List.mem_cons_self
      rw [← hcut.append]
      have hminus : d ≠ 0x2d := by
        rintro rfl
        exact absurd hdigit (by decide)
      have hplus : d ≠ 0x2b := by
        rintro rfl
        exact absurd hdigit (by decide)
      simp [Sign.text, Sign.negative, hminus, hplus]
  | plus => rfl
  | minus => rfl

/-- What `scanNumeral` accepts: the grammar of numbers. -/
theorem scanNumeral_eq_some_iff {text : Text} {n : Numeral} :
    scanNumeral text = some n ↔
      ∃ spaces sign number digits,
        spaces ++ (Sign.text sign ++ number) = text ∧
        (∀ c ∈ spaces, isSpace c = true) ∧
        Cut isDigit number digits n.rest ∧ digits ≠ [] ∧
        n.negative = sign.negative ∧ n.magnitude = ofDigits digits := by
  constructor
  · intro h
    have hspaces : ∀ c ∈ text.takeWhile isSpace, isSpace c = true :=
      fun c hc => List.mem_takeWhile_imp hc
    have htext := List.takeWhile_append_dropWhile (p := isSpace) (l := text)
    unfold scanNumeral at h
    split at h
    · cases h
    · next c rest hdrop =>
      rw [hdrop] at htext
      split at h
      · next hminus =>
        obtain ⟨digits, hcut, hne, hnegative, hmagnitude⟩ :=
          scanDigits_eq_some_iff.mp h
        rw [hminus] at htext
        exact ⟨_, .minus, rest, digits, htext, hspaces, hcut, hne, hnegative,
          hmagnitude⟩
      · split at h
        · next hplus =>
          obtain ⟨digits, hcut, hne, hnegative, hmagnitude⟩ :=
            scanDigits_eq_some_iff.mp h
          rw [hplus] at htext
          exact ⟨_, .plus, rest, digits, htext, hspaces, hcut, hne, hnegative,
            hmagnitude⟩
        · obtain ⟨digits, hcut, hne, hnegative, hmagnitude⟩ :=
            scanDigits_eq_some_iff.mp h
          exact ⟨_, .absent, c :: rest, digits, htext, hspaces, hcut, hne,
            hnegative, hmagnitude⟩
  · rintro ⟨spaces, sign, number, digits, rfl, hspaces, hcut, hne, hnumeral⟩
    rw [scanNumeral_of_cut (cut_spaces hspaces hcut hne) hcut hne]
    exact scanDigits_eq_some_iff.mpr ⟨digits, hcut, hne, hnumeral⟩

/-! ## Formatted input -/

/-- `std::istringstream`: the bytes not read yet, and the fail bit. -/
structure IStringStream where
  rest : Text
  fail : Bool := false
deriving DecidableEq, Repr

namespace IStringStream

/-- `>>` into a string. -/
def readWord (ss : IStringStream) : Text × IStringStream :=
  let text := ss.rest.dropWhile isSpace
  if ss.fail || text.isEmpty then ([], { ss with fail := true })
  else
    (text.takeWhile (fun c => !isSpace c),
      { ss with rest := text.dropWhile (fun c => !isSpace c) })

/-- `>>` into a `uint64_t` that is zero: after a failure it stays zero, and
a number out of range is the largest. -/
def readUInt64 (ss : IStringStream) : UInt64 × IStringStream :=
  if ss.fail then (0, ss)
  else
    match scanNumeral ss.rest with
    | none => (0, { ss with fail := true })
    | some n =>
        if 2 ^ 64 ≤ n.magnitude then
          (UInt64.ofNat (2 ^ 64 - 1), { rest := n.rest, fail := true })
        else (n.toUInt64, { rest := n.rest })

/-- `>>` into a `char`, which keeps its value after a failure. -/
def readChar (ss : IStringStream) (old : UInt8) : UInt8 × IStringStream :=
  match ss.fail, ss.rest.dropWhile isSpace with
  | false, c :: rest => (c, { ss with rest := rest })
  | _, _ => (old, { ss with fail := true })

/-- `>>` into a signed number of width `w` that is zero: a number out of range
is the closest one. -/
def readSigned (w : ℕ) (ss : IStringStream) : ℤ × IStringStream :=
  if ss.fail then (0, ss)
  else
    match scanNumeral ss.rest with
    | none => (0, { ss with fail := true })
    | some n =>
        if n.toInt < -2 ^ (w - 1) then
          (-2 ^ (w - 1), { rest := n.rest, fail := true })
        else if 2 ^ (w - 1) ≤ n.toInt then
          (2 ^ (w - 1) - 1, { rest := n.rest, fail := true })
        else (n.toInt, { rest := n.rest })

/-- `>>` into an unsigned number of width `w` that is zero. -/
def readUnsigned (w : ℕ) (ss : IStringStream) : ℕ × IStringStream :=
  if ss.fail then (0, ss)
  else
    match scanNumeral ss.rest with
    | none => (0, { ss with fail := true })
    | some n =>
        if 2 ^ w ≤ n.magnitude then
          (2 ^ w - 1, { rest := n.rest, fail := true })
        else
          (if n.negative then (2 ^ w - n.magnitude) % 2 ^ w else n.magnitude,
            { rest := n.rest })

end IStringStream

/-! ## Searching -/

/-- `find` of a byte. -/
def find (c : UInt8) (text : Text) : Option ℕ :=
  text.idxOf? c

/-- `rfind` of a byte. -/
def rfind (c : UInt8) (text : Text) : Option ℕ :=
  (find c text.reverse).map fun i => text.length - 1 - i

theorem find_append {c : UInt8} {u : Text} (h : c ∉ u) (v : Text) :
    find c (u ++ c :: v) = some u.length := by
  induction u with
  | nil => simp [find, List.idxOf?_cons]
  | cons d u ih =>
      obtain ⟨hd, hu⟩ := not_or.mp fun h' => h (List.mem_cons.mpr h')
      have hne : (d == c) = false := beq_eq_false_iff_ne.mpr (Ne.symm hd)
      have hfind : (u ++ c :: v).idxOf? c = some u.length := ih hu
      rw [List.cons_append, find, List.idxOf?_cons, hne, hfind]
      rfl

theorem find_eq_none {c : UInt8} {text : Text} (h : c ∉ text) :
    find c text = none :=
  List.idxOf?_eq_none_iff.mpr h

theorem rfind_append {c : UInt8} {v : Text} (u : Text) (h : c ∉ v) :
    rfind c (u ++ c :: v) = some u.length := by
  have hreverse : (u ++ c :: v).reverse = v.reverse ++ c :: u.reverse := by
    simp
  rw [rfind, hreverse, find_append (by simpa using h), Option.map_some]
  simp

theorem rfind_eq_none {c : UInt8} {text : Text} (h : c ∉ text) :
    rfind c text = none := by
  rw [rfind, find_eq_none (by simpa using h), Option.map_none]

end Yacul.Scanning
