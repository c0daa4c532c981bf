import Mathlib.Data.Nat.Digits.Defs
import Yacul.Support.Scanning

/-!
# Text that a scanner gets back

Tables in text are lines of words and decimal numbers with white space or a
separator in between.  What is written this way the formatted input of
streams and `getline` give back: a number or a word up to where it stops, a
line up to its newline.
-/

namespace Yacul.Scanning

/-! ## Writing -/

/-- A text in ASCII. -/
def ascii (s : String) : Text :=
  s.toList.map fun c => UInt8.ofNat c.toNat

/-- The character of a digit. -/
def digitByte (d : ℕ) : UInt8 := 0x30 + UInt8.ofNat d

/-- `std::to_string` of a number. -/
def decimal (n : ℕ) : Text :=
  if n = 0 then [0x30] else ((Nat.digits 10 n).map digitByte).reverse

/-- A text of lines, each with its newline. -/
def unlines (rows : List Text) : Text :=
  rows.flatMap fun row => row ++ [0x0a]

/-- The text ends, or goes on with a byte that is not in `p`. -/
def Stops (p : UInt8 → Bool) (rest : Text) : Prop :=
  ∀ c, rest.head? = some c → p c = false

/-- A word: bytes that are no white space, and at least one. -/
structure IsWord (word : Text) : Prop where
  ne_nil : word ≠ []
  visible : ∀ c ∈ word, isSpace c = false

theorem isWord_of_all {word : Text} (hne : word ≠ [])
    (h : word.all (fun c => !isSpace c) = true) : IsWord word := by
  refine ⟨hne, fun c hc => ?_⟩
  simpa using List.all_eq_true.mp h c hc

/-- White space, and at least one byte of it. -/
structure IsGap (gap : Text) : Prop where
  ne_nil : gap ≠ []
  spaces : ∀ c ∈ gap, isSpace c = true

/-! ## Digits -/

theorem toNat_digitByte {d : ℕ} (hd : d < 10) :
    (digitByte d).toNat = 48 + d := by
  have hthirty : (0x30 : UInt8).toNat = 48 := rfl
  have hlt : d < 2 ^ 8 := by omega
  have hofNat : (UInt8.ofNat d).toNat = d := UInt8.toNat_ofNat_of_lt hlt
  rw [digitByte, UInt8.toNat_add, hofNat, hthirty]
  omega

theorem isDigit_iff {c : UInt8} :
    isDigit c = true ↔ 48 ≤ c.toNat ∧ c.toNat ≤ 57 := by
  simp only [isDigit, Bool.and_eq_true, decide_eq_true_eq,
    UInt8.le_iff_toNat_le]
  exact Iff.rfl

theorem isDigit_digitByte {d : ℕ} (hd : d < 10) :
    isDigit (digitByte d) = true := by
  rw [isDigit_iff, toNat_digitByte hd]
  omega

theorem isDigit_of_mem_decimal {n : ℕ} {c : UInt8} (hc : c ∈ decimal n) :
    isDigit c = true := by
  unfold decimal at hc
  split at hc
  · obtain rfl := List.mem_singleton.mp hc
    rfl
  · rw [List.mem_reverse] at hc
    obtain ⟨d, hd, rfl⟩ := List.mem_map.mp hc
    exact isDigit_digitByte (Nat.digits_lt_base (by omega) hd)

theorem decimal_ne_nil (n : ℕ) : decimal n ≠ [] := by
  unfold decimal
  split
  · exact List.cons_ne_nil _ _
  · next hn =>
      rw [Ne, List.reverse_eq_nil_iff, List.map_eq_nil_iff]
      exact fun h => hn (Nat.digits_eq_nil_iff_eq_zero.mp h)

/-- The digits of a number denote it. -/
theorem ofDigits_decimal (n : ℕ) : ofDigits (decimal n) = n := by
  unfold decimal
  split
  · next hn => rw [hn]; rfl
  · have hdigits : ∀ l : List ℕ, (∀ d ∈ l, d < 10) →
        ofDigits (l.map digitByte).reverse = Nat.ofDigits 10 l := by
      intro l hl
      rw [ofDigits, List.foldl_reverse]
      induction l with
      | nil => rfl
      | cons d l ih =>
          have hd := toNat_digitByte (hl d List.mem_cons_self)
          rw [List.map_cons, List.foldr_cons, Nat.ofDigits_cons,
            ih fun d' hd' => hl d' (List.mem_cons_of_mem d hd'), hd]
          omega
    rw [hdigits _ fun d hd => Nat.digits_lt_base (by omega) hd,
      Nat.ofDigits_digits]

theorem isSpace_of_isDigit {c : UInt8} (h : isDigit c = true) :
    isSpace c = false := by
  rw [isDigit_iff] at h
  simp only [isSpace, Bool.or_eq_false_iff, Bool.and_eq_false_iff,
    decide_eq_false_iff_not, UInt8.le_iff_toNat_le, ← UInt8.toNat_inj]
  have hspace : (0x20 : UInt8).toNat = 32 := rfl
  have htab : (0x09 : UInt8).toNat = 9 := rfl
  have hcr : (0x0d : UInt8).toNat = 13 := rfl
  omega

theorem isWord_decimal (n : ℕ) : IsWord (decimal n) :=
  ⟨decimal_ne_nil n, fun _ hc => isSpace_of_isDigit (isDigit_of_mem_decimal hc)⟩

/-- White space stops the digits. -/
theorem IsGap.stops_isDigit {gap : Text} (h : IsGap gap) (rest : Text) :
    Stops isDigit (gap ++ rest) := by
  intro c hc
  obtain ⟨d, gap', rfl⟩ := List.exists_cons_of_ne_nil h.ne_nil
  obtain rfl : d = c := Option.some.inj hc
  have hspace := h.spaces d List.mem_cons_self
  rw [← Bool.not_eq_true]
  intro hdigit
  cases (isSpace_of_isDigit hdigit).symm.trans hspace

theorem stops_nil (p : UInt8 → Bool) : Stops p [] := nofun

theorem stops_cons {p : UInt8 → Bool} {c : UInt8} (hc : p c = false)
    (rest : Text) : Stops p (c :: rest) := by
  intro d hd
  obtain rfl : c = d := Option.some.inj hd
  exact hc

/-! ## Reading numbers -/

theorem scanNumeral_decimal {spaces rest : Text} (n : ℕ)
    (hspaces : ∀ c ∈ spaces, isSpace c = true)
    (hrest : Stops isDigit rest) :
    scanNumeral (spaces ++ (decimal n ++ rest)) = some ⟨false, n, rest⟩ := by
  rw [scanNumeral_eq_some_iff]
  exact ⟨spaces, .absent, decimal n ++ rest, decimal n, rfl, hspaces,
    ⟨rfl, fun _ hc => isDigit_of_mem_decimal hc, hrest⟩, decimal_ne_nil n,
    rfl, (ofDigits_decimal n).symm⟩

namespace IStringStream

section

variable {spaces rest : Text} {n : ℕ}
  (hspaces : ∀ c ∈ spaces, isSpace c = true) (hrest : Stops isDigit rest)

include hspaces hrest

theorem readUInt64_decimal (hn : n < 2 ^ 64) :
    readUInt64 { rest := spaces ++ (decimal n ++ rest) } =
      (UInt64.ofNat n, { rest := rest }) := by
  simp only [readUInt64, Bool.false_eq_true, if_false,
    scanNumeral_decimal n hspaces hrest, if_neg (not_le.mpr hn)]
  rfl

theorem readSigned_decimal {w : ℕ} (hn : n < 2 ^ (w - 1)) :
    readSigned w { rest := spaces ++ (decimal n ++ rest) } =
      ((n : ℤ), { rest := rest }) := by
  have hpow : ((2 ^ (w - 1) : ℕ) : ℤ) = 2 ^ (w - 1) := by push_cast; rfl
  have hvalue : (⟨false, n, rest⟩ : Numeral).toInt = n := rfl
  have hlow : ¬ (n : ℤ) < -2 ^ (w - 1) := by omega
  have hhigh : ¬ (2 : ℤ) ^ (w - 1) ≤ n := by omega
  simp only [readSigned, Bool.false_eq_true, if_false,
    scanNumeral_decimal n hspaces hrest, hvalue, if_neg hlow, if_neg hhigh]

end

/-! ## Reading words -/

theorem readWord_word {spaces word rest : Text}
    (hspaces : ∀ c ∈ spaces, isSpace c = true) (hword : IsWord word)
    (hrest : Stops (fun c => !isSpace c) rest) :
    readWord { rest := spaces ++ (word ++ rest) } =
      (word, { rest := rest }) := by
  obtain ⟨c, word', rfl⟩ := List.exists_cons_of_ne_nil hword.ne_nil
  have hc : isSpace c = false := hword.visible c List.mem_cons_self
  have hdrop : (spaces ++ (c :: word' ++ rest)).dropWhile isSpace =
      c :: word' ++ rest := by
    rw [List.dropWhile_append_of_pos hspaces, List.cons_append,
      List.dropWhile_cons, hc]
    rfl
  have hcut : Cut (fun c => !isSpace c) (c :: word' ++ rest) (c :: word')
      rest := by
    refine ⟨rfl, fun d hd => ?_, hrest⟩
    rw [hword.visible d hd]
    rfl
  obtain ⟨htake, hleft⟩ := cut_iff.mp hcut
  simp only [readWord, hdrop, htake, hleft]
  rfl

end IStringStream

theorem IsGap.stops_word {gap : Text} (h : IsGap gap) (rest : Text) :
    Stops (fun c => !isSpace c) (gap ++ rest) := by
  intro c hc
  obtain ⟨d, gap', rfl⟩ := List.exists_cons_of_ne_nil h.ne_nil
  obtain rfl : d = c := Option.some.inj hc
  show (!isSpace d) = false
  rw [h.spaces d List.mem_cons_self]
  rfl

/-! ## Fields -/

/-- The fields of a line, the field `i` after the white space `gap i`, and
what follows the last one. -/
def fields (gap : ℕ → Text) : ℕ → List Text → Text → Text
  | _, [], rest => rest
  | i, field :: more, rest => gap i ++ (field ++ fields gap (i + 1) more rest)

/-- White space in front of each field, and between any two. -/
structure IsLayout (gap : ℕ → Text) : Prop where
  spaces : ∀ i, ∀ c ∈ gap i, isSpace c = true ∧ c ≠ 0x0a
  ne_nil : ∀ i, 0 < i → gap i ≠ []

theorem IsLayout.isGap {gap : ℕ → Text} (h : IsLayout gap) {i : ℕ}
    (hi : 0 < i) : IsGap (gap i) :=
  ⟨h.ne_nil i hi, fun c hc => (h.spaces i c hc).1⟩

/-- Digits stop at the next field. -/
theorem IsLayout.stops_isDigit {gap : ℕ → Text} (h : IsLayout gap) {i : ℕ}
    (hi : 0 < i) (more : List Text) {rest : Text}
    (hrest : Stops isDigit rest) : Stops isDigit (fields gap i more rest) := by
  cases more with
  | nil => exact hrest
  | cons field more => exact (h.isGap hi).stops_isDigit _

/-- So does a word. -/
theorem IsLayout.stops_word {gap : ℕ → Text} (h : IsLayout gap) {i : ℕ}
    (hi : 0 < i) (more : List Text) {rest : Text}
    (hrest : Stops (fun c => !isSpace c) rest) :
    Stops (fun c => !isSpace c) (fields gap i more rest) := by
  cases more with
  | nil => exact hrest
  | cons field more => exact (h.isGap hi).stops_word _

namespace IStringStream

section

variable {gap : ℕ → Text} {rest : Text} (h : IsLayout gap)

include h

theorem readWord_fields {word : Text} (hword : IsWord word) (i : ℕ)
    (more : List Text) (hrest : Stops (fun c => !isSpace c) rest) :
    readWord { rest := fields gap i (word :: more) rest } =
      (word, { rest := fields gap (i + 1) more rest }) :=
  readWord_word (fun c hc => (h.spaces i c hc).1) hword
    (h.stops_word (Nat.succ_pos i) more hrest)

variable (hrest : Stops isDigit rest)

include hrest

theorem readUInt64_fields (n : UInt64) (i : ℕ) (more : List Text) :
    readUInt64 { rest := fields gap i (decimal n.toNat :: more) rest } =
      (n, { rest := fields gap (i + 1) more rest }) := by
  have hread := readUInt64_decimal (n := n.toNat)
    (fun c hc => (h.spaces i c hc).1)
    (h.stops_isDigit (Nat.succ_pos i) more hrest) (UInt64.toNat_lt n)
  rw [UInt64.ofNat_toNat] at hread
  exact hread

theorem readSigned_fields {w n : ℕ} (hn : n < 2 ^ (w - 1)) (i : ℕ)
    (more : List Text) :
    readSigned w { rest := fields gap i (decimal n :: more) rest } =
      ((n : ℤ), { rest := fields gap (i + 1) more rest }) :=
  readSigned_decimal (fun c hc => (h.spaces i c hc).1)
    (h.stops_isDigit (Nat.succ_pos i) more hrest) hn

end

end IStringStream

theorem newline_notMem_fields {gap : ℕ → Text} (h : IsLayout gap)
    {more : List Text} {rest : Text} (hmore : ∀ field ∈ more, IsWord field)
    (hrest : (0x0a : UInt8) ∉ rest) (i : ℕ) :
    (0x0a : UInt8) ∉ fields gap i more rest := by
  induction more generalizing i with
  | nil => exact hrest
  | cons field more ih =>
      have hfield : (0x0a : UInt8) ∉ field := fun hmem => by
        have hvisible :=
          (hmore field List.mem_cons_self).visible (0x0a : UInt8) hmem
        exact absurd hvisible (by decide)
      simp only [fields, List.mem_append, not_or]
      exact ⟨fun hmem => (h.spaces i _ hmem).2 rfl, hfield,
        ih (fun f hf => hmore f (List.mem_cons_of_mem field hf)) (i + 1)⟩

/-! ## Lines -/

theorem lines_append {row : Text} (hrow : 0x0a ∉ row) (text : Text) :
    lines (row ++ 0x0a :: text) = row :: lines text := by
  induction row with
  | nil => simp [lines]
  | cons c row ih =>
      obtain ⟨hc, hrest⟩ := not_or.mp fun h => hrow (List.mem_cons.mpr h)
      rw [List.cons_append, lines, if_neg (Ne.symm hc), ih hrest]

/-- The lines of a text are the rows it was made of. -/
theorem lines_unlines {rows : List Text}
    (hrows : ∀ row ∈ rows, (0x0a : UInt8) ∉ row) :
    lines (unlines rows) = rows := by
  induction rows with
  | nil => rfl
  | cons row rows ih =>
      have hrow := hrows row List.mem_cons_self
      have hsplit : unlines (row :: rows) = row ++ 0x0a :: unlines rows := by
        simp [unlines]
      rw [hsplit, lines_append hrow,
        ih fun row' h => hrows row' (List.mem_cons_of_mem row h)]

end Yacul.Scanning
