import Mathlib.Data.List.Basic

/-!
# Words of a shell command

A shell cuts a command into words at blanks.  Between single quotes every
character stands for itself; between double quotes so does every character
but a few that stay active.  The quotes themselves are removed.  What a bare
character means to the shell is not modelled: it is only recorded as bare.
-/

namespace Yacul.ShellWords

variable {α : Type*}

/-- The characters that matter for quoting. -/
structure Quotes (α : Type*) where
  single : α
  double : α
  blank : α → Bool
  /-- The characters that double quotes do not protect. -/
  active : α → Bool
  single_ne_double : single ≠ double
  active_single : active single = false
  blank_single : blank single = false
  blank_double : blank double = false

/-- Where a scanner is. -/
inductive Mode
  | bare
  | single
  | double
deriving DecidableEq, Repr

/-- The characters of a word, each with whether it stood inside quotes. -/
abbrev Word (α : Type*) := List (α × Bool)

/-- Every character is inside quotes. -/
def quoted (token : List α) : Word α := token.map fun c => (c, true)

theorem map_fst_quoted (token : List α) :
    (quoted token).map Prod.fst = token := by
  simp [quoted, Function.comp_def]

/-- The words read so far, and the one being read, if any. -/
structure Scanner (α : Type*) where
  words : List (Word α) := []
  word : Option (Word α) := none
  mode : Mode := .bare
deriving DecidableEq, Repr

namespace Scanner

/-- The part of the present word that has been read. -/
def text (s : Scanner α) : Word α := s.word.getD []

/-- The present word goes on in another mode. -/
def enter (s : Scanner α) (mode : Mode) : Scanner α :=
  { s with word := some s.text, mode := mode }

def push (s : Scanner α) (c : α) (quoted : Bool) : Scanner α :=
  { s with word := some (s.text ++ [(c, quoted)]) }

/-- The present word ends. -/
def close (s : Scanner α) : Scanner α :=
  { s with words := s.words ++ s.word.toList, word := none }

variable [DecidableEq α]

/-- One character; `none` if the shell does more with it than read words. -/
def step (q : Quotes α) (s : Scanner α) (c : α) : Option (Scanner α) :=
  match s.mode with
  | .bare =>
      if c = q.single then some (s.enter .single)
      else if c = q.double then some (s.enter .double)
      else if q.blank c then some s.close
      else some (s.push c false)
  | .single =>
      if c = q.single then some (s.enter .bare) else some (s.push c true)
  | .double =>
      if c = q.double then some (s.enter .bare)
      else if q.active c then none
      else some (s.push c true)

/-- A string of characters. -/
def scan (q : Quotes α) (s : Scanner α) (input : List α) :
    Option (Scanner α) :=
  input.foldlM (step q) s

end Scanner

open Scanner

variable [DecidableEq α]

/-- The words of a command, if all its quotes are closed. -/
def split (q : Quotes α) (input : List α) : Option (List (Word α)) :=
  (scan q {} input).bind fun s =>
    if s.mode = .bare then some s.close.words else none

/-! ## Quoting -/

/-- What stands for a character between single quotes.  A single quote leaves
them and comes back by way of double quotes. -/
def Quotes.inside (q : Quotes α) (c : α) : List α :=
  if c = q.single then [q.single, q.double, q.single, q.double, q.single]
  else [c]

/-- A token between single quotes. -/
def Quotes.quote (q : Quotes α) (token : List α) : List α :=
  q.single :: token.flatMap q.inside ++ [q.single]

section Quoting

variable {q : Quotes α} {s : Scanner α} {xs ys : List α} {c space : α}

theorem scan_append :
    scan q s (xs ++ ys) = (scan q s xs).bind fun s => scan q s ys :=
  List.foldlM_append

theorem scan_singleton : scan q s [c] = step q s c := by
  simp [scan]

theorem mem_quote {token : List α} (h : c ∈ q.quote token) :
    c ∈ token ∨ c = q.single ∨ c = q.double := by
  simp only [Quotes.quote, List.cons_append, List.mem_cons, List.mem_append,
    List.mem_flatMap, List.not_mem_nil, or_false] at h
  rcases h with h | ⟨d, hd, hinside⟩ | h
  · exact Or.inr (Or.inl h)
  · unfold Quotes.inside at hinside
    split at hinside
    · simp only [List.mem_cons, List.not_mem_nil, or_false] at hinside
      tauto
    · exact Or.inl (List.mem_singleton.mp hinside ▸ hd)
  · exact Or.inr (Or.inl h)

/-- A joined command has the characters of its tokens, quotes and blanks. -/
theorem mem_intercalate_quote {argv : List (List α)}
    (h : c ∈ [space].intercalate (argv.map q.quote)) :
    (∃ token ∈ argv, c ∈ token) ∨ c = q.single ∨ c = q.double ∨
      c = space := by
  induction argv with
  | nil => cases h
  | cons token argv ih =>
      have hhead : c ∈ q.quote token →
          (∃ t ∈ token :: argv, c ∈ t) ∨ c = q.single ∨ c = q.double ∨
            c = space := by
        intro hc
        rcases mem_quote hc with hc | hc | hc
        · exact Or.inl ⟨token, List.mem_cons_self, hc⟩
        · exact Or.inr (Or.inl hc)
        · exact Or.inr (Or.inr (Or.inl hc))
      cases argv with
      | nil =>
          rw [List.map_singleton, List.intercalate_singleton] at h
          exact hhead h
      | cons next argv =>
          rw [List.map_cons, List.map_cons, List.intercalate_cons_cons,
            List.mem_append, List.mem_append, List.mem_singleton] at h
          rcases h with (h | h) | h
          · exact hhead h
          · exact Or.inr (Or.inr (Or.inr h))
          · rcases ih h with ⟨t, ht, hc⟩ | hquote
            · exact Or.inl ⟨t, List.mem_cons_of_mem _ ht, hc⟩
            · exact Or.inr hquote

/-- Inside single quotes what stands for a character adds that character. -/
theorem scan_inside (hmode : s.mode = .single) (c : α) :
    scan q s (q.inside c) = some (s.push c true) := by
  by_cases hc : c = q.single
  · subst hc
    have hne := q.single_ne_double
    have hactive := q.active_single
    simp [Quotes.inside, scan, step, hmode, enter, push, text, hne,
      hne.symm, hactive]
  · rw [Quotes.inside, if_neg hc, scan_singleton, step, hmode]
    exact if_neg hc

theorem scan_flatMap_inside (words : List (Word α)) (word : Word α)
    (token : List α) :
    scan q ⟨words, some word, .single⟩ (token.flatMap q.inside) =
      some ⟨words, some (word ++ quoted token), .single⟩ := by
  induction token generalizing word with
  | nil => simp [scan, quoted]
  | cons c token ih =>
      rw [List.flatMap_cons, scan_append, scan_inside rfl, Option.bind_some,
        push, text, Option.getD_some, ih]
      simp [quoted]

/-- A quoted token goes on with the present word, or begins a new one, even
when the token is empty. -/
theorem scan_quote (words : List (Word α)) (word : Option (Word α))
    (token : List α) :
    scan q ⟨words, word, .bare⟩ (q.quote token) =
      some ⟨words, some (word.getD [] ++ quoted token), .bare⟩ := by
  have hopen : scan q ⟨words, word, .bare⟩ [q.single] =
      some ⟨words, some (word.getD []), .single⟩ := by
    simp [scan_singleton, step, enter, text]
  have hclose : ∀ w, scan q ⟨words, some w, .single⟩ [q.single] =
      some ⟨words, some w, .bare⟩ := by
    intro w
    simp [scan_singleton, step, enter, text]
  rw [Quotes.quote, ← List.singleton_append, List.append_assoc, scan_append,
    hopen, Option.bind_some, scan_append, scan_flatMap_inside,
    Option.bind_some, hclose]

theorem scan_blank (hblank : q.blank space = true) (words : List (Word α))
    (word : Word α) :
    scan q ⟨words, some word, .bare⟩ [space] =
      some ⟨words ++ [word], none, .bare⟩ := by
  have hsingle : space ≠ q.single := by
    rintro rfl
    simp [q.blank_single] at hblank
  have hdouble : space ≠ q.double := by
    rintro rfl
    simp [q.blank_double] at hblank
  simp [scan_singleton, step, hsingle, hdouble, hblank, close]

/-- Quoted tokens with blanks between them are read one word each. -/
theorem scan_intercalate (hblank : q.blank space = true)
    (words : List (Word α)) (argv : List (List α)) :
    ∃ s, scan q ⟨words, none, .bare⟩
        ([space].intercalate (argv.map q.quote)) = some s ∧
      s.mode = .bare ∧ s.close.words = words ++ argv.map quoted := by
  induction argv generalizing words with
  | nil => exact ⟨_, rfl, rfl, rfl⟩
  | cons token argv ih =>
      cases argv with
      | nil =>
          have hscan := scan_quote (q := q) words none token
          exact ⟨_, by rwa [List.map_singleton, List.intercalate_singleton],
            rfl, rfl⟩
      | cons next argv =>
          obtain ⟨s, hscan, hmode, hwords⟩ := ih (words ++ [quoted token])
          refine ⟨s, ?_, hmode, ?_⟩
          · rw [List.map_cons, List.map_cons, List.intercalate_cons_cons,
              List.append_assoc, scan_append, scan_quote, Option.bind_some,
              scan_append, Option.getD_none, List.nil_append,
              scan_blank hblank, Option.bind_some, ← List.map_cons, hscan]
          · rw [hwords, List.append_assoc]
            rfl

/-- Quoting is undone by splitting, and no character is left bare. -/
theorem split_intercalate (hblank : q.blank space = true)
    (argv : List (List α)) :
    split q ([space].intercalate (argv.map q.quote)) =
      some (argv.map quoted) := by
  obtain ⟨s, hscan, hmode, hwords⟩ := scan_intercalate hblank [] argv
  rw [split, hscan, Option.bind_some, if_pos hmode, hwords, List.nil_append]

end Quoting

end Yacul.ShellWords
