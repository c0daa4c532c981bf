import Yacul.Support.ShellWords
import Mathlib.Data.List.TakeWhile

/-!
# Shell commands from argument vectors

`BuildShellCommand` escapes every argument and joins them with blanks.  The
shell gets the result as a C string and reads the arguments back, byte for
byte, all of them inside quotes.
-/

namespace Yacul
namespace System

open ShellWords (Quotes)

/-! ## The escaping functions -/

def apostrophe : UInt8 := 0x27

def quotationMark : UInt8 := 0x22

def blank : UInt8 := 0x20

/-- `PopenWrapper::ShellEscape`. -/
def shellEscape (token : List UInt8) : List UInt8 :=
  token.foldl (fun result c =>
      if c = apostrophe then
        result ++
          [apostrophe, quotationMark, apostrophe, quotationMark, apostrophe]
      else result ++ [c])
    [apostrophe] ++ [apostrophe]

/-- `PopenWrapper::BuildShellCommand`. -/
def buildShellCommand (argv : List (List UInt8)) : List UInt8 :=
  argv.zipIdx.foldl (fun cmd arg =>
      (if 0 < arg.2 then cmd ++ [blank] else cmd) ++ shellEscape arg.1)
    []

/-! ## The shell -/

/-- The quotes and blanks of a POSIX shell; dollar sign, backquote and
backslash stay active between double quotes. -/
def posixQuotes : Quotes UInt8 where
  single := apostrophe
  double := quotationMark
  blank c := c = blank || c = 0x09
  active c := c = 0x24 || c = 0x60 || c = 0x5C
  single_ne_double := by decide
  active_single := by decide
  blank_single := by decide
  blank_double := by decide

/-- What is read of a C string. -/
def cString (bytes : List UInt8) : List UInt8 := bytes.takeWhile (· ≠ 0)

/-- The words the shell reads in a command: their bytes, each with whether it
stood inside quotes. -/
def shellWords (command : List UInt8) : Option (List (List (UInt8 × Bool))) :=
  ShellWords.split posixQuotes (cString command)

section Roundtrip

variable {token : List UInt8} {argv : List (List UInt8)}

theorem shellEscape_eq (token : List UInt8) :
    shellEscape token = posixQuotes.quote token := by
  have hloop : ∀ result : List UInt8, token.foldl (fun result c =>
      if c = apostrophe then
        result ++
          [apostrophe, quotationMark, apostrophe, quotationMark, apostrophe]
      else result ++ [c]) result =
        result ++ token.flatMap posixQuotes.inside := by
    induction token with
    | nil => simp
    | cons c token ih =>
        intro result
        rw [List.foldl_cons, ih, List.flatMap_cons, ← List.append_assoc]
        congr 1
        by_cases hc : c = apostrophe
        · simp [hc, Quotes.inside, posixQuotes]
        · simp [hc, Quotes.inside, posixQuotes]
  rw [shellEscape, hloop]
  rfl

/-- From the second argument on there is a blank in front of each. -/
theorem foldl_shellEscape (argv : List (List UInt8)) (k : ℕ)
    (cmd token : List UInt8) :
    (argv.zipIdx (k + 1)).foldl (fun cmd arg =>
        (if 0 < arg.2 then cmd ++ [blank] else cmd) ++ shellEscape arg.1)
        (cmd ++ posixQuotes.quote token) =
      cmd ++ [blank].intercalate ((token :: argv).map posixQuotes.quote) := by
  induction argv generalizing k cmd token with
  | nil => simp
  | cons next argv ih =>
      rw [List.zipIdx_cons, List.foldl_cons]
      dsimp only
      rw [if_pos (Nat.succ_pos k), shellEscape_eq, ih, List.map_cons,
        List.map_cons, List.map_cons, List.intercalate_cons_cons]
      simp only [List.append_assoc]

theorem buildShellCommand_eq (argv : List (List UInt8)) :
    buildShellCommand argv =
      [blank].intercalate (argv.map posixQuotes.quote) := by
  cases argv with
  | nil => rfl
  | cons token argv =>
      rw [buildShellCommand, List.zipIdx_cons, List.foldl_cons]
      dsimp only
      rw [if_neg (Nat.lt_irrefl 0), shellEscape_eq]
      exact foldl_shellEscape argv 0 [] token

/-- A command made of tokens without NUL has none. -/
theorem cString_buildShellCommand (h : ∀ token ∈ argv, 0 ∉ token) :
    cString (buildShellCommand argv) = buildShellCommand argv := by
  rw [cString, List.takeWhile_eq_self_iff]
  intro c hc
  rw [decide_eq_true_eq]
  rintro rfl
  rw [buildShellCommand_eq] at hc
  rcases ShellWords.mem_intercalate_quote hc with
    ⟨token, htoken, hzero⟩ | hzero | hzero | hzero
  · exact h token htoken hzero
  all_goals exact absurd hzero (by decide)

/-- Escaping is undone by the shell: it reads the tokens back, byte for byte,
and sees none of their bytes outside quotes. -/
theorem shellWords_buildShellCommand (h : ∀ token ∈ argv, 0 ∉ token) :
    ∃ words, shellWords (buildShellCommand argv) = some words ∧
      words.map (fun word => word.map Prod.fst) = argv ∧
      ∀ word ∈ words, ∀ byte ∈ word, byte.2 = true := by
  refine ⟨argv.map ShellWords.quoted, ?_, ?_, ?_⟩
  · rw [shellWords, cString_buildShellCommand h, buildShellCommand_eq,
      ShellWords.split_intercalate (by decide)]
  · simp [Function.comp_def, ShellWords.map_fst_quoted]
  · intro word hword byte hbyte
    obtain ⟨token, -, rfl⟩ := List.mem_map.mp hword
    obtain ⟨c, -, rfl⟩ := List.mem_map.mp hbyte
    rfl

end Roundtrip

/-- An apostrophe, a dollar sign and an empty token. -/
theorem shellWords_buildShellCommand_apostrophe :
    ∃ words, shellWords (buildShellCommand [[0x27, 0x24], []]) =
        some words ∧
      words.map (fun word => word.map Prod.fst) = [[0x27, 0x24], []] ∧
      ∀ word ∈ words, ∀ byte ∈ word, byte.2 = true :=
  shellWords_buildShellCommand (by decide)

end System
end Yacul
