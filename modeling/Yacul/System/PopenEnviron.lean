import Yacul.Support.Overrides
import Mathlib.Data.List.Basic

/-!
# The environment of the child

`BuildEnvp` puts each entry of `extra_env` in the place of the first entry that
begins with its key and an equals sign, or at the end.  So an entry found from
the front is the last one that was added, or else the first inherited one.
-/

namespace Yacul
namespace PopenWrapper

/-- The options that `BuildEnvp` reads. -/
structure EnvOptions where
  extraEnv : List (List UInt8) := []
  replaceEnv : Bool := false
deriving DecidableEq, Repr

def equalsSign : UInt8 := 0x3d

/-- `string_view(s).substr(0, key.size()) == key`. -/
def startsWith (s key : List UInt8) : Bool :=
  s.take key.length = key

/-- The loop body of `BuildEnvp`. -/
def setEnv (env : List (List UInt8)) (kv : List UInt8) : List (List UInt8) :=
  match kv.idxOf? equalsSign with
  | some eq =>
      let key := kv.take (eq + 1)
      match env.findIdx? fun s => startsWith s key with
      | some i => env.set i kv
      | none => env ++ [kv]
  | none => env ++ [kv]

/-- `PopenWrapper::BuildEnvp`. -/
def buildEnvp (opts : EnvOptions) (environ : List (List UInt8)) :
    List (List UInt8) :=
  if opts.extraEnv = [] ∧ opts.replaceEnv = false then []
  else opts.extraEnv.foldl setEnv (if opts.replaceEnv then [] else environ)

/-- The environment that `ForkExec` executes the child with. -/
def childEnv (opts : EnvOptions) (environ : List (List UInt8)) :
    List (List UInt8) :=
  if opts.replaceEnv || opts.extraEnv ≠ [] then buildEnvp opts environ
  else environ

/-- `getenv`: the first entry for a key. -/
def firstEntry (env : List (List UInt8)) (k : List UInt8) :
    Option (List UInt8) :=
  env.find? fun s => startsWith s (k ++ [equalsSign])

/-- The last entry for a key. -/
def lastEntry (env : List (List UInt8)) (k : List UInt8) :
    Option (List UInt8) :=
  (env.filter fun s => startsWith s (k ++ [equalsSign])).getLast?

/-- What stands before the first equals sign. -/
def entryKey (s : List UInt8) : Option (List UInt8) :=
  (s.idxOf? equalsSign).map s.take

/-! ## Keys -/

section

variable {s k kv : List UInt8}

theorem startsWith_iff : startsWith s k = true ↔ k <+: s := by
  rw [startsWith, decide_eq_true_iff, List.prefix_iff_eq_take]
  exact eq_comm

theorem entryKey_cons (b : UInt8) (s : List UInt8) :
    entryKey (b :: s) =
      if b = equalsSign then some [] else (entryKey s).map (b :: ·) := by
  rw [entryKey, List.idxOf?_cons]
  by_cases hb : b = equalsSign
  · simp [hb]
  · cases hs : s.idxOf? equalsSign <;> simp [hb, hs, entryKey]

/-- An entry begins with a key and an equals sign if it is an entry for the
key. -/
theorem prefix_iff_entryKey (hk : equalsSign ∉ k) :
    k ++ [equalsSign] <+: s ↔ entryKey s = some k := by
  induction s generalizing k with
  | nil => simp [entryKey]
  | cons b s ih =>
      rw [entryKey_cons]
      cases k with
      | nil =>
          by_cases hb : b = equalsSign
          · simp [hb]
          · have hne : ¬ equalsSign = b := fun h => hb h.symm
            simp [hb, hne]
      | cons c k =>
          obtain ⟨hc, hk⟩ := not_or.mp (List.mem_cons.not.mp hk)
          rw [List.cons_append, List.cons_prefix_cons, ih hk]
          by_cases hb : b = equalsSign
          · rw [if_pos hb]
            constructor
            · rintro ⟨rfl, -⟩
              exact absurd hb.symm hc
            · intro h
              cases h
          · rw [if_neg hb, Option.map_eq_some_iff]
            constructor
            · rintro ⟨rfl, hs⟩
              exact ⟨k, hs, rfl⟩
            · rintro ⟨t, ht, heq⟩
              obtain ⟨rfl, rfl⟩ := List.cons.inj heq
              exact ⟨rfl, ht⟩

theorem startsWith_iff_entryKey (hk : equalsSign ∉ k) :
    startsWith s (k ++ [equalsSign]) = true ↔ entryKey s = some k :=
  startsWith_iff.trans (prefix_iff_entryKey hk)

theorem startsWith_eq_decide (hk : equalsSign ∉ k) :
    (fun s => startsWith s (k ++ [equalsSign])) =
      fun s => decide (entryKey s = some k) := by
  funext s
  rw [Bool.eq_iff_iff, decide_eq_true_iff]
  exact startsWith_iff_entryKey hk

/-- The loop of `BuildEnvp` assigns the entries one after the other. -/
theorem setEnv_eq_assign (env : List (List UInt8)) (kv : List UInt8) :
    setEnv env kv = Overrides.assign entryKey env kv := by
  unfold setEnv Overrides.assign
  cases heq : kv.idxOf? equalsSign with
  | none => simp [entryKey, heq]
  | some eq =>
      obtain ⟨hlt, hsign, hbefore⟩ := List.idxOf?_eq_some_iff.mp heq
      have hkey : kv.take (eq + 1) = kv.take eq ++ [equalsSign] := by
        rw [List.take_succ_eq_append_getElem hlt, hsign]
      have hk : equalsSign ∉ kv.take eq := by
        intro hmem
        obtain ⟨j, hj, hget⟩ := List.getElem_of_mem hmem
        rw [List.length_take] at hj
        rw [List.getElem_take] at hget
        exact hbefore j (by omega) hget
      have hentry : entryKey kv = some (kv.take eq) := by
        rw [entryKey, heq, Option.map_some]
      cases hfind : env.findIdx? fun s =>
          decide (entryKey s = some (kv.take eq)) with
      | none =>
          simp only [hentry, hkey, startsWith_eq_decide hk, hfind]
      | some i =>
          simp only [hentry, hkey, startsWith_eq_decide hk, hfind]

theorem foldl_setEnv (extra env : List (List UInt8)) :
    extra.foldl setEnv env = extra.foldl (Overrides.assign entryKey) env := by
  congr
  funext env kv
  exact setEnv_eq_assign env kv

/-- Looked up from the front, a key has its last entry of `extra_env`, or else
its first inherited one, if there is an inherited environment. -/
theorem firstEntry_childEnv (opts : EnvOptions) (environ : List (List UInt8))
    (hk : equalsSign ∉ k) :
    firstEntry (childEnv opts environ) k =
      (lastEntry opts.extraEnv k).or
        (if opts.replaceEnv then none else firstEntry environ k) := by
  have hlast : lastEntry opts.extraEnv k =
      (opts.extraEnv.filter fun s => entryKey s = some k).getLast? := by
    rw [lastEntry, startsWith_eq_decide hk]
  have hfirst : ∀ env, firstEntry env k = Overrides.lookup entryKey env k := by
    intro env
    rw [firstEntry, startsWith_eq_decide hk, Overrides.lookup]
  by_cases hcustom : opts.extraEnv = [] ∧ opts.replaceEnv = false
  · obtain ⟨hextra, hreplace⟩ := hcustom
    simp [childEnv, hextra, hreplace, lastEntry]
  · have hbuild : childEnv opts environ =
        opts.extraEnv.foldl setEnv
          (if opts.replaceEnv then [] else environ) := by
      have huse : (opts.replaceEnv || decide (opts.extraEnv ≠ [])) = true := by
        cases hreplace : opts.replaceEnv with
        | true => rfl
        | false =>
            have hne : opts.extraEnv ≠ [] := fun h => hcustom ⟨h, hreplace⟩
            simp [hne]
      rw [childEnv, if_pos huse, buildEnvp, if_neg hcustom]
    rw [hbuild, foldl_setEnv, hfirst, Overrides.lookup_foldl_assign, hlast,
      hfirst]
    cases opts.replaceEnv <;> rfl

end

/-- The second entry for `A` counts, that for `AB` is another one, and the
inherited one stays where it was. -/
theorem firstEntry_childEnv_replaced :
    firstEntry
      (childEnv
        { extraEnv := [[0x41, 0x3d, 0x31], [0x41, 0x42, 0x3d],
            [0x41, 0x3d, 0x32]] }
        [[0x41, 0x3d, 0x30]]) [0x41] = some [0x41, 0x3d, 0x32] :=
  (firstEntry_childEnv _ _ (by decide)).trans (by decide)

end PopenWrapper
end Yacul
