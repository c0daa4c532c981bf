import Mathlib.Data.List.Induction
import Mathlib.Data.List.Nodup
import Mathlib.Logic.Function.Basic

/-!
# Records with an index of their keys

Records are kept in a list in the order in which their keys first came up, and
an index says where the record of a key is.  A change of the record of a key
goes through the index; the first one adds the record.  After any sequence of
changes there is one record for each key that came up, and it has undergone
the changes for its key in their order.
-/

namespace Yacul.Keyed

variable {α κ : Type*} [DecidableEq κ]

/-! ## Keys -/

/-- A key that is not there yet is added at the end. -/
def insertNew (ks : List κ) (k : κ) : List κ :=
  if k ∈ ks then ks else ks ++ [k]

/-- The keys, each where it first comes up. -/
def distinct (ks : List κ) : List κ :=
  ks.foldl insertNew []

theorem mem_insertNew {ks : List κ} {k k' : κ} :
    k' ∈ insertNew ks k ↔ k' ∈ ks ∨ k' = k := by
  unfold insertNew
  split
  · next hk => exact ⟨.inl, Or.rec id fun h => h ▸ hk⟩
  · rw [List.mem_append, List.mem_singleton]

theorem nodup_insertNew {ks : List κ} (h : ks.Nodup) (k : κ) :
    (insertNew ks k).Nodup := by
  unfold insertNew
  split
  · exact h
  · next hk =>
      refine List.nodup_append.mpr ⟨h, List.nodup_singleton k, ?_⟩
      intro k₁ hk₁ k₂ hk₂ heq
      rw [List.mem_singleton] at hk₂
      exact hk (hk₂ ▸ heq ▸ hk₁)

theorem mem_foldl_insertNew {ks new : List κ} {k : κ} :
    k ∈ new.foldl insertNew ks ↔ k ∈ ks ∨ k ∈ new := by
  induction new generalizing ks with
  | nil => simp
  | cons k' new ih =>
      rw [List.foldl_cons, ih, mem_insertNew, List.mem_cons, or_assoc]

theorem nodup_foldl_insertNew {ks : List κ} (h : ks.Nodup) (new : List κ) :
    (new.foldl insertNew ks).Nodup := by
  induction new generalizing ks with
  | nil => exact h
  | cons k new ih => exact ih (nodup_insertNew h k)

theorem mem_distinct {ks : List κ} {k : κ} : k ∈ distinct ks ↔ k ∈ ks := by
  rw [distinct, mem_foldl_insertNew]
  simp

theorem nodup_distinct (ks : List κ) : (distinct ks).Nodup :=
  nodup_foldl_insertNew List.nodup_nil ks

theorem distinct_append (ks new : List κ) :
    distinct (ks ++ new) = new.foldl insertNew (distinct ks) :=
  List.foldl_append

/-- Where a new key stands. -/
theorem getElem?_append_new {ks : List κ} {k : κ} (hk : k ∉ ks) (k' : κ)
    (i : ℕ) :
    (ks ++ [k])[i]? = some k' ↔
      if k' = k then i = ks.length else ks[i]? = some k' := by
  obtain hlt | rfl | hgt := Nat.lt_trichotomy i ks.length
  · rw [List.getElem?_append_left hlt]
    split
    · next hk' =>
        refine ⟨fun hi => ?_, fun hi => absurd hi (Nat.ne_of_lt hlt)⟩
        exact absurd (List.mem_of_getElem? (hk' ▸ hi)) hk
    · exact Iff.rfl
  · rw [List.getElem?_concat_length, Option.some.injEq]
    split
    · next hk' => exact ⟨fun _ => rfl, fun _ => hk'.symm⟩
    · next hk' =>
        rw [List.getElem?_eq_none (Nat.le_refl _)]
        exact ⟨fun heq => absurd heq.symm hk', fun heq => nomatch heq⟩
  · rw [List.getElem?_eq_none (by simpa using Nat.succ_le_of_lt hgt)]
    split
    · exact ⟨fun heq => (Option.some_ne_none _ heq.symm).elim,
        fun heq => absurd heq (Nat.ne_of_gt hgt)⟩
    · rw [List.getElem?_eq_none (Nat.le_of_lt hgt)]

/-! ## Records -/

/-- The records, and where the record of a key is. -/
structure Indexed (α κ : Type*) where
  records : List α
  index : κ → Option ℕ

variable (fresh : κ → α)

/-- Change the record of a key. -/
def Indexed.change (s : Indexed α κ) (k : κ) (f : α → α) : Indexed α κ :=
  match s.index k with
  | some i => { s with records := s.records.modify i f }
  | none =>
      { records := s.records ++ [f (fresh k)]
        index := Function.update s.index k (some s.records.length) }

/-- The index of a list of records. -/
def indexOf (key : α → κ) (records : List α) : κ → Option ℕ :=
  records.zipIdx.foldl (fun idx x => Function.update idx (key x.1) (some x.2))
    fun _ => none

/-- The index finds the keys, and the record of a key is `record` of it. -/
structure Indexed.Holds (s : Indexed α κ) (ks : List κ) (record : κ → α) :
    Prop where
  records : s.records = ks.map record
  index : ∀ k i, s.index k = some i ↔ ks[i]? = some k
  fresh : ∀ k, k ∉ ks → record k = fresh k

variable {fresh} {s : Indexed α κ} {ks : List κ} {record : κ → α}

theorem Indexed.Holds.record_insertNew (h : s.Holds fresh ks record) (k : κ)
    (f : α → α) {k' : κ} (hk' : k' ∉ insertNew ks k) :
    Function.update record k (f (record k)) k' = fresh k' := by
  obtain ⟨hold, hne⟩ := not_or.mp (mem_insertNew.not.mp hk')
  rw [Function.update_of_ne hne, h.fresh k' hold]

/-- The record of a key that is there changes where it is. -/
theorem Indexed.Holds.change_old (h : s.Holds fresh ks record) {k : κ} {i : ℕ}
    (hidx : s.index k = some i) (f : α → α) :
    (s.change fresh k f).Holds fresh (insertNew ks k)
      (Function.update record k (f (record k))) := by
  have hi := (h.index k i).mp hidx
  have hins : insertNew ks k = ks := if_pos (List.mem_of_getElem? hi)
  have hchange : s.change fresh k f =
      { s with records := s.records.modify i f } := by
    rw [Indexed.change, hidx]
  refine ⟨?_, ?_, fun _ => h.record_insertNew k f⟩
  · rw [hchange, hins, h.records]
    apply List.ext_getElem?
    intro j
    rw [List.getElem?_modify, List.getElem?_map, List.getElem?_map]
    cases hj : ks[j]? with
    | none => simp
    | some k' =>
        by_cases hij : i = j
        · subst hij
          obtain rfl : k = k' := Option.some.inj (hi.symm.trans hj)
          simp
        · have hne : k' ≠ k := by
            rintro rfl
            have hsame := (h.index k' j).mpr hj
            rw [hidx] at hsame
            exact hij (Option.some.inj hsame)
          simp [hij, Function.update_of_ne hne]
  · rw [hchange, hins]
    exact h.index

/-- The record of a new key is added. -/
theorem Indexed.Holds.change_new (h : s.Holds fresh ks record) {k : κ}
    (hidx : s.index k = none) (f : α → α) :
    (s.change fresh k f).Holds fresh (insertNew ks k)
      (Function.update record k (f (record k))) := by
  have hk : k ∉ ks := by
    intro hmem
    obtain ⟨i, hi⟩ := List.mem_iff_getElem?.mp hmem
    rw [(h.index k i).mpr hi] at hidx
    cases hidx
  have hins : insertNew ks k = ks ++ [k] := if_neg hk
  have hchange : s.change fresh k f =
      { records := s.records ++ [f (fresh k)]
        index := Function.update s.index k (some ks.length) } := by
    rw [Indexed.change, hidx, h.records, List.length_map]
  refine ⟨?_, fun k' i => ?_, fun _ => h.record_insertNew k f⟩
  · rw [hchange, hins, List.map_append, h.records, ← h.fresh k hk]
    have hold : ks.map (Function.update record k (f (record k))) =
        ks.map record :=
      List.map_congr_left fun k' hk' =>
        Function.update_of_ne (fun heq : k' = k => hk (heq ▸ hk')) _ _
    rw [hold, List.map_singleton, Function.update_self]
  · rw [hchange, hins, getElem?_append_new hk]
    show Function.update s.index k (some ks.length) k' = some i ↔ _
    by_cases hk' : k' = k
    · rw [hk', Function.update_self, if_pos rfl, Option.some.injEq, eq_comm]
    · rw [Function.update_of_ne hk', if_neg hk']
      exact h.index k' i

/-- One change. -/
theorem Indexed.Holds.change (h : s.Holds fresh ks record) (k : κ)
    (f : α → α) :
    (s.change fresh k f).Holds fresh (insertNew ks k)
      (Function.update record k (f (record k))) := by
  cases hidx : s.index k with
  | some i => exact h.change_old hidx f
  | none => exact h.change_new hidx f

/-- Any sequence of changes. -/
theorem Indexed.Holds.changes (h : s.Holds fresh ks record)
    (es : List (κ × (α → α))) :
    (es.foldl (fun s e => s.change fresh e.1 e.2) s).Holds fresh
      ((es.map Prod.fst).foldl insertNew ks)
      (fun k => (es.filter fun e => e.1 = k).foldl (fun x e => e.2 x)
        (record k)) := by
  induction es generalizing s ks record with
  | nil => exact h
  | cons e es ih =>
      have hrest := ih (h.change e.1 e.2)
      rw [List.foldl_cons, List.map_cons, List.foldl_cons]
      convert hrest using 2 with k
      by_cases hk : e.1 = k
      · subst hk
        simp
      · simp [hk, Function.update_of_ne (Ne.symm hk)]

omit [DecidableEq κ] in
theorem holds_empty (fresh : κ → α) :
    Indexed.Holds fresh ⟨[], fun _ => none⟩ [] fresh where
  records := rfl
  index := by simp
  fresh _ _ := rfl

theorem indexOf_append (key : α → κ) (xs : List α) (x : α) :
    indexOf key (xs ++ [x]) =
      Function.update (indexOf key xs) (key x) (some xs.length) := by
  simp [indexOf, List.zipIdx_append]

/-- A list with one record for each key is indexed again. -/
theorem holds_indexOf {key : α → κ} (hks : ks.Nodup)
    (hkey : ∀ k ∈ ks, key (record k) = k)
    (hfresh : ∀ k, k ∉ ks → record k = fresh k) :
    Indexed.Holds fresh ⟨ks.map record, indexOf key (ks.map record)⟩ ks
      record := by
  refine ⟨rfl, fun k i => ?_, hfresh⟩
  clear hfresh
  show indexOf key (ks.map record) k = some i ↔ _
  induction ks using List.reverseRecOn generalizing k i with
  | nil => simp [indexOf]
  | append_singleton ks k₀ ih =>
      obtain ⟨hold, -, hdisjoint⟩ := List.nodup_append.mp hks
      have hk₀ : k₀ ∉ ks := fun hmem =>
        hdisjoint k₀ hmem k₀ List.mem_cons_self rfl
      have hih := ih hold (fun k hk => hkey k (List.mem_append_left _ hk)) k i
      rw [List.map_append, List.map_singleton, indexOf_append,
        hkey k₀ (List.mem_append_right _ List.mem_cons_self), List.length_map,
        getElem?_append_new hk₀]
      by_cases hk : k = k₀
      · rw [hk, Function.update_self, if_pos rfl, Option.some.injEq, eq_comm]
      · rw [Function.update_of_ne hk, if_neg hk]
        exact hih

end Yacul.Keyed
