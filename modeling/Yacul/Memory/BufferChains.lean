import Yacul.Memory.CursorReads

/-!
# Destroying a chain

`DestroyChain` saves the successor of a node, makes the node a ring of its own
and deletes it, so the destructor follows no pointer to another node.  The
loop is run with a list of what it does to memory; the list shows that every
node of the ring is deleted once and not touched again, and that the storage
of every node is released once.
-/

namespace Yacul
namespace Memory

/-- A field of a node is read or written, a reference to storage is released,
or a node is deleted. -/
inductive ChainEvent
  | touch (i : ℕ)
  | release (p : ℕ)
  | delete (i : ℕ)
deriving DecidableEq, Repr

/-- The storage a reference to which is released. -/
def ChainEvent.released : ChainEvent → Option ℕ
  | .release p => some p
  | _ => none

/-- The node that is deleted. -/
def ChainEvent.deleted : ChainEvent → Option ℕ
  | .delete i => some i
  | _ => none

/-- What `~Buffer` and the `delete` around it do to a node whose fields are
`b`. -/
def deleteEvents (i : ℕ) (b : Buffer) : List ChainEvent :=
  -- `UnlinkFromRing` reads the node and writes both neighbours.
  [ChainEvent.touch i, .touch b.prev, .touch b.next] ++
    [ChainEvent.touch i] ++ b.physical.toList.map ChainEvent.release ++
      [ChainEvent.delete i]

/-- The loop of `Buffer::DestroyChain`, with the events. -/
def destroyChainLog (s : State) (head : ℕ) :
    ℕ → ℕ → Option (State × List ChainEvent)
  | _, 0 => none
  | cur, fuel + 1 => do
      let b ← s.buf? cur
      let s ← makeSelfRing s cur
      let d ← s.buf? cur
      let s ← destroy s cur
      let events := [.touch cur, .touch cur] ++ deleteEvents cur d
      if b.next = head then some (s, events)
      else
        let (s, rest) ← destroyChainLog s head b.next fuel
        some (s, events ++ rest)

/-- The storage of the node `i`. -/
def storageOf (s : State) (i : ℕ) : Option ℕ :=
  (s.buf? i).bind Buffer.physical

/-- The nodes are gone, each of them has released its storage, and nothing
else has changed. -/
structure ChainGone (s s' : State) (nodes : List ℕ) : Prop where
  gone : ∀ i ∈ nodes, s'.buf? i = none
  others : ∀ i, i ∉ nodes → s'.buf? i = s.buf? i
  storage : ∀ p, s'.phys[p]? = (s.phys[p]?).map
    (PhysicalBuffer.release^[(nodes.filterMap (storageOf s)).count p])
  cursors : s'.cursors = s.cursors

/-- A deleted node is neither touched nor deleted again. -/
def NoUseAfterDelete (log : List ChainEvent) : Prop :=
  log.Pairwise fun e e' => ∀ i, e = .delete i → e' ≠ .touch i ∧ e' ≠ .delete i

section Chains

variable {s s' : State} {head cur i : ℕ} {l nodes : List ℕ} {fuel : ℕ}
  {b : Buffer}

/-! ## One node -/

/-- The state without the node `i`, whose storage is released. -/
def dropNode (s : State) (i : ℕ) (b : Buffer) : State where
  phys := match b.physical with
    | none => s.phys
    | some p => s.phys.modify p PhysicalBuffer.release
  bufs := s.bufs.set i none
  cursors := s.cursors

theorem chainGone_dropNode (hb : s.buf? i = some b) :
    ChainGone s (dropNode s i b) [i] := by
  have hstorage : storageOf s i = b.physical := by
    rw [storageOf, hb, Option.bind_some]
  refine ⟨fun j hj => ?_, fun j hj => ?_, fun p => ?_, rfl⟩
  · rw [List.mem_singleton.mp hj, State.buf?, dropNode,
      List.getElem?_set_self']
    cases s.bufs[i]? <;> rfl
  · rw [List.mem_singleton] at hj
    rw [State.buf?, dropNode, List.getElem?_set_ne (Ne.symm hj), State.buf?]
  · simp only [dropNode, List.filterMap_cons, List.filterMap_nil, hstorage]
    cases b.physical with
    | none => simp
    | some q =>
        by_cases hq : q = p
        · subst hq
          simp
        · simp [hq]

/-- The node is made a ring of its own, so its destructor reaches no other. -/
theorem destroy_selfRing (hb : s.buf? i = some b) :
    ∃ s₁, makeSelfRing s i = some s₁ ∧
      s₁.buf? i = some { b with next := i, prev := i } ∧
      destroy s₁ i = some (dropNode s i b) := by
  obtain ⟨d, hd⟩ : ∃ d : Buffer, { b with next := i, prev := i } = d :=
    ⟨_, rfl⟩
  have hlookup : ∀ c, (s.setBuf i c).buf? i = some c := fun c => by
    rw [buf?_setBuf hb, if_pos rfl]
  have hset : ∀ c c', (s.setBuf i c).setBuf i c' = s.setBuf i c' :=
    fun c c' => by simp only [State.setBuf, List.set_set]
  have hself : makeSelfRing s i = some (s.setBuf i d) := by
    rw [makeSelfRing, State.modifyBuf, hb, Option.map_some, hd]
  refine ⟨s.setBuf i d, hself, by rw [hd]; exact hlookup d, ?_⟩
  have hunlink : unlinkFromRing (s.setBuf i d) i = some (s.setBuf i d) := by
    simp only [unlinkFromRing, setNext, setPrev, State.modifyBuf,
      Option.bind_eq_bind, hlookup, Option.bind_some]
    rw [← hd]
    simp only [hlookup, hset, Option.map_some, Option.bind_some]
  have hphys : d.physical = b.physical := by rw [← hd]
  simp only [destroy, hunlink, releasePhysical, Option.bind_eq_bind,
    Option.bind_some, hlookup, Option.map_some, hphys, dropNode]
  cases b.physical with
  | none => simp [State.setBuf]
  | some p => simp [State.setBuf, State.modifyPhys]

/-- What the loop does to the node `i`. -/
def nodeEvents (s : State) (i : ℕ) : List ChainEvent :=
  List.replicate 6 (ChainEvent.touch i) ++
    (storageOf s i).toList.map ChainEvent.release ++ [ChainEvent.delete i]

theorem destroyChainLog_succ (hb : s.buf? cur = some b) (head fuel : ℕ) :
    destroyChainLog s head cur (fuel + 1) =
      if b.next = head then some (dropNode s cur b, nodeEvents s cur)
      else (destroyChainLog (dropNode s cur b) head b.next fuel).map
        fun r => (r.1, nodeEvents s cur ++ r.2) := by
  obtain ⟨s₁, hself, hself', hdestroy⟩ := destroy_selfRing hb
  have hevents : [ChainEvent.touch cur, .touch cur] ++
      deleteEvents cur { b with next := cur, prev := cur } =
        nodeEvents s cur := by
    simp [deleteEvents, nodeEvents, storageOf, hb, List.replicate]
  simp only [destroyChainLog, hb, hself, hself', hdestroy, hevents,
    Option.bind_eq_bind, Option.bind_some]
  split_ifs
  · rfl
  · rw [Option.map_eq_bind]
    rfl

/-- The loop is the one of the buffer machine. -/
theorem destroyChainLog_map (s : State) (head cur fuel : ℕ) :
    (destroyChainLog s head cur fuel).map Prod.fst =
      destroyChain s head cur fuel := by
  induction fuel generalizing s cur with
  | zero => rfl
  | succ fuel ih =>
      cases hb : s.buf? cur with
      | none => simp [destroyChainLog, destroyChain, hb]
      | some b =>
          obtain ⟨s₁, hself, -, hdestroy⟩ := destroy_selfRing hb
          rw [destroyChainLog_succ hb]
          simp only [destroyChain, hb, hself, hdestroy, Option.bind_eq_bind,
            Option.bind_some, ← ih]
          split_ifs
          · rfl
          · rw [Option.map_map]
            rfl

/-! ## The ring -/

theorem ChainGone.cons {s'' : State} (h : ChainGone s s' [i])
    (h' : ChainGone s' s'' l) (hi : i ∉ l) : ChainGone s s'' (i :: l) := by
  have hstorage : l.filterMap (storageOf s') = l.filterMap (storageOf s) :=
    List.filterMap_congr fun j hj => by
      have hne : j ∉ [i] := by
        rw [List.mem_singleton]
        exact ne_of_mem_of_not_mem hj hi
      rw [storageOf, storageOf, h.others j hne]
  refine ⟨fun j hj => ?_, fun j hj => ?_, fun p => ?_,
    h'.cursors.trans h.cursors⟩
  · by_cases hjl : j ∈ l
    · exact h'.gone j hjl
    · rw [h'.others j hjl]
      exact h.gone j (by simpa [hjl] using hj)
  · rw [List.mem_cons, not_or] at hj
    rw [h'.others j hj.2, h.others j (by simpa using hj.1)]
  · rw [h'.storage, h.storage, hstorage, Option.map_map,
      ← Function.iterate_add, Nat.add_comm, ← List.count_append,
      ← List.filterMap_append]
    rfl

theorem ahead_of_others (h : ChainGone s s' [i]) (hi : i ∉ cur :: l)
    (hahead : Ahead s head cur l) : Ahead s' head cur l := by
  have hnext : ∀ j, j ≠ i → s'.links.next j = s.links.next j := by
    intro j hj
    have hne : j ∉ [i] := by rwa [List.mem_singleton]
    show (s'.buf? j).map Buffer.next = (s.buf? j).map Buffer.next
    rw [h.others j hne]
  induction l generalizing cur with
  | nil =>
      rw [Ahead, hnext cur (Ne.symm (List.ne_of_not_mem_cons hi))]
      exact hahead
  | cons x l ih =>
      obtain ⟨hlink, hx, hrest⟩ := hahead
      refine ⟨?_, hx, ih (List.not_mem_of_not_mem_cons hi) hrest⟩
      rw [hnext cur (Ne.symm (List.ne_of_not_mem_cons hi))]
      exact hlink

/-- From a node on, the loop deletes the nodes it is led through. -/
theorem destroyChainLog_spec (hahead : Ahead s head cur l)
    (hnodup : (cur :: l).Nodup) (hfuel : l.length + 1 ≤ fuel) :
    ∃ s', destroyChainLog s head cur fuel =
        some (s', (cur :: l).flatMap (nodeEvents s)) ∧
      ChainGone s s' (cur :: l) := by
  induction l generalizing s cur fuel with
  | nil =>
      obtain ⟨fuel, rfl⟩ : ∃ k, fuel = k + 1 :=
        Nat.exists_eq_add_of_le' (by omega)
      obtain ⟨b, hb, hnext⟩ := hahead.exists_buf?
      rw [List.headD_nil] at hnext
      refine ⟨dropNode s cur b, ?_, chainGone_dropNode hb⟩
      rw [destroyChainLog_succ hb, if_pos hnext, List.flatMap_singleton]
  | cons x l ih =>
      obtain ⟨fuel, rfl⟩ : ∃ k, fuel = k + 1 :=
        Nat.exists_eq_add_of_le' (by omega)
      obtain ⟨b, hb, hnext⟩ := hahead.exists_buf?
      obtain rfl : b.next = x := hnext
      obtain ⟨hcur, htail⟩ := List.nodup_cons.mp hnodup
      have hgone := chainGone_dropNode hb
      -- The rest of the ring has not been touched.
      obtain ⟨s', hlog, hrest⟩ := ih (ahead_of_others hgone hcur hahead.2.2)
        htail (show l.length + 1 ≤ fuel from Nat.le_of_succ_le_succ hfuel)
      refine ⟨s', ?_, hgone.cons hrest hcur⟩
      have hevents : (b.next :: l).flatMap (nodeEvents (dropNode s cur b)) =
          (b.next :: l).flatMap (nodeEvents s) :=
        List.flatMap_congr fun j hj => by
          have hne : j ∉ [cur] := by
            rw [List.mem_singleton]
            exact ne_of_mem_of_not_mem hj hcur
          rw [nodeEvents, nodeEvents, storageOf, storageOf,
            hgone.others j hne]
      rw [destroyChainLog_succ hb, if_neg hahead.2.1, hlog, hevents]
      rfl

/-! ## The events -/

theorem filterMap_released (s : State) (nodes : List ℕ) :
    (nodes.flatMap (nodeEvents s)).filterMap ChainEvent.released =
      nodes.filterMap (storageOf s) := by
  have hnode : ∀ i, (nodeEvents s i).filterMap ChainEvent.released =
      (storageOf s i).toList := by
    intro i
    rw [nodeEvents]
    cases storageOf s i <;> rfl
  induction nodes with
  | nil => rfl
  | cons i nodes ih =>
      rw [List.flatMap_cons, List.filterMap_append, hnode, ih]
      cases h : storageOf s i <;> simp [h]

theorem filterMap_deleted (s : State) (nodes : List ℕ) :
    (nodes.flatMap (nodeEvents s)).filterMap ChainEvent.deleted = nodes := by
  have hnode : ∀ i, (nodeEvents s i).filterMap ChainEvent.deleted = [i] := by
    intro i
    rw [nodeEvents]
    cases storageOf s i <;> rfl
  induction nodes with
  | nil => rfl
  | cons i nodes ih =>
      rw [List.flatMap_cons, List.filterMap_append, hnode, ih]
      rfl

theorem mem_nodeEvents {e : ChainEvent} (he : e ∈ nodeEvents s i) :
    e = .touch i ∨ e = .delete i ∨ ∃ p, e = .release p := by
  simp only [nodeEvents, List.mem_append, List.mem_replicate, List.mem_map,
    List.mem_singleton] at he
  rcases he with (⟨-, he⟩ | ⟨p, -, rfl⟩) | he
  · exact Or.inl he
  · exact Or.inr (Or.inr ⟨p, rfl⟩)
  · exact Or.inr (Or.inl he)

theorem noUseAfterDelete_nodeEvents (hnodup : nodes.Nodup) :
    NoUseAfterDelete (nodes.flatMap (nodeEvents s)) := by
  refine List.pairwise_flatMap.mpr ⟨fun i _ => ?_, hnodup.imp ?_⟩
  · -- The node is deleted last.
    rw [nodeEvents, List.pairwise_append]
    refine ⟨List.pairwise_of_forall_mem_list ?_, List.pairwise_singleton _ _,
      ?_⟩
    all_goals
      intro e he e' _ k hk
      subst hk
      simp at he
  · intro i j hij e he e' he' k hk
    subst hk
    have hki : k = i := by
      rcases mem_nodeEvents he with h | h | ⟨p, h⟩
      · cases h
      · exact ChainEvent.delete.inj h
      · cases h
    subst hki
    rcases mem_nodeEvents he' with rfl | rfl | ⟨p, rfl⟩ <;>
      simp [Ne.symm hij]

/-- `DestroyChain` ends, from any node of a ring: every node of the ring is
deleted once and not touched afterwards, and every storage of a node is
released once for it. -/
theorem destroyChain_frees_once (hring : s.links.IsRing head l)
    (hfuel : l.length + 1 ≤ fuel) :
    ∃ s' log, destroyChainLog s head head fuel = some (s', log) ∧
      destroyChain s head head fuel = some s' ∧
      log.filterMap ChainEvent.deleted = head :: l ∧
      NoUseAfterDelete log ∧
      log.filterMap ChainEvent.released =
        (head :: l).filterMap (storageOf s) ∧
      ChainGone s s' (head :: l) := by
  obtain ⟨s', hlog, hgone⟩ :=
    destroyChainLog_spec (ahead_of_isRing hring) hring.nodup hfuel
  refine ⟨s', _, hlog, ?_, filterMap_deleted s _,
    noUseAfterDelete_nodeEvents hring.nodup, filterMap_released s _, hgone⟩
  rw [← destroyChainLog_map, hlog, Option.map_some]

end Chains

/-- The ring of `"abc"`, an empty buffer and `"de"` is deleted, and both
storages are released. -/
theorem destroyChain_frees_once_abcDe :
    ∃ s' log, destroyChainLog abcDeState 0 0 3 = some (s', log) ∧
      log.filterMap ChainEvent.deleted = [0, 1, 2] ∧
      log.filterMap ChainEvent.released = [0, 1] ∧
      s'.buf? 1 = none := by
  obtain ⟨s', log, hlog, -, hdeleted, -, hreleased, hgone⟩ :=
    destroyChain_frees_once isRing_abcDe
      (show [1, 2].length + 1 ≤ 3 by decide)
  exact ⟨s', log, hlog, hdeleted, hreleased, hgone.gone 1 (by decide)⟩

end Memory
end Yacul
