import SglangRs.Router.BlockSets

/-!
# Eviction from the hash tree

An eviction takes nodes out of the tree until a bound on their number is met (`tree.rs`, lines
492–559). First go the leaves that nobody holds. Then, again and again, the oldest leaf is emptied
and taken out, and with it every ancestor that is left without workers and children.

The writes of an eviction are the steps of a relation between trees. Every state in between is a
part of the tree that was there before.

## Main definitions

* `TreeState.IsOldestLeaf`: a leaf with the smallest time stamp.
* `TreeState.EvictionStep`: the writes of an eviction.
* `TreeState.EvictionRun`: the states of an eviction.

## Main results

* `TreeState.EvictionRun.pruneLoop`, `TreeState.EvictionRun.evictEmpty`,
  `TreeState.EvictionRun.evictOldest`: the loops make such writes.
* `TreeState.evict_lru_exact`: what an eviction does to a tree.
-/

namespace SglangRs.Router

open Arena

namespace TreeState

/-- A leaf that was last used no later than any other leaf. -/
def IsOldestLeaf (s : TreeState) (id : NodeId) : Prop :=
  ∃ time, s.IsLeafAt id time ∧ ∀ j time', s.IsLeafAt j time' → time ≤ time'

/-- The writes of an eviction from the tree `s`. -/
inductive EvictionStep (s : TreeState) (order : IterationOrder) (maxSize : ℕ) :
    TreeState → TreeState → Prop
  /-- The leaf that the search finds loses its workers: an oldest leaf. -/
  | empty {u : TreeState} {time : ℕ} {id : NodeId} (hcount : maxSize < u.nodeCount)
      (hsearch : (order.visit u.nodes.keys).foldl u.older none = some (time, id))
      (holdest : u.IsOldestLeaf id) :
      EvictionStep s order maxSize u (u.modify id fun node => { node with workers := ∅ })
  /-- A node that nobody holds is taken out, and no descendant of it is left. -/
  | remove {u : TreeState} {id parentId : NodeId} {node : Node}
      (hlookup : u.nodes.lookup id = some node) (hworkers : node.workers = ∅)
      (hparent : node.parent = some parentId)
      (hbelow : ∀ j ∈ u.nodes, s.links.Below id j → j = id) :
      EvictionStep s order maxSize u (u.detach id parentId node.blockHash).1

/-- A state of an eviction from the tree `s`: a part of it that is a tree. -/
structure EvictionRun (s : TreeState) (order : IterationOrder) (maxSize : ℕ) (u : TreeState) :
    Prop where
  steps : Relation.ReflTransGen (s.EvictionStep order maxSize) s u
  linked : u.Linked
  restricts : u.links.Restricts s.links

namespace EvictionRun

variable {s u : TreeState} {order : IterationOrder} {maxSize : ℕ} {id parentId : NodeId}
  {node parent : Node}

theorem refl (hs : s.Linked) : EvictionRun s order maxSize s :=
  ⟨.refl, hs, .refl _⟩

/-- Of a node without children, no descendant is left. -/
theorem remove (hs : s.Linked) (h : EvictionRun s order maxSize u)
    (hdet : u.Detachable id parentId node parent) :
    EvictionRun s order maxSize (u.detach id parentId node.blockHash).1 := by
  have hbelow (j : NodeId) (hj : j ∈ u.nodes) (hb : s.links.Below id j) : j = id := by
    have hb' := h.restricts.below hs.tree h.linked.tree hb (label_ne_none_iff.mpr hj)
    exact hb'.eq_of_leaf (child_eq_none_of_prunable hdet.lookup_eq hdet.prunable.2)
  exact ⟨h.steps.tail (.remove hdet.lookup_eq hdet.prunable.1 hdet.parent_eq hbelow),
    hdet.linked_detach h.linked, (hdet.shrinks_detach h.linked).restricts.trans h.restricts⟩

/-- The loop of a cascade. -/
theorem pruneLoop (hs : s.Linked) (steps : ℕ) (h : EvictionRun s order maxSize u)
    (hlookup : u.nodes.lookup id = some node) (hne : id ≠ rootId) (hp : node.Prunable) :
    EvictionRun s order maxSize (TreeState.pruneLoop steps u id).1 := by
  induction steps generalizing u id node with
  | zero => exact h
  | succ steps ih =>
      obtain ⟨parentId, parent, hdet⟩ := Detachable.exists_parent h.linked hlookup hne hp
      rw [hdet.pruneLoop_succ h.linked]
      split_ifs with hcont
      · obtain ⟨hne', node', hlookup', hp'⟩ := isPrunable_iff.mp hcont
        exact ih (h.remove hs hdet) hlookup' hne' hp'
      · exact h.remove hs hdet

/-- The leaf that the search finds is emptied and taken out. -/
theorem evictLeaf (hs : s.Linked) (h : EvictionRun s order maxSize u)
    (hcount : maxSize < u.nodeCount) {time : ℕ}
    (hsearch : (order.visit u.nodes.keys).foldl u.older none = some (time, id))
    (hleaf : u.IsLeafAt id time) (hmin : ∀ j time', u.IsLeafAt j time' → time ≤ time') :
    EvictionRun s order maxSize
      ((u.modify id fun node => { node with workers := ∅ }).pruneCascade id).1 := by
  have hstep := EvictionStep.empty (s := s) hcount hsearch ⟨time, hleaf, hmin⟩
  obtain ⟨hne, node, hlookup, hchildren, -⟩ := hleaf
  rw [modify_eq hlookup] at hstep ⊢
  have hlinks := links_insert { node with workers := ∅ } hlookup rfl rfl rfl
  have hempty : EvictionRun s order maxSize
      { u with nodes := u.nodes.insert id { node with workers := ∅ } } :=
    ⟨h.steps.tail hstep, h.linked.insert _ hlookup rfl rfl rfl, hlinks ▸ h.restricts⟩
  exact hempty.pruneLoop hs _ (Finmap.lookup_insert _) hne ⟨rfl, hchildren⟩

/-- The second loop. -/
theorem evictOldest (hs : s.Linked) (iterations : ℕ) (h : EvictionRun s order maxSize u) :
    EvictionRun s order maxSize (TreeState.evictOldest order maxSize iterations (u, [])).1 := by
  induction iterations generalizing u with
  | zero =>
      rw [TreeState.evictOldest]
      split_ifs <;> exact h
  | succ iterations ih =>
      rw [TreeState.evictOldest]
      split_ifs with hcount
      · exact h
      · rw [not_le] at hcount
        obtain ⟨time, victim, hsearch, hleaf, hmin⟩ := h.linked.exists_victim (by omega) order
        obtain ⟨hdefects, -⟩ :=
          evictLeaf_spec h.linked (prunedExcept_univ u) (isLeaf_iff.mpr ⟨time, hleaf⟩)
        simp only [hsearch, pruneFrom, hdefects, List.append_nil]
        exact ih (h.evictLeaf hs hcount hsearch hleaf hmin)

/-- The first loop: it takes out nodes that nobody holds and keeps the others. -/
theorem evictEmpty (hs : s.Linked) (ids : List NodeId) (h : EvictionRun s order maxSize u)
    (hids : ∀ id ∈ ids, id ≠ rootId ∧ ∀ node, u.nodes.lookup id = some node → node.Prunable) :
    ∃ v, TreeState.evictEmpty maxSize ids (u, []) = (v, []) ∧ u.Shrinks v ∧
      EvictionRun s order maxSize v := by
  induction ids generalizing u with
  | nil => exact ⟨u, rfl, .refl u, h⟩
  | cons id ids ih =>
      rw [TreeState.evictEmpty]
      split_ifs with hcount
      · exact ⟨u, rfl, .refl u, h⟩
      · obtain ⟨⟨hne, hp⟩, hrest⟩ := List.forall_mem_cons.mp hids
        by_cases hmem : id ∈ u.nodes
        · obtain ⟨node, hlookup⟩ := Finmap.mem_iff.mp hmem
          have hpruned : u.PrunedExcept (Insert.insert id Set.univ) :=
            (prunedExcept_univ u).mono (Set.subset_insert _ _)
          obtain ⟨hdefects, -, -, hshrinks, -⟩ :=
            pruneCascade_spec h.linked hlookup hne (hp node hlookup) hpruned
          rw [pruneIfPresent_of_mem hmem hdefects]
          obtain ⟨v, hv, hshrinks', hrun⟩ := ih (h.pruneLoop hs _ hlookup hne (hp node hlookup))
            fun j hj => ⟨(hrest j hj).1, fun _ => hshrinks.prunable (hrest j hj).2⟩
          exact ⟨v, hv, hshrinks.trans hshrinks', hrun⟩
        · rw [pruneIfPresent_of_not_mem hmem]
          exact ih h hrest

end EvictionRun

/-- The tree after an eviction. -/
theorem evictLru_eq {s : TreeState} (hs : s.Linked) (order : IterationOrder) (maxSize : ℕ) :
    ∃ t, s.evictLru order maxSize = (t, s.nodes.keys.card - t.nodes.keys.card, []) ∧
      t.nodeCount ≤ maxSize ∧ (s.nodeCount ≤ maxSize → t = s) ∧ s.Shrinks t ∧
      EvictionRun s order maxSize t := by
  unfold evictLru
  split_ifs with hcount
  · exact ⟨s, by rw [Nat.sub_self], hcount, fun _ => rfl, .refl s, .refl hs⟩
  · have hempty : ∀ id ∈ (order.visit s.nodes.keys).filter s.isPrunable,
        id ≠ rootId ∧ ∀ node, s.nodes.lookup id = some node → node.Prunable := by
      intro id hid
      obtain ⟨hne, node, hlookup, hp⟩ := isPrunable_iff.mp (List.mem_filter.mp hid).2
      exact ⟨hne, fun node' hlookup' => Option.some.inj (hlookup.symm.trans hlookup') ▸ hp⟩
    obtain ⟨u, hu, hshrinks, hrun⟩ := EvictionRun.evictEmpty hs _ (.refl hs) hempty
    obtain ⟨hdefects, -, -, hshrinks', hbound⟩ := evictOldest_spec order maxSize
      (u.nodes.keys.card + 1) u hrun.linked (prunedExcept_univ u) (by omega)
    refine ⟨_, ?_, hbound, fun h => absurd h hcount, hshrinks.trans hshrinks',
      hrun.evictOldest hs _⟩
    simp only [hu, hdefects]

/-- **Eviction.** From every tree, with or without leaves that nobody holds, and for every bound, an
eviction ends with the bound met and returns the number of nodes that are gone; it takes none of its
defensive branches, so its iteration cap never stops it. The nodes that are left keep their workers
and their paths, a node is taken out when no descendant of it is left, and a node is emptied when it
is an oldest leaf. -/
theorem evict_lru_exact {s : TreeState} (hs : s.Linked) (order : IterationOrder) (maxSize : ℕ) :
    ∃ t removed, s.evictLru order maxSize = (t, removed, []) ∧ t.nodeCount ≤ maxSize ∧
      t.nodes.keys ⊆ s.nodes.keys ∧ removed = (s.nodes.keys \ t.nodes.keys).card ∧
      (s.nodeCount ≤ maxSize → t = s ∧ removed = 0) ∧
      (∀ id node', t.nodes.lookup id = some node' → ∃ node, s.nodes.lookup id = some node ∧
        node'.workers = node.workers ∧ node'.parent = node.parent) ∧
      (∀ id ∈ t.nodes, ∀ hashes,
        t.links.walk rootId hashes = some id ↔ s.links.walk rootId hashes = some id) ∧
      Relation.ReflTransGen (s.EvictionStep order maxSize) s t := by
  obtain ⟨t, heq, hbound, hsame, hshrinks, hrun⟩ := evictLru_eq hs order maxSize
  refine ⟨t, _, heq, hbound, hshrinks.keys_subset,
    (Finset.card_sdiff_of_subset hshrinks.keys_subset).symm, fun h => ?_, fun id node' hid => ?_,
    fun id hid hashes => ?_, hrun.steps⟩
  · obtain rfl := hsame h
    exact ⟨rfl, Nat.sub_self _⟩
  · obtain ⟨node, hlookup, hworkers, -, hparent, -⟩ := hshrinks id node' hid
    exact ⟨node, hlookup, hworkers, hparent⟩
  · exact hrun.restricts.walk_iff hs.tree hrun.linked.tree (label_ne_none_iff.mpr hid)

/-- A worker holds two blocks, one below the other, and later a third one. -/
def threeBlocks : TreeState :=
  let worker : KvWorkerId := ⟨"http://a", 0⟩
  let s := ((new 0).insert ascending 1 worker none [1, 2]).1
  (s.insert ascending 2 worker none [3]).1

theorem wellFormed_threeBlocks : threeBlocks.WellFormed :=
  (insert_spec _ _ _ _ _ (insert_spec _ _ _ _ _ (wellFormed_new 0)).2).2

/-- With room for one block, an eviction takes out at least two nodes. -/
theorem evict_lru_exact_of_three_blocks : ∃ t removed,
    threeBlocks.evictLru ascending 1 = (t, removed, []) ∧ t.nodeCount ≤ 1 ∧ 2 ≤ removed := by
  obtain ⟨t, removed, heq, hbound, -, hremoved, -⟩ :=
    evict_lru_exact wellFormed_threeBlocks.toLinked ascending 1
  have hnodes : threeBlocks.nodes.keys.card = 4 := by decide
  have hleft : t.nodes.keys.card ≤ 2 := by
    unfold nodeCount at hbound
    omega
  have hdiff := Finset.le_card_sdiff t.nodes.keys threeBlocks.nodes.keys
  exact ⟨t, removed, heq, hbound, by omega⟩

end TreeState

end SglangRs.Router
