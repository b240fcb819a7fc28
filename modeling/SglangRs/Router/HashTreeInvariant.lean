import SglangRs.Arena.Forest
import SglangRs.Router.HashTree

/-!
# The representation invariant of the hash tree

The links between the nodes of the arena describe a tree, the reverse index lists exactly the nodes
that carry a hash, and no node is kept that nobody holds and below which nothing hangs. Every call
keeps this invariant and takes none of its defensive branches; in particular the cascade of prunes
ends.

Within a call the tree may hold nodes that are about to be pruned. `TreeState.PrunedExcept` says
which, and the lemma about one step of the cascade turns the node it removes into its parent in that
set.

## Main definitions

* `TreeState.links`: the labels, parents and children of the arena.
* `TreeState.Linked`, `TreeState.PrunedExcept`, `TreeState.WellFormed`: the invariant.
* `TreeState.Shrinks`: nodes were removed and the others kept.

## Main results

* `TreeState.pruneCascade_spec`: what a cascade does.
* `TreeState.run_wellFormed`: the invariant after every sequence of calls.
-/

namespace SglangRs.Router

open Arena

namespace TreeState

/-- The links of the arena. -/
def links (s : TreeState) : Links NodeId Int64 where
  label id := (s.nodes.lookup id).map Node.blockHash
  parent id := (s.nodes.lookup id).bind Node.parent
  child id blockHash := (s.nodes.lookup id).bind fun node => node.children.lookup blockHash

/-- The links describe a tree and the reverse index lists exactly the nodes that carry a hash. -/
structure Linked (s : TreeState) : Prop where
  tree : s.links.Tree rootId
  mem_indexed : ∀ blockHash id, id ∈ s.indexed blockHash ↔
    id ≠ rootId ∧ s.links.label id = some blockHash
  nonempty : ∀ blockHash ids, s.byHash.lookup blockHash = some ids → ids.Nonempty
  fresh : ∀ id ∈ s.nodes, id < s.nextId

/-- Only the given nodes may be held by nobody and have no children. -/
def PrunedExcept (s : TreeState) (pending : Set NodeId) : Prop :=
  ∀ id node, s.nodes.lookup id = some node → id ≠ rootId → node.Prunable → id ∈ pending

/-- The representation invariant. -/
structure WellFormed (s : TreeState) : Prop extends s.Linked where
  pruned : s.PrunedExcept ∅

/-- Nodes were removed; the others kept their workers, their parents and what is left of their
children. -/
def Shrinks (s t : TreeState) : Prop :=
  ∀ id node', t.nodes.lookup id = some node' → ∃ node, s.nodes.lookup id = some node ∧
    node'.workers = node.workers ∧ node'.blockHash = node.blockHash ∧
    node'.parent = node.parent ∧ node'.lastUsed = node.lastUsed ∧
    node'.children.keys ⊆ node.children.keys

namespace Shrinks

variable {s t u : TreeState}

theorem refl (s : TreeState) : s.Shrinks s := fun _ node h => ⟨node, h, rfl, rfl, rfl, rfl, by simp⟩

theorem trans (h : s.Shrinks t) (h' : t.Shrinks u) : s.Shrinks u := by
  intro id node'' hu
  obtain ⟨node', ht, hw', hh', hp', hl', hc'⟩ := h' id node'' hu
  obtain ⟨node, hs, hw, hh, hp, hl, hc⟩ := h id node' ht
  exact ⟨node, hs, hw'.trans hw, hh'.trans hh, hp'.trans hp, hl'.trans hl, hc'.trans hc⟩

theorem prunable (h : s.Shrinks t) {id : NodeId} {node' : Node}
    (hs : ∀ node, s.nodes.lookup id = some node → node.Prunable)
    (ht : t.nodes.lookup id = some node') : node'.Prunable := by
  obtain ⟨node, hlookup, hworkers, -, -, -, hchildren⟩ := h id node' ht
  have hp := hs node hlookup
  exact ⟨hworkers.trans hp.1, Finset.subset_empty.mp (hp.2 ▸ hchildren)⟩

theorem keys_subset (h : s.Shrinks t) : t.nodes.keys ⊆ s.nodes.keys := by
  intro id hid
  obtain ⟨node', ht⟩ := Finmap.mem_iff.mp (Finmap.mem_keys.mp hid)
  obtain ⟨node, hs, -⟩ := h id node' ht
  exact Finmap.mem_keys.mpr (Finmap.mem_of_lookup_eq_some hs)

end Shrinks

variable {s t : TreeState} {id : NodeId} {node : Node}

theorem label_ne_none_iff : s.links.label id ≠ none ↔ id ∈ s.nodes := by
  simp [links, Finmap.lookup_eq_none]

theorem mem_keys_iff_label (s : TreeState) (id : NodeId) :
    id ∈ s.nodes.keys ↔ s.links.label id ≠ none := by
  rw [label_ne_none_iff, Finmap.mem_keys]

theorem Shrinks.restricts (h : s.Shrinks t) : t.links.Restricts s.links := by
  intro id hlive
  obtain ⟨node', ht⟩ := Finmap.mem_iff.mp (label_ne_none_iff.mp hlive)
  obtain ⟨node, hs, -, hhash, hparent, -⟩ := h id node' ht
  simp [links, ht, hs, hhash, hparent]

theorem child_eq_none_of_prunable (h : s.nodes.lookup id = some node)
    (hp : node.children.keys = ∅) (blockHash : Int64) : s.links.child id blockHash = none := by
  have hmem : blockHash ∉ node.children := by
    rw [← Finmap.mem_keys, hp]
    simp
  simp [links, h, Finmap.lookup_eq_none.mpr hmem]

theorem keys_eq_empty_of_child (h : s.nodes.lookup id = some node)
    (hc : ∀ blockHash, s.links.child id blockHash = none) : node.children.keys = ∅ := by
  rw [Finset.eq_empty_iff_forall_notMem]
  intro blockHash hmem
  obtain ⟨child, hchild⟩ := Finmap.mem_iff.mp (Finmap.mem_keys.mp hmem)
  have hnone := hc blockHash
  simp [links, h, hchild] at hnone

/-! ### Changing a node -/

theorem lookup_insert_eq (id j : NodeId) (node : Node) :
    (s.nodes.insert id node).lookup j = if j = id then some node else s.nodes.lookup j := by
  split_ifs with h
  · rw [h, Finmap.lookup_insert]
  · exact Finmap.lookup_insert_of_ne _ h

/-- A change that keeps the hash, the parent and the children of a node keeps all links. -/
theorem links_insert (node' : Node) (h : s.nodes.lookup id = some node)
    (hhash : node'.blockHash = node.blockHash) (hparent : node'.parent = node.parent)
    (hchildren : node'.children = node.children) :
    links { s with nodes := s.nodes.insert id node' } = s.links := by
  ext j : 2
  · simp only [links, lookup_insert_eq]
    split_ifs with hj
    · subst hj
      simp [h, hhash]
    · rfl
  · simp only [links, lookup_insert_eq]
    split_ifs with hj
    · subst hj
      simp [h, hparent]
    · rfl
  · simp only [links, lookup_insert_eq]
    split_ifs with hj
    · subst hj
      simp [h, hchildren]
    · rfl

theorem Linked.insert (hs : s.Linked) (node' : Node) (h : s.nodes.lookup id = some node)
    (hhash : node'.blockHash = node.blockHash) (hparent : node'.parent = node.parent)
    (hchildren : node'.children = node.children) :
    Linked { s with nodes := s.nodes.insert id node' } := by
  have hlinks := links_insert node' h hhash hparent hchildren
  refine ⟨hlinks ▸ hs.tree, fun blockHash j => ?_, hs.nonempty, fun j hj => ?_⟩
  · rw [hlinks]
    exact hs.mem_indexed blockHash j
  · rcases Finmap.mem_insert.mp hj with rfl | hj
    · exact hs.fresh j (Finmap.mem_of_lookup_eq_some h)
    · exact hs.fresh j hj

/-- Only the changed node can become prunable. -/
theorem PrunedExcept.insert {pending : Set NodeId} (hs : s.PrunedExcept pending)
    (id : NodeId) (node' : Node) :
    PrunedExcept { s with nodes := s.nodes.insert id node' } (Insert.insert id pending) := by
  intro j nodej hj hne hp
  rw [lookup_insert_eq] at hj
  split_ifs at hj with h
  · exact .inl h
  · exact .inr (hs j nodej hj hne hp)

theorem PrunedExcept.mono {pending pending' : Set NodeId} (hs : s.PrunedExcept pending)
    (hsub : pending ⊆ pending') : s.PrunedExcept pending' :=
  fun j nodej hj hne hp => hsub (hs j nodej hj hne hp)

theorem prunedExcept_univ (s : TreeState) : s.PrunedExcept Set.univ := fun _ _ _ _ _ => trivial

theorem PrunedExcept.of_insert {pending : Set NodeId}
    (hs : s.PrunedExcept (Insert.insert id pending)) (h : s.nodes.lookup id = some node)
    (hp : ¬node.Prunable) : s.PrunedExcept pending := by
  intro j nodej hj hne hpj
  rcases hs j nodej hj hne hpj with rfl | hmem
  · rw [h] at hj
    exact absurd (Option.some.inj hj ▸ hpj) hp
  · exact hmem

/-! ### Removing a node -/

/-- What is known about a node that `prune_cascade` takes out. -/
structure Detachable (s : TreeState) (id parentId : NodeId) (node parent : Node) : Prop where
  lookup_eq : s.nodes.lookup id = some node
  ne_root : id ≠ rootId
  prunable : node.Prunable
  parent_eq : node.parent = some parentId
  lookup_parent : s.nodes.lookup parentId = some parent

namespace Detachable

variable {parentId : NodeId} {parent : Node}

theorem exists_parent (hs : s.Linked) (h : s.nodes.lookup id = some node) (hne : id ≠ rootId)
    (hp : node.Prunable) : ∃ parentId parent, s.Detachable id parentId node parent := by
  obtain ⟨p, k, hparent, -, hlive, -⟩ := hs.tree.parent_spec id hne (by simp [links, h])
  obtain ⟨parent, hlookup⟩ := Finmap.mem_iff.mp (label_ne_none_iff.mp hlive)
  exact ⟨p, parent, h, hne, hp, by simpa [links, h] using hparent, hlookup⟩

variable (h : s.Detachable id parentId node parent)

include h

theorem parentId_ne (hs : s.Linked) : parentId ≠ id := by
  obtain ⟨-, hlt, -⟩ := hs.tree.child_parent h.ne_root (p := parentId) (k := node.blockHash)
    (by simp [links, h.lookup_eq, h.parent_eq]) (by simp [links, h.lookup_eq])
  exact hlt.ne

/-- The node is in the reverse index. -/
theorem exists_indexed (hs : s.Linked) :
    ∃ ids, s.byHash.lookup node.blockHash = some ids ∧ id ∈ ids := by
  have hmem := (hs.mem_indexed node.blockHash id).mpr
    ⟨h.ne_root, by simp [links, h.lookup_eq]⟩
  unfold indexed at hmem
  cases hids : s.byHash.lookup node.blockHash with
  | none => simp [hids] at hmem
  | some ids => exact ⟨ids, rfl, by simpa [hids] using hmem⟩

/-- The state after the step, without the reverse index. -/
theorem detach_eq (hs : s.Linked) : ∃ byHash,
    s.detach id parentId node.blockHash =
      ({ s with
          nodes := (s.nodes.insert parentId
            { parent with children := parent.children.erase node.blockHash }).erase id
          byHash }, []) ∧
    (∀ blockHash, (byHash.lookup blockHash).getD ∅ =
      if blockHash = node.blockHash then (s.indexed blockHash).erase id
      else s.indexed blockHash) ∧
    ∀ blockHash ids, byHash.lookup blockHash = some ids → ids.Nonempty := by
  obtain ⟨ids, hids, hmem⟩ := h.exists_indexed hs
  by_cases hempty : ids.erase id = ∅
  · refine ⟨s.byHash.erase node.blockHash, ?_, fun blockHash => ?_, fun blockHash ids' hids' => ?_⟩
    · simp [detach, unlink, unindex, h.lookup_parent, hids, hempty]
    · split_ifs with hh
      · subst hh
        simp [indexed, hids, hempty]
      · rw [Finmap.lookup_erase_ne hh]
        rfl
    · have hh : blockHash ≠ node.blockHash := by
        rintro rfl
        simp at hids'
      rw [Finmap.lookup_erase_ne hh] at hids'
      exact hs.nonempty blockHash ids' hids'
  · refine ⟨s.byHash.insert node.blockHash (ids.erase id), ?_, fun blockHash => ?_,
      fun blockHash ids' hids' => ?_⟩
    · simp [detach, unlink, unindex, h.lookup_parent, hids, hempty]
    · split_ifs with hh
      · subst hh
        simp [indexed, hids]
      · rw [Finmap.lookup_insert_of_ne _ hh]
        rfl
    · by_cases hh : blockHash = node.blockHash
      · subst hh
        rw [Finmap.lookup_insert] at hids'
        rw [← Option.some.inj hids']
        exact Finset.nonempty_iff_ne_empty.mpr hempty
      · rw [Finmap.lookup_insert_of_ne _ hh] at hids'
        exact hs.nonempty blockHash ids' hids'

theorem defects_detach (hs : s.Linked) : (s.detach id parentId node.blockHash).2 = [] := by
  obtain ⟨byHash, heq, -⟩ := h.detach_eq hs
  rw [heq]

theorem lookup_detach (hs : s.Linked) (j : NodeId) :
    (s.detach id parentId node.blockHash).1.nodes.lookup j =
      if j = id then none
      else if j = parentId then
        some { parent with children := parent.children.erase node.blockHash }
      else s.nodes.lookup j := by
  obtain ⟨byHash, heq, -⟩ := h.detach_eq hs
  rw [heq]
  dsimp only
  split_ifs with hj hj'
  · subst hj
    exact Finmap.lookup_erase _ _
  · subst hj'
    rw [Finmap.lookup_erase_ne hj, Finmap.lookup_insert]
  · rw [Finmap.lookup_erase_ne hj, Finmap.lookup_insert_of_ne _ hj']

theorem keys_detach (hs : s.Linked) :
    (s.detach id parentId node.blockHash).1.nodes.keys = s.nodes.keys.erase id := by
  ext j
  rw [Finmap.mem_keys, ← Finmap.lookup_isSome, h.lookup_detach hs, Finset.mem_erase,
    Finmap.mem_keys, ← Finmap.lookup_isSome]
  split_ifs with hj hj'
  · simp [hj]
  · subst hj'
    simp [hj, h.lookup_parent]
  · simp [hj]

theorem links_detach (hs : s.Linked) :
    (s.detach id parentId node.blockHash).1.links =
      s.links.removeLeaf id parentId node.blockHash := by
  ext j : 2
  · simp only [links, Links.removeLeaf, h.lookup_detach hs]
    split_ifs with hj hj'
    · simp [hj]
    · subst hj'
      simp [Function.update_of_ne hj, h.lookup_parent]
    · simp [Function.update_of_ne hj]
  · simp only [links, Links.removeLeaf, h.lookup_detach hs]
    split_ifs with hj hj'
    · simp [hj]
    · subst hj'
      simp [Function.update_of_ne hj, h.lookup_parent]
    · simp [Function.update_of_ne hj]
  · funext blockHash
    simp only [links, Links.removeLeaf, h.lookup_detach hs]
    by_cases hj : j = id
    · subst hj
      have hnone := child_eq_none_of_prunable h.lookup_eq h.prunable.2 blockHash
      simpa [links, h.parentId_ne hs |>.symm] using hnone.symm
    · by_cases hj' : j = parentId
      · subst hj'
        by_cases hh : blockHash = node.blockHash
        · subst hh
          simp [hj]
        · simp [hj, hh, h.lookup_parent, Finmap.lookup_erase_ne hh]
      · simp [hj, hj']

theorem linked_detach (hs : s.Linked) : (s.detach id parentId node.blockHash).1.Linked := by
  have hlabel : s.links.label id = some node.blockHash := by simp [links, h.lookup_eq]
  have htree := hs.tree.removeLeaf h.ne_root (p := parentId)
    (by simp [links, h.lookup_eq, h.parent_eq]) hlabel
    (child_eq_none_of_prunable h.lookup_eq h.prunable.2)
  have hlinks := h.links_detach hs
  refine ⟨hlinks ▸ htree, fun blockHash j => ?_, ?_, fun j hj => ?_⟩
  · obtain ⟨byHash, heq, hindexed, -⟩ := h.detach_eq hs
    rw [hlinks, heq]
    change j ∈ (byHash.lookup blockHash).getD ∅ ↔ _
    rw [hindexed, Links.removeLeaf]
    split_ifs with hh
    · rw [Finset.mem_erase, hs.mem_indexed]
      by_cases hj : j = id
      · simp [hj]
      · simp [hj]
    · rw [hs.mem_indexed]
      by_cases hj : j = id
      · subst hj
        simp [hlabel, Ne.symm hh]
      · simp [hj]
  · obtain ⟨byHash, heq, -, hnonempty⟩ := h.detach_eq hs
    rw [heq]
    exact hnonempty
  · have hnext : (s.detach id parentId node.blockHash).1.nextId = s.nextId := by
      obtain ⟨byHash, heq, -⟩ := h.detach_eq hs
      rw [heq]
    have hkeys := h.keys_detach hs
    rw [← Finmap.mem_keys, hkeys] at hj
    rw [hnext]
    exact hs.fresh j (Finmap.mem_keys.mp (Finset.mem_of_mem_erase hj))

theorem shrinks_detach (hs : s.Linked) : s.Shrinks (s.detach id parentId node.blockHash).1 := by
  intro j nodej hj
  rw [h.lookup_detach hs] at hj
  split_ifs at hj with hid hparent
  · subst hparent
    rw [← Option.some.inj hj]
    refine ⟨parent, h.lookup_parent, rfl, rfl, rfl, rfl, ?_⟩
    rw [Finmap.keys_erase]
    exact Finset.erase_subset _ _
  · exact ⟨nodej, hj, rfl, rfl, rfl, rfl, by simp⟩

/-- The parent of the node takes its place among those that may be prunable. -/
theorem prunedExcept_detach (hs : s.Linked) {pending : Set NodeId}
    (hpruned : s.PrunedExcept (Insert.insert id pending)) :
    (s.detach id parentId node.blockHash).1.PrunedExcept (Insert.insert parentId pending) := by
  intro j nodej hj hne hp
  rw [h.lookup_detach hs] at hj
  split_ifs at hj with hid hparent
  · exact .inl hparent
  · exact .inr ((hpruned j nodej hj hne hp).resolve_left hid)

/-- One round of the loop of a cascade. -/
theorem pruneLoop_succ (hs : s.Linked) (steps : ℕ) : pruneLoop (steps + 1) s id =
    if (s.detach id parentId node.blockHash).1.isPrunable parentId then
      pruneLoop steps (s.detach id parentId node.blockHash).1 parentId
    else ((s.detach id parentId node.blockHash).1, []) := by
  rw [pruneLoop, if_neg h.ne_root, h.lookup_eq]
  simp only [h.parent_eq, if_pos h.prunable]
  rw [h.defects_detach hs]
  simp

end Detachable

theorem isPrunable_iff : s.isPrunable id = true ↔
    id ≠ rootId ∧ ∃ node, s.nodes.lookup id = some node ∧ node.Prunable := by
  unfold isPrunable
  cases s.nodes.lookup id <;> simp

/-- The loop of a cascade, as long as the number of steps is at least the number of nodes. -/
theorem pruneLoop_spec {pending : Set NodeId} (steps : ℕ) (s : TreeState) (id : NodeId)
    (node : Node) (hs : s.Linked) (h : s.nodes.lookup id = some node) (hne : id ≠ rootId)
    (hp : node.Prunable) (hsteps : s.nodes.keys.card ≤ steps)
    (hpruned : s.PrunedExcept (Insert.insert id pending)) :
    (pruneLoop steps s id).2 = [] ∧ (pruneLoop steps s id).1.Linked ∧
      (pruneLoop steps s id).1.PrunedExcept pending ∧ s.Shrinks (pruneLoop steps s id).1 ∧
      id ∉ (pruneLoop steps s id).1.nodes := by
  induction steps generalizing s id node with
  | zero =>
    have hmem : id ∈ s.nodes.keys := Finmap.mem_keys.mpr (Finmap.mem_of_lookup_eq_some h)
    have hpos := Finset.card_pos.mpr ⟨id, hmem⟩
    omega
  | succ steps ih =>
    obtain ⟨parentId, parent, hdet⟩ := Detachable.exists_parent hs h hne hp
    have hmem : id ∈ s.nodes.keys := Finmap.mem_keys.mpr (Finmap.mem_of_lookup_eq_some h)
    have hcard := Finset.card_erase_add_one hmem
    have hlinked := hdet.linked_detach hs
    have hshrinks := hdet.shrinks_detach hs
    have hpruned' := hdet.prunedExcept_detach hs hpruned
    have hkeys := hdet.keys_detach hs
    rw [hdet.pruneLoop_succ hs]
    set t := (s.detach id parentId node.blockHash).1
    split_ifs with hcont
    · obtain ⟨hne', node', hlookup', hp'⟩ := isPrunable_iff.mp hcont
      obtain ⟨hdefects, hlinked', hpruned'', hshrinks', hgone⟩ :=
        ih t parentId node' hlinked hlookup' hne' hp' (by rw [hkeys]; omega) hpruned'
      refine ⟨hdefects, hlinked', hpruned'', hshrinks.trans hshrinks', fun hmem' => ?_⟩
      have hsub := hshrinks'.keys_subset (Finmap.mem_keys.mpr hmem')
      rw [hkeys] at hsub
      exact Finset.notMem_erase id _ hsub
    · refine ⟨rfl, hlinked, ?_, hshrinks, fun hmem' => ?_⟩
      · intro j nodej hj hnej hpj
        rcases hpruned' j nodej hj hnej hpj with rfl | hmem'
        · exact absurd (isPrunable_iff.mpr ⟨hnej, nodej, hj, hpj⟩) hcont
        · exact hmem'
      · have hsub := Finmap.mem_keys.mpr hmem'
        rw [hkeys] at hsub
        exact Finset.notMem_erase id _ hsub

/-- **A cascade of prunes.** It takes out a prunable node and leaves no prunable node behind that
was not prunable before; it takes no defensive branch and ends within as many steps as there are
nodes. -/
theorem pruneCascade_spec {pending : Set NodeId} (hs : s.Linked)
    (h : s.nodes.lookup id = some node) (hne : id ≠ rootId) (hp : node.Prunable)
    (hpruned : s.PrunedExcept (Insert.insert id pending)) :
    (s.pruneCascade id).2 = [] ∧ (s.pruneCascade id).1.Linked ∧
      (s.pruneCascade id).1.PrunedExcept pending ∧ s.Shrinks (s.pruneCascade id).1 ∧
      id ∉ (s.pruneCascade id).1.nodes :=
  pruneLoop_spec _ s id node hs h hne hp le_rfl hpruned

theorem Linked.ne_root_of_mem_indexed (hs : s.Linked) {blockHash : Int64}
    (h : id ∈ s.indexed blockHash) : id ≠ rootId :=
  ((hs.mem_indexed blockHash id).mp h).1

theorem WellFormed.intro (hs : s.Linked) (hp : s.PrunedExcept ∅) : s.WellFormed :=
  { hs with pruned := hp }

/-! ### Removing blocks -/

/-- Taking a worker off a node and pruning. -/
theorem removeAt_spec (worker : KvWorkerId) (s : TreeState) (id : NodeId) (hs : s.WellFormed)
    (hne : id ≠ rootId) :
    (removeAt worker (s, []) id).2 = [] ∧ (removeAt worker (s, []) id).1.WellFormed := by
  unfold removeAt
  dsimp only
  cases h : s.nodes.lookup id with
  | none => exact ⟨rfl, hs⟩
  | some node =>
    dsimp only
    have hlinked := hs.toLinked.insert { node with workers := node.workers.erase worker } h
      rfl rfl rfl
    have hpruned := hs.pruned.insert id { node with workers := node.workers.erase worker }
    have hlookup := Finmap.lookup_insert (a := id)
      (b := { node with workers := node.workers.erase worker }) s.nodes
    split_ifs with hp
    · obtain ⟨hdefects, hlinked', hpruned', -⟩ :=
        pruneCascade_spec hlinked hlookup hne hp hpruned
      exact ⟨by simpa [pruneFrom] using hdefects, .intro hlinked' hpruned'⟩
    · exact ⟨rfl, .intro hlinked (hpruned.of_insert hlookup hp)⟩

theorem foldl_removeAt_spec (worker : KvWorkerId) (ids : List NodeId) (s : TreeState)
    (hs : s.WellFormed) (hne : ∀ id ∈ ids, id ≠ rootId) :
    (ids.foldl (removeAt worker) (s, [])).2 = [] ∧
      (ids.foldl (removeAt worker) (s, [])).1.WellFormed := by
  induction ids generalizing s with
  | nil => exact ⟨rfl, hs⟩
  | cons id ids ih =>
    obtain ⟨hdefects, hwf⟩ := removeAt_spec worker s id hs (hne id List.mem_cons_self)
    have hstate : removeAt worker (s, []) id = ((removeAt worker (s, []) id).1, []) :=
      Prod.ext rfl hdefects
    rw [List.foldl_cons, hstate]
    exact ih _ hwf fun j hj => hne j (List.mem_cons_of_mem _ hj)

theorem remove_spec (order : IterationOrder) (worker : KvWorkerId) (blockHashes : List Int64)
    (hs : s.WellFormed) :
    (s.remove order worker blockHashes).2 = [] ∧
      (s.remove order worker blockHashes).1.WellFormed := by
  refine foldl_removeAt_spec worker _ s hs fun id hid => ?_
  obtain ⟨blockHash, -, hmem⟩ := List.mem_flatMap.mp hid
  split at hmem
  case h_1 => cases hmem
  case h_2 ids hids =>
    have hindexed : id ∈ s.indexed blockHash := by
      rw [indexed, hids]
      exact (order.mem_visit ids id).mp hmem
    exact hs.ne_root_of_mem_indexed hindexed

/-! ### Clearing a worker -/

/-- The nodes noted by the first loop of `clear_worker` are the ones that may be prunable. -/
theorem foldl_clearAt_spec (worker : KvWorkerId) (ids : List NodeId) (s : TreeState)
    (candidates : List NodeId) (hs : s.Linked)
    (hpruned : s.PrunedExcept (fun id => id ∈ candidates))
    (hne : ∀ id ∈ ids, id ≠ rootId)
    (hcand : ∀ id ∈ candidates,
      id ≠ rootId ∧ ∃ node, s.nodes.lookup id = some node ∧ node.Prunable) :
    let state := ids.foldl (clearAt worker) (s, candidates)
    state.1.Linked ∧ state.1.PrunedExcept (fun id => id ∈ state.2) ∧
      ∀ id ∈ state.2,
        id ≠ rootId ∧ ∃ node, state.1.nodes.lookup id = some node ∧ node.Prunable := by
  induction ids generalizing s candidates with
  | nil => exact ⟨hs, hpruned, hcand⟩
  | cons id ids ih =>
    have hrest : ∀ j ∈ ids, j ≠ rootId := fun j hj => hne j (List.mem_cons_of_mem _ hj)
    rw [List.foldl_cons]
    unfold clearAt
    dsimp only
    cases h : s.nodes.lookup id with
    | none => exact ih s candidates hs hpruned hrest hcand
    | some node =>
      -- a node that the worker still holds has not been noted
      have notNoted (hmem : worker ∈ node.workers) (j : NodeId) (hj : j ∈ candidates) :
          j ≠ rootId ∧ ∃ nodej, (s.nodes.insert id
            { node with workers := node.workers.erase worker }).lookup j = some nodej ∧
            nodej.Prunable := by
        obtain ⟨hnej, nodej, hlookup, hp⟩ := hcand j hj
        have hjid : j ≠ id := by
          rintro rfl
          rw [h] at hlookup
          rw [Option.some.inj hlookup, hp.1] at hmem
          simp at hmem
        exact ⟨hnej, nodej, (Finmap.lookup_insert_of_ne _ hjid).trans hlookup, hp⟩
      dsimp only
      split_ifs with hmem hp
      · have hcand' := notNoted hmem
        refine ih _ _ (hs.insert _ h rfl rfl rfl) ?_ hrest ?_
        · refine (hpruned.insert id _).mono fun j hj => ?_
          exact List.mem_append.mpr (hj.symm.imp_right List.mem_singleton.mpr)
        · intro j hj
          rcases List.mem_append.mp hj with hj | hj
          · exact hcand' j hj
          · obtain rfl := List.mem_singleton.mp hj
            exact ⟨hne j List.mem_cons_self, _, Finmap.lookup_insert _, hp⟩
      · refine ih _ _ (hs.insert _ h rfl rfl rfl) ?_ hrest (notNoted hmem)
        exact (hpruned.insert id _).of_insert (Finmap.lookup_insert _) hp
      · exact ih s candidates hs hpruned hrest hcand

theorem pruneIfPresent_of_mem (hmem : id ∈ s.nodes) (hdefects : (s.pruneCascade id).2 = []) :
    pruneIfPresent (s, []) id = ((s.pruneCascade id).1, []) := by
  simp [pruneIfPresent, pruneFrom, hmem, hdefects]

theorem pruneIfPresent_of_not_mem (hmem : id ∉ s.nodes) : pruneIfPresent (s, []) id = (s, []) :=
  if_neg hmem

/-- The second loop of `clear_worker`: pruning one noted node leaves the others prunable or gone. -/
theorem foldl_pruneIfPresent_spec (candidates : List NodeId) (s : TreeState) (hs : s.Linked)
    (hpruned : s.PrunedExcept (fun id => id ∈ candidates))
    (hcand : ∀ id ∈ candidates, id ≠ rootId ∧
      ∀ node, s.nodes.lookup id = some node → node.Prunable) :
    (candidates.foldl pruneIfPresent (s, [])).2 = [] ∧
      (candidates.foldl pruneIfPresent (s, [])).1.WellFormed ∧
      s.Shrinks (candidates.foldl pruneIfPresent (s, [])).1 := by
  induction candidates generalizing s with
  | nil =>
    exact ⟨rfl, .intro hs (hpruned.mono fun j hj => absurd hj List.not_mem_nil), .refl s⟩
  | cons id candidates ih =>
    have hpruned' : s.PrunedExcept (Insert.insert id (fun id => id ∈ candidates)) :=
      hpruned.mono fun j hj => List.mem_cons.mp hj
    obtain ⟨hne, hprunable⟩ := hcand id List.mem_cons_self
    rw [List.foldl_cons]
    by_cases hmem : id ∈ s.nodes
    · obtain ⟨node, h⟩ := Finmap.mem_iff.mp hmem
      obtain ⟨hdefects, hlinked, hpruned'', hshrinks, -⟩ :=
        pruneCascade_spec hs h hne (hprunable node h) hpruned'
      rw [pruneIfPresent_of_mem hmem hdefects]
      obtain ⟨hdefects', hwf, hshrinks'⟩ := ih _ hlinked hpruned'' fun j hj => by
        obtain ⟨hnej, hpj⟩ := hcand j (List.mem_cons_of_mem _ hj)
        exact ⟨hnej, fun node' hlookup => hshrinks.prunable hpj hlookup⟩
      exact ⟨hdefects', hwf, hshrinks.trans hshrinks'⟩
    · rw [pruneIfPresent_of_not_mem hmem]
      refine ih s hs (fun j nodej hj hnej hpj => ?_) fun j hj =>
        hcand j (List.mem_cons_of_mem _ hj)
      rcases hpruned' j nodej hj hnej hpj with rfl | hj'
      · exact absurd (Finmap.mem_of_lookup_eq_some hj) hmem
      · exact hj'

theorem clearWorker_spec (order : IterationOrder) (worker : KvWorkerId) (hs : s.WellFormed) :
    (s.clearWorker order worker).2 = [] ∧ (s.clearWorker order worker).1.WellFormed := by
  obtain ⟨hlinked, hpruned, hcand⟩ := foldl_clearAt_spec worker
    ((order.visit s.nodes.keys).filter (· ≠ rootId)) s [] hs.toLinked
    (hs.pruned.mono (Set.empty_subset _)) (by simp) (by simp)
  obtain ⟨hdefects, hwf, -⟩ := foldl_pruneIfPresent_spec _ _ hlinked hpruned fun id hid => by
    obtain ⟨hne, node, hlookup, hp⟩ := hcand id hid
    exact ⟨hne, fun node' hlookup' => by rwa [Option.some.inj (hlookup'.symm.trans hlookup)]⟩
  exact ⟨hdefects, hwf⟩

/-! ### Eviction -/

/-- A node other than the root without children. -/
def IsLeaf (s : TreeState) (id : NodeId) : Prop :=
  id ≠ rootId ∧ ∃ node, s.nodes.lookup id = some node ∧ node.children.keys = ∅

/-- A leaf with its time stamp. -/
def IsLeafAt (s : TreeState) (id : NodeId) (time : ℕ) : Prop :=
  id ≠ rootId ∧ ∃ node, s.nodes.lookup id = some node ∧ node.children.keys = ∅ ∧
    node.lastUsed = time

theorem isLeaf_iff : s.IsLeaf id ↔ ∃ time, s.IsLeafAt id time := by
  simp [IsLeaf, IsLeafAt]

theorem IsLeafAt.time_eq {time time' : ℕ} (h : s.IsLeafAt id time) (h' : s.IsLeafAt id time') :
    time' = time := by
  obtain ⟨-, node, hlookup, -, rfl⟩ := h
  obtain ⟨-, node', hlookup', -, rfl⟩ := h'
  rw [Option.some.inj (hlookup.symm.trans hlookup')]

/-- What the search for the oldest leaf has found among the nodes it has seen. -/
def FoundOldest (s : TreeState) (seen : List NodeId) : Option (ℕ × NodeId) → Prop
  | none => ∀ id ∈ seen, ¬s.IsLeaf id
  | some (time, id) =>
      s.IsLeafAt id time ∧ ∀ j ∈ seen, ∀ time', s.IsLeafAt j time' → time ≤ time'

/-- A step of the search at a leaf. -/
theorem older_of_isLeafAt {time : ℕ} (h : s.IsLeafAt id time) (oldest : Option (ℕ × NodeId)) :
    s.older oldest id = match oldest with
      | none => some (time, id)
      | some (time', id') => if time < time' then some (time, id) else some (time', id') := by
  obtain ⟨hne, node, hlookup, hchildren, rfl⟩ := h
  rw [older, hlookup]
  exact if_neg (by simp [hne, hchildren])

/-- A step of the search at any other node. -/
theorem older_of_not_isLeaf (h : ¬s.IsLeaf id) (oldest : Option (ℕ × NodeId)) :
    s.older oldest id = oldest := by
  unfold older
  cases hlookup : s.nodes.lookup id with
  | none => rfl
  | some node =>
      refine if_pos ?_
      by_contra hskip
      push Not at hskip
      exact h ⟨hskip.1, node, hlookup, hskip.2⟩

theorem FoundOldest.older {seen : List NodeId} {oldest : Option (ℕ × NodeId)}
    (h : s.FoundOldest seen oldest) (id : NodeId) :
    s.FoundOldest (seen ++ [id]) (s.older oldest id) := by
  by_cases hleaf : s.IsLeaf id
  · obtain ⟨time, hid⟩ := isLeaf_iff.mp hleaf
    have hself : ∀ time', s.IsLeafAt id time' → time ≤ time' := fun _ h' => (hid.time_eq h').ge
    rw [older_of_isLeafAt hid]
    cases oldest with
    | none =>
        refine ⟨hid, List.forall_mem_append.mpr ⟨fun j hj time' hj' => ?_, ?_⟩⟩
        · exact absurd (isLeaf_iff.mpr ⟨time', hj'⟩) (h j hj)
        · exact List.forall_mem_singleton.mpr hself
    | some found =>
        obtain ⟨hfound, hmin⟩ := h
        dsimp only
        split_ifs with hlt
        · refine ⟨hid, List.forall_mem_append.mpr ⟨fun j hj time' hj' => ?_, ?_⟩⟩
          · exact hlt.le.trans (hmin j hj time' hj')
          · exact List.forall_mem_singleton.mpr hself
        · refine ⟨hfound, List.forall_mem_append.mpr ⟨hmin, ?_⟩⟩
          exact List.forall_mem_singleton.mpr fun time' h' => (not_lt.mp hlt).trans (hself time' h')
  · rw [older_of_not_isLeaf hleaf]
    cases oldest with
    | none => exact List.forall_mem_append.mpr ⟨h, List.forall_mem_singleton.mpr hleaf⟩
    | some found =>
        refine ⟨h.1, List.forall_mem_append.mpr ⟨h.2, List.forall_mem_singleton.mpr ?_⟩⟩
        exact fun time' h' => absurd (isLeaf_iff.mpr ⟨time', h'⟩) hleaf

/-- **The search** finds a leaf whose time stamp is the smallest among the leaves, if there is a
leaf. -/
theorem foundOldest_foldl (s : TreeState) (ids : List NodeId) :
    s.FoundOldest ids (ids.foldl s.older none) := by
  induction ids using List.reverseRecOn with
  | nil => simp [FoundOldest]
  | append_singleton ids id ih =>
      rw [List.foldl_append]
      exact ih.older id

/-- A tree with a node besides the root has a leaf. -/
theorem Linked.exists_isLeaf (hs : s.Linked) (hcount : 0 < s.nodeCount) :
    ∃ id ∈ s.nodes.keys, s.IsLeaf id := by
  have hroot : rootId ∈ s.nodes.keys := (mem_keys_iff_label s rootId).mpr hs.tree.root_live
  unfold nodeCount at hcount
  obtain ⟨id, hid, hne⟩ := Finset.exists_mem_ne (by omega : 1 < s.nodes.keys.card) rootId
  obtain ⟨j, hj, hnej, hchild⟩ := hs.tree.exists_leaf (mem_keys_iff_label s) hid hne
  obtain ⟨node, hlookup⟩ := Finmap.mem_iff.mp (Finmap.mem_keys.mp hj)
  exact ⟨j, hj, hnej, node, hlookup, keys_eq_empty_of_child hlookup hchild⟩

/-- The second loop of `evict_lru` has a victim as long as the bound is not met. -/
theorem Linked.exists_victim (hs : s.Linked) (hcount : 0 < s.nodeCount) (order : IterationOrder) :
    ∃ time victim, (order.visit s.nodes.keys).foldl s.older none = some (time, victim) ∧
      s.IsLeafAt victim time ∧ ∀ j time', s.IsLeafAt j time' → time ≤ time' := by
  obtain ⟨id, hmem, hleaf⟩ := hs.exists_isLeaf hcount
  have hfound := foundOldest_foldl s (order.visit s.nodes.keys)
  cases hsearch : (order.visit s.nodes.keys).foldl s.older none with
  | none =>
      rw [hsearch] at hfound
      exact absurd hleaf (hfound id ((order.mem_visit _ _).mpr hmem))
  | some found =>
      rw [hsearch] at hfound
      refine ⟨found.1, found.2, rfl, hfound.1, fun j time' hj => hfound.2 j ?_ time' hj⟩
      obtain ⟨-, node, hlookup, -⟩ := hj
      exact (order.mem_visit _ _).mpr (Finmap.mem_keys.mpr (Finmap.mem_of_lookup_eq_some hlookup))

theorem modify_eq (h : s.nodes.lookup id = some node) (f : Node → Node) :
    s.modify id f = { s with nodes := s.nodes.insert id (f node) } := by
  rw [modify, h]

theorem lookup_modify_ne (f : Node → Node) {j : NodeId} (hne : j ≠ id) :
    (s.modify id f).nodes.lookup j = s.nodes.lookup j := by
  unfold modify
  cases s.nodes.lookup id with
  | none => rfl
  | some node => exact Finmap.lookup_insert_of_ne _ hne

/-- A node that changed and then was removed leaves the others as they were. -/
theorem Shrinks.of_modify {f : Node → Node} (h : (s.modify id f).Shrinks t) (hgone : id ∉ t.nodes) :
    s.Shrinks t := by
  intro j node' hj
  obtain ⟨node, hlookup, hrest⟩ := h j node' hj
  have hne : j ≠ id := by
    rintro rfl
    exact hgone (Finmap.mem_of_lookup_eq_some hj)
  exact ⟨node, (lookup_modify_ne f hne).symm.trans hlookup, hrest⟩

theorem Shrinks.card_lt (h : s.Shrinks t) (hid : id ∈ s.nodes) (hgone : id ∉ t.nodes) :
    t.nodes.keys.card < s.nodes.keys.card := by
  refine Finset.card_lt_card ((Finset.ssubset_iff_of_subset h.keys_subset).mpr ⟨id, ?_, ?_⟩)
  · exact Finmap.mem_keys.mpr hid
  · exact fun hmem => hgone (Finmap.mem_keys.mp hmem)

/-- Evicting a leaf. -/
theorem evictLeaf_spec {pending : Set NodeId} (hs : s.Linked) (hpruned : s.PrunedExcept pending)
    (hleaf : s.IsLeaf id) :
    let t := s.modify id fun node => { node with workers := ∅ }
    (t.pruneCascade id).2 = [] ∧ (t.pruneCascade id).1.Linked ∧
      (t.pruneCascade id).1.PrunedExcept pending ∧ s.Shrinks (t.pruneCascade id).1 ∧
      (t.pruneCascade id).1.nodes.keys.card < s.nodes.keys.card := by
  obtain ⟨hne, node, hlookup, hchildren⟩ := hleaf
  intro t
  have ht : t = { s with nodes := s.nodes.insert id { node with workers := ∅ } } :=
    modify_eq hlookup _
  have hlinked : t.Linked := ht ▸ hs.insert _ hlookup rfl rfl rfl
  have hpruned' : t.PrunedExcept (Insert.insert id pending) := ht ▸ hpruned.insert id _
  have hlookup' : t.nodes.lookup id = some { node with workers := ∅ } := by
    rw [ht]
    exact Finmap.lookup_insert _
  obtain ⟨hdefects, hlinked', hpruned'', hshrinks, hgone⟩ :=
    pruneCascade_spec hlinked hlookup' hne ⟨rfl, hchildren⟩ hpruned'
  have hshrinks' := hshrinks.of_modify hgone
  exact ⟨hdefects, hlinked', hpruned'', hshrinks',
    hshrinks'.card_lt (Finmap.mem_of_lookup_eq_some hlookup) hgone⟩

/-- The second loop of `evict_lru`, as long as its cap is at least the number of nodes. -/
theorem evictOldest_spec {pending : Set NodeId} (order : IterationOrder) (maxSize iterations : ℕ)
    (s : TreeState) (hs : s.Linked) (hpruned : s.PrunedExcept pending)
    (hcap : s.nodes.keys.card ≤ iterations) :
    (evictOldest order maxSize iterations (s, [])).2 = [] ∧
      (evictOldest order maxSize iterations (s, [])).1.Linked ∧
      (evictOldest order maxSize iterations (s, [])).1.PrunedExcept pending ∧
      s.Shrinks (evictOldest order maxSize iterations (s, [])).1 ∧
      (evictOldest order maxSize iterations (s, [])).1.nodeCount ≤ maxSize := by
  induction iterations generalizing s with
  | zero =>
    have hcount : s.nodeCount ≤ maxSize := by
      unfold nodeCount
      omega
    rw [evictOldest, if_pos hcount]
    exact ⟨rfl, hs, hpruned, .refl s, hcount⟩
  | succ iterations ih =>
    unfold evictOldest
    split_ifs with hcount
    · exact ⟨rfl, hs, hpruned, .refl s, hcount⟩
    · obtain ⟨time, victim, hvictim, hleaf, -⟩ := hs.exists_victim (by omega) order
      obtain ⟨hdefects, hlinked, hpruned', hshrinks, hlt⟩ :=
        evictLeaf_spec hs hpruned (isLeaf_iff.mpr ⟨time, hleaf⟩)
      simp only [hvictim, pruneFrom, hdefects, List.append_nil]
      obtain ⟨hdefects', hlinked', hpruned'', hshrinks', hcount'⟩ :=
        ih _ hlinked hpruned' (by omega)
      exact ⟨hdefects', hlinked', hpruned'', hshrinks.trans hshrinks', hcount'⟩

/-- No leaf is prunable before an eviction, so its first loop has nothing to do. -/
theorem evictLru_spec (order : IterationOrder) (maxSize : ℕ) (hs : s.WellFormed) :
    (s.evictLru order maxSize).2.2 = [] ∧ (s.evictLru order maxSize).1.WellFormed := by
  unfold evictLru
  split_ifs
  · exact ⟨rfl, hs⟩
  · have hempty : (order.visit s.nodes.keys).filter s.isPrunable = [] := by
      rw [List.filter_eq_nil_iff]
      intro id _ hkeep
      obtain ⟨hne, node, h, hp⟩ := isPrunable_iff.mp hkeep
      exact hs.pruned id node h hne hp
    simp only [hempty, evictEmpty]
    obtain ⟨hdefects, hlinked, hpruned, -⟩ := evictOldest_spec order maxSize
      (s.nodes.keys.card + 1) s hs.toLinked hs.pruned (by omega)
    exact ⟨hdefects, .intro hlinked hpruned⟩

/-! ### Inserting a chain -/

section Insert

variable {parentId : NodeId} {parent : Node}

/-- The state after a child was created. -/
theorem createChild_eq (hs : s.Linked) (h : s.nodes.lookup parentId = some parent)
    (blockHash : Int64) (now : ℕ) :
    s.createChild parentId blockHash now =
      ({ nodes := (s.nodes.insert s.nextId (Node.newChild blockHash parentId now)).insert parentId
            { parent with children := parent.children.insert blockHash s.nextId }
         byHash := s.byHash.insert blockHash (Insert.insert s.nextId (s.indexed blockHash))
         nextId := s.nextId + 1 }, some s.nextId) := by
  have hne : parentId ≠ s.nextId := (hs.fresh parentId (Finmap.mem_of_lookup_eq_some h)).ne
  simp [createChild, Finmap.lookup_insert_of_ne _ hne, h]

theorem lookup_createChild (hs : s.Linked) (h : s.nodes.lookup parentId = some parent)
    (blockHash : Int64) (now : ℕ) (j : NodeId) :
    (s.createChild parentId blockHash now).1.nodes.lookup j =
      if j = parentId then
        some { parent with children := parent.children.insert blockHash s.nextId }
      else if j = s.nextId then some (Node.newChild blockHash parentId now)
      else s.nodes.lookup j := by
  rw [createChild_eq hs h]
  dsimp only
  split_ifs with hj hj'
  · subst hj
    exact Finmap.lookup_insert _
  · subst hj'
    rw [Finmap.lookup_insert_of_ne _ hj, Finmap.lookup_insert]
  · rw [Finmap.lookup_insert_of_ne _ hj, Finmap.lookup_insert_of_ne _ hj']

theorem Linked.lookup_nextId (hs : s.Linked) : s.nodes.lookup s.nextId = none :=
  Finmap.lookup_eq_none.mpr fun hmem => lt_irrefl _ (hs.fresh _ hmem)

theorem links_createChild (hs : s.Linked) (h : s.nodes.lookup parentId = some parent)
    (blockHash : Int64) (now : ℕ) :
    (s.createChild parentId blockHash now).1.links =
      s.links.addLeaf s.nextId parentId blockHash := by
  have hne : parentId ≠ s.nextId := (hs.fresh parentId (Finmap.mem_of_lookup_eq_some h)).ne
  ext j : 2
  · simp only [links, Links.addLeaf, lookup_createChild hs h]
    split_ifs with hj hj'
    · subst hj
      simp [Function.update_of_ne hne, h]
    · subst hj'
      simp [Node.newChild]
    · simp [Function.update_of_ne hj']
  · simp only [links, Links.addLeaf, lookup_createChild hs h]
    split_ifs with hj hj'
    · subst hj
      simp [Function.update_of_ne hne, h]
    · subst hj'
      simp [Node.newChild]
    · simp [Function.update_of_ne hj']
  · funext blockHash'
    simp only [links, Links.addLeaf, lookup_createChild hs h]
    by_cases hj : j = parentId
    · subst hj
      by_cases hh : blockHash' = blockHash
      · subst hh
        simp
      · simp [hh, h, Finmap.lookup_insert_of_ne _ hh]
    · by_cases hj' : j = s.nextId
      · subst hj'
        simp [hj, Node.newChild, hs.lookup_nextId]
      · simp [hj, hj']

theorem linked_createChild (hs : s.Linked) (h : s.nodes.lookup parentId = some parent)
    {blockHash : Int64} (hchild : s.links.child parentId blockHash = none) (now : ℕ) :
    (s.createChild parentId blockHash now).1.Linked := by
  have hlt := hs.fresh parentId (Finmap.mem_of_lookup_eq_some h)
  have hlinks := links_createChild hs h blockHash now
  have hnone : s.links.label s.nextId = none := by simp [links, hs.lookup_nextId]
  have hroot : rootId ≠ s.nextId :=
    (hs.fresh rootId (label_ne_none_iff.mp hs.tree.root_live)).ne
  refine ⟨hlinks ▸ hs.tree.addLeaf hnone (by simp [links, h]) hlt hchild, fun blockHash' j => ?_,
    fun blockHash' ids hids => ?_, fun j hj => ?_⟩
  · rw [hlinks, indexed, createChild_eq hs h]
    dsimp only [Links.addLeaf]
    have hmem := hs.mem_indexed blockHash' j
    by_cases hh : blockHash' = blockHash
    · subst hh
      rw [Finmap.lookup_insert, Option.getD_some, Finset.mem_insert]
      by_cases hj : j = s.nextId
      · simp [hj, hroot.symm]
      · simpa [hj] using hmem
    · rw [Finmap.lookup_insert_of_ne _ hh]
      change j ∈ s.indexed blockHash' ↔ _
      by_cases hj : j = s.nextId
      · subst hj
        have hnot : s.nextId ∉ s.indexed blockHash' := by simp [hmem, hnone]
        simpa [Ne.symm hh] using hnot
      · simpa [hj] using hmem
  · rw [createChild_eq hs h] at hids
    by_cases hh : blockHash' = blockHash
    · subst hh
      rw [Finmap.lookup_insert] at hids
      rw [← Option.some.inj hids]
      exact Finset.insert_nonempty _ _
    · rw [Finmap.lookup_insert_of_ne _ hh] at hids
      exact hs.nonempty blockHash' ids hids
  · rw [createChild_eq hs h] at hj ⊢
    rcases Finmap.mem_insert.mp hj with rfl | hj
    · exact hlt.trans (Nat.lt_succ_self _)
    · rcases Finmap.mem_insert.mp hj with rfl | hj
      · exact Nat.lt_succ_self _
      · exact (hs.fresh j hj).trans (Nat.lt_succ_self _)

end Insert

/-- The child found or created is live, and only it may be prunable. -/
theorem childFor_spec (hs : s.WellFormed) (hmem : id ∈ s.nodes) (blockHash : Int64) (now : ℕ) :
    ∃ t child node, s.childFor id blockHash now = (t, some child) ∧ t.Linked ∧
      t.nodes.lookup child = some node ∧ t.PrunedExcept {child} := by
  obtain ⟨parent, h⟩ := Finmap.mem_iff.mp hmem
  unfold childFor
  cases hchild : s.links.child id blockHash with
  | some child =>
    have hchild' : ((s.nodes.lookup id).bind fun node => node.children.lookup blockHash) =
        some child := hchild
    obtain ⟨node, hlookup⟩ := Finmap.mem_iff.mp
      (label_ne_none_iff.mp (hs.tree.live_of_child hchild))
    rw [hchild']
    exact ⟨s, child, node, rfl, hs.toLinked, hlookup, hs.pruned.mono (Set.empty_subset _)⟩
  | none =>
    have hchild' : ((s.nodes.lookup id).bind fun node => node.children.lookup blockHash) = none :=
      hchild
    rw [hchild']
    have hne : s.nextId ≠ id := (hs.fresh id hmem).ne'
    refine ⟨(s.createChild id blockHash now).1, s.nextId, Node.newChild blockHash id now, ?_,
      linked_createChild hs.toLinked h hchild now, ?_, fun j node hj hnej hp => ?_⟩
    · rw [createChild_eq hs.toLinked h]
    · rw [lookup_createChild hs.toLinked h, if_neg hne, if_pos rfl]
    · rw [lookup_createChild hs.toLinked h] at hj
      split_ifs at hj with hjid hjnew
      · have hnode := Option.some.inj hj
        have hkeys := hp.2
        rw [← hnode, ← Finset.not_nonempty_iff_eq_empty] at hkeys
        exact absurd ⟨blockHash, Finmap.mem_keys.mpr (Finmap.mem_insert.mpr (.inl rfl))⟩ hkeys
      · exact hjnew
      · exact absurd (hs.pruned j node hj hnej hp) (Set.notMem_empty j)

/-- Recording a worker at the only node that may be prunable. -/
theorem wellFormed_record (hs : s.Linked) (h : s.nodes.lookup id = some node)
    (hpruned : s.PrunedExcept {id}) (worker : KvWorkerId) (now : ℕ) :
    WellFormed { s with
      nodes := s.nodes.insert id
        { node with workers := Insert.insert worker node.workers, lastUsed := now } } := by
  refine .intro (hs.insert _ h rfl rfl rfl) ?_
  have hpruned' : s.PrunedExcept (Insert.insert id ∅) := by simpa using hpruned
  refine (hpruned'.insert id _).mono (by simp) |>.of_insert (Finmap.lookup_insert _) ?_
  exact fun hp => Finset.insert_ne_empty _ _ hp.1

theorem insertChain_spec (worker : KvWorkerId) (now : ℕ) (blockHashes : List Int64)
    (s : TreeState) (current : NodeId) (hs : s.WellFormed) (hmem : current ∈ s.nodes) :
    (insertChain worker now blockHashes s current).2 = [] ∧
      (insertChain worker now blockHashes s current).1.WellFormed := by
  induction blockHashes generalizing s current with
  | nil => exact ⟨rfl, hs⟩
  | cons blockHash blockHashes ih =>
    obtain ⟨t, child, node, heq, ht, hlookup, hpruned⟩ := childFor_spec hs hmem blockHash now
    unfold insertChain
    simp only [heq, hlookup]
    exact ih _ child (wellFormed_record ht hlookup hpruned worker now)
      (Finmap.mem_insert.mpr (.inl rfl))

/-- A chain is attached to a live node. -/
theorem resolveParent_mem (hs : s.Linked) (order : IterationOrder) (worker : KvWorkerId)
    (parentHash : Option Int64) : s.resolveParent order worker parentHash ∈ s.nodes := by
  have hroot : rootId ∈ s.nodes := label_ne_none_iff.mp hs.tree.root_live
  unfold resolveParent
  cases parentHash with
  | none => exact hroot
  | some blockHash =>
    dsimp only
    cases hids : s.byHash.lookup blockHash with
    | none => exact hroot
    | some candidates =>
      have hlive {j : NodeId} (hj : j ∈ order.visit candidates) : j ∈ s.nodes := by
        have hindexed : j ∈ s.indexed blockHash := by
          rw [indexed, hids]
          exact (order.mem_visit candidates j).mp hj
        exact label_ne_none_iff.mp (by simp [((hs.mem_indexed blockHash j).mp hindexed).2])
      dsimp only
      split_ifs
      · cases hhead : (order.visit candidates).head? with
        | none => exact hroot
        | some j => exact hlive (List.mem_of_mem_head? hhead)
      · cases hfind : (order.visit candidates).find? _ with
        | none => exact hroot
        | some j => exact hlive (List.mem_of_find?_eq_some hfind)

theorem insert_spec (order : IterationOrder) (now : ℕ) (worker : KvWorkerId)
    (parentHash : Option Int64) (blockHashes : List Int64) (hs : s.WellFormed) :
    (s.insert order now worker parentHash blockHashes).2 = [] ∧
      (s.insert order now worker parentHash blockHashes).1.WellFormed := by
  unfold insert
  split
  · exact ⟨rfl, hs⟩
  · exact insertChain_spec worker now _ s _ hs
      (resolveParent_mem hs.toLinked order worker parentHash)

/-! ### Matching -/

/-- Touching a node. -/
theorem WellFormed.touch (hs : s.WellFormed) (id : NodeId) (now : ℕ) :
    (s.modify id fun node => { node with lastUsed := now }).WellFormed := by
  unfold modify
  cases h : s.nodes.lookup id with
  | none => exact hs
  | some node =>
    refine .intro (hs.toLinked.insert _ h rfl rfl rfl) fun j nodej hj hne hp => ?_
    rw [lookup_insert_eq] at hj
    split_ifs at hj with hjid
    · subst hjid
      obtain rfl := Option.some.inj hj
      exact hs.pruned j node h hne hp
    · exact hs.pruned j nodej hj hne hp

theorem matchChain_spec (now : ℕ) (blockHashes : List Int64) (s : TreeState) (current : NodeId)
    (matched : ℕ) (last : Option NodeId) (hs : s.WellFormed) :
    (matchChain now blockHashes s current matched last).1.WellFormed := by
  induction blockHashes generalizing s current matched last with
  | nil => exact hs
  | cons blockHash blockHashes ih =>
    unfold matchChain
    split
    case h_1 => exact hs
    case h_2 id _ => exact ih _ id (matched + 1) (some id) (hs.touch id now)

theorem matchPrefix_spec (order : IterationOrder) (now : ℕ) (parentHash : Option Int64)
    (blockHashes : List Int64) (hs : s.WellFormed) :
    (s.matchPrefix order now parentHash blockHashes).1.WellFormed := by
  unfold matchPrefix
  split
  · exact hs
  · exact matchChain_spec now _ s _ 0 none hs

/-! ### Runs -/

theorem wellFormed_new (now : ℕ) : (new now).WellFormed := by
  have hlookup (id : NodeId) : (new now).nodes.lookup id =
      if id = rootId then some ⟨rootHashSentinel, none, ∅, ∅, now⟩ else none := by
    split_ifs with h
    · subst h
      exact Finmap.lookup_singleton_eq
    · exact Finmap.lookup_eq_none.mpr fun hmem => h ((Finmap.mem_singleton _ _ _).mp hmem)
  have hlinks : ∀ id, id ≠ rootId → (new now).links.label id = none := by
    intro id hne
    simp [links, hlookup, hne]
  refine .intro ⟨⟨by simp [links, hlookup], by simp [links, hlookup], fun id hne hlive => ?_,
    fun p k id hc => ?_⟩, fun blockHash id => ?_, fun blockHash ids hids => ?_, fun id hid => ?_⟩
    fun id node h hne _ => ?_
  · exact absurd (hlinks id hne) hlive
  · by_cases hp : p = rootId
    · simp [links, hlookup, hp] at hc
    · simp [links, hlookup, hp] at hc
  · have hindexed : (new now).indexed blockHash = ∅ := by simp [new, indexed]
    rw [hindexed]
    refine iff_of_false (Finset.notMem_empty id) ?_
    rintro ⟨hne, hlabel⟩
    rw [hlinks id hne] at hlabel
    cases hlabel
  · simp [new] at hids
  · have hid' : id = rootId := (Finmap.mem_singleton _ _ _).mp hid
    simp [hid', new, rootId]
  · simp [hlookup, hne] at h

theorem step_spec (op : TreeOperation) (hs : s.WellFormed) :
    (s.step op).2 = [] ∧ (s.step op).1.WellFormed := by
  cases op with
  | insert order now worker parentHash blockHashes =>
    exact insert_spec order now worker parentHash blockHashes hs
  | remove order worker blockHashes => exact remove_spec order worker blockHashes hs
  | clearWorker order worker => exact clearWorker_spec order worker hs
  | evictLru order maxSize => exact evictLru_spec order maxSize hs
  | matchPrefix order now parentHash blockHashes =>
    exact ⟨rfl, matchPrefix_spec order now parentHash blockHashes hs⟩

/-- **The representation invariant of the hash tree.** After every sequence of calls on an empty
tree: a node other than the root has a live parent that lists it under its hash, and a listed child
is a live node that has this parent and this hash; the reverse index lists exactly the nodes other
than the root that carry a hash, and no hash without nodes; no node other than the root is held by
nobody and has no children; the node count is the number of nodes other than the root; and every
node is reachable from the root. No call has taken a defensive branch, so no cascade of prunes has
gone on for more steps than there were nodes. -/
theorem run_wellFormed (now : ℕ) (ops : List TreeOperation) :
    let s := ((new now).run ops).1
    (∀ id node, s.nodes.lookup id = some node → id ≠ rootId →
      ∃ parentId parent, node.parent = some parentId ∧ s.nodes.lookup parentId = some parent ∧
        parent.children.lookup node.blockHash = some id) ∧
    (∀ parentId parent blockHash id, s.nodes.lookup parentId = some parent →
      parent.children.lookup blockHash = some id →
      ∃ node, s.nodes.lookup id = some node ∧ id ≠ rootId ∧ node.parent = some parentId ∧
        node.blockHash = blockHash) ∧
    (∀ blockHash id, (∃ ids, s.byHash.lookup blockHash = some ids ∧ id ∈ ids) ↔
      id ≠ rootId ∧ ∃ node, s.nodes.lookup id = some node ∧ node.blockHash = blockHash) ∧
    (∀ blockHash ids, s.byHash.lookup blockHash = some ids → ids.Nonempty) ∧
    (∀ id node, s.nodes.lookup id = some node → id ≠ rootId →
      ¬(node.workers = ∅ ∧ node.children.keys = ∅)) ∧
    s.nodeCount = (s.nodes.keys.erase rootId).card ∧
    (∀ id ∈ s.nodes, s.links.Reachable rootId id) ∧
    ((new now).run ops).2 = [] := by
  have hrun : ((new now).run ops).2 = [] ∧ ((new now).run ops).1.WellFormed := by
    refine Transition.foldl_invariant (P := fun _ _ => True)
      (I := fun state : TreeState × List Defect => state.2 = [] ∧ state.1.WellFormed) ?_
      (Transition.along_of_forall (fun _ _ => trivial) _ ops) ⟨rfl, wellFormed_new now⟩
    intro state op _ hstate
    obtain ⟨hdefects, hwf⟩ := step_spec op hstate.2
    exact ⟨by rw [hstate.1, hdefects]; rfl, hwf⟩
  intro s
  have hs : s.WellFormed := hrun.2
  have hroot : rootId ∈ s.nodes.keys := (mem_keys_iff_label s rootId).mpr hs.tree.root_live
  refine ⟨fun id node h hne => ?_, fun parentId parent blockHash id h hc => ?_,
    fun blockHash id => ?_, hs.nonempty, fun id node h hne hp => hs.pruned id node h hne hp, ?_,
    fun id hid => hs.tree.reachable (label_ne_none_iff.mpr hid), hrun.1⟩
  · obtain ⟨p, k, hp, -, hlive, hk, hc⟩ := hs.tree.parent_spec id hne (by simp [links, h])
    obtain ⟨parent, hparent⟩ := Finmap.mem_iff.mp (label_ne_none_iff.mp hlive)
    obtain rfl : node.blockHash = k := by simpa [links, h] using hk
    exact ⟨p, parent, by simpa [links, h] using hp, hparent, by simpa [links, hparent] using hc⟩
  · have hc' : s.links.child parentId blockHash = some id := by simpa [links, h] using hc
    obtain ⟨node, hnode⟩ := Finmap.mem_iff.mp
      (label_ne_none_iff.mp (hs.tree.live_of_child hc'))
    obtain ⟨hparent, hhash⟩ := hs.tree.child_spec _ _ _ hc'
    exact ⟨node, hnode, hs.tree.ne_root_of_child hc', by simpa [links, hnode] using hparent,
      by simpa [links, hnode] using hhash⟩
  · have hmem := hs.mem_indexed blockHash id
    unfold indexed at hmem
    cases hids : s.byHash.lookup blockHash with
    | none => simpa [hids, links] using hmem
    | some ids => simpa [hids, links] using hmem
  · rw [nodeCount, Finset.card_erase_of_mem hroot]

end TreeState

end SglangRs.Router
