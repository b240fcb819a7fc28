import Mathlib.Data.Finset.Sort
import SglangRs.Router.HashTreeInvariant

/-!
# The hash tree as a family of block sets

Each worker reports its own stream of events: chains of blocks it has stored, blocks it has removed,
and that it has cleared its cache. Folding the stream of a worker gives the set of blocks it holds.
The tree keeps these sets for all workers together, in one set of nodes, and is therefore sensitive
to what the streams say about the parents of a block: the streams are chain-consistent if every
block has one parent hash, and a worker holds the parent of a block when it stores the block.

For chain-consistent streams the tree represents the block sets whatever the order in which the
streams are interleaved: a block has one node, which lists the workers that hold the block, and the
blocks that have nodes are those from which a block that somebody holds descends.

## Main definitions

* `Router.KvCacheEvent`, `Router.blockSet`: the events of a worker and the blocks it holds.
* `Router.ChainConsistent`: the condition on the streams.
* `TreeState.Lists`, `TreeState.contents`: what the tree says about the workers.
* `TreeState.Represents`: the tree represents a family of block sets.

## Main results

* `TreeState.Represents.step`: every call other than an eviction keeps the representation.
* `TreeState.matchPrefix_finds`: what a lookup finds.
* `TreeState.run_represents_blockSets`: the tree after any interleaving.
-/

namespace SglangRs.Router

open Arena Transition

/-- What a worker reports about its cache. -/
inductive KvCacheEvent where
  | blockStored (parentBlockHash : Option Int64) (blockHashes : List Int64)
  | blockRemoved (blockHashes : List Int64)
  | allBlocksCleared
deriving DecidableEq, Repr

/-! ### Block sets -/

/-- The blocks a worker holds after an event. -/
def KvCacheEvent.update (held : Finset Int64) : KvCacheEvent → Finset Int64
  | .blockStored _ blockHashes => held ∪ blockHashes.toFinset
  | .blockRemoved blockHashes => held \ blockHashes.toFinset
  | .allBlocksCleared => ∅

/-- The blocks a worker holds after a stream of events. -/
def blockSet (events : List KvCacheEvent) : Finset Int64 := events.foldl KvCacheEvent.update ∅

/-- The blocks follow each other below a given parent hash. -/
def Chained (par : Int64 → Option Int64) : Option Int64 → List Int64 → Prop
  | _, [] => True
  | parentHash, blockHash :: blockHashes =>
      par blockHash = parentHash ∧ Chained par (some blockHash) blockHashes

/-- The blocks of a stored chain appear below their parents, and the worker holds the parent of the
first one. -/
def KvCacheEvent.Fits (par : Int64 → Option Int64) (held : Finset Int64) : KvCacheEvent → Prop
  | .blockStored parentHash blockHashes =>
      Chained par parentHash blockHashes ∧
        (blockHashes ≠ [] → ∀ blockHash, parentHash = some blockHash → blockHash ∈ held)
  | .blockRemoved _ => True
  | .allBlocksCleared => True

/-- Every block appears under the parent hash that `par` gives, and the worker holds the parent of a
block when it stores the block. -/
def ChainConsistent (par : Int64 → Option Int64) (events : List KvCacheEvent) : Prop :=
  Along KvCacheEvent.update (KvCacheEvent.Fits par) ∅ events

/-- The event that a call applies, with its worker. -/
def TreeOperation.event : TreeOperation → Option (KvWorkerId × KvCacheEvent)
  | .insert _ _ worker parentHash blockHashes => some (worker, .blockStored parentHash blockHashes)
  | .remove _ worker blockHashes => some (worker, .blockRemoved blockHashes)
  | .clearWorker _ worker => some (worker, .allBlocksCleared)
  | .evictLru _ _ => none
  | .matchPrefix _ _ _ _ => none

/-- The event that a call applies for a worker. -/
def TreeOperation.eventOf (worker : KvWorkerId) (op : TreeOperation) : Option KvCacheEvent :=
  op.event.bind fun x => if x.1 = worker then some x.2 else none

/-- The events that a sequence of calls applies for a worker, in order. -/
def stream (worker : KvWorkerId) (ops : List TreeOperation) : List KvCacheEvent :=
  ops.filterMap (TreeOperation.eventOf worker)

/-- A call that evicts nodes. -/
def TreeOperation.Evicts : TreeOperation → Prop
  | .evictLru _ _ => True
  | _ => False

/-- The calls apply the streams of all workers, interleaved in some order, and evict nothing. -/
def Interleaves (streams : KvWorkerId → List KvCacheEvent) (ops : List TreeOperation) : Prop :=
  (∀ op ∈ ops, ¬op.Evicts) ∧ ∀ worker, stream worker ops = streams worker

theorem stream_cons_of_some {op : TreeOperation} {ops : List TreeOperation} {worker : KvWorkerId}
    {event : KvCacheEvent} (h : op.eventOf worker = some event) :
    stream worker (op :: ops) = event :: stream worker ops :=
  List.filterMap_cons_some h

theorem stream_cons_of_none {op : TreeOperation} {ops : List TreeOperation} {worker : KvWorkerId}
    (h : op.eventOf worker = none) : stream worker (op :: ops) = stream worker ops :=
  List.filterMap_cons_none h

namespace TreeState

variable {s t u : TreeState} {id : NodeId} {worker : KvWorkerId} {par : Int64 → Option Int64}

/-- The node lists the worker. -/
def HeldBy (s : TreeState) (id : NodeId) (worker : KvWorkerId) : Prop :=
  ∃ node, s.nodes.lookup id = some node ∧ worker ∈ node.workers

/-- A node of the hash lists the worker. -/
def Lists (s : TreeState) (blockHash : Int64) (worker : KvWorkerId) : Prop :=
  ∃ id node, id ≠ rootId ∧ s.nodes.lookup id = some node ∧ node.blockHash = blockHash ∧
    worker ∈ node.workers

/-- The hash of the parent of a node, if that is not the root. -/
def parentHash (s : TreeState) (node : Node) : Option Int64 :=
  node.parent.bind (s.links.tag rootId)

/-- The blocks of the tree, each with the hash of its parent and the workers listed for it. -/
def contents (s : TreeState) : Set (Int64 × Option Int64 × Finset KvWorkerId) :=
  {block | ∃ id node, id ≠ rootId ∧ s.nodes.lookup id = some node ∧
    block = (node.blockHash, s.parentHash node, node.workers)}

theorem lists_iff {blockHash : Int64} : s.Lists blockHash worker ↔
    ∃ id, id ≠ rootId ∧ s.links.label id = some blockHash ∧ s.HeldBy id worker := by
  constructor
  · rintro ⟨id, node, hne, h, rfl, hw⟩
    exact ⟨id, hne, by simp [links, h], node, h, hw⟩
  · rintro ⟨id, hne, hlabel, node, h, hw⟩
    exact ⟨id, node, hne, h, by simpa [links, h] using hlabel, hw⟩

theorem HeldBy.label_ne_none (h : s.HeldBy id worker) : s.links.label id ≠ none := by
  obtain ⟨node, h, -⟩ := h
  simp [links, h]

/-! ### Pruning keeps the nodes that are held -/

theorem nodes_detach (s : TreeState) (id parentId : NodeId) (blockHash : Int64) :
    (s.detach id parentId blockHash).1.nodes = (s.unlink parentId blockHash).1.nodes.erase id := by
  unfold detach unindex
  dsimp only
  split
  · rfl
  · split <;> rfl

theorem heldBy_unlink (s : TreeState) (parentId : NodeId) (blockHash : Int64)
    (h : s.HeldBy id worker) : (s.unlink parentId blockHash).1.HeldBy id worker := by
  obtain ⟨node, h, hw⟩ := h
  unfold unlink
  cases hp : s.nodes.lookup parentId with
  | none => exact ⟨node, h, hw⟩
  | some parent =>
    by_cases hid : id = parentId
    · subst hid
      obtain rfl : node = parent := Option.some.inj (h.symm.trans hp)
      exact ⟨_, Finmap.lookup_insert _, hw⟩
    · exact ⟨node, (Finmap.lookup_insert_of_ne _ hid).trans h, hw⟩

/-- A node that somebody holds stays when one that nobody holds is taken out. -/
theorem heldBy_detach {cursor : NodeId} {node : Node} (hc : s.nodes.lookup cursor = some node)
    (hnobody : node.workers = ∅) (parentId : NodeId) (h : s.HeldBy id worker) :
    (s.detach cursor parentId node.blockHash).1.HeldBy id worker := by
  have hid : id ≠ cursor := by
    rintro rfl
    obtain ⟨node', h', hw⟩ := h
    obtain rfl : node' = node := Option.some.inj (h'.symm.trans hc)
    simp [hnobody] at hw
  obtain ⟨node', h', hw⟩ := heldBy_unlink s parentId node.blockHash h
  exact ⟨node', by rw [nodes_detach, Finmap.lookup_erase_ne hid, h'], hw⟩

theorem heldBy_pruneLoop (steps : ℕ) (s : TreeState) (cursor : NodeId)
    (h : s.HeldBy id worker) : (pruneLoop steps s cursor).1.HeldBy id worker := by
  induction steps generalizing s cursor with
  | zero => exact h
  | succ steps ih =>
    unfold pruneLoop
    split_ifs with hroot
    · exact h
    · cases hc : s.nodes.lookup cursor with
      | none => exact h
      | some node =>
        dsimp only
        cases hparent : node.parent with
        | none => exact h
        | some parentId =>
          dsimp only
          split_ifs with hp hcont
          · exact ih _ parentId (heldBy_detach hc hp.1 parentId h)
          · exact heldBy_detach hc hp.1 parentId h
          · exact h

theorem Shrinks.heldBy (h : s.Shrinks t) (ht : t.HeldBy id worker) : s.HeldBy id worker := by
  obtain ⟨node', h', hw⟩ := ht
  obtain ⟨node, hs, hworkers, -⟩ := h id node' h'
  exact ⟨node, hs, hworkers ▸ hw⟩

/-! ### Forgetting a worker -/

/-- The worker was taken off the nodes that satisfy `P`, and nothing else happened than that nodes
nobody holds were removed. -/
structure Forgets (worker : KvWorkerId) (P : NodeId → Prop) (s t : TreeState) : Prop where
  restricts : t.links.Restricts s.links
  heldBy : ∀ id w, t.HeldBy id w ↔ s.HeldBy id w ∧ ¬(w = worker ∧ P id)

namespace Forgets

variable {P Q : NodeId → Prop}

theorem refl (s : TreeState) : Forgets worker (fun _ => False) s s :=
  ⟨.refl _, fun id w => by simp⟩

theorem trans (h : Forgets worker P s t) (h' : Forgets worker Q t u) :
    Forgets worker (fun id => P id ∨ Q id) s u := by
  refine ⟨h'.restricts.trans h.restricts, fun id w => ?_⟩
  rw [h'.heldBy, h.heldBy, and_assoc, ← not_or, ← and_or_left]

theorem congr (h : Forgets worker P s t) (hPQ : ∀ id, P id ↔ Q id) : Forgets worker Q s t :=
  ⟨h.restricts, fun id w => by rw [h.heldBy, hPQ]⟩

end Forgets

/-- Nobody is forgotten where nodes are removed that nobody holds. -/
theorem Shrinks.forgets (h : s.Shrinks t) (hheld : ∀ id w, s.HeldBy id w → t.HeldBy id w)
    (worker : KvWorkerId) : Forgets worker (fun _ => False) s t := by
  refine ⟨h.restricts, fun id w => ?_⟩
  simp only [and_false, not_false_eq_true, and_true]
  exact ⟨h.heldBy, hheld id w⟩

theorem forgets_pruneCascade {pending : Set NodeId} {node : Node} (hs : s.Linked)
    (h : s.nodes.lookup id = some node) (hne : id ≠ rootId) (hp : node.Prunable)
    (hpruned : s.PrunedExcept (Insert.insert id pending)) (worker : KvWorkerId) :
    Forgets worker (fun _ => False) s (s.pruneCascade id).1 := by
  obtain ⟨-, -, -, hshrinks, -⟩ := pruneCascade_spec hs h hne hp hpruned
  exact hshrinks.forgets (fun _ _ => heldBy_pruneLoop _ s id) worker

theorem heldBy_insert {node : Node} (j : NodeId) (w : KvWorkerId) :
    HeldBy { s with nodes := s.nodes.insert id node } j w ↔
      (j = id ∧ w ∈ node.workers) ∨ (j ≠ id ∧ s.HeldBy j w) := by
  unfold HeldBy
  simp only [lookup_insert_eq]
  by_cases hj : j = id
  · simp [hj]
  · simp [hj]

theorem forgets_erase {node : Node} (h : s.nodes.lookup id = some node) (worker : KvWorkerId) :
    Forgets worker (· = id) s
      { s with nodes := s.nodes.insert id { node with workers := node.workers.erase worker } } := by
  refine ⟨?_, fun j w => ?_⟩
  · rw [links_insert { node with workers := node.workers.erase worker } h rfl rfl rfl]
    exact .refl _
  · rw [heldBy_insert]
    by_cases hj : j = id
    · subst hj
      simp [HeldBy, h, and_comm]
    · simp [hj]

theorem forgets_removeAt (hs : s.WellFormed) (hne : id ≠ rootId) (worker : KvWorkerId) :
    Forgets worker (· = id) s (removeAt worker (s, []) id).1 := by
  unfold removeAt
  dsimp only
  cases h : s.nodes.lookup id with
  | none =>
    refine ⟨.refl _, fun j w => ?_⟩
    simp only [iff_self_and, not_and]
    rintro ⟨node, hj, -⟩ - rfl
    simp [h] at hj
  | some node =>
    dsimp only
    have herase := forgets_erase h worker
    split_ifs with hp
    · have hlinked := hs.toLinked.insert { node with workers := node.workers.erase worker } h
        rfl rfl rfl
      have hprune := forgets_pruneCascade hlinked (Finmap.lookup_insert _) hne hp
        (hs.pruned.insert id { node with workers := node.workers.erase worker }) worker
      exact (herase.trans hprune).congr (by simp)
    · exact herase

theorem forgets_foldl_removeAt (worker : KvWorkerId) (ids : List NodeId) (s : TreeState)
    (hs : s.WellFormed) (hne : ∀ id ∈ ids, id ≠ rootId) :
    Forgets worker (· ∈ ids) s (ids.foldl (removeAt worker) (s, [])).1 := by
  induction ids generalizing s with
  | nil => exact (Forgets.refl s).congr (by simp)
  | cons id ids ih =>
    have hid := hne id List.mem_cons_self
    obtain ⟨hdefects, hwf⟩ := removeAt_spec worker s id hs hid
    have hstate : removeAt worker (s, []) id = ((removeAt worker (s, []) id).1, []) :=
      Prod.ext rfl hdefects
    rw [List.foldl_cons, hstate]
    refine ((forgets_removeAt hs hid worker).trans
      (ih _ hwf fun j hj => hne j (List.mem_cons_of_mem _ hj))).congr fun j => ?_
    simp

theorem mem_targets (hs : s.Linked) (order : IterationOrder) (blockHashes : List Int64) :
    id ∈ s.targets order blockHashes ↔
      id ≠ rootId ∧ ∃ blockHash ∈ blockHashes, s.links.label id = some blockHash := by
  have hvisit (blockHash : Int64) :
      id ∈ s.targets order [blockHash] ↔ id ∈ s.indexed blockHash := by
    rw [targets, List.flatMap_singleton, indexed]
    cases s.byHash.lookup blockHash with
    | none => simp
    | some ids => simp [order.mem_visit]
  have hsplit : s.targets order blockHashes =
      blockHashes.flatMap fun blockHash => s.targets order [blockHash] := by simp [targets]
  rw [hsplit]
  constructor
  · intro hid
    obtain ⟨blockHash, hmem, hid⟩ := List.mem_flatMap.mp hid
    obtain ⟨hne, hlabel⟩ := (hs.mem_indexed blockHash id).mp ((hvisit blockHash).mp hid)
    exact ⟨hne, blockHash, hmem, hlabel⟩
  · rintro ⟨hne, blockHash, hmem, hlabel⟩
    have hid := (hs.mem_indexed blockHash id).mpr ⟨hne, hlabel⟩
    exact List.mem_flatMap.mpr ⟨blockHash, hmem, (hvisit blockHash).mpr hid⟩

/-- What `remove` does. -/
theorem forgets_remove (hs : s.WellFormed) (order : IterationOrder) (worker : KvWorkerId)
    (blockHashes : List Int64) :
    Forgets worker (fun id => id ≠ rootId ∧ ∃ blockHash ∈ blockHashes,
      s.links.label id = some blockHash) s (s.remove order worker blockHashes).1 := by
  refine (forgets_foldl_removeAt worker _ s hs fun id hid => ?_).congr fun id =>
    mem_targets hs.toLinked order blockHashes
  exact ((mem_targets hs.toLinked order blockHashes).mp hid).1

theorem forgets_foldl_clearAt (worker : KvWorkerId) (ids : List NodeId) (s : TreeState)
    (candidates : List NodeId) :
    Forgets worker (· ∈ ids) s (ids.foldl (clearAt worker) (s, candidates)).1 := by
  induction ids generalizing s candidates with
  | nil => exact (Forgets.refl s).congr (by simp)
  | cons id ids ih =>
    have hstep : Forgets worker (· = id) s (clearAt worker (s, candidates) id).1 := by
      unfold clearAt
      dsimp only
      cases h : s.nodes.lookup id with
      | none =>
        refine ⟨.refl _, fun j w => ?_⟩
        simp only [iff_self_and, not_and]
        rintro ⟨node, hj, -⟩ - rfl
        simp [h] at hj
      | some node =>
        dsimp only
        split_ifs with hmem
        · exact forgets_erase h worker
        · exact forgets_erase h worker
        · refine ⟨.refl _, fun j w => ?_⟩
          simp only [iff_self_and, not_and]
          rintro ⟨node', hj, hw⟩ rfl rfl
          rw [h] at hj
          exact hmem (Option.some.inj hj ▸ hw)
    rw [List.foldl_cons]
    refine (hstep.trans (ih _ (clearAt worker (s, candidates) id).2)).congr fun j => ?_
    simp

theorem heldBy_foldl_pruneIfPresent (candidates : List NodeId) (state : TreeState × List Defect)
    (h : state.1.HeldBy id worker) :
    (candidates.foldl pruneIfPresent state).1.HeldBy id worker := by
  induction candidates generalizing state with
  | nil => exact h
  | cons candidate candidates ih =>
    refine ih _ ?_
    unfold pruneIfPresent
    split_ifs
    · exact heldBy_pruneLoop _ state.1 candidate h
    · exact h

/-- What `clear_worker` does. -/
theorem forgets_clearWorker (hs : s.WellFormed) (order : IterationOrder) (worker : KvWorkerId) :
    Forgets worker (fun id => id ≠ rootId) s (s.clearWorker order worker).1 := by
  obtain ⟨hlinked, hpruned, hcand⟩ := foldl_clearAt_spec worker
    ((order.visit s.nodes.keys).filter (· ≠ rootId)) s [] hs.toLinked
    (hs.pruned.mono (Set.empty_subset _)) (by simp) (by simp)
  have hclear := forgets_foldl_clearAt worker ((order.visit s.nodes.keys).filter (· ≠ rootId)) s []
  obtain ⟨-, -, hshrinks⟩ := foldl_pruneIfPresent_spec _ _ hlinked hpruned fun id hid => by
    obtain ⟨hne, node, hlookup, hp⟩ := hcand id hid
    exact ⟨hne, fun node' hlookup' => by rwa [Option.some.inj (hlookup'.symm.trans hlookup)]⟩
  have hprune := hshrinks.forgets (fun _ _ => heldBy_foldl_pruneIfPresent _ (_, [])) worker
  have hboth := hclear.trans hprune
  refine ⟨hboth.restricts, fun id w => (hboth.heldBy id w).trans (and_congr_right fun hheld => ?_)⟩
  have hmem : id ∈ order.visit s.nodes.keys := by
    rw [order.mem_visit, mem_keys_iff_label]
    exact hheld.label_ne_none
  simp [hmem]

theorem Forgets.lists {P : NodeId → Prop} (h : Forgets worker P s t) {blockHash : Int64}
    {w : KvWorkerId} : t.Lists blockHash w ↔ ∃ id, id ≠ rootId ∧
      s.links.label id = some blockHash ∧ s.HeldBy id w ∧ ¬(w = worker ∧ P id) := by
  rw [lists_iff]
  refine exists_congr fun id => and_congr_right fun _ => ?_
  rw [h.heldBy]
  constructor
  · rintro ⟨hlabel, hheld⟩
    exact ⟨(h.restricts id (by simp [hlabel])).1 ▸ hlabel, hheld⟩
  · rintro ⟨hlabel, hheld⟩
    have hlive := ((h.heldBy id w).mpr hheld).label_ne_none
    exact ⟨(h.restricts id hlive).1.trans hlabel, hheld⟩

/-! ### Recording a worker -/

theorem links_childFor (hs : s.Linked) (hmem : id ∈ s.nodes) (blockHash : Int64) (now : ℕ) :
    ∃ t child, s.childFor id blockHash now = (t, some child) ∧
      (∀ j w, t.HeldBy j w ↔ s.HeldBy j w) ∧
      ((t.links = s.links ∧ s.links.child id blockHash = some child) ∨
        (t.links = s.links.addLeaf child id blockHash ∧ s.links.label child = none)) := by
  obtain ⟨parent, h⟩ := Finmap.mem_iff.mp hmem
  unfold childFor
  cases hchild : s.links.child id blockHash with
  | some child =>
    have hchild' : ((s.nodes.lookup id).bind fun node => node.children.lookup blockHash) =
        some child := hchild
    rw [hchild']
    exact ⟨s, child, rfl, fun _ _ => Iff.rfl, .inl ⟨rfl, rfl⟩⟩
  | none =>
    have hchild' : ((s.nodes.lookup id).bind fun node => node.children.lookup blockHash) = none :=
      hchild
    rw [hchild']
    refine ⟨(s.createChild id blockHash now).1, s.nextId, ?_, fun j w => ?_,
      .inr ⟨links_createChild hs h blockHash now, by simp [links, hs.lookup_nextId]⟩⟩
    · rw [createChild_eq hs h]
    · unfold HeldBy
      rw [lookup_createChild hs h]
      split_ifs with hj hj'
      · subst hj
        simp [h]
      · subst hj'
        simp [hs.lookup_nextId, Node.newChild]
      · rfl

/-- The child found or created carries the hash, and nobody is listed who was not before. -/
theorem lists_childFor (par : Int64 → Option Int64) (hs : s.Linked) (hmem : id ∈ s.nodes)
    (blockHash : Int64) (now : ℕ) :
    ∃ t child, s.childFor id blockHash now = (t, some child) ∧ child ≠ rootId ∧
      t.links.label child = some blockHash ∧
      (∀ blockHash' w, t.Lists blockHash' w ↔ s.Lists blockHash' w) ∧
      (s.links.Follows rootId par → s.links.tag rootId id = par blockHash →
        t.links.Follows rootId par) := by
  obtain ⟨t, child, heq, hheld, hlinks⟩ := links_childFor hs hmem blockHash now
  have hlive : s.links.label id ≠ none := label_ne_none_iff.mpr hmem
  refine ⟨t, child, heq, ?_⟩
  rcases hlinks with ⟨hlinks, hchild⟩ | ⟨hlinks, hnone⟩
  · refine ⟨hs.tree.ne_root_of_child hchild, ?_, fun blockHash' w => ?_, fun hf _ => hlinks ▸ hf⟩
    · rw [hlinks]
      exact (hs.tree.child_spec _ _ _ hchild).2
    · simp only [lists_iff, hlinks, hheld]
  · have hne : child ≠ rootId := by
      rintro rfl
      exact hs.tree.root_live hnone
    refine ⟨hne, by simp [hlinks, Links.addLeaf], fun blockHash' w => ?_,
      fun hf htag => hlinks ▸ hf.addLeaf hs.tree hnone hlive htag⟩
    simp only [lists_iff, hheld]
    refine exists_congr fun j => and_congr_right fun _ => and_congr_left fun hj => ?_
    have hjc : j ≠ child := by
      rintro rfl
      exact hj.label_ne_none hnone
    rw [hlinks]
    simp [Links.addLeaf, hjc]

theorem lists_record {node : Node} (h : s.nodes.lookup id = some node) (hne : id ≠ rootId)
    (worker : KvWorkerId) (now : ℕ) (blockHash : Int64) (w : KvWorkerId) :
    Lists { s with
        nodes := s.nodes.insert id
          { node with workers := Insert.insert worker node.workers, lastUsed := now } } blockHash w ↔
      s.Lists blockHash w ∨ (w = worker ∧ s.links.label id = some blockHash) := by
  simp only [lists_iff]
  have hlinks := links_insert (s := s)
    { node with workers := Insert.insert worker node.workers, lastUsed := now } h rfl rfl rfl
  simp only [hlinks, heldBy_insert, Finset.mem_insert]
  constructor
  · rintro ⟨j, hj, hlabel, ⟨rfl, rfl | hw⟩ | ⟨-, hheld⟩⟩
    · exact .inr ⟨rfl, hlabel⟩
    · exact .inl ⟨j, hj, hlabel, node, h, hw⟩
    · exact .inl ⟨j, hj, hlabel, hheld⟩
  · rintro (⟨j, hj, hlabel, hheld⟩ | ⟨rfl, hlabel⟩)
    · refine ⟨j, hj, hlabel, ?_⟩
      by_cases hjid : j = id
      · subst hjid
        obtain ⟨node', h', hw⟩ := hheld
        rw [h] at h'
        exact .inl ⟨rfl, .inr (Option.some.inj h' ▸ hw)⟩
      · exact .inr ⟨hjid, hheld⟩
    · exact ⟨id, hne, hlabel, .inl ⟨rfl, .inl rfl⟩⟩

/-- What the loop of `insert` does. -/
theorem lists_insertChain (par : Int64 → Option Int64) (worker : KvWorkerId) (now : ℕ)
    (blockHashes : List Int64)
    (s : TreeState) (current : NodeId) (hs : s.WellFormed) (hmem : current ∈ s.nodes) :
    (∀ blockHash w, (insertChain worker now blockHashes s current).1.Lists blockHash w ↔
      s.Lists blockHash w ∨ (w = worker ∧ blockHash ∈ blockHashes)) ∧
    (s.links.Follows rootId par → Chained par (s.links.tag rootId current) blockHashes →
      (insertChain worker now blockHashes s current).1.links.Follows rootId par) := by
  induction blockHashes generalizing s current with
  | nil => exact ⟨fun blockHash w => by simp [insertChain], fun hf _ => hf⟩
  | cons blockHash blockHashes ih =>
    obtain ⟨t, child, node, heq, ht, hlookup, hpruned⟩ := childFor_spec hs hmem blockHash now
    obtain ⟨t', child', heq', hne, hlabel, hlists, hfollows⟩ :=
      lists_childFor par hs.toLinked hmem blockHash now
    obtain ⟨rfl, rfl⟩ : t' = t ∧ child' = child := by
      simpa [Prod.mk.injEq] using heq'.symm.trans heq
    have hrecord := lists_record hlookup hne worker now
    have hlinks := links_insert (s := t')
      { node with workers := Insert.insert worker node.workers, lastUsed := now } hlookup rfl rfl rfl
    unfold insertChain
    simp only [heq, hlookup]
    obtain ⟨hlists', hfollows'⟩ := ih _ child' (wellFormed_record ht hlookup hpruned worker now)
      (Finmap.mem_insert.mpr (.inl rfl))
    refine ⟨fun blockHash' w => ?_, fun hf hchain => hfollows' ?_ ?_⟩
    · rw [hlists', hrecord, hlists, hlabel, List.mem_cons, Option.some.injEq,
        @eq_comm _ blockHash blockHash', or_assoc, ← and_or_left]
    · rw [hlinks]
      exact hfollows hf hchain.1.symm
    · rw [hlinks, Links.tag, if_neg hne, hlabel]
      exact hchain.2

/-! ### The representation -/

/-- The tree represents a family of block sets: it is well formed, its nodes hang below the parents
that `par` gives, and the nodes of a block list the workers that hold the block. -/
structure Represents (par : Int64 → Option Int64) (held : KvWorkerId → Finset Int64)
    (s : TreeState) : Prop where
  wellFormed : s.WellFormed
  follows : s.links.Follows rootId par
  lists_iff : ∀ blockHash w, s.Lists blockHash w ↔ blockHash ∈ held w

/-- A block has one node. -/
theorem indexed_eq_singleton (hs : s.WellFormed) (hf : s.links.Follows rootId par)
    (hne : id ≠ rootId) {blockHash : Int64} (hlabel : s.links.label id = some blockHash) :
    s.byHash.lookup blockHash = some {id} := by
  have hindexed : s.indexed blockHash = {id} := by
    ext j
    rw [hs.mem_indexed, Finset.mem_singleton]
    constructor
    · rintro ⟨hj, hjlabel⟩
      exact hf.eq_of_label hs.tree hj hne hjlabel hlabel
    · rintro rfl
      exact ⟨hne, hlabel⟩
  unfold indexed at hindexed
  cases hlookup : s.byHash.lookup blockHash with
  | none => simp [hlookup] at hindexed
  | some ids => simpa [hlookup] using hindexed

theorem visit_singleton (order : IterationOrder) (id : NodeId) : order.visit {id} = [id] := by
  have hmem (j : NodeId) : j ∈ order.visit {id} ↔ j = id := by
    rw [order.mem_visit, Finset.mem_singleton]
  cases hvisit : order.visit {id} with
  | nil => simp [hvisit] at hmem
  | cons j ids =>
    have hnodup := order.nodup_visit {id}
    rw [hvisit] at hmem hnodup
    obtain rfl : j = id := (hmem j).mp List.mem_cons_self
    cases ids with
    | nil => rfl
    | cons k ids =>
      obtain rfl : k = j := (hmem k).mp (by simp)
      simp at hnodup

/-- A chain is attached to the node of its parent hash. -/
theorem tag_resolveParent (hs : s.WellFormed) (hf : s.links.Follows rootId par)
    (order : IterationOrder) (worker : KvWorkerId) {parentHash : Option Int64}
    (hparent : ∀ blockHash, parentHash = some blockHash → s.Lists blockHash worker) :
    s.links.tag rootId (s.resolveParent order worker parentHash) = parentHash := by
  cases parentHash with
  | none => simp [resolveParent, Links.tag]
  | some blockHash =>
    obtain ⟨id, hne, hlabel, -⟩ := lists_iff.mp (hparent blockHash rfl)
    simp [resolveParent, indexed_eq_singleton hs hf hne hlabel, visit_singleton, Links.tag, hne,
      hlabel]

theorem lists_remove (hs : s.WellFormed) (order : IterationOrder) (worker : KvWorkerId)
    (blockHashes : List Int64) (blockHash : Int64) (w : KvWorkerId) :
    (s.remove order worker blockHashes).1.Lists blockHash w ↔
      s.Lists blockHash w ∧ ¬(w = worker ∧ blockHash ∈ blockHashes) := by
  rw [(forgets_remove hs order worker blockHashes).lists, lists_iff]
  constructor
  · rintro ⟨id, hne, hlabel, hheld, hnot⟩
    exact ⟨⟨id, hne, hlabel, hheld⟩, fun h => hnot ⟨h.1, hne, blockHash, h.2, hlabel⟩⟩
  · rintro ⟨⟨id, hne, hlabel, hheld⟩, hnot⟩
    refine ⟨id, hne, hlabel, hheld, ?_⟩
    rintro ⟨hw, -, blockHash', hmem, hlabel'⟩
    rw [hlabel] at hlabel'
    exact hnot ⟨hw, Option.some.inj hlabel' ▸ hmem⟩

theorem lists_clearWorker (hs : s.WellFormed) (order : IterationOrder) (worker : KvWorkerId)
    (blockHash : Int64) (w : KvWorkerId) :
    (s.clearWorker order worker).1.Lists blockHash w ↔ s.Lists blockHash w ∧ w ≠ worker := by
  rw [(forgets_clearWorker hs order worker).lists, lists_iff]
  constructor
  · rintro ⟨id, hne, hlabel, hheld, hnot⟩
    exact ⟨⟨id, hne, hlabel, hheld⟩, fun h => hnot ⟨h, hne⟩⟩
  · rintro ⟨⟨id, hne, hlabel, hheld⟩, hnot⟩
    exact ⟨id, hne, hlabel, hheld, fun h => hnot h.1⟩

theorem lists_insert (hs : s.WellFormed) (order : IterationOrder) (now : ℕ) (worker : KvWorkerId)
    (parentHash : Option Int64) (blockHashes : List Int64) (blockHash : Int64) (w : KvWorkerId) :
    (s.insert order now worker parentHash blockHashes).1.Lists blockHash w ↔
      s.Lists blockHash w ∨ (w = worker ∧ blockHash ∈ blockHashes) := by
  unfold insert
  split
  · simp
  · exact (lists_insertChain (fun _ => none) worker now blockHashes s _ hs
      (resolveParent_mem hs.toLinked order worker parentHash)).1 blockHash w

/-- The block sets after a call. -/
def updateAt (held : KvWorkerId → Finset Int64) (op : TreeOperation) (w : KvWorkerId) :
    Finset Int64 :=
  match op.eventOf w with
  | none => held w
  | some event => event.update (held w)

theorem fst_foldl_run (s : TreeState) (defects : List Defect) (ops : List TreeOperation) :
    (ops.foldl (fun state op => ((state.1.step op).1, state.2 ++ (state.1.step op).2))
      (s, defects)).1 = ops.foldl (fun s op => (s.step op).1) s := by
  induction ops generalizing s defects with
  | nil => rfl
  | cons op ops ih => exact ih _ _

theorem fst_run (s : TreeState) (ops : List TreeOperation) :
    (s.run ops).1 = ops.foldl (fun s op => (s.step op).1) s :=
  fst_foldl_run s [] ops

/-! ### Looking up a chain -/

/-- Touching nodes keeps the links and the workers. -/
structure Touches (s t : TreeState) : Prop where
  links_eq : t.links = s.links
  heldBy : ∀ id w, t.HeldBy id w ↔ s.HeldBy id w

theorem Touches.refl (s : TreeState) : s.Touches s := ⟨rfl, fun _ _ => Iff.rfl⟩

theorem Touches.trans (h : s.Touches t) (h' : t.Touches u) : s.Touches u :=
  ⟨h'.links_eq.trans h.links_eq, fun id w => (h'.heldBy id w).trans (h.heldBy id w)⟩

theorem touches_modify (s : TreeState) (id : NodeId) (now : ℕ) :
    s.Touches (s.modify id fun node => { node with lastUsed := now }) := by
  unfold modify
  cases h : s.nodes.lookup id with
  | none => exact .refl s
  | some node =>
    refine ⟨links_insert _ h rfl rfl rfl, fun j w => ?_⟩
    rw [heldBy_insert]
    by_cases hj : j = id
    · subst hj
      simp [HeldBy, h]
    · simp [hj]

/-- The loop of `match_prefix` walks down as far as there are children. -/
theorem matchChain_walk (now : ℕ) (blockHashes : List Int64) (s : TreeState) (current : NodeId)
    (matched : ℕ) (last : Option NodeId) :
    ∃ k ≤ blockHashes.length,
      (matchChain now blockHashes s current matched last).2.1 = matched + k ∧
      (∀ l ≤ blockHashes.length, l ≤ k ↔ (s.links.walk current (blockHashes.take l)).isSome) ∧
      (matchChain now blockHashes s current matched last).2.2 =
        (if k = 0 then last else s.links.walk current (blockHashes.take k)) ∧
      s.Touches (matchChain now blockHashes s current matched last).1 := by
  induction blockHashes generalizing s current matched last with
  | nil => exact ⟨0, by simp, rfl, by simp [Links.walk], rfl, .refl s⟩
  | cons blockHash blockHashes ih =>
    unfold matchChain
    cases hchild : s.links.child current blockHash with
    | none =>
      have hchild' : ((s.nodes.lookup current).bind fun node => node.children.lookup blockHash) =
          none := hchild
      rw [hchild']
      refine ⟨0, Nat.zero_le _, rfl, fun l _ => ?_, rfl, .refl s⟩
      cases l with
      | zero => simp [Links.walk]
      | succ l => simp [Links.walk, hchild]
    | some id =>
      have hchild' : ((s.nodes.lookup current).bind fun node => node.children.lookup blockHash) =
          some id := hchild
      rw [hchild']
      have htouch := touches_modify s id now
      obtain ⟨k, hk, hmatched, hwalk, hlast, htouches⟩ :=
        ih (s.modify id fun node => { node with lastUsed := now }) id (matched + 1) (some id)
      rw [htouch.links_eq] at hwalk hlast
      refine ⟨k + 1, Nat.succ_le_succ hk, by rw [hmatched]; omega, fun l hl => ?_, ?_,
        htouch.trans htouches⟩
      · cases l with
        | zero => simp [Links.walk]
        | succ l =>
          rw [Nat.succ_le_succ_iff, hwalk l (Nat.le_of_succ_le_succ hl)]
          simp [Links.walk, hchild]
      · rw [hlast, if_neg (Nat.succ_ne_zero k)]
        cases k with
        | zero => simp [Links.walk, hchild]
        | succ k => simp [Links.walk, hchild]

theorem touches_matchPrefix (s : TreeState) (order : IterationOrder) (now : ℕ)
    (parentHash : Option Int64) (blockHashes : List Int64) :
    s.Touches (s.matchPrefix order now parentHash blockHashes).1 := by
  unfold matchPrefix
  split
  · exact .refl s
  · obtain ⟨-, -, -, -, -, htouches⟩ := matchChain_walk now blockHashes s _ 0 none
    exact htouches

theorem Touches.lists (h : s.Touches t) {blockHash : Int64} {w : KvWorkerId} :
    t.Lists blockHash w ↔ s.Lists blockHash w := by
  simp only [lists_iff, h.links_eq, h.heldBy]

theorem links_ne_none {node : Node} (h : s.nodes.lookup id = some node) :
    s.links.label id ≠ none := by
  simp [links, h]

/-- Every block follows the one before it, below a given parent hash. -/
def IsPath (blocks : Set (Int64 × Option Int64 × Finset KvWorkerId)) :
    Option Int64 → List Int64 → Prop
  | _, [] => True
  | parentHash, blockHash :: blockHashes =>
      (∃ workers, (blockHash, parentHash, workers) ∈ blocks) ∧
        IsPath blocks (some blockHash) blockHashes

/-- The parent hash of a lookup, if the tree knows it. -/
def knownParent (s : TreeState) (parentHash : Option Int64) : Option Int64 :=
  parentHash.filter fun blockHash => blockHash ∈ s.byHash

/-- The blocks below a node are its children. -/
theorem exists_child_iff (hs : s.WellFormed) (hf : s.links.Follows rootId par)
    (hlive : s.links.label id ≠ none) (blockHash : Int64) :
    (∃ child, s.links.child id blockHash = some child) ↔
      ∃ workers, (blockHash, s.links.tag rootId id, workers) ∈ s.contents := by
  constructor
  · rintro ⟨child, hchild⟩
    obtain ⟨hparent, hlabel⟩ := hs.tree.child_spec _ _ _ hchild
    obtain ⟨node, hnode⟩ := Finmap.mem_iff.mp
      (label_ne_none_iff.mp (hs.tree.live_of_child hchild))
    have hhash : node.blockHash = blockHash := by simpa [links, hnode] using hlabel
    have hp : node.parent = some id := by simpa [links, hnode] using hparent
    refine ⟨node.workers, child, node, hs.tree.ne_root_of_child hchild, hnode, ?_⟩
    simp [parentHash, hp, hhash]
  · rintro ⟨workers, child, node, hne, hnode, hblock⟩
    obtain ⟨rfl, htag, rfl⟩ : blockHash = node.blockHash ∧
        s.links.tag rootId id = s.parentHash node ∧ workers = node.workers := by
      simpa [Prod.mk.injEq] using hblock
    obtain ⟨p, k, hp, -, hplive, hk, hc⟩ := hs.tree.parent_spec child hne (links_ne_none hnode)
    have hp' : node.parent = some p := by simpa [links, hnode] using hp
    obtain rfl : node.blockHash = k := by simpa [links, hnode] using hk
    have hpid : p = id := hf.eq_of_tag hs.tree hplive hlive (by simp [htag, parentHash, hp'])
    exact ⟨child, hpid ▸ hc⟩

theorem isSome_walk_iff (hs : s.WellFormed) (hf : s.links.Follows rootId par)
    (hlive : s.links.label id ≠ none) (blockHashes : List Int64) :
    (s.links.walk id blockHashes).isSome ↔
      IsPath s.contents (s.links.tag rootId id) blockHashes := by
  induction blockHashes generalizing id with
  | nil => simp [Links.walk, IsPath]
  | cons blockHash blockHashes ih =>
    rw [IsPath, ← exists_child_iff hs hf hlive]
    cases hchild : s.links.child id blockHash with
    | none => simp [Links.walk, hchild]
    | some child =>
      have htag : s.links.tag rootId child = some blockHash := by
        rw [Links.tag, if_neg (hs.tree.ne_root_of_child hchild),
          (hs.tree.child_spec _ _ _ hchild).2]
      rw [← htag, ← ih (hs.tree.live_of_child hchild)]
      simp [Links.walk, hchild]

/-- The workers listed at a node, if there is one. -/
def workersAt (s : TreeState) (last : Option NodeId) : Finset KvWorkerId :=
  match last with
  | none => ∅
  | some id =>
      match s.nodes.lookup id with
      | none => ∅
      | some node => node.workers

/-- A lookup starts at the node of its parent hash, or at the root if the tree does not know the
hash. -/
theorem matchPrefix_eq (hs : s.WellFormed) (hf : s.links.Follows rootId par)
    (order : IterationOrder) (now : ℕ) (parentHash : Option Int64) {blockHashes : List Int64}
    (hne : blockHashes ≠ []) :
    ∃ start, s.links.label start ≠ none ∧ s.links.tag rootId start = s.knownParent parentHash ∧
      (s.matchPrefix order now parentHash blockHashes).2 =
        ⟨(matchChain now blockHashes s start 0 none).2.1,
          workersAt (matchChain now blockHashes s start 0 none).1
            (matchChain now blockHashes s start 0 none).2.2⟩ := by
  have hroot : s.links.tag rootId rootId = none := by simp [Links.tag]
  unfold matchPrefix
  split
  case h_1 => exact absurd rfl hne
  case h_2 =>
    cases parentHash with
    | none => exact ⟨rootId, hs.tree.root_live, hroot, rfl⟩
    | some blockHash =>
      cases hlookup : s.byHash.lookup blockHash with
      | none =>
        refine ⟨rootId, hs.tree.root_live, ?_, by simp only [hlookup]; rfl⟩
        simp [knownParent, Option.filter, hroot, ← Finmap.lookup_isSome, hlookup]
      | some ids =>
        obtain ⟨id, hid⟩ := hs.nonempty blockHash ids hlookup
        obtain ⟨hidne, hlabel⟩ := (hs.mem_indexed blockHash id).mp (by simpa [indexed, hlookup])
        obtain rfl : {id} = ids := Option.some.inj
          ((indexed_eq_singleton hs hf hidne hlabel).symm.trans hlookup)
        refine ⟨id, by simp [hlabel], ?_, ?_⟩
        · simp [knownParent, Option.filter, ← Finmap.lookup_isSome, hlookup, Links.tag, hidne,
            hlabel]
        · simp only [hlookup, Finset.card_singleton, if_true, visit_singleton]
          rfl

theorem mem_workersAt {last : Option NodeId} {w : KvWorkerId} :
    w ∈ s.workersAt last ↔ ∃ id, last = some id ∧ s.HeldBy id w := by
  unfold workersAt HeldBy
  cases last with
  | none => simp
  | some id =>
    cases h : s.nodes.lookup id with
    | none => simp [h]
    | some node => simp [h]

/-- **Looking up a chain.** The blocks matched are the longest prefix of the chain whose nodes
exist, each below the one before it, and the workers are those listed for the last of them. A
parent hash that the tree does not know is ignored. -/
theorem matchPrefix_finds (hs : s.WellFormed) (hf : s.links.Follows rootId par)
    (order : IterationOrder) (now : ℕ) (parentHash : Option Int64) (blockHashes : List Int64) :
    let result := (s.matchPrefix order now parentHash blockHashes).2
    result.matchedBlocks ≤ blockHashes.length ∧
    (∀ k ≤ blockHashes.length, k ≤ result.matchedBlocks ↔
      IsPath s.contents (s.knownParent parentHash) (blockHashes.take k)) ∧
    ∀ w, w ∈ result.workers ↔ ∃ blockHash,
      (blockHashes.take result.matchedBlocks).getLast? = some blockHash ∧ s.Lists blockHash w := by
  intro result
  by_cases hne : blockHashes = []
  · subst hne
    exact ⟨le_rfl, fun k hk => by simp_all [IsPath], fun w => by simp [result, matchPrefix]⟩
  · obtain ⟨start, hlive, htag, hresult⟩ := matchPrefix_eq hs hf order now parentHash hne
    obtain ⟨k, hk, hmatched, hwalk, hlast, htouches⟩ :=
      matchChain_walk now blockHashes s start 0 none
    have hblocks : result.matchedBlocks = k := by
      rw [show result = _ from hresult, hmatched, Nat.zero_add]
    have hworkers : result.workers = _ := congrArg MatchResult.workers hresult
    refine ⟨hblocks ▸ hk, fun l hl => ?_, fun w => ?_⟩
    · rw [hblocks, hwalk l hl, isSome_walk_iff hs hf hlive, htag]
    · rw [hworkers, mem_workersAt, hlast, hblocks]
      constructor
      · rintro ⟨id, hid, hheld⟩
        split_ifs at hid with hk0
        have hne' : blockHashes.take k ≠ [] := by simp [hk0, hne]
        have hget := List.getLast?_eq_some_getLast hne'
        obtain ⟨hidne, hlabel⟩ := hs.tree.label_of_walk hid hget
        exact ⟨_, hget, lists_iff.mpr ⟨id, hidne, hlabel, (htouches.heldBy id w).mp hheld⟩⟩
      · rintro ⟨blockHash, hget, hlists⟩
        have hk0 : k ≠ 0 := by
          rintro rfl
          simp at hget
        obtain ⟨id, hid⟩ := Option.isSome_iff_exists.mp ((hwalk k hk).mp le_rfl)
        obtain ⟨hidne, hlabel⟩ := hs.tree.label_of_walk hid hget
        obtain ⟨j, hjne, hjlabel, hheld⟩ := lists_iff.mp hlists
        obtain rfl : j = id := hf.eq_of_label hs.tree hjne hidne hjlabel hlabel
        exact ⟨j, by rw [if_neg hk0, hid], (htouches.heldBy j w).mpr hheld⟩

/-! ### The blocks of the tree -/

namespace Represents

variable {held : KvWorkerId → Finset Int64}

/-- The leaves of the tree are held, so a block has a node if and only if a block that somebody
holds descends from it. -/
theorem exists_label_iff (h : Represents par held s) (blockHash : Int64) :
    (∃ id, id ≠ rootId ∧ s.links.label id = some blockHash) ↔
      ∃ blockHash' w, blockHash' ∈ held w ∧
        Relation.ReflTransGen (fun a b => par b = some a) blockHash blockHash' := by
  have hleaf (i : NodeId) (hne : i ≠ rootId) (hlive : s.links.label i ≠ none)
      (hchild : ∀ l, s.links.child i l = none) : ∃ w, s.HeldBy i w := by
    obtain ⟨node, hnode⟩ := Finmap.mem_iff.mp (label_ne_none_iff.mp hlive)
    have hworkers : node.workers ≠ ∅ := fun hempty =>
      h.wellFormed.pruned i node hnode hne ⟨hempty, keys_eq_empty_of_child hnode hchild⟩
    obtain ⟨w, hw⟩ := Finset.nonempty_iff_ne_empty.mpr hworkers
    exact ⟨w, node, hnode, hw⟩
  rw [h.follows.exists_label_iff h.wellFormed.tree (mem_keys_iff_label s) hleaf]
  constructor
  · rintro ⟨j, l, hj, hl, ⟨w, hheld⟩, hpath⟩
    exact ⟨l, w, (h.lists_iff l w).mp (TreeState.lists_iff.mpr ⟨j, hj, hl, hheld⟩), hpath⟩
  · rintro ⟨l, w, hmem, hpath⟩
    obtain ⟨j, hj, hl, hheld⟩ := TreeState.lists_iff.mp ((h.lists_iff l w).mpr hmem)
    exact ⟨j, l, hj, hl, ⟨w, hheld⟩, hpath⟩

/-- A node hangs below the parent of its block and lists the workers that hold the block. -/
theorem node_spec (h : Represents par held s) {node : Node} (hne : id ≠ rootId)
    (hnode : s.nodes.lookup id = some node) :
    s.parentHash node = par node.blockHash ∧ ∀ w, w ∈ node.workers ↔ node.blockHash ∈ held w := by
  have hlabel : s.links.label id = some node.blockHash := by simp [links, hnode]
  obtain ⟨p, hp, htag⟩ := h.follows id node.blockHash hne hlabel
  have hp' : node.parent = some p := by simpa [links, hnode] using hp
  refine ⟨by simpa [parentHash, hp'] using htag, fun w => ?_⟩
  rw [← h.lists_iff, TreeState.lists_iff]
  constructor
  · exact fun hw => ⟨id, hne, hlabel, node, hnode, hw⟩
  · rintro ⟨j, hj, hjlabel, node', hnode', hw⟩
    obtain rfl : j = id := h.follows.eq_of_label h.wellFormed.tree hj hne hjlabel hlabel
    rw [hnode] at hnode'
    exact Option.some.inj hnode' ▸ hw

/-- The blocks of the tree are those from which a block that somebody holds descends. -/
theorem mem_contents (h : Represents par held s)
    (block : Int64 × Option Int64 × Finset KvWorkerId) :
    block ∈ s.contents ↔
      (∃ blockHash w, blockHash ∈ held w ∧
        Relation.ReflTransGen (fun a b => par b = some a) block.1 blockHash) ∧
      block.2.1 = par block.1 ∧ ∀ w, w ∈ block.2.2 ↔ block.1 ∈ held w := by
  rw [← h.exists_label_iff]
  constructor
  · rintro ⟨id, node, hne, hnode, rfl⟩
    exact ⟨⟨id, hne, by simp [links, hnode]⟩, h.node_spec hne hnode⟩
  · rintro ⟨⟨id, hne, hlabel⟩, hparent, hworkers⟩
    have hlive : s.links.label id ≠ none := by simp [hlabel]
    obtain ⟨node, hnode⟩ := Finmap.mem_iff.mp (label_ne_none_iff.mp hlive)
    have hhash : node.blockHash = block.1 := by simpa [links, hnode] using hlabel
    obtain ⟨hparent', hworkers'⟩ := h.node_spec hne hnode
    refine ⟨id, node, hne, hnode, Prod.ext hhash.symm (Prod.ext ?_ (Finset.ext fun w => ?_))⟩
    · rw [hparent, hparent', hhash]
    · rw [hworkers, hworkers', hhash]

/-- The block sets determine the contents of the tree. -/
theorem contents_eq (hs : Represents par held s) (ht : Represents par held t) :
    s.contents = t.contents := by
  ext block
  rw [hs.mem_contents, ht.mem_contents]

/-! ### Runs -/

/-- The workers listed for a block after a call. -/
theorem lists_step (h : Represents par held s) (op : TreeOperation) (hevict : ¬op.Evicts)
    (blockHash : Int64) (w : KvWorkerId) :
    (s.step op).1.Lists blockHash w ↔ blockHash ∈ updateAt held op w := by
  have hs := h.wellFormed
  cases op with
  | insert order now worker parentHash blockHashes =>
    refine (lists_insert hs order now worker parentHash blockHashes blockHash w).trans ?_
    rw [h.lists_iff]
    by_cases hw : worker = w
    · simp [updateAt, TreeOperation.eventOf, TreeOperation.event, KvCacheEvent.update, hw]
    · simp [updateAt, TreeOperation.eventOf, TreeOperation.event, hw, Ne.symm hw]
  | remove order worker blockHashes =>
    refine (lists_remove hs order worker blockHashes blockHash w).trans ?_
    rw [h.lists_iff]
    by_cases hw : worker = w
    · simp [updateAt, TreeOperation.eventOf, TreeOperation.event, KvCacheEvent.update, hw]
    · simp [updateAt, TreeOperation.eventOf, TreeOperation.event, hw, Ne.symm hw]
  | clearWorker order worker =>
    refine (lists_clearWorker hs order worker blockHash w).trans ?_
    rw [h.lists_iff]
    by_cases hw : worker = w
    · simp [updateAt, TreeOperation.eventOf, TreeOperation.event, KvCacheEvent.update, hw]
    · simp [updateAt, TreeOperation.eventOf, TreeOperation.event, hw, Ne.symm hw]
  | evictLru order maxSize => exact absurd trivial hevict
  | matchPrefix order now parentHash blockHashes =>
    exact (touches_matchPrefix s order now parentHash blockHashes).lists.trans
      (h.lists_iff blockHash w)

/-- **A call keeps the representation**, if the event that it applies fits the blocks its worker
holds. -/
theorem step (h : Represents par held s) (op : TreeOperation) (hevict : ¬op.Evicts)
    (hfits : ∀ w event, op.eventOf w = some event → event.Fits par (held w)) :
    Represents par (updateAt held op) (s.step op).1 := by
  have hs := h.wellFormed
  refine ⟨(step_spec op hs).2, ?_, h.lists_step op hevict⟩
  cases op with
  | insert order now worker parentHash blockHashes =>
    obtain ⟨hchain, hparent⟩ := hfits worker (.blockStored parentHash blockHashes)
      (by simp [TreeOperation.eventOf, TreeOperation.event])
    change (s.insert order now worker parentHash blockHashes).1.links.Follows rootId par
    unfold TreeState.insert
    split
    case h_1 => exact h.follows
    case h_2 hne =>
      refine (lists_insertChain par worker now blockHashes s _ hs
        (resolveParent_mem hs.toLinked order worker parentHash)).2 h.follows ?_
      rw [tag_resolveParent hs h.follows order worker fun blockHash heq =>
        (h.lists_iff blockHash worker).mpr (hparent hne blockHash heq)]
      exact hchain
  | remove order worker blockHashes =>
    exact h.follows.restrict (forgets_remove hs order worker blockHashes).restricts
      (step_spec (.remove order worker blockHashes) hs).2.tree
  | clearWorker order worker =>
    exact h.follows.restrict (forgets_clearWorker hs order worker).restricts
      (step_spec (.clearWorker order worker) hs).2.tree
  | evictLru order maxSize => exact absurd trivial hevict
  | matchPrefix order now parentHash blockHashes =>
    change (s.matchPrefix order now parentHash blockHashes).1.links.Follows rootId par
    rw [(touches_matchPrefix s order now parentHash blockHashes).links_eq]
    exact h.follows

/-- A run keeps the representation, if the stream of every worker is consistent with what the worker
holds at the start. -/
theorem run (h : Represents par held s) (ops : List TreeOperation)
    (hevict : ∀ op ∈ ops, ¬op.Evicts)
    (hstreams : ∀ w, Along KvCacheEvent.update (KvCacheEvent.Fits par) (held w) (stream w ops)) :
    Represents par (fun w => (stream w ops).foldl KvCacheEvent.update (held w)) (s.run ops).1 := by
  rw [fst_run]
  induction ops generalizing s held with
  | nil => exact h
  | cons op ops ih =>
    have hstep : Represents par (updateAt held op) (s.step op).1 := by
      refine h.step op (hevict op List.mem_cons_self) fun w event heq => ?_
      have hw := hstreams w
      rw [stream_cons_of_some heq] at hw
      exact hw.1
    have hrest (w : KvWorkerId) :
        Along KvCacheEvent.update (KvCacheEvent.Fits par) (updateAt held op w) (stream w ops) := by
      have hw := hstreams w
      cases heq : op.eventOf w with
      | none =>
        rw [stream_cons_of_none heq] at hw
        simpa [updateAt, heq] using hw
      | some event =>
        rw [stream_cons_of_some heq] at hw
        simpa [updateAt, heq] using hw.2
    have hrun := ih hstep (fun op' hop' => hevict op' (List.mem_cons_of_mem _ hop')) hrest
    have hheld : (fun w => (stream w (op :: ops)).foldl KvCacheEvent.update (held w)) =
        fun w => (stream w ops).foldl KvCacheEvent.update (updateAt held op w) := by
      funext w
      cases heq : op.eventOf w with
      | none => rw [stream_cons_of_none heq, updateAt, heq]
      | some event => rw [stream_cons_of_some heq, updateAt, heq, List.foldl_cons]
    rw [hheld]
    exact hrun

end Represents

/-- An empty tree represents empty block sets. -/
theorem represents_new (par : Int64 → Option Int64) (now : ℕ) :
    Represents par (fun _ => ∅) (new now) := by
  have hlabel {id : NodeId} (hne : id ≠ rootId) : (new now).links.label id = none := by
    have hmem : id ∉ (new now).nodes := fun hmem => hne ((Finmap.mem_singleton _ _ _).mp hmem)
    simp [links, Finmap.lookup_eq_none.mpr hmem]
  refine ⟨wellFormed_new now, fun id blockHash hne h => ?_, fun blockHash w => ?_⟩
  · simp [hlabel hne] at h
  · rw [lists_iff]
    refine iff_of_false ?_ (Finset.notMem_empty blockHash)
    rintro ⟨id, hne, h, -⟩
    simp [hlabel hne] at h

/-- The tree after any interleaving of chain-consistent streams. -/
theorem represents_of_interleaves {par : Int64 → Option Int64}
    {streams : KvWorkerId → List KvCacheEvent} (hstreams : ∀ w, ChainConsistent par (streams w))
    (now : ℕ) {ops : List TreeOperation} (hops : Interleaves streams ops) :
    Represents par (fun w => blockSet (streams w)) ((new now).run ops).1 := by
  have hrep := (represents_new par now).run ops hops.1 fun w => by
    rw [hops.2 w]
    exact hstreams w
  simpa only [hops.2, blockSet] using hrep

/-- **The hash tree keeps the block sets of all workers.** Let every worker have a stream of events,
and let the streams be chain-consistent. After any interleaving of the streams, without evictions,
on an empty tree:

* a block has at most one node, and it lists exactly the workers in whose block sets the block is;
* a lookup matches the longest prefix of a chain whose nodes exist, each below the one before it,
  and returns the workers that hold the last block of that prefix;
* any other interleaving of the streams gives a tree with the same contents. -/
theorem run_represents_blockSets (par : Int64 → Option Int64)
    (streams : KvWorkerId → List KvCacheEvent) (hstreams : ∀ w, ChainConsistent par (streams w))
    (now : ℕ) (ops : List TreeOperation) (hops : Interleaves streams ops) :
    let s := ((new now).run ops).1
    (∀ blockHash w, s.Lists blockHash w ↔ blockHash ∈ blockSet (streams w)) ∧
    (∀ id id' node node', id ≠ rootId → id' ≠ rootId → s.nodes.lookup id = some node →
      s.nodes.lookup id' = some node' → node.blockHash = node'.blockHash → id = id') ∧
    (∀ order now' parentHash blockHashes,
      let result := (s.matchPrefix order now' parentHash blockHashes).2
      result.matchedBlocks ≤ blockHashes.length ∧
      (∀ k ≤ blockHashes.length, k ≤ result.matchedBlocks ↔
        IsPath s.contents (s.knownParent parentHash) (blockHashes.take k)) ∧
      ∀ w, w ∈ result.workers ↔ ∃ blockHash,
        (blockHashes.take result.matchedBlocks).getLast? = some blockHash ∧
          blockHash ∈ blockSet (streams w)) ∧
    ∀ now' ops', Interleaves streams ops' → ((new now').run ops').1.contents = s.contents := by
  intro s
  have hs : Represents par (fun w => blockSet (streams w)) s :=
    represents_of_interleaves hstreams now hops
  refine ⟨hs.lists_iff, fun id id' node node' hid hid' h h' heq => ?_,
    fun order now' parentHash blockHashes => ?_, fun now' ops' hops' => ?_⟩
  · have hlabel : s.links.label id = some node.blockHash := by simp [links, h]
    have hlabel' : s.links.label id' = some node.blockHash := by simp [links, h', heq]
    exact hs.follows.eq_of_label hs.wellFormed.tree hid hid' hlabel hlabel'
  · obtain ⟨hle, hmatched, hworkers⟩ :=
      matchPrefix_finds hs.wellFormed hs.follows order now' parentHash blockHashes
    exact ⟨hle, hmatched, fun w => by simp only [hworkers, hs.lists_iff]⟩
  · exact (represents_of_interleaves hstreams now' hops').contents_eq hs

/-- The ids of a set in increasing order. -/
def ascending : IterationOrder where
  visit ids := ids.sort (· ≤ ·)
  nodup_visit ids := ids.sort_nodup (· ≤ ·)
  mem_visit ids _ := ids.mem_sort (· ≤ ·)

/-- Two workers store a block, one of them a second block below it, and then removes the first. -/
theorem run_represents_blockSets_of_two_workers :
    let a : KvWorkerId := ⟨"http://a", 0⟩
    let b : KvWorkerId := ⟨"http://b", 0⟩
    let store : TreeOperation := .insert ascending 1 a none [1, 2]
    let share : TreeOperation := .insert ascending 2 b none [1]
    let drop : TreeOperation := .remove ascending a [1]
    let s := ((new 0).run [store, share, drop]).1
    s.Lists 2 a ∧ ¬s.Lists 1 a ∧ s.Lists 1 b ∧
      ((new 0).run [share, store, drop]).1.contents = s.contents := by
  intro a b store share drop s
  have hstream (w : KvWorkerId) : stream w [store, share, drop] =
        (if w = a then [.blockStored none [1, 2], .blockRemoved [1]]
          else if w = b then [.blockStored none [1]] else []) ∧
      stream w [share, store, drop] = stream w [store, share, drop] := by
    by_cases hwa : w = a
    · subst hwa
      decide
    · by_cases hwb : w = b
      · subst hwb
        decide
      · simp [stream, store, share, drop, TreeOperation.eventOf, TreeOperation.event, hwa, hwb,
          Ne.symm hwa, Ne.symm hwb]
  have hconsistent (w : KvWorkerId) :
      ChainConsistent (fun h => if h = 2 then some 1 else none)
        (stream w [store, share, drop]) := by
    rw [(hstream w).1]
    split_ifs <;> simp [ChainConsistent, KvCacheEvent.Fits, Chained]
  obtain ⟨hlists, -, -, hcontents⟩ := run_represents_blockSets _ _ hconsistent 0
    [store, share, drop] ⟨by simp [store, share, drop, TreeOperation.Evicts], fun _ => rfl⟩
  refine ⟨(hlists 2 a).mpr (by decide), fun h => absurd ((hlists 1 a).mp h) (by decide),
    (hlists 1 b).mpr (by decide), hcontents 0 [share, store, drop] ⟨?_, fun w => (hstream w).2⟩⟩
  simp [store, share, drop, TreeOperation.Evicts]

end TreeState

end SglangRs.Router
