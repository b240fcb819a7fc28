import Mathlib.Data.Finset.Card

/-!
# The block prefix index

`KvBlockPrefixIndex` remembers which workers have cached which chains of blocks: a tree over block
hashes whose nodes carry the workers that have the chain up to there (`cache.rs`, lines 173–342).
Removing a worker from a chain prunes on the way back, clearing a worker prunes everywhere.

The index stands for a map from paths to sets of workers. An insert adds the worker at every
non-empty prefix of the chain, a removal deletes it there, and a clear deletes it from all paths;
pruning does not show. The children of a node are a finite map from hashes to nodes, a set of keys
with a child for each of them.

## Main definitions

* `KvBlockPrefixNode`, `KvBlockPrefixIndex` and its operations.
* `KvBlockPrefixNode.workersAt`: the workers at the end of a path.
* `PathWorkers`: the map that an index stands for.
* `KvBlockPrefixNode.Pruned`: no node but the root is without workers and children.

## Main results

* `KvBlockPrefixNode.workersAt_insertChain`, `KvBlockPrefixNode.workersAt_removeWorkerFromChain`,
  `KvBlockPrefixNode.workersAt_clearWorkerFromBlockNode`: what the operations do to the map.
* `block_prefix_index_refines`: in every run the index is the map and has no useless node.
-/

namespace SglangRs

structure KvCacheWorkerId where
  endpoint : String
  dpRank : UInt32
deriving DecidableEq, Repr

structure KvBlockPrefixMatch where
  matchedBlocks : ℕ
  workers : Finset KvCacheWorkerId
deriving DecidableEq

/-- A node, with the workers that have the blocks up to it, and its children. -/
inductive KvBlockPrefixNode where
  | mk (workers : Finset KvCacheWorkerId) (hashes : Finset Int64)
      (child : ∀ hash ∈ hashes, KvBlockPrefixNode)

namespace KvBlockPrefixNode

/-- A node without workers and children. -/
def empty : KvBlockPrefixNode := mk ∅ ∅ fun _ h => absurd h (Finset.notMem_empty _)

def workers : KvBlockPrefixNode → Finset KvCacheWorkerId
  | mk workers _ _ => workers

/-- The child of a node along a hash. -/
def get (hash : Int64) : KvBlockPrefixNode → Option KvBlockPrefixNode
  | mk _ hashes child => if h : hash ∈ hashes then some (child hash h) else none

/-- The node with its workers replaced. -/
def setWorkers (workers : Finset KvCacheWorkerId) : KvBlockPrefixNode → KvBlockPrefixNode
  | mk _ hashes child => mk workers hashes child

/-- The node with the child along a hash added or replaced. -/
def setChild : KvBlockPrefixNode → Int64 → KvBlockPrefixNode → KvBlockPrefixNode
  | mk workers hashes child, hash, node =>
      mk workers (insert hash hashes) fun hash' h' =>
        if h : hash' = hash then node else child hash' (Finset.mem_of_mem_insert_of_ne h' h)

/-- The node without the child along a hash. -/
def removeChild (hash : Int64) : KvBlockPrefixNode → KvBlockPrefixNode
  | mk workers hashes child =>
      mk workers (hashes.erase hash) fun hash' h' => child hash' (Finset.mem_of_mem_erase h')

/-- The node has no workers and no children. -/
def isEmpty : KvBlockPrefixNode → Bool
  | mk workers hashes _ => workers = ∅ ∧ hashes = ∅

/-- Add a worker at every node of a chain, creating the missing nodes.

Source: `cache.rs`, lines 179–185. -/
def insertChain (worker : KvCacheWorkerId) : KvBlockPrefixNode → List Int64 → KvBlockPrefixNode
  | node, [] => node
  | node, blockHash :: blockHashes =>
      let child := (node.get blockHash).getD empty
      node.setChild blockHash
        (insertChain worker (child.setWorkers (insert worker child.workers)) blockHashes)

/-- Remove a worker from every node of a chain, and the nodes that are empty then. The flag says
whether the node itself is empty.

Source: `cache.rs`, lines 306–324. -/
def removeWorkerFromChain (worker : KvCacheWorkerId) :
    KvBlockPrefixNode → List Int64 → KvBlockPrefixNode × Bool
  | node, [] => (node, node.isEmpty)
  | node, blockHash :: remainingHashes =>
      let node' :=
        match node.get blockHash with
        | none => node
        | some child =>
            match removeWorkerFromChain worker (child.setWorkers (child.workers.erase worker))
              remainingHashes with
            | (_, true) => node.removeChild blockHash
            | (child, false) => node.setChild blockHash child
      (node', node'.isEmpty)

/-- Remove a worker from a node and all nodes below it, and the nodes below that are empty then.

Source: `cache.rs`, lines 326–333. -/
def clearWorkerFromBlockNode (worker : KvCacheWorkerId) :
    KvBlockPrefixNode → KvBlockPrefixNode × Bool
  | mk workers hashes child =>
      let cleared := fun hash h => (clearWorkerFromBlockNode worker (child hash h)).1
      let node := mk (workers.erase worker)
        (hashes.filter fun hash => ∃ h : hash ∈ hashes, ¬(cleared hash h).isEmpty)
        fun hash h => cleared hash (Finset.mem_of_mem_filter hash h)
      (node, node.isEmpty)

/-- The loop of `match_prefix`. -/
def matchFrom : (node : KvBlockPrefixNode) → (blockHashes : List Int64) → (matchedBlocks : ℕ) →
    (workers : Finset KvCacheWorkerId) → KvBlockPrefixMatch
  | _, [], matchedBlocks, workers => ⟨matchedBlocks, workers⟩
  | node, blockHash :: blockHashes, matchedBlocks, workers =>
      match node.get blockHash with
      | none => ⟨matchedBlocks, workers⟩
      | some child => matchFrom child blockHashes (matchedBlocks + 1) child.workers

end KvBlockPrefixNode

structure KvBlockPrefixIndex where
  root : KvBlockPrefixNode := .empty

namespace KvBlockPrefixIndex

variable (index : KvBlockPrefixIndex)

def insert (worker : KvCacheWorkerId) (blockHashes : List Int64) : KvBlockPrefixIndex :=
  ⟨index.root.insertChain worker blockHashes⟩

def remove (worker : KvCacheWorkerId) (blockHashes : List Int64) : KvBlockPrefixIndex :=
  ⟨(index.root.removeWorkerFromChain worker blockHashes).1⟩

def clearWorker (worker : KvCacheWorkerId) : KvBlockPrefixIndex :=
  ⟨(index.root.clearWorkerFromBlockNode worker).1⟩

/-- Source: `cache.rs`, lines 195–213. -/
def matchPrefix (blockHashes : List Int64) : KvBlockPrefixMatch :=
  index.root.matchFrom blockHashes 0 ∅

/-- The calls that change an index. -/
inductive Call where
  | insert (worker : KvCacheWorkerId) (blockHashes : List Int64)
  | remove (worker : KvCacheWorkerId) (blockHashes : List Int64)
  | clearWorker (worker : KvCacheWorkerId)

def apply : Call → KvBlockPrefixIndex
  | .insert worker blockHashes => index.insert worker blockHashes
  | .remove worker blockHashes => index.remove worker blockHashes
  | .clearWorker worker => index.clearWorker worker

def run (calls : List Call) : KvBlockPrefixIndex := calls.foldl apply index

end KvBlockPrefixIndex

/-! ### The map that an index stands for -/

/-- A set of workers for every path. -/
abbrev PathWorkers := List Int64 → Finset KvCacheWorkerId

namespace PathWorkers

/-- What a call does to the sets of workers. -/
def apply (workers : PathWorkers) : KvBlockPrefixIndex.Call → PathWorkers
  | .insert worker blockHashes => fun path =>
      if path ≠ [] ∧ path <+: blockHashes then insert worker (workers path) else workers path
  | .remove worker blockHashes => fun path =>
      if path ≠ [] ∧ path <+: blockHashes then (workers path).erase worker else workers path
  | .clearWorker worker => fun path => (workers path).erase worker

def run (calls : List KvBlockPrefixIndex.Call) : PathWorkers :=
  calls.foldl apply fun _ => ∅

/-- The path or one that it begins has workers. -/
def Known (workers : PathWorkers) (path : List Int64) : Prop :=
  ∃ rest, (workers (path ++ rest)).Nonempty

/-- The match of `q`: its longest known prefix, with the workers of this path. -/
structure Matches (workers : PathWorkers) (q : List Int64) (m : KvBlockPrefixMatch) : Prop where
  le_length : m.matchedBlocks ≤ q.length
  known : m.matchedBlocks = 0 ∨ workers.Known (q.take m.matchedBlocks)
  longest : ∀ k ≤ q.length, workers.Known (q.take k) → k ≤ m.matchedBlocks
  workers_eq : m.workers = workers (q.take m.matchedBlocks)

end PathWorkers

namespace KvBlockPrefixNode

/-- The node at the end of a path. -/
def descend : KvBlockPrefixNode → List Int64 → Option KvBlockPrefixNode
  | node, [] => some node
  | node, hash :: path => (node.get hash).bind fun child => child.descend path

/-- The workers at the end of a path. -/
def workersAt (node : KvBlockPrefixNode) (path : List Int64) : Finset KvCacheWorkerId :=
  ((node.descend path).map workers).getD ∅

/-- No node below this one is without workers and children. -/
def Pruned (node : KvBlockPrefixNode) : Prop :=
  ∀ path below, path ≠ [] → node.descend path = some below → below.isEmpty = false

variable {node child : KvBlockPrefixNode} {hash hash' : Int64} {worker : KvCacheWorkerId}

@[simp] theorem workers_setWorkers (workers : Finset KvCacheWorkerId) :
    (node.setWorkers workers).workers = workers := by
  cases node; rfl

@[simp] theorem get_setWorkers (workers : Finset KvCacheWorkerId) :
    (node.setWorkers workers).get hash = node.get hash := by
  cases node; rfl

@[simp] theorem workers_setChild : (node.setChild hash child).workers = node.workers := by
  cases node; rfl

@[simp] theorem workers_removeChild : (node.removeChild hash).workers = node.workers := by
  cases node; rfl

@[simp] theorem get_setChild :
    (node.setChild hash child).get hash' = if hash' = hash then some child else node.get hash' := by
  obtain ⟨workers, hashes, children⟩ := node
  simp only [setChild, get, Finset.mem_insert]
  split_ifs <;> simp_all

@[simp] theorem get_removeChild :
    (node.removeChild hash).get hash' = if hash' = hash then none else node.get hash' := by
  obtain ⟨workers, hashes, children⟩ := node
  simp only [removeChild, get, Finset.mem_erase]
  split_ifs <;> simp_all

@[simp] theorem get_empty : empty.get hash = none := rfl

@[simp] theorem workers_empty : empty.workers = ∅ := rfl

theorem isEmpty_iff : node.isEmpty = true ↔ node.workers = ∅ ∧ ∀ hash, node.get hash = none := by
  obtain ⟨workers, hashes, children⟩ := node
  simp only [isEmpty, decide_eq_true_eq, KvBlockPrefixNode.workers, get, dite_eq_right_iff,
    reduceCtorEq, imp_false, Finset.eq_empty_iff_forall_notMem]

@[simp] theorem workersAt_nil : node.workersAt [] = node.workers := rfl

theorem workersAt_cons (path : List Int64) :
    node.workersAt (hash :: path) =
      ((node.get hash).map fun child => child.workersAt path).getD ∅ := by
  unfold workersAt
  rw [descend]
  cases node.get hash <;> rfl

theorem workersAt_of_get (h : node.get hash = some child) (path : List Int64) :
    node.workersAt (hash :: path) = child.workersAt path := by
  rw [workersAt_cons, h]
  rfl

theorem workersAt_of_get_eq_none (h : node.get hash = none) (path : List Int64) :
    node.workersAt (hash :: path) = ∅ := by
  rw [workersAt_cons, h]
  rfl

theorem workersAt_empty (path : List Int64) : empty.workersAt path = ∅ := by
  cases path with
  | nil => rfl
  | cons hash path => exact workersAt_of_get_eq_none rfl path

/-- Below an empty node there are no workers. -/
theorem workersAt_of_isEmpty (h : node.isEmpty = true) (path : List Int64) :
    node.workersAt path = ∅ := by
  obtain ⟨hworkers, hget⟩ := isEmpty_iff.mp h
  cases path with
  | nil => exact hworkers
  | cons hash path => exact workersAt_of_get_eq_none (hget hash) path

theorem workersAt_setWorkers_cons (workers : Finset KvCacheWorkerId) (path : List Int64) :
    (node.setWorkers workers).workersAt (hash :: path) = node.workersAt (hash :: path) := by
  rw [workersAt_cons, workersAt_cons, get_setWorkers]

theorem workersAt_setChild (path : List Int64) :
    (node.setChild hash child).workersAt (hash' :: path) =
      if hash' = hash then child.workersAt path else node.workersAt (hash' :: path) := by
  rw [workersAt_cons, get_setChild]
  split_ifs with h
  · rfl
  · rw [workersAt_cons]

theorem workersAt_removeChild (path : List Int64) :
    (node.removeChild hash).workersAt (hash' :: path) =
      if hash' = hash then ∅ else node.workersAt (hash' :: path) := by
  rw [workersAt_cons, get_removeChild]
  split_ifs with h
  · rfl
  · rw [workersAt_cons]

/-! ### Pruned trees -/

theorem pruned_iff : node.Pruned ↔
    ∀ hash child, node.get hash = some child → child.isEmpty = false ∧ child.Pruned := by
  constructor
  · intro h hash child hget
    refine ⟨h [hash] child (by simp) (by simp [descend, hget]), fun path below _ hbelow => ?_⟩
    exact h (hash :: path) below (by simp) (by simp [descend, hget, hbelow])
  · intro h path below hne hbelow
    cases path with
    | nil => exact absurd rfl hne
    | cons hash path =>
      obtain ⟨child, hget, hbelow⟩ := Option.bind_eq_some_iff.mp hbelow
      obtain ⟨hchild, hpruned⟩ := h hash child hget
      cases path with
      | nil => exact Option.some.inj hbelow ▸ hchild
      | cons hash' path => exact hpruned (hash' :: path) below (by simp) hbelow

theorem pruned_empty : empty.Pruned :=
  pruned_iff.mpr fun hash child h => by simp at h

theorem Pruned.setWorkers (h : node.Pruned) (workers : Finset KvCacheWorkerId) :
    (node.setWorkers workers).Pruned :=
  pruned_iff.mpr fun hash child hget => pruned_iff.mp h hash child (by simpa using hget)

theorem Pruned.setChild (h : node.Pruned) (hchild : child.isEmpty = false)
    (hpruned : child.Pruned) : (node.setChild hash child).Pruned := by
  refine pruned_iff.mpr fun hash' child' hget => ?_
  rw [get_setChild] at hget
  split_ifs at hget
  · obtain rfl := Option.some.inj hget
    exact ⟨hchild, hpruned⟩
  · exact pruned_iff.mp h hash' child' hget

theorem Pruned.removeChild (h : node.Pruned) : (node.removeChild hash).Pruned := by
  refine pruned_iff.mpr fun hash' child' hget => ?_
  rw [get_removeChild] at hget
  split_ifs at hget
  exact pruned_iff.mp h hash' child' hget

/-- **Useful nodes.** In a pruned tree every node but the root leads to workers. -/
theorem Pruned.exists_workersAt (h : node.Pruned) (hne : node.isEmpty = false) :
    ∃ path, (node.workersAt path).Nonempty := by
  induction node with
  | mk workers hashes children ih =>
    rcases workers.eq_empty_or_nonempty with rfl | hworkers
    · have hhashes : hashes.Nonempty := by
        rw [Finset.nonempty_iff_ne_empty]
        rintro rfl
        simp [isEmpty] at hne
      obtain ⟨hash, hmem⟩ := hhashes
      have hget : (mk ∅ hashes children).get hash = some (children hash hmem) := dif_pos hmem
      obtain ⟨hchild, hpruned⟩ := pruned_iff.mp h hash _ hget
      obtain ⟨path, hpath⟩ := ih hash hmem hpruned hchild
      exact ⟨hash :: path, by rwa [workersAt_of_get hget]⟩
    · exact ⟨[], hworkers⟩

/-! ### Operations -/

@[simp] theorem workers_insertChain (worker : KvCacheWorkerId) (node : KvBlockPrefixNode)
    (blockHashes : List Int64) : (node.insertChain worker blockHashes).workers = node.workers := by
  cases blockHashes with
  | nil => rfl
  | cons blockHash blockHashes => exact workers_setChild

/-- **Inserting** adds the worker at the non-empty prefixes of the chain. -/
theorem workersAt_insertChain (worker : KvCacheWorkerId) (node : KvBlockPrefixNode)
    (blockHashes path : List Int64) :
    (node.insertChain worker blockHashes).workersAt path =
      if path ≠ [] ∧ path <+: blockHashes then insert worker (node.workersAt path)
      else node.workersAt path := by
  induction blockHashes generalizing node path with
  | nil =>
    rw [if_neg, insertChain]
    rintro ⟨hne, hpath⟩
    exact hne (List.prefix_nil.mp hpath)
  | cons blockHash blockHashes ih =>
    cases path with
    | nil => simp
    | cons hash path =>
      simp only [insertChain, workersAt_setChild, ne_eq, reduceCtorEq, not_false_eq_true, true_and,
        List.cons_prefix_cons]
      by_cases heq : hash = blockHash
      · subst heq
        have hchild (path : List Int64) :
            ((node.get hash).getD empty).workersAt path = node.workersAt (hash :: path) := by
          cases hget : node.get hash with
          | none => rw [workersAt_of_get_eq_none hget, Option.getD_none, workersAt_empty]
          | some child => rw [workersAt_of_get hget, Option.getD_some]
        simp only [if_true, true_and, ih]
        cases path with
        | nil => simp [← hchild]
        | cons hash' path => simp [workersAt_setWorkers_cons, hchild]
      · simp [heq]

theorem Pruned.insertChain (h : node.Pruned) (worker : KvCacheWorkerId)
    (blockHashes : List Int64) : (node.insertChain worker blockHashes).Pruned := by
  induction blockHashes generalizing node with
  | nil => exact h
  | cons blockHash blockHashes ih =>
    have hchild : ((node.get blockHash).getD empty).Pruned := by
      cases hget : node.get blockHash with
      | none => exact pruned_empty
      | some child => exact (pruned_iff.mp h blockHash child hget).2
    refine h.setChild ?_ (ih (hchild.setWorkers _))
    -- the worker has just been added
    rw [Bool.eq_false_iff]
    intro hempty
    have hworkers := (isEmpty_iff.mp hempty).1
    rw [workers_insertChain, workers_setWorkers] at hworkers
    exact Finset.insert_ne_empty _ _ hworkers

/-- The flag that a removal returns says whether the node is empty. -/
theorem snd_removeWorkerFromChain (worker : KvCacheWorkerId) (node : KvBlockPrefixNode)
    (blockHashes : List Int64) : (node.removeWorkerFromChain worker blockHashes).2 =
      (node.removeWorkerFromChain worker blockHashes).1.isEmpty := by
  cases blockHashes <;> rfl

/-- A removal from a chain, by cases: the chain ends, or leads nowhere, or its first node is left
empty, or it is kept. -/
theorem removeWorkerFromChain_cons (worker : KvCacheWorkerId) (node : KvBlockPrefixNode)
    (blockHash : Int64) (blockHashes : List Int64) :
    (node.get blockHash = none ∧
      (node.removeWorkerFromChain worker (blockHash :: blockHashes)).1 = node) ∨
    ∃ child child', node.get blockHash = some child ∧
      child' = ((child.setWorkers (child.workers.erase worker)).removeWorkerFromChain worker
        blockHashes).1 ∧
      (node.removeWorkerFromChain worker (blockHash :: blockHashes)).1 =
        if child'.isEmpty then node.removeChild blockHash else node.setChild blockHash child' := by
  cases hget : node.get blockHash with
  | none => exact .inl ⟨rfl, by simp [removeWorkerFromChain, hget]⟩
  | some child =>
    refine .inr ⟨child, _, rfl, rfl, ?_⟩
    have hflag := snd_removeWorkerFromChain worker (child.setWorkers (child.workers.erase worker))
      blockHashes
    rcases hremoved : (child.setWorkers (child.workers.erase worker)).removeWorkerFromChain worker
      blockHashes with ⟨child', _ | _⟩
    · rw [hremoved] at hflag
      simp [removeWorkerFromChain, hget, hremoved, ← hflag]
    · rw [hremoved] at hflag
      simp [removeWorkerFromChain, hget, hremoved, ← hflag]

@[simp] theorem workers_removeWorkerFromChain (worker : KvCacheWorkerId) (node : KvBlockPrefixNode)
    (blockHashes : List Int64) :
    (node.removeWorkerFromChain worker blockHashes).1.workers = node.workers := by
  cases blockHashes with
  | nil => rfl
  | cons blockHash blockHashes =>
    rcases removeWorkerFromChain_cons worker node blockHash blockHashes with
      ⟨-, heq⟩ | ⟨_, _, -, -, heq⟩ <;> rw [heq]
    split_ifs
    · exact workers_removeChild
    · exact workers_setChild

/-- **Removing** deletes the worker at the non-empty prefixes of the chain. -/
theorem workersAt_removeWorkerFromChain (worker : KvCacheWorkerId) (node : KvBlockPrefixNode)
    (blockHashes path : List Int64) :
    (node.removeWorkerFromChain worker blockHashes).1.workersAt path =
      if path ≠ [] ∧ path <+: blockHashes then (node.workersAt path).erase worker
      else node.workersAt path := by
  induction blockHashes generalizing node path with
  | nil =>
    rw [if_neg, removeWorkerFromChain]
    rintro ⟨hne, hpath⟩
    exact hne (List.prefix_nil.mp hpath)
  | cons blockHash blockHashes ih =>
    cases path with
    | nil => simp
    | cons hash path =>
      simp only [ne_eq, reduceCtorEq, not_false_eq_true, true_and, List.cons_prefix_cons]
      rcases removeWorkerFromChain_cons worker node blockHash blockHashes with
        ⟨hget, heq⟩ | ⟨child, child', hget, hchild', heq⟩
      · rw [heq]
        split_ifs with hpath
        · rw [hpath.1, workersAt_of_get_eq_none hget, Finset.erase_empty]
        · rfl
      · have hstep : (node.removeWorkerFromChain worker (blockHash :: blockHashes)).1.workersAt
            (hash :: path) =
              if hash = blockHash then child'.workersAt path
              else node.workersAt (hash :: path) := by
          rw [heq]
          split_ifs with hempty hhash hhash
          · rw [workersAt_removeChild, if_pos hhash, workersAt_of_isEmpty hempty]
          · rw [workersAt_removeChild, if_neg hhash]
          · rw [workersAt_setChild, if_pos hhash]
          · rw [workersAt_setChild, if_neg hhash]
        rw [hstep]
        by_cases hhash : hash = blockHash
        · subst hhash
          simp only [if_true, true_and, hchild', ih, workersAt_of_get hget]
          cases path with
          | nil => simp
          | cons hash' path => simp [workersAt_setWorkers_cons]
        · simp [hhash]

theorem Pruned.removeWorkerFromChain (h : node.Pruned) (worker : KvCacheWorkerId)
    (blockHashes : List Int64) : (node.removeWorkerFromChain worker blockHashes).1.Pruned := by
  induction blockHashes generalizing node with
  | nil => exact h
  | cons blockHash blockHashes ih =>
    rcases removeWorkerFromChain_cons worker node blockHash blockHashes with
      ⟨-, heq⟩ | ⟨child, child', hget, rfl, heq⟩ <;> rw [heq]
    · exact h
    · split_ifs with hempty
      · exact h.removeChild
      · refine h.setChild (Bool.eq_false_iff.mpr hempty) (ih ?_)
        exact (pruned_iff.mp h blockHash child hget).2.setWorkers _

/-- The children that are left after a clear. -/
theorem get_clearWorkerFromBlockNode (worker : KvCacheWorkerId) (node : KvBlockPrefixNode)
    (hash : Int64) :
    (node.clearWorkerFromBlockNode worker).1.get hash =
      (node.get hash).bind fun child =>
        let cleared := (child.clearWorkerFromBlockNode worker).1
        if cleared.isEmpty then none else some cleared := by
  obtain ⟨workers, hashes, children⟩ := node
  simp only [clearWorkerFromBlockNode, get, Finset.mem_filter]
  by_cases hmem : hash ∈ hashes
  · cases hempty : ((children hash hmem).clearWorkerFromBlockNode worker).1.isEmpty <;>
      simp [hmem, hempty]
  · simp [hmem]

/-- **Clearing** deletes the worker from all paths. -/
theorem workersAt_clearWorkerFromBlockNode (worker : KvCacheWorkerId) (node : KvBlockPrefixNode)
    (path : List Int64) :
    (node.clearWorkerFromBlockNode worker).1.workersAt path =
      (node.workersAt path).erase worker := by
  induction path generalizing node with
  | nil =>
    cases node
    rfl
  | cons hash path ih =>
    rw [workersAt_cons, workersAt_cons, get_clearWorkerFromBlockNode]
    cases node.get hash with
    | none => simp
    | some child =>
      simp only [Option.bind_some, Option.map_some, Option.getD_some, ← ih]
      split_ifs with hempty
      · exact (workersAt_of_isEmpty hempty path).symm
      · rfl

theorem pruned_clearWorkerFromBlockNode (worker : KvCacheWorkerId) (node : KvBlockPrefixNode) :
    (node.clearWorkerFromBlockNode worker).1.Pruned := by
  induction node with
  | mk workers hashes children ih =>
    refine pruned_iff.mpr fun hash child hget => ?_
    rw [get_clearWorkerFromBlockNode] at hget
    obtain ⟨before, hbefore, hcleared⟩ := Option.bind_eq_some_iff.mp hget
    dsimp only at hcleared
    split_ifs at hcleared with hempty
    obtain rfl := Option.some.inj hcleared
    refine ⟨Bool.eq_false_iff.mpr hempty, ?_⟩
    simp only [get] at hbefore
    split_ifs at hbefore with hmem
    obtain rfl := Option.some.inj hbefore
    exact ih hash hmem

/-! ### Lookups -/

/-- In a pruned tree the known paths are those that lead to a node. -/
theorem Pruned.known_iff (h : node.Pruned) {path : List Int64} (hne : path ≠ []) :
    PathWorkers.Known node.workersAt path ↔ (node.descend path).isSome := by
  have hsplit (path rest : List Int64) : node.descend (path ++ rest) =
      (node.descend path).bind fun below => below.descend rest := by
    clear h hne
    induction path generalizing node with
    | nil => rfl
    | cons hash path ih =>
      rw [List.cons_append, descend, descend, Option.bind_assoc]
      exact congrArg _ (funext fun child => ih)
  cases hdescend : node.descend path with
  | none =>
    refine iff_of_false ?_ (by simp)
    rintro ⟨rest, hworkers⟩
    rw [workersAt, hsplit, hdescend] at hworkers
    simp at hworkers
  | some below =>
    refine iff_of_true ?_ rfl
    have hbelow : below.Pruned := by
      intro path' below' hne' hbelow'
      refine h (path ++ path') below' (by simp [hne]) ?_
      rw [hsplit, hdescend]
      exact hbelow'
    obtain ⟨rest, hworkers⟩ := hbelow.exists_workersAt (h path below hne hdescend)
    refine ⟨rest, ?_⟩
    rw [workersAt, hsplit, hdescend]
    exact hworkers

/-- The loop of a lookup goes as far as there are nodes. -/
theorem matchFrom_spec (node : KvBlockPrefixNode) (q : List Int64) (n : ℕ)
    (workers : Finset KvCacheWorkerId) :
    ∃ k ≤ q.length, (node.matchFrom q n workers).matchedBlocks = n + k ∧
      (node.descend (q.take k)).isSome ∧
      (∀ j ≤ q.length, (node.descend (q.take j)).isSome → j ≤ k) ∧
      (node.matchFrom q n workers).workers =
        if k = 0 then workers else node.workersAt (q.take k) := by
  induction q generalizing node n workers with
  | nil => exact ⟨0, le_rfl, rfl, rfl, fun j hj _ => hj, rfl⟩
  | cons hash q ih =>
    cases hget : node.get hash with
    | none =>
      refine ⟨0, Nat.zero_le _, by simp [matchFrom, hget], rfl, fun j _ hsome => ?_, by
        simp [matchFrom, hget]⟩
      cases j with
      | zero => exact le_rfl
      | succ j => simp [descend, hget] at hsome
    | some child =>
      obtain ⟨k, hk, hmatched, hsome, hlongest, hworkers⟩ := ih child (n + 1) child.workers
      have hdescend (j : ℕ) :
          node.descend ((hash :: q).take (j + 1)) = child.descend (q.take j) := by
        simp [descend, hget]
      refine ⟨k + 1, by simpa using hk, ?_, ?_, fun j hj hsome' => ?_, ?_⟩
      · simp only [matchFrom, hget, hmatched]
        omega
      · rw [hdescend]
        exact hsome
      · cases j with
        | zero => exact Nat.zero_le _
        | succ j =>
          rw [hdescend] at hsome'
          exact Nat.succ_le_succ (hlongest j (by simpa using hj) hsome')
      · simp only [matchFrom, hget, hworkers, Nat.add_one_ne_zero, if_false, List.take_succ_cons,
          workersAt_of_get hget]
        split_ifs with hk0
        · subst hk0
          rfl
        · rfl

theorem Pruned.matches (h : node.Pruned) (hroot : node.workers = ∅) (q : List Int64) :
    PathWorkers.Matches node.workersAt q (node.matchFrom q 0 ∅) := by
  obtain ⟨k, hk, hmatched, hsome, hlongest, hworkers⟩ := node.matchFrom_spec q 0 ∅
  rw [Nat.zero_add] at hmatched
  have hne {j : ℕ} (hj : j ≤ q.length) (hpos : 0 < j) : q.take j ≠ [] := by
    intro hnil
    have hlen := congrArg List.length hnil
    rw [List.length_take, List.length_nil] at hlen
    omega
  refine ⟨hmatched ▸ hk, ?_, fun j hj hknown => ?_, ?_⟩
  · rw [hmatched]
    rcases Nat.eq_zero_or_pos k with hzero | hpos
    · exact .inl hzero
    · exact .inr ((h.known_iff (hne hk hpos)).mpr hsome)
  · rw [hmatched]
    rcases Nat.eq_zero_or_pos j with rfl | hpos
    · exact Nat.zero_le _
    · exact hlongest j hj ((h.known_iff (hne hj hpos)).mp hknown)
  · rw [hworkers, hmatched]
    split_ifs with hzero
    · rw [hzero, List.take_zero, workersAt_nil, hroot]
    · rfl

end KvBlockPrefixNode

namespace KvBlockPrefixIndex

variable {index : KvBlockPrefixIndex} {workers : PathWorkers}

/-- The index is pruned and stands for the map. -/
structure Represents (index : KvBlockPrefixIndex) (workers : PathWorkers) : Prop where
  pruned : index.root.Pruned
  root_eq : index.root.workers = ∅
  workersAt_eq : ∀ path, index.root.workersAt path = workers path

theorem Represents.apply (h : index.Represents workers) (call : Call) :
    (index.apply call).Represents (workers.apply call) := by
  cases call with
  | insert worker blockHashes =>
    refine ⟨h.pruned.insertChain worker blockHashes, ?_, fun path => ?_⟩
    · exact (KvBlockPrefixNode.workers_insertChain ..).trans h.root_eq
    · simp only [PathWorkers.apply, ← h.workersAt_eq]
      exact KvBlockPrefixNode.workersAt_insertChain ..
  | remove worker blockHashes =>
    refine ⟨h.pruned.removeWorkerFromChain worker blockHashes, ?_, fun path => ?_⟩
    · exact (KvBlockPrefixNode.workers_removeWorkerFromChain ..).trans h.root_eq
    · simp only [PathWorkers.apply, ← h.workersAt_eq]
      exact KvBlockPrefixNode.workersAt_removeWorkerFromChain ..
  | clearWorker worker =>
    have hworkers (path : List Int64) :=
      KvBlockPrefixNode.workersAt_clearWorkerFromBlockNode worker index.root path
    refine ⟨KvBlockPrefixNode.pruned_clearWorkerFromBlockNode worker index.root, ?_,
      fun path => ?_⟩
    · refine (hworkers []).trans ?_
      rw [KvBlockPrefixNode.workersAt_nil, h.root_eq, Finset.erase_empty]
    · simp only [PathWorkers.apply, ← h.workersAt_eq]
      exact hworkers path

theorem represents_run (calls : List Call) :
    (({} : KvBlockPrefixIndex).run calls).Represents (PathWorkers.run calls) := by
  have hrun (index : KvBlockPrefixIndex) (workers : PathWorkers) (h : index.Represents workers) :
      (index.run calls).Represents (calls.foldl PathWorkers.apply workers) := by
    induction calls generalizing index workers with
    | nil => exact h
    | cons call calls ih => exact ih _ _ (h.apply call)
  exact hrun _ _ ⟨KvBlockPrefixNode.pruned_empty, rfl, KvBlockPrefixNode.workersAt_empty⟩

end KvBlockPrefixIndex

/-- **The block prefix index is a map from paths to workers.** In every run the workers at the end
of a path are those of the map to which an insert adds the worker at every non-empty prefix of its
chain, from which a removal deletes it there and a clear everywhere. A lookup returns the longest
prefix that has workers or begins a path that has, with the workers of this prefix, and every node
but the root has workers or children. -/
theorem block_prefix_index_refines (calls : List KvBlockPrefixIndex.Call) :
    let index := ({} : KvBlockPrefixIndex).run calls
    (∀ path, index.root.workersAt path = PathWorkers.run calls path) ∧
      (∀ q, (PathWorkers.run calls).Matches q (index.matchPrefix q)) ∧ index.root.Pruned := by
  intro index
  have h := KvBlockPrefixIndex.represents_run calls
  refine ⟨h.workersAt_eq, fun q => ?_, h.pruned⟩
  have hmatches := h.pruned.matches h.root_eq q
  rwa [show index.root.workersAt = PathWorkers.run calls from funext h.workersAt_eq] at hmatches

end SglangRs
