import Mathlib.Data.Finmap
import Mathlib.Data.Finset.Card
import SglangRs.Transition.Run

/-!
# The hash tree of the router

The router keeps, for the blocks its workers report as cached, a tree of block hashes
(`policies/kv_events/tree.rs`). The nodes live in an arena and refer to each other by id: a node
knows its parent, a parent its children by their hashes, and a reverse index lists the nodes that
carry a hash. This file models the operations of the tree.

The source iterates over hash maps and hash sets, in an order that it does not control. Every
operation therefore takes the order in which it visits a set of ids as an argument. Clocks are
arguments as well. The counter of node ids, 64 bits wide, is not modelled to wrap around.

An operation also reports which of its defensive branches it took: those that log an invariant
violation or give up where the source expects the tree to be consistent.

## Main definitions

* `Router.Node`, `Router.TreeState`: the arena.
* `Router.IterationOrder`: the order in which a set of ids is visited.
* `Router.Defect`: the defensive branches.
* `TreeState.insert`, `TreeState.remove`, `TreeState.clearWorker`, `TreeState.evictLru`,
  `TreeState.matchPrefix`: the operations.
* `Router.TreeOperation`, `TreeState.step`, `TreeState.run`: runs of the tree.
-/

namespace SglangRs.Router

/-- A worker endpoint and its data-parallel rank. -/
structure KvWorkerId where
  url : String
  dpRank : UInt32
deriving DecidableEq, Repr

/-- The key of a node in the arena. -/
abbrev NodeId := ℕ

/-- A node. The parent is missing for the root only. -/
structure Node where
  blockHash : Int64
  parent : Option NodeId
  workers : Finset KvWorkerId
  children : Finmap fun _ : Int64 => NodeId
  lastUsed : ℕ

namespace Node

def newChild (blockHash : Int64) (parent : NodeId) (now : ℕ) : Node :=
  ⟨blockHash, some parent, ∅, ∅, now⟩

/-- Nobody holds the block of the node and nothing hangs below it. -/
def Prunable (n : Node) : Prop := n.workers = ∅ ∧ n.children.keys = ∅

instance (n : Node) : Decidable n.Prunable := inferInstanceAs (Decidable (_ ∧ _))

end Node

/-- The arena, the reverse index and the counter of ids. -/
structure TreeState where
  nodes : Finmap fun _ : NodeId => Node
  byHash : Finmap fun _ : Int64 => Finset NodeId
  nextId : NodeId

def rootId : NodeId := 0

/-- The hash of the root, which is never looked up. -/
def rootHashSentinel : Int64 := Int64.minValue

/-- The order in which the ids of a hash map or hash set are visited. -/
structure IterationOrder where
  visit : Finset NodeId → List NodeId
  nodup_visit : ∀ ids, (visit ids).Nodup
  mem_visit : ∀ ids id, id ∈ visit ids ↔ id ∈ ids

/-- The defensive branches of the source. -/
inductive Defect where
  /-- `create_child` does not find the parent. -/
  | unknownParent
  /-- `insert` does not find the child it fetched or created. -/
  | childMissing
  /-- `prune_cascade` is called for the root. -/
  | pruneRoot
  /-- `prune_cascade` does not find the node. -/
  | pruneMissing
  /-- `prune_cascade` finds a node without a parent. -/
  | pruneOrphan
  /-- `prune_cascade` finds a node that is held or has children. -/
  | pruneRefused
  /-- `prune_cascade` does not find the parent of the node it removes. -/
  | parentMissing
  /-- `prune_cascade` does not find the hash of the node it removes in the reverse index. -/
  | unindexed
  /-- The loop of `prune_cascade` runs for more steps than there are nodes. -/
  | pruneDiverges
  /-- `evict_lru` finds no leaf. -/
  | noLeaf
  /-- The loop of `evict_lru` reaches its iteration cap. -/
  | iterationCap
deriving DecidableEq, Repr

/-- What `match_prefix` returns. -/
structure MatchResult where
  matchedBlocks : ℕ
  workers : Finset KvWorkerId

namespace TreeState

/-- A tree without blocks. -/
def new (now : ℕ) : TreeState where
  nodes := Finmap.singleton rootId ⟨rootHashSentinel, none, ∅, ∅, now⟩
  byHash := ∅
  nextId := 1

variable (s : TreeState)

/-- Change a node, if it is there. -/
def modify (id : NodeId) (f : Node → Node) : TreeState :=
  match s.nodes.lookup id with
  | none => s
  | some node => { s with nodes := s.nodes.insert id (f node) }

/-- The nodes that the reverse index lists for a hash. -/
def indexed (blockHash : Int64) : Finset NodeId := (s.byHash.lookup blockHash).getD ∅

/-- The number of nodes, the root not counted. -/
def nodeCount : ℕ := s.nodes.keys.card - 1

/-! ### Inserting a chain -/

/-- Source: `tree.rs`, lines 211–227. -/
def createChild (parentId : NodeId) (blockHash : Int64) (now : ℕ) : TreeState × Option NodeId :=
  let id := s.nextId
  let nodes := s.nodes.insert id (Node.newChild blockHash parentId now)
  match nodes.lookup parentId with
  | none => ({ s with nodes := nodes.erase id, nextId := id + 1 }, none)
  | some parent =>
      ({ nodes := nodes.insert parentId
            { parent with children := parent.children.insert blockHash id }
         byHash := s.byHash.insert blockHash (Insert.insert id (s.indexed blockHash))
         nextId := id + 1 }, some id)

/-- The node a chain is attached to: the root, the only node that carries the parent hash, or the
first of several that the worker holds.

Source: `tree.rs`, lines 239–273. -/
def resolveParent (order : IterationOrder) (worker : KvWorkerId) (parentHash : Option Int64) :
    NodeId :=
  match parentHash with
  | none => rootId
  | some parentHash =>
      match s.byHash.lookup parentHash with
      | none => rootId
      | some candidates =>
          if candidates.card = 1 then (order.visit candidates).head?.getD rootId
          else
            ((order.visit candidates).find? fun candidate =>
              match s.nodes.lookup candidate with
              | none => false
              | some node => worker ∈ node.workers).getD rootId

/-- The child of a node under a hash, created if there is none. -/
def childFor (current : NodeId) (blockHash : Int64) (now : ℕ) : TreeState × Option NodeId :=
  match (s.nodes.lookup current).bind fun node => node.children.lookup blockHash with
  | some id => (s, some id)
  | none => s.createChild current blockHash now

/-- The loop of `insert`. -/
def insertChain (worker : KvWorkerId) (now : ℕ) :
    List Int64 → TreeState → NodeId → TreeState × List Defect
  | [], s, _ => (s, [])
  | blockHash :: blockHashes, s, current =>
      match s.childFor current blockHash now with
      | (s, none) => (s, [.unknownParent])
      | (s, some id) =>
          match s.nodes.lookup id with
          | none => (s, [.childMissing])
          | some child =>
              let child :=
                { child with workers := Insert.insert worker child.workers, lastUsed := now }
              insertChain worker now blockHashes { s with nodes := s.nodes.insert id child } id

/-- Source: `tree.rs`, lines 275–305. -/
def insert (order : IterationOrder) (now : ℕ) (worker : KvWorkerId) (parentHash : Option Int64)
    (blockHashes : List Int64) : TreeState × List Defect :=
  match blockHashes with
  | [] => (s, [])
  | _ => insertChain worker now blockHashes s (s.resolveParent order worker parentHash)

/-! ### Pruning -/

/-- Take a node off the children of its parent. -/
def unlink (parentId : NodeId) (blockHash : Int64) : TreeState × List Defect :=
  match s.nodes.lookup parentId with
  | none => (s, [.parentMissing])
  | some parent =>
      ({ s with
          nodes := s.nodes.insert parentId
            { parent with children := parent.children.erase blockHash } }, [])

/-- Take a node off the reverse index, and its hash if no other node carries it. -/
def unindex (id : NodeId) (blockHash : Int64) : TreeState × List Defect :=
  match s.byHash.lookup blockHash with
  | none => (s, [.unindexed])
  | some ids =>
      if ids.erase id = ∅ then ({ s with byHash := s.byHash.erase blockHash }, [])
      else ({ s with byHash := s.byHash.insert blockHash (ids.erase id) }, [])

/-- One step of `prune_cascade`: the node is taken out. -/
def detach (id parentId : NodeId) (blockHash : Int64) : TreeState × List Defect :=
  let (s, defects) := s.unlink parentId blockHash
  let (s, defects') := s.unindex id blockHash
  ({ s with nodes := s.nodes.erase id }, defects ++ defects')

/-- Whether a node other than the root is held by nobody and has no children. -/
def isPrunable (id : NodeId) : Bool :=
  match s.nodes.lookup id with
  | none => false
  | some node => id ≠ rootId ∧ node.Prunable

/-- The loop of `prune_cascade`, for at most the given number of steps. -/
def pruneLoop : ℕ → TreeState → NodeId → TreeState × List Defect
  | 0, s, _ => (s, [.pruneDiverges])
  | steps + 1, s, cursor =>
      if cursor = rootId then (s, [.pruneRoot])
      else
        match s.nodes.lookup cursor with
        | none => (s, [.pruneMissing])
        | some node =>
            match node.parent with
            | none => (s, [.pruneOrphan])
            | some parentId =>
                if node.Prunable then
                  let (s, defects) := s.detach cursor parentId node.blockHash
                  if s.isPrunable parentId then
                    let (s, defects') := pruneLoop steps s parentId
                    (s, defects ++ defects')
                  else (s, defects)
                else (s, [.pruneRefused])

/-- Detach a node and every ancestor that becomes empty and childless. Each step of the loop removes
a node or ends it.

Source: `tree.rs`, lines 362–416. -/
def pruneCascade (start : NodeId) : TreeState × List Defect :=
  pruneLoop s.nodes.keys.card s start

/-- Prune a node, adding to the defects found so far. -/
def pruneFrom (state : TreeState × List Defect) (id : NodeId) : TreeState × List Defect :=
  let (s, defects) := state.1.pruneCascade id
  (s, state.2 ++ defects)

/-- Take a worker off a node and prune the node if nothing keeps it. -/
def removeAt (worker : KvWorkerId) (state : TreeState × List Defect) (id : NodeId) :
    TreeState × List Defect :=
  match state.1.nodes.lookup id with
  | none => state
  | some node =>
      let node := { node with workers := node.workers.erase worker }
      let s := { state.1 with nodes := state.1.nodes.insert id node }
      if node.Prunable then pruneFrom (s, state.2) id else (s, state.2)

/-- The nodes that carry one of the given hashes, once for every mention. -/
def targets (order : IterationOrder) (blockHashes : List Int64) : List NodeId :=
  blockHashes.flatMap fun blockHash =>
    match s.byHash.lookup blockHash with
    | none => []
    | some ids => order.visit ids

/-- Source: `tree.rs`, lines 307–330. -/
def remove (order : IterationOrder) (worker : KvWorkerId) (blockHashes : List Int64) :
    TreeState × List Defect :=
  (s.targets order blockHashes).foldl (removeAt worker) (s, [])

/-- Take a worker off a node and note the node if nothing keeps it. -/
def clearAt (worker : KvWorkerId) (state : TreeState × List NodeId) (id : NodeId) :
    TreeState × List NodeId :=
  match state.1.nodes.lookup id with
  | none => state
  | some node =>
      if worker ∈ node.workers then
        let node := { node with workers := node.workers.erase worker }
        ({ state.1 with nodes := state.1.nodes.insert id node },
          if node.Prunable then state.2 ++ [id] else state.2)
      else state

/-- Prune a node that is still there. -/
def pruneIfPresent (state : TreeState × List Defect) (id : NodeId) : TreeState × List Defect :=
  if id ∈ state.1.nodes then pruneFrom state id else state

/-- Source: `tree.rs`, lines 332–358. -/
def clearWorker (order : IterationOrder) (worker : KvWorkerId) : TreeState × List Defect :=
  let ids := (order.visit s.nodes.keys).filter (· ≠ rootId)
  let (s, pruneCandidates) := ids.foldl (clearAt worker) (s, [])
  pruneCandidates.foldl pruneIfPresent (s, [])

/-! ### Eviction -/

/-- The first loop of `evict_lru`, which prunes leaves that nobody holds. -/
def evictEmpty (maxSize : ℕ) : List NodeId → TreeState × List Defect → TreeState × List Defect
  | [], state => state
  | id :: ids, state =>
      if state.1.nodeCount ≤ maxSize then state
      else evictEmpty maxSize ids (pruneIfPresent state id)

/-- The leaf with the smaller time stamp, the earlier one if they are equal. -/
def older (oldest : Option (ℕ × NodeId)) (id : NodeId) : Option (ℕ × NodeId) :=
  match s.nodes.lookup id with
  | none => oldest
  | some node =>
      if id = rootId ∨ node.children.keys ≠ ∅ then oldest
      else
        match oldest with
        | none => some (node.lastUsed, id)
        | some (time, oldestId) =>
            if node.lastUsed < time then some (node.lastUsed, id) else some (time, oldestId)

/-- The second loop of `evict_lru`, for at most the given number of iterations. -/
def evictOldest (order : IterationOrder) (maxSize : ℕ) :
    ℕ → TreeState × List Defect → TreeState × List Defect
  | 0, (s, defects) =>
      if s.nodeCount ≤ maxSize then (s, defects) else (s, defects ++ [.iterationCap])
  | iterations + 1, (s, defects) =>
      if s.nodeCount ≤ maxSize then (s, defects)
      else
        match (order.visit s.nodes.keys).foldl s.older none with
        | none => (s, defects ++ [.noLeaf])
        | some (_, victim) =>
            evictOldest order maxSize iterations
              (pruneFrom (s.modify victim fun node => { node with workers := ∅ }, defects) victim)

/-- Evict nodes, least recently used leaves first, until the bound is met; the number of nodes
removed is returned.

Source: `tree.rs`, lines 492–559. -/
def evictLru (order : IterationOrder) (maxSize : ℕ) : TreeState × ℕ × List Defect :=
  if s.nodeCount ≤ maxSize then (s, 0, [])
  else
    let emptyLeaves := (order.visit s.nodes.keys).filter s.isPrunable
    let (t, defects) := evictEmpty maxSize emptyLeaves (s, [])
    let (t, defects) := evictOldest order maxSize (t.nodes.keys.card + 1) (t, defects)
    (t, s.nodes.keys.card - t.nodes.keys.card, defects)

/-! ### Matching -/

/-- The loop of `match_prefix`: the state with the visited nodes touched, the number of blocks
matched, and the last node. -/
def matchChain (now : ℕ) :
    List Int64 → TreeState → NodeId → ℕ → Option NodeId → TreeState × ℕ × Option NodeId
  | [], s, _, matched, last => (s, matched, last)
  | blockHash :: blockHashes, s, current, matched, last =>
      match (s.nodes.lookup current).bind fun node => node.children.lookup blockHash with
      | none => (s, matched, last)
      | some id =>
          matchChain now blockHashes (s.modify id fun node => { node with lastUsed := now }) id
            (matched + 1) (some id)

/-- Source: `tree.rs`, lines 431–484. -/
def matchPrefix (order : IterationOrder) (now : ℕ) (parentHash : Option Int64)
    (blockHashes : List Int64) : TreeState × MatchResult :=
  match blockHashes with
  | [] => (s, ⟨0, ∅⟩)
  | _ =>
      let start :=
        match parentHash with
        | none => rootId
        | some parentHash =>
            match s.byHash.lookup parentHash with
            | none => rootId
            | some ids => if ids.card = 1 then (order.visit ids).head?.getD rootId else rootId
      let (t, matched, last) := matchChain now blockHashes s start 0 none
      let workers :=
        match last with
        | none => ∅
        | some id =>
            match t.nodes.lookup id with
            | none => ∅
            | some node => node.workers
      (t, ⟨matched, workers⟩)

end TreeState

/-! ### Runs -/

/-- The calls of the tree, with the order in which they visit sets and the time of the call. -/
inductive TreeOperation where
  | insert (order : IterationOrder) (now : ℕ) (worker : KvWorkerId) (parentHash : Option Int64)
      (blockHashes : List Int64)
  | remove (order : IterationOrder) (worker : KvWorkerId) (blockHashes : List Int64)
  | clearWorker (order : IterationOrder) (worker : KvWorkerId)
  | evictLru (order : IterationOrder) (maxSize : ℕ)
  | matchPrefix (order : IterationOrder) (now : ℕ) (parentHash : Option Int64)
      (blockHashes : List Int64)

namespace TreeState

/-- The state after a call and the defensive branches it took. -/
def step (s : TreeState) : TreeOperation → TreeState × List Defect
  | .insert order now worker parentHash blockHashes =>
      s.insert order now worker parentHash blockHashes
  | .remove order worker blockHashes => s.remove order worker blockHashes
  | .clearWorker order worker => s.clearWorker order worker
  | .evictLru order maxSize => ((s.evictLru order maxSize).1, (s.evictLru order maxSize).2.2)
  | .matchPrefix order now parentHash blockHashes =>
      ((s.matchPrefix order now parentHash blockHashes).1, [])

/-- The state after a sequence of calls and all the defensive branches they took. -/
def run (s : TreeState) (ops : List TreeOperation) : TreeState × List Defect :=
  ops.foldl (fun state op => ((state.1.step op).1, state.2 ++ (state.1.step op).2)) (s, [])

end TreeState

end SglangRs.Router
