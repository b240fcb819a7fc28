import Mathlib.Data.List.MinMax
import SglangRs.Router.Parity
import SglangRs.Router.RequestChecks
import SglangRs.Router.WorkerRegistry

/-!
# Cache-aware selection

The policy (`policies/cache_aware_zmq.rs`) hashes the prompt of a request into blocks, looks the
blocks up in the tree that the events of the workers feed, and picks the worker with the least load
among those that hold the last block matched. Where the load is uneven, the prompt cannot be hashed
or too little of it is matched, it picks the worker with the least load of all.

Loads change all the time, and every read of them may see other values. Floating-point arithmetic,
the parser of the body and the tokenizer are parameters.

## Main definitions

* `Router.CacheAwarePolicy`, `CacheAwarePolicy.select`: the policy.
* `CacheAwarePolicy.RoutesTo`: the workers that hold a block are to be preferred.

## Main results

* `select_prefers_holders`: after any interleaving of what the workers publish, the policy picks
  the least loaded of the workers that hold the longest prefix of the prompt.
* `announced_prompt_routed`: a prompt that an engine has announced goes to that engine.
-/

namespace SglangRs.Router

open TreeState (IsPath)

/-! ### The prompt -/

/-- A piece of text on a line of its own. -/
def pushPiece (buf s : String) : String := if buf = "" then s else buf ++ "\n" ++ s

/-- The text of the messages. -/
def messagesText (msgs : List Json) : String :=
  msgs.foldl (fun buf m =>
    match m.get "content" with
    | some (.string s) => pushPiece buf s
    | some (.array parts) =>
        (parts.filterMap fun part => (part.get "text").bind Json.asStr).foldl pushPiece buf
    | _ => buf) ""

/-- Source: `cache_aware_zmq.rs`, lines 127–169. -/
def extractPromptText (v : Json) : Option String :=
  (v.get "prompt").bind Json.asStr <|>
    (((v.get "prompt").bind Json.asArray).bind fun arr =>
      let parts := arr.filterMap Json.asStr
      if parts = [] then none else some ("\n".intercalate parts)) <|>
    (((v.get "messages").bind Json.asArray).bind fun msgs =>
      let buf := messagesText msgs
      if buf = "" then none else some buf) <|>
    (v.get "text").bind Json.asStr

structure SelectionContext where
  model : ModelId
  requestBody : Option (List UInt8)

/-! ### The policy -/

/-- The configuration of the policy with what it calls: how the relative threshold scales a load,
whether a share of matched blocks exceeds the threshold, the parser of bodies, the tokenizer of a
model and the block size that the workers have reported. -/
structure CacheAwarePolicy where
  balanceAbsThreshold : ℕ
  relThreshold : ℕ → ℕ
  exceedsThreshold : ℕ → ℕ → Bool
  parse : List UInt8 → Option Json
  encode : ModelId → Option (String → Option (List UInt32))
  sha256 : List UInt8 → Digest
  blockSize : Option UInt32

/-- The loads that the policy reads, at the times when it reads them. -/
structure Loads where
  balance : Worker → ℕ
  preferred : Worker → ℕ
  any : Worker → ℕ

namespace CacheAwarePolicy

variable (p : CacheAwarePolicy)

/-- The first of the workers with the least load. -/
def pickMinLoad (load : Worker → ℕ) (workers : List Worker) : Option Worker :=
  workers.argmin load

/-- Source: `cache_aware_zmq.rs`, lines 101–110. -/
def isImbalanced (load : Worker → ℕ) (workers : List Worker) : Bool :=
  let (minLoad, maxLoad) := workers.foldl (fun (mn, mx) w => (min mn (load w), max mx (load w)))
    (usizeMax, 0)
  let minLoad := if minLoad = usizeMax then 0 else minLoad
  maxLoad - minLoad > p.balanceAbsThreshold && maxLoad > p.relThreshold minLoad

/-- Source: `cache_aware_zmq.rs`, lines 174–188. -/
def tokenize (modelId : ModelId) (text : String) : Option (List UInt32) :=
  ((p.encode modelId).bind fun encode => encode text).filter (· ≠ [])

/-- The tokens of the prompt, if there are any. -/
def promptTokens (ctx : SelectionContext) : Option (List UInt32) := do
  let body ← ctx.requestBody.filter (· ≠ [])
  let text ← (p.parse body).bind extractPromptText
  p.tokenize ctx.model text

/-- The block hashes of the prompt, if there are any. -/
def promptHashes (ctx : SelectionContext) : Option (List Int64) := do
  let tokens ← p.promptTokens ctx
  let blockSize ← p.blockSize
  (some (computeBlockHashes p.sha256 tokens blockSize.toNat)).filter (· ≠ [])

/-- Source: `cache_aware_zmq.rs`, lines 192–249. -/
def select (order : IterationOrder) (now : ℕ) (tree : TreeState) (workers : List Worker)
    (loads : Loads) (ctx : SelectionContext) : TreeState × Option Worker :=
  if workers = [] then (tree, none)
  else if p.isImbalanced loads.balance workers then (tree, pickMinLoad loads.any workers)
  else
    match p.promptHashes ctx with
    | none => (tree, pickMinLoad loads.any workers)
    | some blockHashes =>
        let (tree, matched) := tree.matchPrefix order now none blockHashes
        if !p.exceedsThreshold matched.matchedBlocks blockHashes.length || matched.workers = ∅ then
          (tree, pickMinLoad loads.any workers)
        else
          let matchedUrls := matched.workers.image KvWorkerId.url
          (tree, pickMinLoad loads.preferred (workers.filter fun w => w.url ∈ matchedUrls) <|>
            pickMinLoad loads.any workers)

/-- The workers that hold a block are to be preferred: the load is even, and the block is the last
one of the longest prefix of the prompt that is found, which is long enough. -/
def RoutesTo (blocks : Set (Int64 × Option Int64 × Finset KvWorkerId)) (workers : List Worker)
    (loads : Loads) (ctx : SelectionContext) (blockHash : Int64) : Prop :=
  p.isImbalanced loads.balance workers = false ∧
    ∃ blockHashes k, p.promptHashes ctx = some blockHashes ∧ k ≤ blockHashes.length ∧
      (∀ j ≤ blockHashes.length, j ≤ k ↔ IsPath blocks none (blockHashes.take j)) ∧
      p.exceedsThreshold k blockHashes.length = true ∧
      (blockHashes.take k).getLast? = some blockHash

/-- One of the ranks of the worker holds the block. -/
def Holds (held : KvWorkerId → Finset Int64) (blockHash : Int64) (w : Worker) : Prop :=
  ∃ dpRank, blockHash ∈ held ⟨w.url, dpRank⟩

variable {p}

theorem mem_pickMinLoad {load : Worker → ℕ} {workers : List Worker} {w : Worker}
    (h : pickMinLoad load workers = some w) : w ∈ workers ∧ ∀ v ∈ workers, load w ≤ load v :=
  ⟨List.argmin_mem h, fun _ hv => List.le_of_mem_argmin hv h⟩

/-- The longest prefix that is found is unique. -/
theorem routesTo_unique {blocks : Set (Int64 × Option Int64 × Finset KvWorkerId)}
    {workers : List Worker} {loads : Loads} {ctx : SelectionContext} {blockHash : Int64}
    (h : p.RoutesTo blocks workers loads ctx blockHash) {blockHashes : List Int64} {k : ℕ}
    (hhashes : p.promptHashes ctx = some blockHashes) (hk : k ≤ blockHashes.length)
    (hmatched : ∀ j ≤ blockHashes.length, j ≤ k ↔ IsPath blocks none (blockHashes.take j)) :
    p.exceedsThreshold k blockHashes.length = true ∧
      (blockHashes.take k).getLast? = some blockHash := by
  obtain ⟨-, blockHashes', k', hhashes', hk', hmatched', hexceeds, hlast⟩ := h
  obtain rfl : blockHashes' = blockHashes := Option.some.inj (hhashes'.symm.trans hhashes)
  have hle : k' ≤ k := (hmatched k' hk').2 ((hmatched' k' hk').1 le_rfl)
  have hge : k ≤ k' := (hmatched' k hk).2 ((hmatched k hk).1 le_rfl)
  obtain rfl := le_antisymm hle hge
  exact ⟨hexceeds, hlast⟩

variable {par : Int64 → Option Int64} {held : KvWorkerId → Finset Int64} {tree : TreeState}

/-- The URLs among the workers of a match are those of the workers that hold the last block. -/
theorem mem_image_url_iff {matched : Finset KvWorkerId} {blockHash : Int64}
    (h : ∀ kw, kw ∈ matched ↔ blockHash ∈ held kw) (w : Worker) :
    w.url ∈ matched.image KvWorkerId.url ↔ Holds held blockHash w := by
  rw [Finset.mem_image]
  constructor
  · rintro ⟨⟨url, dpRank⟩, hmem, rfl⟩
    exact ⟨dpRank, (h _).1 hmem⟩
  · rintro ⟨dpRank, hheld⟩
    exact ⟨⟨w.url, dpRank⟩, (h _).2 hheld, rfl⟩

/-- The policy prefers the workers that hold a block, or there are none to be preferred. -/
theorem select_cases (p : CacheAwarePolicy) (workers : List Worker) (loads : Loads)
    (ctx : SelectionContext) (hs : TreeState.Represents par held tree) (order : IterationOrder)
    (now : ℕ) :
    ((p.select order now tree workers loads ctx).2 = pickMinLoad loads.any workers ∧
      ¬∃ blockHash, p.RoutesTo tree.contents workers loads ctx blockHash ∧
        ∃ v ∈ workers, Holds held blockHash v) ∨
    ∃ blockHash preferred, p.RoutesTo tree.contents workers loads ctx blockHash ∧
      preferred ≠ [] ∧ (∀ v, v ∈ preferred ↔ v ∈ workers ∧ Holds held blockHash v) ∧
      (p.select order now tree workers loads ctx).2 = pickMinLoad loads.preferred preferred := by
  rw [select]
  by_cases hempty : workers = []
  · subst hempty
    exact .inl ⟨rfl, by simp⟩
  rw [if_neg hempty]
  by_cases hbalance : p.isImbalanced loads.balance workers = true
  · rw [if_pos hbalance]
    refine .inl ⟨rfl, ?_⟩
    rintro ⟨_, hroutes, -⟩
    rw [hroutes.1] at hbalance
    cases hbalance
  rw [if_neg hbalance]
  cases hhashes : p.promptHashes ctx with
  | none =>
      refine .inl ⟨rfl, ?_⟩
      rintro ⟨_, ⟨-, _, _, hsome, -⟩, -⟩
      rw [hhashes] at hsome
      cases hsome
  | some blockHashes =>
      obtain ⟨hle, hmatched, hworkers⟩ :=
        TreeState.matchPrefix_finds hs.wellFormed hs.follows order now none blockHashes
      set result := (tree.matchPrefix order now none blockHashes).2 with hresult
      -- A block to which requests are routed is the last one of the match.
      have hunique : ∀ blockHash, p.RoutesTo tree.contents workers loads ctx blockHash →
          p.exceedsThreshold result.matchedBlocks blockHashes.length = true ∧
            ∀ kw, kw ∈ result.workers ↔ blockHash ∈ held kw := by
        intro blockHash hroutes
        obtain ⟨hexceeds, hlast⟩ := routesTo_unique hroutes hhashes hle hmatched
        refine ⟨hexceeds, fun kw => ?_⟩
        rw [hworkers kw, hlast, ← hs.lists_iff]
        simp
      dsimp only
      rw [← hresult]
      split_ifs with hfallback
      · refine .inl ⟨rfl, ?_⟩
        rintro ⟨blockHash, hroutes, v, -, dpRank, hheld⟩
        obtain ⟨hexceeds, hmem⟩ := hunique blockHash hroutes
        have hin := (hmem ⟨v.url, dpRank⟩).2 hheld
        obtain hfallback | hfallback := Bool.or_eq_true .. ▸ hfallback
        · rw [hexceeds] at hfallback
          cases hfallback
        · rw [of_decide_eq_true hfallback] at hin
          exact absurd hin (Finset.notMem_empty _)
      · rw [Bool.or_eq_true, Bool.not_eq_true', decide_eq_true_iff, not_or, Bool.not_eq_false]
          at hfallback
        obtain ⟨hexceeds, hne⟩ := hfallback
        obtain ⟨kw, hkw⟩ := Finset.nonempty_iff_ne_empty.2 hne
        obtain ⟨blockHash, hlast, -⟩ := (hworkers kw).1 hkw
        have hroutes : p.RoutesTo tree.contents workers loads ctx blockHash :=
          ⟨Bool.eq_false_iff.2 hbalance, blockHashes, _, hhashes, hle, hmatched, hexceeds, hlast⟩
        have hmem (v : Worker) : v ∈ workers.filter (fun w => w.url ∈ result.workers.image
            KvWorkerId.url) ↔ v ∈ workers ∧ Holds held blockHash v := by
          rw [List.mem_filter, decide_eq_true_iff, mem_image_url_iff (hunique _ hroutes).2]
        cases hpick : pickMinLoad loads.preferred
            (workers.filter fun w => w.url ∈ result.workers.image KvWorkerId.url) with
        | none =>
            refine .inl ⟨rfl, ?_⟩
            rintro ⟨blockHash', hroutes', v, hv, hheld⟩
            have hin : v ∈ workers.filter fun w => w.url ∈ result.workers.image KvWorkerId.url :=
              List.mem_filter.2
                ⟨hv, decide_eq_true ((mem_image_url_iff (hunique _ hroutes').2 v).2 hheld)⟩
            rw [List.argmin_eq_none.1 hpick] at hin
            cases hin
        | some w =>
            refine .inr ⟨blockHash, _, hroutes, fun hnil => ?_, hmem, hpick.symm⟩
            rw [hnil] at hpick
            cases hpick

/-- What the policy picks on a tree that represents block sets. -/
theorem select_spec (p : CacheAwarePolicy) (workers : List Worker) (loads : Loads)
    (ctx : SelectionContext) (hs : TreeState.Represents par held tree) (order : IterationOrder)
    (now : ℕ) :
    ((p.select order now tree workers loads ctx).2 = none ↔ workers = []) ∧
    ∀ w, (p.select order now tree workers loads ctx).2 = some w → w ∈ workers ∧
      (∀ blockHash, p.RoutesTo tree.contents workers loads ctx blockHash →
        (∃ v ∈ workers, Holds held blockHash v) →
          Holds held blockHash w ∧
            ∀ v ∈ workers, Holds held blockHash v → loads.preferred w ≤ loads.preferred v) ∧
      ((¬∃ blockHash, p.RoutesTo tree.contents workers loads ctx blockHash ∧
        ∃ v ∈ workers, Holds held blockHash v) → ∀ v ∈ workers, loads.any w ≤ loads.any v) := by
  obtain ⟨heq, hnone⟩ | ⟨blockHash, preferred, hroutes, hne, hmem, heq⟩ :=
    select_cases p workers loads ctx hs order now
  · rw [heq]
    refine ⟨List.argmin_eq_none, fun w hw => ?_⟩
    obtain ⟨hin, hleast⟩ := mem_pickMinLoad hw
    exact ⟨hin, fun blockHash hroutes hheld => absurd ⟨blockHash, hroutes, hheld⟩ hnone,
      fun _ => hleast⟩
  · obtain ⟨v, hv⟩ := List.exists_mem_of_ne_nil _ hne
    rw [heq]
    refine ⟨?_, fun w hw => ?_⟩
    · rw [pickMinLoad, List.argmin_eq_none]
      exact ⟨fun h => absurd h hne, fun h => absurd ((hmem v).1 hv).1 (h ▸ List.not_mem_nil)⟩
    · obtain ⟨hin, hleast⟩ := mem_pickMinLoad hw
      obtain ⟨hworkers, hholds⟩ := (hmem w).1 hin
      refine ⟨hworkers, fun blockHash' hroutes' _ => ?_,
        fun hnot => absurd ⟨blockHash, hroutes, v, (hmem v).1 hv⟩ hnot⟩
      obtain rfl : blockHash' = blockHash := by
        obtain ⟨-, blockHashes, k, hhashes, hk, hmatched, -, hlast⟩ := hroutes
        have hsame := (routesTo_unique hroutes' hhashes hk hmatched).2.symm.trans hlast
        exact Option.some.inj hsame
      exact ⟨hholds, fun v hv hheld => hleast v ((hmem v).2 ⟨hv, hheld⟩)⟩

end CacheAwarePolicy

open CacheAwarePolicy (Holds select_spec)

/-- **Selection prefers the workers that hold the prompt.** Let the workers publish chain-consistent
streams of events. After any interleaving of the streams, the policy picks a worker if there is one.
If the load is even and enough of the prompt is found, and a worker holds the last block found, then
the one picked holds it and has the least load of those that do; otherwise it has the least load of
all. -/
theorem select_prefers_holders (par : Int64 → Option Int64)
    (streams : KvWorkerId → List KvCacheEvent) (hstreams : ∀ w, ChainConsistent par (streams w))
    (now : ℕ) (ops : List TreeOperation) (hops : Interleaves streams ops) (p : CacheAwarePolicy)
    (order : IterationOrder) (now' : ℕ) (workers : List Worker) (loads : Loads)
    (ctx : SelectionContext) :
    let tree := ((TreeState.new now).run ops).1
    let holds := Holds fun w => blockSet (streams w)
    let picked := (p.select order now' tree workers loads ctx).2
    (picked = none ↔ workers = []) ∧
    ∀ w, picked = some w → w ∈ workers ∧
      (∀ blockHash, p.RoutesTo tree.contents workers loads ctx blockHash →
        (∃ v ∈ workers, holds blockHash v) →
          holds blockHash w ∧ ∀ v ∈ workers, holds blockHash v →
            loads.preferred w ≤ loads.preferred v) ∧
      ((¬∃ blockHash, p.RoutesTo tree.contents workers loads ctx blockHash ∧
        ∃ v ∈ workers, holds blockHash v) → ∀ v ∈ workers, loads.any w ≤ loads.any v) :=
  select_spec p workers loads ctx (TreeState.represents_of_interleaves hstreams now hops) order now'

/-- The beginning of a path is a path. -/
theorem isPath_take {blocks : Set (Int64 × Option Int64 × Finset KvWorkerId)}
    {parentHash : Option Int64} {blockHashes : List Int64}
    (h : IsPath blocks parentHash blockHashes) (k : ℕ) :
    IsPath blocks parentHash (blockHashes.take k) := by
  induction blockHashes generalizing parentHash k with
  | nil => rwa [List.take_nil]
  | cons blockHash blockHashes ih =>
      cases k with
      | zero => trivial
      | succ k => exact ⟨h.1, ih h.2 k⟩

section Announced

variable {ι : Type} [DecidableEq ι] {sha256 : List UInt8 → Digest} {blockSize : ℕ}
  {prompts : ι → List UInt32} {requestIds : ι → RequestId} {rank : Int32} {first : ι → ℕ}
  {chunks : List (PromptChunk ι)}

/-- Only the worker that publishes holds a block. -/
theorem holds_onlyFrom_iff {worker : KvWorkerId} {events : List KvCacheEvent} {blockHash : Int64}
    (hheld : blockHash ∈ blockSet events) (w : Worker) :
    Holds (fun v => blockSet (onlyFrom worker events v)) blockHash w ↔ w.url = worker.url := by
  constructor
  · rintro ⟨dpRank, h⟩
    by_contra hne
    have hother : (⟨w.url, dpRank⟩ : KvWorkerId) ≠ worker := fun heq => hne (by rw [← heq])
    dsimp only at h
    rw [onlyFrom, if_neg hother] at h
    exact absurd h (Finset.notMem_empty _)
  · intro hurl
    refine ⟨worker.dpRank, ?_⟩
    dsimp only
    rw [onlyFrom, if_pos (by rw [hurl])]
    exact hheld

/-- A request for an announced prompt is routed by its last block, which the engine has
published. -/
theorem exists_routesTo_announced (hp : 0 < blockSize)
    (h : Published sha256 blockSize prompts requestIds rank first chunks)
    (hinj : Set.InjOn (chainHash sha256 blockSize) (Involved blockSize prompts chunks))
    {worker : KvWorkerId} (now : ℕ) {ops : List TreeOperation}
    (hops : Interleaves (onlyFrom worker
      (chunks.map (chunkEvent sha256 blockSize prompts requestIds rank))) ops)
    (p : CacheAwarePolicy) (hsha256 : p.sha256 = sha256)
    (hblockSize : p.blockSize.map UInt32.toNat = some blockSize)
    (hthreshold : ∀ n, 0 < n → p.exceedsThreshold n n = true)
    (i : ι) (hprompt : prompts i ≠ []) (ctx : SelectionContext)
    (htokens : p.promptTokens ctx = some (prompts i)) (workers : List Worker) (loads : Loads)
    (heven : p.isImbalanced loads.balance workers = false) :
    ∃ blockHash, p.RoutesTo ((TreeState.new now).run ops).1.contents workers loads ctx blockHash ∧
      blockHash ∈ blockSet (chunks.map (chunkEvent sha256 blockSize prompts requestIds rank)) := by
  set blockHashes := computeBlockHashes sha256 (prompts i) blockSize with hblockHashes
  have hpath := h.isPath_contents hp hinj now hops i
  obtain ⟨m, hm, hlast⟩ := exists_last_block sha256 hp hprompt
  rw [← hblockHashes] at hlast
  have hne : blockHashes ≠ [] := fun hnil => by
    rw [hnil] at hlast
    cases hlast
  have hhashes : p.promptHashes ctx = some blockHashes := by
    obtain ⟨bs, hbs, hsize⟩ := Option.map_eq_some_iff.1 hblockSize
    simp [CacheAwarePolicy.promptHashes, htokens, hbs, hsha256, hsize, ← hblockHashes, hne]
  refine ⟨blockHash sha256 (prompts i) blockSize m, ⟨heven, blockHashes, blockHashes.length,
    hhashes, le_rfl, fun j hj => ?_, hthreshold _ (List.length_pos_iff.2 hne),
    by rw [List.take_length, hlast]⟩, (h.chainConsistent hp hinj).2 i m hm⟩
  exact ⟨fun _ => isPath_take hpath j, fun _ => hj⟩

/-- **An announced prompt goes to the engine that announced it.** Let an engine announce prompts
chunk by chunk, with boundaries anywhere, and let no two of the block chains involved have the same
hash. Let the router have recorded the block size of the engine, and let a prompt found in whole
exceed the cache threshold, as it does for a threshold below one. When the load is even and there
are workers with the URL of the engine, a request for one of these prompts goes to the least loaded
of them. -/
theorem announced_prompt_routed (hp : 0 < blockSize)
    (h : Published sha256 blockSize prompts requestIds rank first chunks)
    (hinj : Set.InjOn (chainHash sha256 blockSize) (Involved blockSize prompts chunks))
    (worker : KvWorkerId) (now : ℕ) (ops : List TreeOperation)
    (hops : Interleaves (onlyFrom worker
      (chunks.map (chunkEvent sha256 blockSize prompts requestIds rank))) ops)
    (p : CacheAwarePolicy) (hsha256 : p.sha256 = sha256)
    (hblockSize : p.blockSize.map UInt32.toNat = some blockSize)
    (hthreshold : ∀ n, 0 < n → p.exceedsThreshold n n = true)
    (i : ι) (hprompt : prompts i ≠ []) (ctx : SelectionContext)
    (htokens : p.promptTokens ctx = some (prompts i)) (order : IterationOrder) (now' : ℕ)
    (workers : List Worker) (loads : Loads)
    (heven : p.isImbalanced loads.balance workers = false)
    (hserving : ∃ v ∈ workers, v.url = worker.url) :
    ∃ w ∈ workers, (p.select order now' ((TreeState.new now).run ops).1 workers loads ctx).2 =
        some w ∧ w.url = worker.url ∧
      ∀ v ∈ workers, v.url = worker.url → loads.preferred w ≤ loads.preferred v := by
  have hs := h.represents hp hinj worker now hops (List.prefix_refl ops)
  simp only [hops.2] at hs
  obtain ⟨blockHash, hroutes, hheld⟩ := exists_routesTo_announced hp h hinj now hops p hsha256
    hblockSize hthreshold i hprompt ctx htokens workers loads heven
  obtain ⟨hnone, hpicked⟩ := select_spec p workers loads ctx hs order now'
  obtain ⟨v, hv, hurl⟩ := hserving
  cases hselect : (p.select order now' ((TreeState.new now).run ops).1 workers loads ctx).2 with
  | none => exact absurd hv ((hnone.1 hselect) ▸ List.not_mem_nil)
  | some w =>
      obtain ⟨hw, hprefers, -⟩ := hpicked w hselect
      obtain ⟨hholds, hleast⟩ := hprefers _ hroutes ⟨v, hv, (holds_onlyFrom_iff hheld v).2 hurl⟩
      exact ⟨w, hw, rfl, (holds_onlyFrom_iff hheld w).1 hholds,
        fun v hv hurl => hleast v hv ((holds_onlyFrom_iff hheld v).2 hurl)⟩

end Announced

section Sample

/-- Every body is the prompt of the sample, of which more than half must be found. -/
def samplePolicy : CacheAwarePolicy where
  balanceAbsThreshold := 32
  relThreshold minLoad := minLoad * 11 / 10
  exceedsThreshold matched n := n < 2 * matched
  parse _ := some (.object [("prompt", .string "a")])
  encode _ := some fun _ => some samplePrompt
  sha256 := sampleSha256
  blockSize := some 2

def sampleContext : SelectionContext := ⟨⟨"m"⟩, some [1]⟩

def sampleWorkers : List Worker :=
  [.new ⟨⟨"b"⟩, "http://b", .plain, [⟨"m"⟩], none⟩, .new ⟨⟨"a"⟩, "http://a", .plain, [⟨"m"⟩], none⟩]

/-- The worker that holds the prompt has the higher load. -/
def sampleLoads : Loads :=
  let load (w : Worker) : ℕ := if w.url = "http://a" then 2 else 1
  ⟨load, load, load⟩

/-- The theorem applied to an engine that has announced the prompt: the first worker is the less
loaded one, but the second, which has the URL of the engine, is picked. -/
theorem select_prefers_holders_of_sample :
    (samplePolicy.select TreeState.ascending 2 ((TreeState.new 0).run sampleOps).1 sampleWorkers
      sampleLoads sampleContext).2 = sampleWorkers[1]? := by
  have hchain := (published_sampleChunks.chainConsistent (by decide) injOn_sampleChunks).1
  have hstreams (w : KvWorkerId) : ChainConsistent
      (chainParent sampleSha256 2 (fun _ : Unit => samplePrompt) sampleChunks)
      (onlyFrom sampleEngine sampleEvents w) := by
    rw [onlyFrom]
    split_ifs
    · exact hchain
    · trivial
  obtain ⟨hnone, hpicked⟩ := select_prefers_holders _ _ hstreams 0 sampleOps interleaves_sampleOps
    samplePolicy TreeState.ascending 2 sampleWorkers sampleLoads sampleContext
  obtain ⟨blockHash, hroutes, hheld⟩ := exists_routesTo_announced (by decide)
    published_sampleChunks injOn_sampleChunks 0 interleaves_sampleOps samplePolicy rfl rfl
    (fun n hn => decide_eq_true (by omega)) () (by decide) sampleContext rfl sampleWorkers
    sampleLoads (by decide)
  have hholds (v : Worker) : Holds (fun w => blockSet (onlyFrom sampleEngine sampleEvents w))
      blockHash v ↔ v.url = "http://a" := holds_onlyFrom_iff hheld v
  cases hselect : (samplePolicy.select TreeState.ascending 2 ((TreeState.new 0).run sampleOps).1
      sampleWorkers sampleLoads sampleContext).2 with
  | none => cases hnone.1 hselect
  | some w =>
      obtain ⟨hw, hprefers, -⟩ := hpicked w hselect
      have hurl : w.url = "http://a" := (hholds w).1 (hprefers _ hroutes
        ⟨_, List.mem_cons_of_mem _ List.mem_cons_self, (hholds _).2 rfl⟩).1
      rcases List.mem_cons.1 hw with rfl | hw
      · exact absurd hurl (by decide)
      · rw [List.mem_singleton.1 hw]
        rfl

theorem announced_prompt_routed_of_sample :
    ∃ w ∈ sampleWorkers, (samplePolicy.select TreeState.ascending 2
        ((TreeState.new 0).run sampleOps).1 sampleWorkers sampleLoads sampleContext).2 = some w ∧
      w.url = "http://a" ∧ ∀ v ∈ sampleWorkers, v.url = "http://a" →
        sampleLoads.preferred w ≤ sampleLoads.preferred v :=
  announced_prompt_routed (by decide) published_sampleChunks injOn_sampleChunks sampleEngine 0
    sampleOps interleaves_sampleOps samplePolicy rfl rfl
    (fun n hn => decide_eq_true (by omega)) () (by decide) sampleContext rfl TreeState.ascending 2
    sampleWorkers sampleLoads (by decide) (by decide)

end Sample

end SglangRs.Router
