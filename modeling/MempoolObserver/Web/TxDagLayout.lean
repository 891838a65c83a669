import Mathlib.Data.List.Dedup
import Mathlib.Data.List.Sort
import Mathlib.Data.Rat.Defs
import Mathlib.Data.String.Basic
import MempoolObserver.Web.CyclicTargets

/-!
# The transaction graph of a cluster

The transactions of a cluster are drawn with the transactions they spend: other
members as circles, parents from outside as stubs, and past a cap one text that counts
the rest. The nodes go to a layout library that throws on a cycle, so the edges into
every transaction that Kahn's algorithm never reaches are kept out of it and drawn as
back edges.

## Main definitions

* `txDagGraph` — the nodes handed to the layout and the edges returned
* `Collected.Of` — one edge for each distinct parent of each transaction, up to the cap

## Main results

* `addTx_of_fresh` — what one transaction adds
* `foldl_addTx` — what the loop over the transactions collects
-/

namespace MempoolObserver

open Cycles

/-! ### Inputs and outputs -/

structure TxDagInput where
  txid : String
  /-- `none` when the inputs of the row were never learned. -/
  parents : Option (List String)
  r : ℚ

structure TxDagEdge extends RawEdge where
  /-- Closes a cycle; drawn, but ignored when assigning layers. -/
  back : Bool
  deriving DecidableEq, Repr

inductive TxDagNodeKind
  | tx (r : ℚ) (inputsUnknown : Bool)
  | stub (label : String)
  | aggregate (label : String) (elidedCount : ℕ)
  deriving DecidableEq

structure UnplacedNode where
  txid : String
  kind : TxDagNodeKind
  halfW : ℚ
  halfH : ℚ
  deriving DecidableEq

structure GraphNodeDatum where
  node : UnplacedNode
  parentIds : List String
  deriving DecidableEq

def externalLabelFontSize : ℚ := 9

def monoAdvanceEm : ℚ := 3 / 5

def stubLabelChars : ℕ := 6

/-- External parents kept per transaction before the rest collapse into one aggregate. -/
def maxStubsPerTx : ℕ := 5

/-- Prefixed so that it never collides with a txid. -/
def aggregateId (txid : String) : String := "agg:" ++ txid

def aggregateLabel (elidedCount : ℕ) : String := "+" ++ toString elidedCount ++ " others"

def labelHalfW (label : String) : ℚ := label.length * monoAdvanceEm * externalLabelFontSize / 2

def labelHalfH : ℚ := externalLabelFontSize / 2

/-! ### The graph -/

def uniqueParents (parents : List String) : List String :=
  parents.dedup.insertionSort (· ≤ ·)

/-- One parent past the cap is shown rather than collapsed. -/
def keptExternal (external : List String) : List String :=
  if maxStubsPerTx + 1 < external.length then external.take maxStubsPerTx else external

/-- What the loop over the transactions collects; of the map from stubs to their children only
the keys are read. -/
structure Collected where
  internalEdges : List RawEdge
  stubEdges : List RawEdge
  aggregateEdges : List RawEdge
  stubChildren : List String
  aggregates : List (String × ℕ)
  edgeSeen : List String

def Collected.empty : Collected := ⟨[], [], [], [], [], []⟩

def edgeKey (p txid : String) : String := p ++ "->" ++ txid

def Collected.addInternal (txid : String) (collected : Collected) (p : String) : Collected :=
  if edgeKey p txid ∈ collected.edgeSeen then collected
  else { collected with
    edgeSeen := edgeKey p txid :: collected.edgeSeen
    internalEdges := collected.internalEdges ++ [⟨p, txid⟩] }

/-- Adds a key to a map, after the keys it has. -/
def addKey (keys : List String) (key : String) : List String :=
  if key ∈ keys then keys else keys ++ [key]

def Collected.addStub (txid : String) (collected : Collected) (p : String) : Collected :=
  if edgeKey p txid ∈ collected.edgeSeen then collected
  else { collected with
    edgeSeen := edgeKey p txid :: collected.edgeSeen
    stubEdges := collected.stubEdges ++ [⟨p, txid⟩]
    stubChildren := addKey collected.stubChildren p }

def Collected.addTx (known : List String) (collected : Collected) (t : TxDagInput) : Collected :=
  match t.parents with
  | none => collected
  | some parents =>
    let unique := uniqueParents parents
    let internal := unique.filter (· ∈ known)
    let external := unique.filter (· ∉ known)
    -- One external parent over the limit stays a stub: an aggregate never stands for a single
    -- parent.
    let kept := keptExternal external
    let elidedCount := external.length - kept.length
    let linked := kept.foldl (Collected.addStub t.txid)
      (internal.foldl (Collected.addInternal t.txid) collected)
    if 0 < elidedCount then
      { linked with
        aggregates := linked.aggregates ++ [(aggregateId t.txid, elidedCount)]
        aggregateEdges := linked.aggregateEdges ++ [⟨aggregateId t.txid, t.txid⟩] }
    else linked

def sortByTxid (txs : List TxDagInput) : List TxDagInput :=
  txs.insertionSort fun a b => a.txid ≤ b.txid

def collect (sorted : List TxDagInput) : Collected :=
  sorted.foldl (Collected.addTx (sorted.map TxDagInput.txid)) Collected.empty

/-- The parents of a node in the layout: edges that close a cycle are left out. -/
def parentsOf (collected : Collected) (cyclic : List String) (txid : String) : List String :=
  ((collected.internalEdges.filter fun e => e.toId ∉ cyclic ∧ e.toId = txid) ++
    collected.stubEdges.filter (·.toId = txid) ++
    collected.aggregateEdges.filter (·.toId = txid)).map RawEdge.fromId

def txNode (collected : Collected) (cyclic : List String) (t : TxDagInput) : GraphNodeDatum :=
  ⟨⟨t.txid, .tx t.r t.parents.isNone, t.r, t.r⟩, parentsOf collected cyclic t.txid⟩

def stubNode (id : String) : GraphNodeDatum :=
  let label := String.ofList (id.toList.take stubLabelChars)
  ⟨⟨id, .stub label, labelHalfW label, labelHalfH⟩, []⟩

def aggregateNode (aggregate : String × ℕ) : GraphNodeDatum :=
  let label := aggregateLabel aggregate.2
  ⟨⟨aggregate.1, .aggregate label aggregate.2, labelHalfW label, labelHalfH⟩, []⟩

/-- By parent, then by child. -/
def edgeLe (a b : TxDagEdge) : Prop := a.fromId < b.fromId ∨ a.fromId = b.fromId ∧ a.toId ≤ b.toId

instance : DecidableRel edgeLe := fun _ _ => inferInstanceAs (Decidable (_ ∨ _))

/-- What `txDagLayout` hands to the layout library, and the edges it returns. -/
structure TxDagGraph where
  graphNodes : List GraphNodeDatum
  edges : List TxDagEdge
  deriving DecidableEq

/-- Without transactions the source returns at once, with the same empty result. -/
def txDagGraph (txs : List TxDagInput) : Option TxDagGraph :=
  let sorted := sortByTxid txs
  let collected := collect sorted
  (findCyclicTargets (sorted.map TxDagInput.txid) collected.internalEdges).map fun cyclic =>
    { graphNodes := sorted.map (txNode collected cyclic) ++
        (collected.stubChildren.insertionSort (· ≤ ·)).map stubNode ++
        collected.aggregates.map aggregateNode
      edges := ((collected.internalEdges.map fun e => TxDagEdge.mk e (decide (e.toId ∈ cyclic))) ++
        (collected.stubEdges.map fun e => TxDagEdge.mk e false) ++
        collected.aggregateEdges.map fun e => TxDagEdge.mk e false).insertionSort edgeLe }

/-! ### Transaction ids -/

/-- As the hash of a transaction is written: 64 hexadecimal digits. -/
structure IsTxid (txid : String) : Prop where
  length : txid.length = 64
  digits : ∀ c ∈ txid.toList, c.isDigit ∨ 'a' ≤ c ∧ c ≤ 'f'

theorem edgeKey_inj {p q t u : String} (length : p.length = q.length)
    (same : edgeKey p t = edgeKey q u) : p = q ∧ t = u := by
  have chars := congrArg String.toList same
  simp only [edgeKey, String.toList_append, List.append_assoc] at chars
  obtain ⟨left, right⟩ := List.append_inj chars length
  exact ⟨String.toList_inj.mp left, String.toList_inj.mp (List.append_cancel_left right)⟩

theorem aggregateId_inj {t u : String} (same : aggregateId t = aggregateId u) : t = u :=
  (String.append_right_inj _).mp same

theorem not_isTxid_aggregateId {t : String} (isTxid : IsTxid t) : ¬ IsTxid (aggregateId t) := by
  intro also
  have length := also.length
  simp [aggregateId, isTxid.length] at length

/-! ### What one transaction adds -/

namespace TxDagInput

/-- No parent when the inputs are unknown. -/
def distinctParents (t : TxDagInput) : List String := (t.parents.map uniqueParents).getD []

def internal (known : List String) (t : TxDagInput) : List String :=
  t.distinctParents.filter (· ∈ known)

def external (known : List String) (t : TxDagInput) : List String :=
  t.distinctParents.filter (· ∉ known)

def kept (known : List String) (t : TxDagInput) : List String := keptExternal (t.external known)

def elidedCount (known : List String) (t : TxDagInput) : ℕ :=
  (t.external known).length - (t.kept known).length

end TxDagInput

variable {known : List String} {collected : Collected} {t : TxDagInput} {txid p : String}
  {parents : List String}

theorem nodup_uniqueParents : (uniqueParents parents).Nodup :=
  (List.perm_insertionSort _ _).nodup_iff.mpr (List.nodup_dedup _)

theorem mem_uniqueParents : p ∈ uniqueParents parents ↔ p ∈ parents :=
  (List.mem_insertionSort _).trans List.mem_dedup

theorem mem_distinctParents :
    p ∈ t.distinctParents ↔ ∃ parents, t.parents = some parents ∧ p ∈ parents := by
  rw [TxDagInput.distinctParents]
  cases t.parents with
  | none => simp
  | some parents => simp [mem_uniqueParents]

theorem nodup_distinctParents : t.distinctParents.Nodup := by
  rw [TxDagInput.distinctParents]
  cases t.parents with
  | none => exact List.nodup_nil
  | some parents => exact nodup_uniqueParents

/-- The inputs of which nothing is known add nothing, as if there were no parents. -/
theorem addTx_eq : Collected.addTx known collected t =
    let linked := (t.kept known).foldl (Collected.addStub t.txid)
      ((t.internal known).foldl (Collected.addInternal t.txid) collected)
    if 0 < t.elidedCount known then
      { linked with
        aggregates := linked.aggregates ++ [(aggregateId t.txid, t.elidedCount known)]
        aggregateEdges := linked.aggregateEdges ++ [⟨aggregateId t.txid, t.txid⟩] }
    else linked := by
  obtain ⟨txid, parents, r⟩ := t
  cases parents with
  | none => rfl
  | some parents => rfl

/-- The next edge into the same child has another source, so another key. -/
theorem fresh_tail {seen : List String} (nodup : (p :: parents).Nodup)
    (fresh : ∀ q ∈ p :: parents, edgeKey q txid ∉ seen) (q : String) (inside : q ∈ parents) :
    edgeKey q txid ∉ edgeKey p txid :: seen := by
  have other : edgeKey q txid ≠ edgeKey p txid := by
    intro same
    have equal : q = p := (String.append_left_inj _).mp ((String.append_left_inj _).mp same)
    exact (List.nodup_cons.mp nodup).1 (equal ▸ inside)
  simpa [other] using fresh q (List.mem_cons_of_mem _ inside)

theorem foldl_addInternal (nodup : parents.Nodup)
    (fresh : ∀ p ∈ parents, edgeKey p txid ∉ collected.edgeSeen) :
    parents.foldl (Collected.addInternal txid) collected =
      { collected with
        edgeSeen := parents.reverse.map (edgeKey · txid) ++ collected.edgeSeen
        internalEdges := collected.internalEdges ++ parents.map fun p => ⟨p, txid⟩ } := by
  induction parents generalizing collected with
  | nil => simp
  | cons p parents ih =>
    rw [List.foldl_cons, Collected.addInternal, if_neg (fresh p List.mem_cons_self),
      ih nodup.of_cons (fresh_tail nodup fresh)]
    simp

theorem foldl_addStub (nodup : parents.Nodup)
    (fresh : ∀ p ∈ parents, edgeKey p txid ∉ collected.edgeSeen) :
    parents.foldl (Collected.addStub txid) collected =
      { collected with
        edgeSeen := parents.reverse.map (edgeKey · txid) ++ collected.edgeSeen
        stubEdges := collected.stubEdges ++ parents.map fun p => ⟨p, txid⟩
        stubChildren := parents.foldl addKey collected.stubChildren } := by
  induction parents generalizing collected with
  | nil => simp
  | cons p parents ih =>
    rw [List.foldl_cons, Collected.addStub, if_neg (fresh p List.mem_cons_self),
      ih nodup.of_cons (fresh_tail nodup fresh)]
    simp

theorem foldl_addKey {keys added : List String} (nodup : keys.Nodup) :
    (added.foldl addKey keys).Nodup ∧
      ∀ key, key ∈ added.foldl addKey keys ↔ key ∈ keys ∨ key ∈ added := by
  induction added generalizing keys with
  | nil => simpa using nodup
  | cons first added ih =>
    -- One insertion keeps the keys distinct and adds at most its own key.
    have step : (addKey keys first).Nodup ∧
        ∀ key, key ∈ addKey keys first ↔ key ∈ keys ∨ key = first := by
      rw [addKey]
      split
      · rename_i has
        exact ⟨nodup, fun key => ⟨.inl, fun | .inl old => old | .inr same => same ▸ has⟩⟩
      · rename_i new
        refine ⟨?_, fun key => by simp⟩
        rw [List.nodup_append_comm]
        exact List.nodup_cons.mpr ⟨new, nodup⟩
    obtain ⟨nodup', mem⟩ := ih step.1
    refine ⟨nodup', fun key => ?_⟩
    rw [List.foldl_cons, mem key, step.2 key, List.mem_cons, or_assoc]

theorem kept_subset (inside : p ∈ t.kept known) : p ∈ t.external known := by
  rw [TxDagInput.kept, keptExternal] at inside
  split at inside
  · exact List.mem_of_mem_take inside
  · exact inside

theorem nodup_internal : (t.internal known).Nodup := nodup_distinctParents.filter _

theorem nodup_external : (t.external known).Nodup := nodup_distinctParents.filter _

theorem nodup_kept : (t.kept known).Nodup := by
  rw [TxDagInput.kept, keptExternal]
  split
  · exact nodup_external.sublist (List.take_sublist _ _)
  · exact nodup_external

theorem mem_internal : p ∈ t.internal known ↔ p ∈ t.distinctParents ∧ p ∈ known := by
  simp [TxDagInput.internal]

theorem mem_external : p ∈ t.external known ↔ p ∈ t.distinctParents ∧ p ∉ known := by
  simp [TxDagInput.external]

/-- With no key seen before, every kept parent gets its edge. -/
theorem addTx_of_fresh (fresh : ∀ p ∈ t.distinctParents, edgeKey p t.txid ∉ collected.edgeSeen) :
    Collected.addTx known collected t =
      { internalEdges := collected.internalEdges ++ (t.internal known).map fun p => ⟨p, t.txid⟩
        stubEdges := collected.stubEdges ++ (t.kept known).map fun p => ⟨p, t.txid⟩
        aggregateEdges := collected.aggregateEdges ++
          if 0 < t.elidedCount known then [⟨aggregateId t.txid, t.txid⟩] else []
        stubChildren := (t.kept known).foldl addKey collected.stubChildren
        aggregates := collected.aggregates ++
          if 0 < t.elidedCount known then [(aggregateId t.txid, t.elidedCount known)] else []
        edgeSeen := (t.kept known).reverse.map (edgeKey · t.txid) ++
          ((t.internal known).reverse.map (edgeKey · t.txid) ++ collected.edgeSeen) } := by
  have internal (p : String) (inside : p ∈ t.internal known) :
      edgeKey p t.txid ∉ collected.edgeSeen :=
    fresh p (mem_internal.mp inside).1
  -- A kept parent is external, so the internal edges just added hold no key of it.
  have kept (p : String) (inside : p ∈ t.kept known) : edgeKey p t.txid ∉
      (t.internal known).reverse.map (edgeKey · t.txid) ++ collected.edgeSeen := by
    obtain ⟨parent, outside⟩ := mem_external.mp (kept_subset inside)
    rw [List.mem_append, not_or]
    refine ⟨fun before => ?_, fresh p parent⟩
    obtain ⟨q, member, same⟩ := List.mem_map.mp before
    have equal : q = p := (String.append_left_inj _).mp ((String.append_left_inj _).mp same)
    exact outside (equal ▸ (mem_internal.mp (List.mem_reverse.mp member)).2)
  -- Each loop appends its list in order, as no key it meets has been seen.
  rw [addTx_eq, foldl_addInternal nodup_internal internal, foldl_addStub nodup_kept kept]
  by_cases elided : 0 < t.elidedCount known
  · simp [elided]
  · simp [elided]

/-! ### The loop over the transactions -/

/-- The transactions with a text for the parents past the cap. -/
def capped (known : List String) (txs : List TxDagInput) : List TxDagInput :=
  txs.filter (0 < ·.elidedCount known)

/-- What was collected for these transactions: one edge for each distinct parent that is kept,
and one more for the text. -/
structure Collected.Of (known : List String) (txs : List TxDagInput) (collected : Collected) :
    Prop where
  internalEdges : collected.internalEdges =
    txs.flatMap fun t => (t.internal known).map fun p => ⟨p, t.txid⟩
  stubEdges : collected.stubEdges = txs.flatMap fun t => (t.kept known).map fun p => ⟨p, t.txid⟩
  aggregateEdges : collected.aggregateEdges =
    (capped known txs).map fun t => ⟨aggregateId t.txid, t.txid⟩
  aggregates : collected.aggregates =
    (capped known txs).map fun t => (aggregateId t.txid, t.elidedCount known)
  nodup_stubs : collected.stubChildren.Nodup
  mem_stubs : ∀ p, p ∈ collected.stubChildren ↔ ∃ t ∈ txs, p ∈ t.kept known
  seen : ∀ key ∈ collected.edgeSeen, ∃ t ∈ txs, ∃ p ∈ t.distinctParents, key = edgeKey p t.txid

theorem Collected.Of.empty : Collected.Of known [] Collected.empty where
  internalEdges := rfl
  stubEdges := rfl
  aggregateEdges := rfl
  aggregates := rfl
  nodup_stubs := List.nodup_nil
  mem_stubs := by simp [Collected.empty]
  seen := by simp [Collected.empty]

/-- The ids of the transactions and of their parents are hashes. -/
def Hashes (txs : List TxDagInput) : Prop :=
  ∀ t ∈ txs, IsTxid t.txid ∧ ∀ parents, t.parents = some parents → ∀ p ∈ parents, IsTxid p

variable {txs txs' : List TxDagInput}

theorem Hashes.parent (hashes : Hashes txs) (member : t ∈ txs) (parent : p ∈ t.distinctParents) :
    IsTxid p := by
  obtain ⟨parents, known, parent⟩ := mem_distinctParents.mp parent
  exact (hashes t member).2 parents known p parent

theorem capped_concat : capped known (txs ++ [t]) =
    capped known txs ++ if 0 < t.elidedCount known then [t] else [] := by
  rw [capped, List.filter_append, capped, List.filter_singleton]
  simp

theorem Collected.Of.addTx (spec : Collected.Of known txs collected)
    (hashes : Hashes (txs ++ [t])) (fresh : ∀ t' ∈ txs, t'.txid ≠ t.txid) :
    Collected.Of known (txs ++ [t]) (Collected.addTx known collected t) := by
  -- Keys of other children differ: the hashes have one length, so a key splits in one way only.
  have unseen (p : String) (parent : p ∈ t.distinctParents) :
      edgeKey p t.txid ∉ collected.edgeSeen := by
    intro inside
    obtain ⟨t', before, p', parent', same⟩ := spec.seen _ inside
    have hash := hashes.parent (by simp) parent
    have hash' := hashes.parent (by simp [before]) parent'
    exact fresh t' before (edgeKey_inj (hash.length.trans hash'.length.symm) same).2.symm
  have keys := @foldl_addKey _ (t.kept known) spec.nodup_stubs
  rw [addTx_of_fresh unseen]
  -- One field of the collected record after another, each extended by what this child adds.
  refine ⟨?_, ?_, ?_, ?_, keys.1, ?_, ?_⟩
  · simp [spec.internalEdges]
  · simp [spec.stubEdges]
  · rw [spec.aggregateEdges, capped_concat, List.map_append]
    split <;> rfl
  · rw [spec.aggregates, capped_concat, List.map_append]
    split <;> rfl
  · intro p
    rw [keys.2 p, spec.mem_stubs p]
    simp [or_and_right, exists_or]
  · intro key inside
    simp only [List.mem_append, List.mem_map, List.mem_reverse] at inside
    obtain ⟨p, kept, rfl⟩ | ⟨p, internal, rfl⟩ | before := inside
    · exact ⟨t, by simp, p, (mem_external.mp (kept_subset kept)).1, rfl⟩
    · exact ⟨t, by simp, p, (mem_internal.mp internal).1, rfl⟩
    · obtain ⟨t', inside, rest⟩ := spec.seen key before
      exact ⟨t', List.mem_append_left _ inside, rest⟩

theorem foldl_addTx (distinct : (txs.map TxDagInput.txid).Nodup) (hashes : Hashes txs) :
    Collected.Of known txs (txs.foldl (Collected.addTx known) Collected.empty) := by
  induction txs using List.reverseRecOn with
  | nil => exact Collected.Of.empty
  | append_singleton txs t ih =>
    rw [List.map_append, List.nodup_append'] at distinct
    rw [List.foldl_append]
    refine (ih distinct.1 fun t' inside => hashes t' (by simp [inside])).addTx hashes ?_
    intro t' before same
    exact distinct.2.2 (List.mem_map_of_mem before) (by simp [same])

end MempoolObserver
