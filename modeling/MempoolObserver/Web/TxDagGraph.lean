import Mathlib.Data.List.Nodup
import Mathlib.Data.List.Pairwise
import Mathlib.Data.List.Sort
import Mathlib.Data.Set.Finite.List
import MempoolObserver.Web.TxDagLayout

/-!
# The graph handed to the layout

Whatever parents the rows of a cluster name — the transaction itself, a later one, the
same one twice, any number from outside — the layout library gets distinct nodes,
parents that are nodes, and no cycle. What is kept from it is exactly the edges into
transactions on a cycle or downstream of one, and every parent is drawn or counted once.

## Main definitions

* `Spends` — the parents of the listed transactions
* `LayoutInput` — what the layout library needs of its nodes
* `TxDagGraph.Accounts` — each parent of a transaction has one edge or is counted once
* `Reordered` — the same transactions, and the same parents of each, in another order

## Main results

* `txDagGraph_reordered` — the order of the inputs and of their parents does not matter
* `txDagGraph_well_formed` — the graph of any list of transactions
-/

namespace MempoolObserver

open Cycles

variable {txs txs' : List TxDagInput} {t : TxDagInput} {p x : String}

/-! ### The order of the inputs -/

/-- The same transaction, with its parents in any order. -/
structure SameInput (a b : TxDagInput) : Prop where
  txid : a.txid = b.txid
  r : a.r = b.r
  parents : Option.Rel List.Perm a.parents b.parents

def Reordered (txs txs' : List TxDagInput) : Prop :=
  ∃ middle, txs.Perm middle ∧ List.Forall₂ SameInput middle txs'

/-- With the parents in the order in which the loop reads them. -/
def TxDagInput.canonical (t : TxDagInput) : TxDagInput := ⟨t.txid, t.parents.map uniqueParents, t.r⟩

theorem uniqueParents_congr {parents parents' : List String}
    (same : ∀ p, p ∈ parents ↔ p ∈ parents') : uniqueParents parents = uniqueParents parents' := by
  have perm : (uniqueParents parents).Perm (uniqueParents parents') :=
    (List.perm_ext_iff_of_nodup nodup_uniqueParents nodup_uniqueParents).mpr fun p => by
      rw [mem_uniqueParents, mem_uniqueParents, same]
  exact perm.eq_of_pairwise' (List.pairwise_insertionSort _ _) (List.pairwise_insertionSort _ _)

theorem SameInput.canonical {a b : TxDagInput} (same : SameInput a b) :
    a.canonical = b.canonical := by
  obtain ⟨txid, parents, r⟩ := a
  obtain ⟨txid', parents', r'⟩ := b
  obtain ⟨rfl, rfl, perm⟩ := same
  cases perm with
  | none => rfl
  | some perm =>
    simp only [TxDagInput.canonical, Option.map_some]
    rw [uniqueParents_congr fun p => perm.mem_iff]

theorem Reordered.canonical (order : Reordered txs txs') :
    (txs.map TxDagInput.canonical).Perm (txs'.map TxDagInput.canonical) := by
  obtain ⟨middle, perm, same⟩ := order
  refine (perm.map _).trans (List.Perm.of_eq ?_)
  clear perm
  induction same with
  | nil => rfl
  | cons head _ ih => rw [List.map_cons, List.map_cons, head.canonical, ih]

theorem distinctParents_canonical : t.canonical.distinctParents = t.distinctParents := by
  obtain ⟨txid, parents, r⟩ := t
  cases parents with
  | none => rfl
  | some parents => exact uniqueParents_congr fun p => mem_uniqueParents

theorem addTx_canonical {known : List String} {collected : Collected} :
    Collected.addTx known collected t.canonical = Collected.addTx known collected t := by
  rw [addTx_eq, addTx_eq]
  simp only [TxDagInput.kept, TxDagInput.internal, TxDagInput.elidedCount, TxDagInput.external,
    distinctParents_canonical]
  rfl

theorem sortByTxid_canonical :
    sortByTxid (txs.map TxDagInput.canonical) = (sortByTxid txs).map TxDagInput.canonical :=
  (List.map_insertionSort _ _ TxDagInput.canonical txs fun _ _ _ _ => Iff.rfl).symm

theorem txDagGraph_canonical : txDagGraph (txs.map TxDagInput.canonical) = txDagGraph txs := by
  -- Deduplicating a parent list changes no id, nothing the collecting loop reads and no node.
  have ids : ((sortByTxid txs).map TxDagInput.canonical).map TxDagInput.txid =
      (sortByTxid txs).map TxDagInput.txid := by
    simp [TxDagInput.canonical]
  have collected :
      collect ((sortByTxid txs).map TxDagInput.canonical) = collect (sortByTxid txs) := by
    rw [collect, ids, List.foldl_map]
    simp only [addTx_canonical]
    rfl
  have nodes (collected : Collected) (cyclic : List String) :
      ((sortByTxid txs).map TxDagInput.canonical).map (txNode collected cyclic) =
        (sortByTxid txs).map (txNode collected cyclic) := by
    rw [List.map_map]
    refine List.map_congr_left fun t _ => ?_
    simp [txNode, TxDagInput.canonical]
  rw [txDagGraph, sortByTxid_canonical]
  simp only [ids, collected, nodes]
  rfl

theorem perm_sortByTxid : (sortByTxid txs).Perm txs := List.perm_insertionSort _ _

theorem mem_sortByTxid : t ∈ sortByTxid txs ↔ t ∈ txs := List.mem_insertionSort _

/-- Distinct ids leave only one sorted order. -/
theorem sortByTxid_congr (distinct : (txs.map TxDagInput.txid).Nodup) (perm : txs.Perm txs') :
    sortByTxid txs = sortByTxid txs' := by
  have sorted (txs : List TxDagInput) : (sortByTxid txs).Pairwise (·.txid ≤ ·.txid) := by
    exact List.pairwise_insertionSort _ _
  refine List.Perm.eq_of_pairwise ?_ (sorted txs) (sorted txs')
    (perm_sortByTxid.trans (perm.trans perm_sortByTxid.symm))
  intro a b member member' le ge
  exact List.inj_on_of_nodup_map distinct (mem_sortByTxid.mp member)
    (perm.mem_iff.mpr (mem_sortByTxid.mp member')) (le_antisymm le ge)

theorem txDagGraph_reordered (distinct : (txs.map TxDagInput.txid).Nodup)
    (order : Reordered txs txs') : txDagGraph txs = txDagGraph txs' := by
  have distinct' : ((txs.map TxDagInput.canonical).map TxDagInput.txid).Nodup := by
    rw [List.map_map]
    exact distinct
  rw [← txDagGraph_canonical, ← @txDagGraph_canonical txs', txDagGraph, txDagGraph,
    sortByTxid_congr distinct' order.canonical]

/-! ### The edges collected -/

/-- The ids of the listed transactions. -/
def ids (txs : List TxDagInput) : List String := txs.map TxDagInput.txid

/-- Parent to child, as the rows name them. -/
def Spends (txs : List TxDagInput) (p x : String) : Prop :=
  ∃ t ∈ txs, t.txid = x ∧ ∃ parents, t.parents = some parents ∧ p ∈ parents

variable {collected : Collected} {cyclic : List String} {edge : RawEdge}

theorem mem_ids : x ∈ ids txs ↔ ∃ t ∈ txs, t.txid = x := List.mem_map

theorem eq_of_txid {t' : TxDagInput} (distinct : (ids txs).Nodup) (member : t ∈ txs)
    (member' : t' ∈ txs) (same : t.txid = t'.txid) : t = t' :=
  List.inj_on_of_nodup_map distinct member member' same

theorem spends_iff : Spends txs p x ↔ ∃ t ∈ txs, t.txid = x ∧ p ∈ t.distinctParents := by
  simp only [Spends, mem_distinctParents]

/-- The edges into each transaction from a list of its parents. -/
def edgesFrom (parents : TxDagInput → List String) (txs : List TxDagInput) : List RawEdge :=
  txs.flatMap fun t => (parents t).map fun p => ⟨p, t.txid⟩

theorem mem_edgesFrom {parents : TxDagInput → List String} :
    edge ∈ edgesFrom parents txs ↔ ∃ t ∈ txs, t.txid = edge.toId ∧ edge.fromId ∈ parents t := by
  obtain ⟨p, x⟩ := edge
  simp only [edgesFrom, List.mem_flatMap, List.mem_map, RawEdge.mk.injEq]
  constructor
  · rintro ⟨t, member, q, parent, rfl, rfl⟩
    exact ⟨t, member, rfl, parent⟩
  · rintro ⟨t, member, rfl, parent⟩
    exact ⟨t, member, p, parent, rfl, rfl⟩

theorem nodup_edgesFrom {parents : TxDagInput → List String} (distinct : (ids txs).Nodup)
    (nodup : ∀ t, (parents t).Nodup) : (edgesFrom parents txs).Nodup := by
  refine List.nodup_flatMap.mpr ⟨fun t _ => (nodup t).map fun p q same => ?_, ?_⟩
  · exact congrArg RawEdge.fromId same
  · refine (List.pairwise_map.mp distinct).imp fun differ edge inside inside' => ?_
    obtain ⟨p, -, rfl⟩ := List.mem_map.mp inside
    obtain ⟨q, -, same⟩ := List.mem_map.mp inside'
    exact differ (congrArg RawEdge.toId same).symm

/-- The edge from the text that counts what is past the cap. -/
def textParents (known : List String) (t : TxDagInput) : List String :=
  if 0 < t.elidedCount known then [aggregateId t.txid] else []

theorem mem_textParents {known : List String} :
    p ∈ textParents known t ↔ 0 < t.elidedCount known ∧ p = aggregateId t.txid := by
  rw [textParents]
  split <;> simp_all

theorem map_capped {known : List String} :
    (capped known txs).map (fun t => ⟨aggregateId t.txid, t.txid⟩) =
      edgesFrom (textParents known) txs := by
  induction txs with
  | nil => rfl
  | cons t txs ih =>
    rw [edgesFrom, List.flatMap_cons, ← edgesFrom, ← ih, capped, List.filter_cons, textParents]
    by_cases elided : 0 < t.elidedCount known
    · simp [elided, capped]
    · simp [elided, capped]

/-- What was collected for these transactions, with their ids for the known ones. -/
abbrev Collects (txs : List TxDagInput) (collected : Collected) : Prop :=
  Collected.Of (ids txs) txs collected

theorem mem_internalEdges (spec : Collects txs collected) : ⟨p, x⟩ ∈ collected.internalEdges ↔
    ∃ t ∈ txs, t.txid = x ∧ p ∈ t.internal (ids txs) := by
  rw [spec.internalEdges]
  exact mem_edgesFrom

theorem mem_stubEdges (spec : Collects txs collected) : ⟨p, x⟩ ∈ collected.stubEdges ↔
    ∃ t ∈ txs, t.txid = x ∧ p ∈ t.kept (ids txs) := by
  rw [spec.stubEdges]
  exact mem_edgesFrom

theorem mem_aggregateEdges (spec : Collects txs collected) : ⟨p, x⟩ ∈ collected.aggregateEdges ↔
    ∃ t ∈ txs, t.txid = x ∧ 0 < t.elidedCount (ids txs) ∧ p = aggregateId t.txid := by
  rw [spec.aggregateEdges, map_capped, mem_edgesFrom]
  simp only [mem_textParents]

/-- Every edge is into a listed transaction. -/
theorem mem_ids_of_edge (spec : Collects txs collected)
    (member : ⟨p, x⟩ ∈ collected.internalEdges ++ collected.stubEdges ++ collected.aggregateEdges) :
    x ∈ ids txs := by
  rw [List.mem_append, List.mem_append, mem_internalEdges spec, mem_stubEdges spec,
    mem_aggregateEdges spec] at member
  obtain (⟨t, member, same, -⟩ | ⟨t, member, same, -⟩) | ⟨t, member, same, -⟩ := member <;>
    exact mem_ids.mpr ⟨t, member, same⟩

/-! ### Three kinds of parents -/

theorem internal_mem_ids (spec : Collects txs collected) (edge : ⟨p, x⟩ ∈ collected.internalEdges) :
    p ∈ ids txs := by
  obtain ⟨t, -, -, internal⟩ := (mem_internalEdges spec).mp edge
  exact (mem_internal.mp internal).2

theorem stub_not_mem_ids (spec : Collects txs collected) (edge : ⟨p, x⟩ ∈ collected.stubEdges) :
    p ∉ ids txs := by
  obtain ⟨t, -, -, kept⟩ := (mem_stubEdges spec).mp edge
  exact (mem_external.mp (kept_subset kept)).2

theorem isTxid_of_mem_ids (hashes : Hashes txs) (known : x ∈ ids txs) : IsTxid x := by
  obtain ⟨t, member, rfl⟩ := mem_ids.mp known
  exact (hashes t member).1

theorem isTxid_stub (hashes : Hashes txs) (spec : Collects txs collected)
    (edge : ⟨p, x⟩ ∈ collected.stubEdges) : IsTxid p := by
  obtain ⟨t, member, -, kept⟩ := (mem_stubEdges spec).mp edge
  exact hashes.parent member (mem_external.mp (kept_subset kept)).1

theorem text_not_isTxid (hashes : Hashes txs) (spec : Collects txs collected)
    (edge : ⟨p, x⟩ ∈ collected.aggregateEdges) : ¬ IsTxid p := by
  obtain ⟨t, member, -, -, rfl⟩ := (mem_aggregateEdges spec).mp edge
  exact not_isTxid_aggregateId (hashes t member).1

theorem nodup_internalEdges (distinct : (ids txs).Nodup) (spec : Collects txs collected) :
    collected.internalEdges.Nodup :=
  spec.internalEdges ▸ nodup_edgesFrom distinct fun _ => nodup_internal

/-- No parent has two edges into the same transaction. -/
theorem nodup_edges (distinct : (ids txs).Nodup) (hashes : Hashes txs)
    (spec : Collects txs collected) :
    (collected.internalEdges ++ collected.stubEdges ++ collected.aggregateEdges).Nodup := by
  have stubs : collected.stubEdges.Nodup :=
    spec.stubEdges ▸ nodup_edgesFrom distinct fun _ => nodup_kept
  have texts : collected.aggregateEdges.Nodup := by
    rw [spec.aggregateEdges, map_capped]
    refine nodup_edgesFrom distinct fun t => ?_
    rw [textParents]
    split <;> simp
  refine ((nodup_internalEdges distinct spec).append stubs ?_).append texts ?_
  -- The parent tells the kinds of edge apart: an input, an outside hash, a text that is no hash.
  · rintro ⟨p, x⟩ internal stub
    exact stub_not_mem_ids spec stub (internal_mem_ids spec internal)
  · rintro ⟨p, x⟩ member text
    refine text_not_isTxid hashes spec text ?_
    obtain internal | stub := List.mem_append.mp member
    · exact isTxid_of_mem_ids hashes (internal_mem_ids spec internal)
    · exact isTxid_stub hashes spec stub

/-! ### The transactions on or after a cycle -/

theorem finite_spends : {p | ∃ x, Spends txs p x}.Finite := by
  refine (txs.flatMap TxDagInput.distinctParents).finite_toSet.subset ?_
  rintro p ⟨x, spends⟩
  obtain ⟨t, member, -, parent⟩ := spends_iff.mp spends
  exact List.mem_flatMap.mpr ⟨t, member, parent⟩

theorem isParent_iff (spec : Collects txs collected) :
    IsParent collected.internalEdges p x ↔ Spends txs p x ∧ p ∈ ids txs := by
  rw [IsParent, mem_internalEdges spec, spends_iff]
  constructor
  · rintro ⟨t, member, same, internal⟩
    obtain ⟨parent, known⟩ := mem_internal.mp internal
    exact ⟨⟨t, member, same, parent⟩, known⟩
  · rintro ⟨⟨t, member, same, parent⟩, known⟩
    exact ⟨t, member, same, mem_internal.mpr ⟨parent, known⟩⟩

/-- Parents from outside the list have no parents in it, so no cycle goes through them. -/
theorem downstream_iff (spec : Collects txs collected) :
    Downstream (IsParent collected.internalEdges) x ↔ Downstream (Spends txs) x := by
  rw [← not_iff_not, ← acc_iff_not_downstream finite_sources,
    ← acc_iff_not_downstream finite_spends]
  constructor
  · refine acc_of_sources fun p x spends => ?_
    by_cases known : p ∈ ids txs
    · exact .inr ((isParent_iff spec).mpr ⟨spends, known⟩)
    · refine .inl fun q ⟨t, member, same, _⟩ => known (mem_ids.mpr ⟨t, member, same⟩)
  · have within : Subrelation (IsParent collected.internalEdges) (Spends txs) :=
      fun edge => ((isParent_iff spec).mp edge).1
    exact within.accessible

/-! ### The nodes -/

def nodeIds (nodes : List GraphNodeDatum) : List String := nodes.map (·.node.txid)

/-- Parent to child, as the layout library reads it. -/
def LayoutParent (nodes : List GraphNodeDatum) (p x : String) : Prop :=
  ∃ d ∈ nodes, d.node.txid = x ∧ p ∈ d.parentIds

/-- The layout library throws on anything else. -/
structure LayoutInput (nodes : List GraphNodeDatum) : Prop where
  distinct : (nodeIds nodes).Nodup
  closed : ∀ d ∈ nodes, ∀ p ∈ d.parentIds, p ∈ nodeIds nodes
  acyclic : ∀ y, ¬ OnCycle (LayoutParent nodes) y

def layoutNodes (txs : List TxDagInput) (collected : Collected) (cyclic : List String) :
    List GraphNodeDatum :=
  txs.map (txNode collected cyclic) ++
    (collected.stubChildren.insertionSort (· ≤ ·)).map stubNode ++
    collected.aggregates.map aggregateNode

theorem nodeIds_layoutNodes : nodeIds (layoutNodes txs collected cyclic) =
    ids txs ++ collected.stubChildren.insertionSort (· ≤ ·) ++
      collected.aggregates.map Prod.fst := by
  simp only [nodeIds, layoutNodes, List.map_append, List.map_map, ids]
  have stubs : (fun d : GraphNodeDatum => d.node.txid) ∘ stubNode = id := rfl
  rw [stubs, List.map_id]
  rfl

theorem mem_stubChildren (spec : Collects txs collected) :
    p ∈ collected.stubChildren ↔ ∃ x, ⟨p, x⟩ ∈ collected.stubEdges := by
  simp only [spec.mem_stubs, mem_stubEdges spec]
  constructor
  · rintro ⟨t, member, kept⟩
    exact ⟨t.txid, t, member, rfl, kept⟩
  · rintro ⟨x, t, member, -, kept⟩
    exact ⟨t, member, kept⟩

theorem mem_aggregateIds (spec : Collects txs collected) :
    p ∈ collected.aggregates.map Prod.fst ↔ ∃ x, ⟨p, x⟩ ∈ collected.aggregateEdges := by
  have same : collected.aggregates.map Prod.fst = collected.aggregateEdges.map RawEdge.fromId := by
    rw [spec.aggregates, spec.aggregateEdges, List.map_map, List.map_map]
    rfl
  rw [same, List.mem_map]
  constructor
  · rintro ⟨edge, member, rfl⟩
    exact ⟨edge.toId, member⟩
  · rintro ⟨x, member⟩
    exact ⟨_, member, rfl⟩

/-- The nodes are the transactions and the sources of the edges. -/
theorem mem_nodeIds (spec : Collects txs collected) :
    p ∈ nodeIds (layoutNodes txs collected cyclic) ↔
      p ∈ ids txs ∨ ∃ x, ⟨p, x⟩ ∈ collected.stubEdges ∨ ⟨p, x⟩ ∈ collected.aggregateEdges := by
  rw [nodeIds_layoutNodes, List.mem_append, List.mem_append, List.mem_insertionSort,
    mem_stubChildren spec, mem_aggregateIds spec, or_assoc, exists_or]

theorem nodup_aggregateIds (distinct : (ids txs).Nodup) (spec : Collects txs collected) :
    (collected.aggregates.map Prod.fst).Nodup := by
  have named : collected.aggregates.map Prod.fst =
      ((capped (ids txs) txs).map TxDagInput.txid).map aggregateId := by
    rw [spec.aggregates, List.map_map, List.map_map]
    rfl
  rw [named]
  exact (distinct.sublist (List.filter_sublist.map _)).map fun _ _ => aggregateId_inj

theorem nodup_nodeIds (distinct : (ids txs).Nodup) (hashes : Hashes txs)
    (spec : Collects txs collected) : (nodeIds (layoutNodes txs collected cyclic)).Nodup := by
  have stubs : (collected.stubChildren.insertionSort (· ≤ ·)).Nodup :=
    (List.perm_insertionSort _ _).nodup_iff.mpr spec.nodup_stubs
  have edge (p : String) (stub : p ∈ collected.stubChildren.insertionSort (· ≤ ·)) :
      ∃ x, ⟨p, x⟩ ∈ collected.stubEdges :=
    (mem_stubChildren spec).mp ((List.mem_insertionSort _).mp stub)
  rw [nodeIds_layoutNodes]
  refine (distinct.append stubs ?_).append (nodup_aggregateIds distinct spec) ?_
  -- A stub is not among the inputs, and a text is neither.
  · intro p known stub
    obtain ⟨x, stub⟩ := edge p stub
    exact stub_not_mem_ids spec stub known
  · intro p member text
    obtain ⟨x, text⟩ := (mem_aggregateIds spec).mp text
    refine text_not_isTxid hashes spec text ?_
    obtain known | stub := List.mem_append.mp member
    · exact isTxid_of_mem_ids hashes known
    · obtain ⟨x, stub⟩ := edge p stub
      exact isTxid_stub hashes spec stub

theorem mem_parentsOf : p ∈ parentsOf collected cyclic x ↔
    (⟨p, x⟩ ∈ collected.internalEdges ∧ x ∉ cyclic) ∨ ⟨p, x⟩ ∈ collected.stubEdges ∨
      ⟨p, x⟩ ∈ collected.aggregateEdges := by
  have into (edges : List RawEdge) :
      p ∈ (edges.filter (·.toId = x)).map RawEdge.fromId ↔ ⟨p, x⟩ ∈ edges := by
    constructor
    · intro member
      obtain ⟨edge, among, rfl⟩ := List.mem_map.mp member
      obtain ⟨among, target⟩ := List.mem_filter.mp among
      rw [← of_decide_eq_true target]
      exact among
    · intro member
      exact List.mem_map.mpr ⟨_, List.mem_filter.mpr ⟨member, by simp⟩, rfl⟩
  -- The source filters by target and by cycle at once; here the two tests are taken apart.
  have inner : collected.internalEdges.filter (fun e => e.toId ∉ cyclic ∧ e.toId = x) =
      (collected.internalEdges.filter (·.toId ∉ cyclic)).filter (·.toId = x) := by
    rw [List.filter_filter]
    refine List.filter_congr fun e _ => ?_
    simp [and_comm]
  rw [parentsOf, inner, List.map_append, List.map_append, List.mem_append, List.mem_append,
    into, into, into, List.mem_filter, decide_eq_true_eq, or_assoc]

theorem mem_layoutNodes {d : GraphNodeDatum} : d ∈ layoutNodes txs collected cyclic ↔
    (∃ t ∈ txs, txNode collected cyclic t = d) ∨ (∃ p ∈ collected.stubChildren, stubNode p = d) ∨
      ∃ a ∈ collected.aggregates, aggregateNode a = d := by
  simp [layoutNodes]

theorem layoutParent_iff : LayoutParent (layoutNodes txs collected cyclic) p x ↔
    x ∈ ids txs ∧ p ∈ parentsOf collected cyclic x := by
  constructor
  · rintro ⟨d, member, rfl, parent⟩
    obtain ⟨t, listed, rfl⟩ | ⟨q, -, rfl⟩ | ⟨a, -, rfl⟩ := mem_layoutNodes.mp member
    · exact ⟨mem_ids.mpr ⟨t, listed, rfl⟩, parent⟩
    · exact absurd parent List.not_mem_nil
    · exact absurd parent List.not_mem_nil
  · rintro ⟨known, parent⟩
    obtain ⟨t, listed, rfl⟩ := mem_ids.mp known
    exact ⟨_, mem_layoutNodes.mpr (.inl ⟨t, listed, rfl⟩), rfl, parent⟩

/-- What is left of the edges closes no cycle. -/
theorem acc_layoutParent (hashes : Hashes txs) (spec : Collects txs collected)
    (targets : ∀ x ∈ ids txs, x ∈ cyclic ↔ Downstream (IsParent collected.internalEdges) x) :
    Acc (LayoutParent (layoutNodes txs collected cyclic)) x := by
  -- the edges between the transactions, without those into the cyclic ones
  have inner : Acc (fun p x => ⟨p, x⟩ ∈ collected.internalEdges ∧ x ∉ cyclic) x := by
    refine acc_of_acc_targets (r := IsParent collected.internalEdges)
      (fun p x step => ⟨step.1, ?_⟩) x
    have known : x ∈ ids txs := mem_ids_of_edge (p := p) spec (by simp [step.1])
    exact (acc_iff_not_downstream finite_sources).mpr fun cycle =>
      step.2 ((targets x known).mpr cycle)
  refine acc_of_sources (fun p x step => ?_) inner
  obtain internal | stub | text := mem_parentsOf.mp (layoutParent_iff.mp step).2
  · exact .inr internal
  · exact .inl fun q before => stub_not_mem_ids spec stub (layoutParent_iff.mp before).1
  · exact .inl fun q before =>
      text_not_isTxid hashes spec text (isTxid_of_mem_ids hashes (layoutParent_iff.mp before).1)

theorem layoutInput (distinct : (ids txs).Nodup) (hashes : Hashes txs)
    (spec : Collects txs collected)
    (targets : ∀ x ∈ ids txs, x ∈ cyclic ↔ Downstream (IsParent collected.internalEdges) x) :
    LayoutInput (layoutNodes txs collected cyclic) where
  distinct := nodup_nodeIds distinct hashes spec
  closed d member p parent := by
    have step : LayoutParent (layoutNodes txs collected cyclic) p d.node.txid :=
      ⟨d, member, rfl, parent⟩
    rw [mem_nodeIds spec]
    obtain ⟨internal, -⟩ | outside := mem_parentsOf.mp (layoutParent_iff.mp step).2
    · exact .inl (internal_mem_ids spec internal)
    · exact .inr ⟨_, outside⟩
  acyclic _ := not_onCycle_of_acc (acc_layoutParent hashes spec targets)

/-! ### The edges drawn -/

def drawnEdges (collected : Collected) (cyclic : List String) : List TxDagEdge :=
  (collected.internalEdges.map fun e => TxDagEdge.mk e (decide (e.toId ∈ cyclic))) ++
    (collected.stubEdges.map fun e => TxDagEdge.mk e false) ++
    collected.aggregateEdges.map fun e => TxDagEdge.mk e false

theorem txDagGraph_eq_some
    (found : findCyclicTargets (ids (sortByTxid txs)) (collect (sortByTxid txs)).internalEdges =
      some cyclic) :
    txDagGraph txs = some ⟨layoutNodes (sortByTxid txs) (collect (sortByTxid txs)) cyclic,
      (drawnEdges (collect (sortByTxid txs)) cyclic).insertionSort edgeLe⟩ := by
  rw [txDagGraph, ← ids, found]
  rfl

theorem drawnEdges_raw : (drawnEdges collected cyclic).map TxDagEdge.toRawEdge =
    collected.internalEdges ++ collected.stubEdges ++ collected.aggregateEdges := by
  simp [drawnEdges, Function.comp_def]

theorem back_iff {e : TxDagEdge} (spec : Collects txs collected) (hashes : Hashes txs)
    (targets : ∀ x ∈ ids txs, x ∈ cyclic ↔ Downstream (IsParent collected.internalEdges) x)
    (member : e ∈ drawnEdges collected cyclic) :
    e.back = true ↔ e.fromId ∈ ids txs ∧ Downstream (Spends txs) e.toId := by
  simp only [drawnEdges, List.mem_append, List.mem_map] at member
  obtain (⟨⟨p, x⟩, internal, rfl⟩ | ⟨⟨p, x⟩, stub, rfl⟩) | ⟨⟨p, x⟩, text, rfl⟩ := member
  · have known : x ∈ ids txs := mem_ids_of_edge (p := p) spec (by simp [internal])
    simp only [decide_eq_true_eq, internal_mem_ids spec internal, true_and]
    exact (targets x known).trans (downstream_iff spec)
  · simp [stub_not_mem_ids spec stub]
  · have outside : p ∉ ids txs := fun known =>
      text_not_isTxid hashes spec text (isTxid_of_mem_ids hashes known)
    simp [outside]

/-- The parents a node has in the layout are the sources of its edges that are not back. -/
theorem parentsOf_eq : parentsOf collected cyclic x =
    ((drawnEdges collected cyclic).filter fun e => e.toId = x ∧ e.back = false).map
      (·.fromId) := by
  have cut : (collected.internalEdges.filter fun e => e.toId ∉ cyclic ∧ e.toId = x) =
      collected.internalEdges.filter fun e => e.toId = x ∧ e.toId ∉ cyclic :=
    List.filter_congr fun e _ => by simp [and_comm]
  rw [parentsOf, cut, drawnEdges]
  simp [List.filter_map, Function.comp_def]

theorem parentIds_eq {d : GraphNodeDatum} (hashes : Hashes txs) (spec : Collects txs collected)
    (member : d ∈ layoutNodes txs collected cyclic) :
    d.parentIds = parentsOf collected cyclic d.node.txid := by
  -- Stubs and aggregates are drawn with no parents, and no edge leads into them.
  have none (x : String) (outside : x ∉ ids txs) : parentsOf collected cyclic x = [] := by
    refine List.eq_nil_iff_forall_not_mem.mpr fun p parent => outside ?_
    refine mem_ids_of_edge (p := p) spec ?_
    rw [List.mem_append, List.mem_append]
    obtain ⟨internal, -⟩ | stub | text := mem_parentsOf.mp parent
    · exact .inl (.inl internal)
    · exact .inl (.inr stub)
    · exact .inr text
  obtain ⟨t, -, rfl⟩ | ⟨p, stub, rfl⟩ | ⟨a, text, rfl⟩ := mem_layoutNodes.mp member
  · rfl
  · obtain ⟨x, stub⟩ := (mem_stubChildren spec).mp stub
    exact (none p (stub_not_mem_ids spec stub)).symm
  · obtain ⟨x, text⟩ := (mem_aggregateIds spec).mp (List.mem_map_of_mem text)
    refine (none a.1 fun known => ?_).symm
    exact text_not_isTxid hashes spec text (isTxid_of_mem_ids hashes known)

/-! ### Every parent once -/

namespace TxDagGraph

/-- An edge from the first to the second is drawn. -/
def Links (graph : TxDagGraph) (p x : String) : Prop :=
  ∃ e ∈ graph.edges, e.fromId = p ∧ e.toId = x

instance {graph : TxDagGraph} : Decidable (graph.Links p x) :=
  inferInstanceAs (Decidable (∃ e ∈ graph.edges, e.fromId = p ∧ e.toId = x))

/-- The distinct parents of a transaction that no edge is drawn for. -/
def hidden (graph : TxDagGraph) (t : TxDagInput) : List String :=
  (t.parents.getD []).dedup.filter fun p => ¬ graph.Links p t.txid

/-- The text beside a transaction says that so many parents are not drawn. -/
def Counts (graph : TxDagGraph) (txid : String) (n : ℕ) : Prop :=
  ∃ d ∈ graph.graphNodes, d.node.txid = aggregateId txid ∧
    ∃ label, d.node.kind = .aggregate label n

/-- The parents of a transaction are drawn or counted; those among the listed ones are drawn, and
a text never stands for a single one. -/
structure Accounts (graph : TxDagGraph) (listed : List String) (t : TxDagInput) : Prop where
  sources : ∀ p, graph.Links p t.txid →
    p ∈ t.parents.getD [] ∨ p = aggregateId t.txid ∧ graph.hidden t ≠ []
  internal : ∀ p ∈ t.parents.getD [], p ∈ listed → graph.Links p t.txid
  text : graph.hidden t ≠ [] → graph.Links (aggregateId t.txid) t.txid
  counted : ∀ n, graph.Counts t.txid n ↔ n ≠ 0 ∧ n = (graph.hidden t).length
  notOne : (graph.hidden t).length ≠ 1

end TxDagGraph

/-- The graph returned for these nodes and edges. -/
def graphOf (txs : List TxDagInput) (collected : Collected) (cyclic : List String) : TxDagGraph :=
  ⟨layoutNodes txs collected cyclic, (drawnEdges collected cyclic).insertionSort edgeLe⟩

theorem links_iff (spec : Collects txs collected) (distinct : (ids txs).Nodup) (listed : t ∈ txs) :
    (graphOf txs collected cyclic).Links p t.txid ↔
      p ∈ t.internal (ids txs) ∨ p ∈ t.kept (ids txs) ∨
        0 < t.elidedCount (ids txs) ∧ p = aggregateId t.txid := by
  have drawn : (graphOf txs collected cyclic).Links p t.txid ↔ ⟨p, t.txid⟩ ∈
      collected.internalEdges ++ collected.stubEdges ++ collected.aggregateEdges := by
    -- Sorting the drawn edges loses none of them.
    rw [← @drawnEdges_raw collected cyclic, List.mem_map]
    constructor
    · rintro ⟨e, member, rfl, target⟩
      exact ⟨e, (List.mem_insertionSort _).mp member, by rw [← target]⟩
    · rintro ⟨e, member, raw⟩
      exact ⟨e, (List.mem_insertionSort _).mpr member, by rw [raw], by rw [raw]⟩
  -- The txids are distinct, so the child alone decides whose parents are meant.
  have only (parents : TxDagInput → Prop) :
      (∃ t' ∈ txs, t'.txid = t.txid ∧ parents t') ↔ parents t := by
    constructor
    · rintro ⟨t', listed', same, holds⟩
      rwa [← eq_of_txid distinct listed' listed same]
    · exact fun holds => ⟨t, listed, rfl, holds⟩
  rw [drawn, List.mem_append, List.mem_append, mem_internalEdges spec, mem_stubEdges spec,
    mem_aggregateEdges spec, only, only, only fun t => 0 < t.elidedCount _ ∧ p = aggregateId t.txid,
    or_assoc]

/-- What is cut off past the cap is what the text counts. -/
theorem length_not_kept {known : List String} :
    ((t.external known).filter (· ∉ t.kept known)).length = t.elidedCount known := by
  have kept : ((t.external known).filter (· ∈ t.kept known)).length = (t.kept known).length := by
    refine ((List.perm_ext_iff_of_nodup (nodup_external.filter _) nodup_kept).mpr
      fun p => ?_).length_eq
    rw [List.mem_filter, decide_eq_true_eq]
    exact and_iff_right_of_imp kept_subset
  have split := List.length_eq_length_filter_add (l := t.external known) (· ∈ t.kept known)
  rw [TxDagInput.elidedCount]
  simp only [← decide_not] at split
  omega

theorem elidedCount_ne_one {known : List String} : t.elidedCount known ≠ 1 := by
  rw [TxDagInput.elidedCount, TxDagInput.kept, keptExternal, maxStubsPerTx]
  split
  · rw [List.length_take]
    omega
  · omega

theorem perm_distinctParents : (t.parents.getD []).dedup.Perm t.distinctParents := by
  rw [TxDagInput.distinctParents]
  cases t.parents with
  | none => exact .nil
  | some parents => exact (List.perm_insertionSort _ _).symm

theorem length_hidden (hashes : Hashes txs) (spec : Collects txs collected)
    (distinct : (ids txs).Nodup) (listed : t ∈ txs) :
    ((graphOf txs collected cyclic).hidden t).length = t.elidedCount (ids txs) := by
  rw [TxDagGraph.hidden, (perm_distinctParents.filter _).length_eq, ← length_not_kept,
    TxDagInput.external, List.filter_filter]
  congr 1
  refine List.filter_congr fun p parent => ?_
  have hash : p ≠ aggregateId t.txid := fun same =>
    not_isTxid_aggregateId (hashes t listed).1 (same ▸ hashes.parent listed parent)
  rw [← Bool.decide_and, decide_eq_decide, links_iff spec distinct listed, mem_internal]
  tauto

theorem counts_iff (spec : Collects txs collected) (distinct : (ids txs).Nodup)
    (listed : t ∈ txs) {n : ℕ} : (graphOf txs collected cyclic).Counts t.txid n ↔
      n ≠ 0 ∧ n = t.elidedCount (ids txs) := by
  constructor
  · rintro ⟨d, member, named, label, kind⟩
    obtain ⟨t', -, rfl⟩ | ⟨p, -, rfl⟩ | ⟨a, text, rfl⟩ := mem_layoutNodes.mp member
    · cases kind
    · cases kind
    -- The aggregate's id spells its child, so the count found is that of this child.
    · rw [spec.aggregates] at text
      obtain ⟨t', member', rfl⟩ := List.mem_map.mp text
      obtain ⟨listed', elided⟩ := List.mem_filter.mp member'
      obtain rfl := eq_of_txid distinct listed' listed (aggregateId_inj named)
      injection kind with _ count
      rw [decide_eq_true_eq] at elided
      exact ⟨by omega, count.symm⟩
  · rintro ⟨positive, rfl⟩
    have text : (aggregateId t.txid, t.elidedCount (ids txs)) ∈ collected.aggregates := by
      rw [spec.aggregates]
      exact List.mem_map.mpr ⟨t, List.mem_filter.mpr ⟨listed, by simpa [Nat.pos_iff_ne_zero]⟩, rfl⟩
    exact ⟨_, mem_layoutNodes.mpr (.inr (.inr ⟨_, text, rfl⟩)), rfl, _, rfl⟩

theorem accounts (spec : Collects txs collected) (distinct : (ids txs).Nodup)
    (hashes : Hashes txs) (listed : t ∈ txs) :
    (graphOf txs collected cyclic).Accounts (ids txs) t := by
  have count : ((graphOf txs collected cyclic).hidden t).length = t.elidedCount (ids txs) :=
    length_hidden hashes spec distinct listed
  have some_iff : (graphOf txs collected cyclic).hidden t ≠ [] ↔ 0 < t.elidedCount (ids txs) := by
    rw [← count, List.length_pos_iff]
  have named (p : String) : p ∈ t.parents.getD [] ↔ p ∈ t.distinctParents := by
    rw [← perm_distinctParents.mem_iff, List.mem_dedup]
  -- The clauses of the account: what is drawn, what is never elided, the aggregate and its count.
  refine ⟨fun p link => ?_, fun p parent known => ?_, fun some => ?_, fun n => ?_, ?_⟩
  · rw [some_iff, named]
    obtain internal | kept | ⟨elided, same⟩ := (links_iff spec distinct listed).mp link
    · exact .inl (mem_internal.mp internal).1
    · exact .inl (mem_external.mp (kept_subset kept)).1
    · exact .inr ⟨same, elided⟩
  · exact (links_iff spec distinct listed).mpr
      (.inl (mem_internal.mpr ⟨(named p).mp parent, known⟩))
  · exact (links_iff spec distinct listed).mpr (.inr (.inr ⟨some_iff.mp some, rfl⟩))
  · rw [counts_iff spec distinct listed, count]
  · exact count ▸ elidedCount_ne_one

/-! ### The whole graph -/

/-- The nodes are fit for the layout, the back edges are those into a transaction on a cycle or
after one and no other edge is kept from it, and every parent is drawn or counted once. -/
structure TxDagGraph.Draws (graph : TxDagGraph) (txs : List TxDagInput) : Prop where
  layout : LayoutInput graph.graphNodes
  nodes : ∀ t ∈ txs, t.txid ∈ nodeIds graph.graphNodes
  back : ∀ e ∈ graph.edges,
    e.back = true ↔ e.fromId ∈ ids txs ∧ Downstream (Spends txs) e.toId
  withheld : ∀ d ∈ graph.graphNodes, d.parentIds.Perm
    ((graph.edges.filter fun e => e.toId = d.node.txid ∧ e.back = false).map (·.fromId))
  once : (graph.edges.map TxDagEdge.toRawEdge).Nodup
  targets : ∀ e ∈ graph.edges, e.toId ∈ ids txs
  accounts : ∀ t ∈ txs, graph.Accounts (ids txs) t
  texts : ∀ d ∈ graph.graphNodes, ∀ label n, d.node.kind = .aggregate label n →
    ∃ t ∈ txs, d.node.txid = aggregateId t.txid

theorem draws (distinct : (ids txs).Nodup) (hashes : Hashes txs) (spec : Collects txs collected)
    (targets : ∀ x ∈ ids txs, x ∈ cyclic ↔ Downstream (IsParent collected.internalEdges) x) :
    (graphOf txs collected cyclic).Draws txs where
  layout := layoutInput distinct hashes spec targets
  nodes t listed := (mem_nodeIds spec).mpr (.inl (mem_ids.mpr ⟨t, listed, rfl⟩))
  back e member := back_iff spec hashes targets ((List.mem_insertionSort _).mp member)
  -- The parents handed over are the drawn edges into the node that are not marked back.
  withheld d member := by
    rw [parentIds_eq hashes spec member, parentsOf_eq]
    exact (((List.perm_insertionSort _ _).filter _).map _).symm
  once := by
    refine ((List.perm_insertionSort _ _).map _).nodup_iff.mpr ?_
    exact drawnEdges_raw ▸ nodup_edges distinct hashes spec
  targets e member := by
    have raw := List.mem_map_of_mem (f := TxDagEdge.toRawEdge)
      ((List.mem_insertionSort _).mp member)
    rw [drawnEdges_raw] at raw
    exact mem_ids_of_edge spec raw
  accounts t listed := accounts spec distinct hashes listed
  texts d member label n kind := by
    obtain ⟨t, -, rfl⟩ | ⟨p, -, rfl⟩ | ⟨a, text, rfl⟩ := mem_layoutNodes.mp member
    · cases kind
    · cases kind
    · rw [spec.aggregates] at text
      obtain ⟨t, capped, rfl⟩ := List.mem_map.mp text
      exact ⟨t, List.mem_of_mem_filter capped, rfl⟩

/-- Which transactions are listed matters, not where. -/
theorem TxDagGraph.Draws.of_perm {graph : TxDagGraph} (perm : txs.Perm txs')
    (draws : graph.Draws txs) : graph.Draws txs' := by
  -- The parts of the statement that mention the inputs do so through membership only.
  have known (x : String) : x ∈ ids txs' ↔ x ∈ ids txs := (perm.map _).mem_iff.symm
  have spends : Spends txs' = Spends txs := by
    funext p x
    simp only [Spends, perm.mem_iff]
  obtain ⟨layout, nodes, back, withheld, once, targets, accounts, texts⟩ := draws
  refine ⟨layout, ?_, ?_, withheld, once, ?_, ?_, ?_⟩
  · exact fun t listed => nodes t (perm.mem_iff.mpr listed)
  · intro e member
    rw [known, spends]
    exact back e member
  · exact fun e member => (known _).mpr (targets e member)
  · intro t listed
    have before := accounts t (perm.mem_iff.mpr listed)
    exact { before with
      internal := fun p parent among => before.internal p parent ((known p).mp among) }
  · intro d member label n kind
    obtain ⟨t, listed, named⟩ := texts d member label n kind
    exact ⟨t, perm.mem_iff.mp listed, named⟩

theorem txDagGraph_well_formed (distinct : (ids txs).Nodup) (hashes : Hashes txs) :
    ∃ graph, txDagGraph txs = some graph ∧ graph.Draws txs ∧
      ∀ txs', Reordered txs txs' → txDagGraph txs' = some graph := by
  have perm : (sortByTxid txs).Perm txs := perm_sortByTxid
  have distinct' : (ids (sortByTxid txs)).Nodup := (perm.map _).nodup_iff.mpr distinct
  have hashes' : Hashes (sortByTxid txs) := fun t member => hashes t (mem_sortByTxid.mp member)
  have spec : Collects (sortByTxid txs) (collect (sortByTxid txs)) := foldl_addTx distinct' hashes'
  obtain ⟨cyclic, found, targets⟩ := findCyclicTargets_spec distinct'
    (nodup_internalEdges distinct' spec) fun p x edge =>
      ⟨internal_mem_ids spec edge, mem_ids_of_edge (p := p) spec (by simp [show _ ∈ _ from edge])⟩
  refine ⟨_, txDagGraph_eq_some found, (draws distinct' hashes' spec targets).of_perm perm, ?_⟩
  intro txs' order
  rw [← txDagGraph_reordered distinct order]
  exact txDagGraph_eq_some found

/-- A hash of one digit. -/
def hashOf (c : Char) : String := String.ofList (List.replicate 64 c)

theorem isTxid_hashOf {c : Char} (digit : c.isDigit ∨ 'a' ≤ c ∧ c ≤ 'f') : IsTxid (hashOf c) where
  length := by simp [hashOf]
  digits d member := by
    rw [hashOf, String.toList_ofList] at member
    rwa [List.eq_of_mem_replicate member]

/-- A transaction that names itself, a later one and seven that are not listed, and one whose
inputs are unknown. -/
def selfParent : List TxDagInput :=
  [⟨hashOf 'a', some (['a', 'b', 'a', 'c', '0', '1', '2', '3', '4', '5'].map hashOf), 1⟩,
    ⟨hashOf 'b', none, 1⟩]

/-- Five of the seven are drawn, and one text counts the other two. -/
theorem selfParent_well_formed :
    ∃ graph, txDagGraph selfParent = some graph ∧ graph.Draws selfParent ∧
      graph.graphNodes.getLast?.map (fun d => d.node.kind) =
        some (.aggregate (aggregateLabel 2) 2) ∧
      ∀ txs', Reordered selfParent txs' → txDagGraph txs' = some graph := by
  have hashes : ∀ t ∈ selfParent, IsTxid t.txid ∧
      ∀ parents, t.parents = some parents → ∀ p ∈ parents, IsTxid p := by
    intro t member
    simp only [selfParent, List.mem_cons, List.not_mem_nil, or_false] at member
    obtain rfl | rfl := member
    · refine ⟨isTxid_hashOf (by decide), fun parents known p parent => ?_⟩
      cases known
      obtain ⟨c, listed, rfl⟩ := List.mem_map.mp parent
      have digits := List.all_eq_true.mp (show ['a', 'b', 'a', 'c', '0', '1', '2', '3', '4', '5'].all
        (fun c => c.isDigit ∨ 'a' ≤ c ∧ c ≤ 'f') = true by decide)
      exact isTxid_hashOf (of_decide_eq_true (digits c listed))
    · exact ⟨isTxid_hashOf (by decide), nofun⟩
  have text : (txDagGraph selfParent).map (fun graph =>
      graph.graphNodes.getLast?.map fun d => d.node.kind) =
      some (some (.aggregate (aggregateLabel 2) 2)) := by decide +kernel
  obtain ⟨graph, drawn, draws, reordered⟩ := txDagGraph_well_formed (by decide +kernel) hashes
  rw [drawn, Option.map_some, Option.some.injEq] at text
  exact ⟨graph, drawn, draws, text, reordered⟩

end MempoolObserver
