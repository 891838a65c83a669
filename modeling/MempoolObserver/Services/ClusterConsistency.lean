import Mathlib.Logic.Relation
import MempoolObserver.Services.CandidateQueue

/-!
# Stored, linked and published clusters agree

The runs of the cluster service: rounds one after the other, each with its own
answers of the node and its own failures, and between them whatever the rest of
the api does to the ledger, to the snapshot and to the tables and columns the
service does not own.

## Main definitions

* `ClusterStep` — one round, or a step of the others
* `Db.Represents` — how the copies of membership in the database agree

## Main results

* `clusters_represented` — they agree in every reachable state, and the versions
  of a cluster are only ever added to
* `snapshot_agrees` — a snapshot equal to the active clusters is so again after
  every round in which no later slice of a batch insert fails
* `lateSlice_leaves_snapshot_behind` — when one fails, what the slices before it
  committed is never published
-/

namespace MempoolObserver

open Relation Collections

/-- A round of the service, or a step that leaves the clusters alone. -/
inductive ClusterStep : ClusterService → ClusterService → Prop where
  | round {s next : ClusterService} (env : ClusterEnv) (fuel : ℕ) (round : ClusterRound)
      (small : env.SmallAnswers) (ran : round.run env fuel s = some next) : ClusterStep s next
  | others {s next : ClusterService} (same : s.db.SameClusters next.db) : ClusterStep s next

namespace Db

/-- How the copies of membership in the database agree. -/
structure Represents (db : Db) : Prop where
  /-- A chunk row is live iff it is of the current version of an active cluster. -/
  live_iff : ∀ chunk ∈ db.clusterChunks, chunk.live = true ↔
    ∃ row, db.clusters chunk.clusterId = some row ∧ row.status = .active ∧
      chunk.version = row.version
  /-- The versions of a cluster are exactly `1..current`. -/
  versions : ∀ id row, db.clusters id = some row → ∀ version,
    (∃ chunk ∈ db.clusterChunks, chunk.clusterId = id ∧ chunk.version = version) ↔
      1 ≤ version ∧ version ≤ row.version
  /-- The positions within a version are exactly `0..n-1`. -/
  positions : ∀ id version, (db.chunksOf id version).map ClusterChunkRow.position =
    (List.range (db.chunksOf id version).length).map (↑·)
  /-- The totals are the sums over the current version. -/
  totals : ∀ id row, db.clusters id = some row →
    row.totalWeight = ((db.chunksOf id row.version).map ClusterChunkRow.weight).sum ∧
      row.totalFee = ((db.chunksOf id row.version).map ClusterChunkRow.fee).sum
  /-- No txid is in the current chunks of two active clusters. -/
  unique : ∀ txid first second, db.IsActive first → db.IsActive second →
    txid ∈ db.members first → txid ∈ db.members second → first = second
  /-- The rows linked to an active cluster are those of its members. -/
  linked : ∀ id, db.IsActive id → ∀ txid, db.link txid = some id ↔ txid ∈ db.members id
  /-- No row links to an evicted or merged cluster. -/
  kept : ∀ txid id row, db.link txid = some id → db.clusters id = some row →
    row.status ≠ .evicted ∧ row.status ≠ .merged

variable {db next : Db}

theorem StoreInv.represents (inv : StoreInv [] db) : db.Represents where
  live_iff chunk member := by
    have inVersion := mem_chunksOf_self member
    -- Live rows and active current versions: one direction is about every row, one about each
    -- cluster.
    constructor
    · intro live
      obtain ⟨row, stored, active, current⟩ := inv.active_of_live chunk inVersion live
      exact ⟨row, stored, active, current.symm⟩
    · rintro ⟨row, stored, active, current⟩
      rw [current] at inVersion
      exact inv.live_of_active (by simp) stored active chunk inVersion
  versions id row stored version := by
    rw [← (inv.stored stored).versions version, ne_eq, List.eq_nil_iff_forall_not_mem]
    simp only [mem_chunksOf, not_forall, not_not]
  positions id version := by
    cases stored : db.clusters id with
    | none => simp [inv.owned stored]
    | some row => exact (inv.stored stored).positions version
  totals id row stored := ⟨(inv.stored stored).totalWeight, (inv.stored stored).totalFee⟩
  unique txid first second := fun active₁ active₂ => inv.unique active₁ active₂ txid
  linked id := inv.linked
  kept txid id row linked stored := by
    obtain ⟨other, present, status⟩ := inv.kept linked
    obtain rfl : other = row := by simpa using present.symm.trans stored
    rcases status with status | status <;> simp [status]

theorem storeInv_empty : StoreInv [] Db.empty where
  owned _ _ := rfl
  stored stored := by simp [Db.empty] at stored
  keys := .nil
  allocated _ := rfl
  active_of_live _ member := by simp [chunksOf, Db.empty] at member
  live_of_active _ stored := by simp [Db.empty] at stored
  unique active := by
    obtain ⟨row, stored, -⟩ := active
    simp [Db.empty] at stored
  linked active := by
    obtain ⟨row, stored, -⟩ := active
    simp [Db.empty] at stored
  kept linked := by simp [link, Db.empty] at linked

/-- The invariant is about the clusters, their chunks and their links only. -/
theorem StoreInv.congr (inv : StoreInv [] db) (same : db.SameClusters next) :
    StoreInv [] next ∧ db.Extends next := by
  have chunks (id : ClusterId) (version : ℕ) :
      next.chunksOf id version = db.chunksOf id version := by
    rw [chunksOf, same.clusterChunks, chunksOf]
  have isActive (id : ClusterId) : next.IsActive id ↔ db.IsActive id := by
    rw [IsActive, same.clusters, IsActive]
  have members (id : ClusterId) : next.members id = db.members id := by
    simp only [Db.members, current, same.clusters, chunks]
  -- Links and cluster tables are the same, and the invariant reads nothing else.
  have chunks_eq (id : ClusterId) : next.chunksOf id = db.chunksOf id := funext (chunks id)
  constructor
  · constructor
    · refine ⟨fun none version => ?_, fun stored => ?_, ?_, fun above => ?_⟩
      · rw [same.clusters] at none
        rw [chunks]
        exact inv.owned none version
      · rw [same.clusters] at stored
        rw [chunks_eq]
        exact inv.stored stored
      · rw [same.clusterChunks]
        exact inv.keys
      · rw [same.clusterSeq] at above
        rw [same.clusters]
        exact inv.allocated above
    · intro id version
      rw [chunks, same.clusters]
      exact inv.active_of_live
    · intro id row
      rw [chunks_eq, same.clusters]
      exact inv.live_of_active
    · intro first second
      rw [isActive, isActive, members, members]
      exact inv.unique
    · intro id
      rw [isActive, members]
      intro active txid
      rw [same.link]
      exact inv.linked active txid
    · intro txid id
      rw [same.link, same.clusters]
      exact inv.kept
  · intro id version stored
    rw [chunks]
    exact Extends.refl db id version stored

end Db

theorem ClusterStep.keeps {s next : ClusterService} (step : ClusterStep s next)
    (inv : Db.StoreInv [] s.db) : Db.StoreInv [] next.db ∧ s.db.Extends next.db := by
  cases step with
  | round env fuel round small ran =>
    have kept := ClusterService.roundKeeps_run small inv ran
    exact ⟨kept.inv, kept.grown⟩
  | others same => exact inv.congr same

theorem ClusterStep.run_keeps {s next : ClusterService} (run : ReflTransGen ClusterStep s next)
    (inv : Db.StoreInv [] s.db) : Db.StoreInv [] next.db ∧ s.db.Extends next.db := by
  induction run with
  | refl => exact ⟨inv, .refl _⟩
  | tail _ step ih =>
    obtain ⟨nextInv, grown⟩ := step.keeps ih.1
    exact ⟨nextInv, ih.2.trans grown⟩

/-- In every state reached from an empty store, the copies of membership agree;
and whatever version of a cluster is stored there keeps its chunks, of which only
the live flags go out. -/
theorem clusters_represented {first s : ClusterService} (empty : first.db = Db.empty)
    (run : ReflTransGen ClusterStep first s) :
    s.db.Represents ∧ ∀ next, ReflTransGen ClusterStep s next → s.db.Extends next.db := by
  have inv := (ClusterStep.run_keeps run (empty ▸ Db.storeInv_empty)).1
  exact ⟨inv.represents, fun next later => (ClusterStep.run_keeps later inv).2⟩

/-- A service that just started on an empty store. -/
def ClusterService.initial : ClusterService := ⟨Db.empty, .default, fun _ => none, 0, []⟩

/-- A node that first answers with the pair of `a` and `b`, then with single transactions. -/
def pairEnv : ClusterEnv where
  getMempoolCluster call txid :=
    .cluster ⟨if call = 0 ∧ txid ∈ ["a", "b"] then [⟨["a", "b"], 30, 400⟩]
      else [⟨[txid], 10, 200⟩]⟩
  fails _ _ := false
  now call := call
  call _ := ⟨fun _ => 0, .sorted Txid⟩

theorem smallAnswers_pairEnv : pairEnv.SmallAnswers := by
  intro call txid cluster answered
  simp only [pairEnv, ClusterAnswer.cluster.injEq] at answered
  subst answered
  split_ifs <;> simp [maxChunks]

theorem answersAsked_pairEnv : pairEnv.AnswersAsked := by
  intro call txid cluster answered _
  simp only [pairEnv, ClusterAnswer.cluster.injEq] at answered
  subst answered
  split_ifs with pair
  · simpa [GetMempoolClusterModel.txids] using pair.2
  · simp [GetMempoolClusterModel.txids]

/-- The pair is stored, and then a block mines `a`. -/
def minedPair : Option ClusterService := do
  let synced ← (ClusterRound.syncClustersFor ["a"] []).run pairEnv 3 .initial
  (ClusterRound.confirmMined ⟨["a"], fun _ => some 10, fun _ => some 100, 5⟩).run pairEnv 3 synced

/-- `a` stays with its confirmed cluster and `b` has one of its own. -/
theorem minedPair_represented : ∃ s, minedPair = some s ∧ s.db.Represents ∧
    s.db.link "a" = some 1 ∧ s.db.link "b" = some 2 := by
  obtain ⟨synced, syncs⟩ := Option.isSome_iff_exists.mp (show
    ((ClusterRound.syncClustersFor ["a"] []).run pairEnv 3 .initial).isSome = true by decide)
  obtain ⟨s, mined⟩ := Option.isSome_iff_exists.mp (show minedPair.isSome = true by decide)
  have confirms := mined
  rw [minedPair, syncs, Option.bind_eq_bind, Option.bind_some] at confirms
  have run : ReflTransGen ClusterStep .initial s :=
    (ReflTransGen.single (.round _ _ _ smallAnswers_pairEnv syncs)).tail
      (.round _ _ _ smallAnswers_pairEnv confirms)
  have links : minedPair.map (fun s => (s.db.link "a", s.db.link "b")) =
      some (some 1, some 2) := by decide
  rw [mined] at links
  obtain ⟨first, second⟩ := Prod.ext_iff.mp (Option.some.inj links)
  exact ⟨s, mined, (clusters_represented rfl run).1, first, second⟩

/-! ### The snapshot -/

/-- From a state whose snapshot equals the active clusters, a round in which no
later slice of a batch insert fails ends in such a state, whatever the node
answers and whichever other calls fail. And it ends, if the node answers about
the txids it is asked for. -/
theorem snapshot_agrees {first s : ClusterService} {env : ClusterEnv} (empty : first.db = Db.empty)
    (run : ReflTransGen ClusterStep first s) (agree : s.snapshot = s.db.activeState)
    (small : env.SmallAnswers) (holds : env.SlicesHold) (round : ClusterRound) :
    (∀ fuel next, round.run env fuel s = some next → next.snapshot = next.db.activeState) ∧
      (env.AnswersAsked → ∃ fuel next, round.run env fuel s = some next) := by
  have inv := (ClusterStep.run_keeps run (empty ▸ Db.storeInv_empty)).1
  constructor
  · intro fuel next ran
    exact (ClusterService.roundKeeps_run small inv ran).agrees (holds.within _ _) agree
  · intro answers
    obtain ⟨next, enough, returns⟩ := ClusterService.settles_run small answers inv round
    exact ⟨enough, next, returns enough le_rfl⟩

theorem pair_snapshot_agrees : ∃ fuel next,
    (ClusterRound.syncClustersFor ["a"] []).run pairEnv fuel .initial = some next ∧
      next.snapshot = next.db.activeState := by
  have agrees := snapshot_agrees (show ClusterService.initial.db = Db.empty from rfl) .refl rfl
    smallAnswers_pairEnv
    (fun _ _ _ => rfl) (.syncClustersFor ["a"] [])
  obtain ⟨fuel, next, ran⟩ := agrees.2 answersAsked_pairEnv
  exact ⟨fuel, next, ran, agrees.1 fuel next ran⟩

/-! ### A slice that fails after another has committed -/

section LateSlice

/-- Every transaction is a cluster of its own, and no batch insert gets past its
first slice. -/
def lateSliceEnv : ClusterEnv where
  getMempoolCluster _ txid := .cluster ⟨[⟨[txid], 0, 0⟩]⟩
  fails _ slice := decide (0 < slice)
  now _ := 0
  call _ := ⟨fun _ => 0, .sorted Txid⟩

theorem smallAnswers_lateSliceEnv : lateSliceEnv.SmallAnswers := by
  intro call txid cluster answered
  simp only [lateSliceEnv, ClusterAnswer.cluster.injEq] at answered
  subst answered
  simp [maxChunks]

theorem answersAsked_lateSliceEnv : lateSliceEnv.AnswersAsked := by
  intro call txid cluster answered _
  simp only [lateSliceEnv, ClusterAnswer.cluster.injEq] at answered
  subst answered
  simp [GetMempoolClusterModel.txids]

variable {s : ClusterService}

/-- The cluster the queue buffers for a transaction. -/
def lateSingleton (txid : Txid) : NewCluster := newCluster 0 ⟨[⟨[txid], 0, 0⟩]⟩

/-- The queue once it has heard about `done` and before it asks about `pending`. -/
def lateQueue (done pending : List Txid) : CandidateQueue :=
  ⟨pending, done.toFinset, done.map fun txid => (txid, lateSingleton txid), .default⟩

theorem reportPresent_lateSliceEnv (empty : s.db = Db.empty) {txid : Txid}
    {done pending : List Txid} (unknown : txid ∉ done) :
    ∃ after, s.reportPresent lateSliceEnv ⟨[⟨[txid], 0, 0⟩]⟩ (lateQueue done pending) =
        (lateQueue (txid :: done) pending, after) ∧
      after.db = Db.empty ∧ after.snapshot = s.snapshot := by
  -- The transaction is new to the buffer, so nothing is filtered out of it.
  have others : (done.map fun txid => (txid, lateSingleton txid)).filter
      (fun entry => decide (entry.1 ∉ [txid])) =
        done.map fun txid => (txid, lateSingleton txid) := by
    refine List.filter_eq_self.mpr fun entry member => ?_
    obtain ⟨other, isDone, rfl⟩ := List.mem_map.mp member
    have differs : other ≠ txid := fun same => unknown (same ▸ isDone)
    simpa using differs
  have found (after : ClusterService) (same : after.db = Db.empty) :
      -- The store is empty, so nobody is found.
      after.findActiveIdsByTxids lateSliceEnv [txid] = (some [], after.called lateSliceEnv) := by
    rw [ClusterService.findActiveIdsByTxids, if_neg (by simp), ClusterService.query, same]
    rfl
  let present : ClusterService := { s with
    mempoolLedger := s.mempoolLedger.assertPresent (lateSliceEnv.call s.calls) [txid] }
  refine ⟨present.called lateSliceEnv, ?_, empty, rfl⟩
  unfold ClusterService.reportPresent
  simp only [GetMempoolClusterModel.txids, List.flatMap_cons, List.flatMap_nil, List.append_nil]
  rw [found present empty]
  simp only [List.length_singleton, and_self, if_true]
  have heard : done.toFinset ∪ [txid].toFinset = (txid :: done).toFinset := by
    ext other
    simp
  rw [lateQueue, lateQueue, others, heard]
  rfl

/-- On an empty store every new candidate is buffered. -/
theorem candidate_lateSliceEnv (empty : s.db = Db.empty) {txid : Txid} {done : List Txid}
    (pending : List Txid) (unknown : txid ∉ done) :
    ∃ after, s.candidate lateSliceEnv txid (lateQueue done pending) =
        (lateQueue (txid :: done) pending, after) ∧
      after.db = Db.empty ∧ after.snapshot = s.snapshot := by
  unfold ClusterService.candidate
  rw [if_neg (by simpa [lateQueue] using unknown)]
  change ∃ after, (if [txid] ++ [] = [] then _ else ClusterService.reportPresent _ _ _ _) = _ ∧ _
  rw [if_neg (by simp)]
  exact reportPresent_lateSliceEnv (s := { s.called lateSliceEnv with asked := _ }) empty unknown

/-- The queue buffers one transaction after the other. -/
theorem drain_lateSliceEnv (done pending : List Txid) (empty : s.db = Db.empty)
    (distinct : (done ++ pending).Nodup) :
    ∃ after, s.drain lateSliceEnv (pending.length + 1) (lateQueue done pending) =
        some (lateQueue (pending.reverse ++ done) [], after) ∧
      after.db = Db.empty ∧ after.snapshot = s.snapshot := by
  -- Induction on the pending transactions, each of which ends up in the buffer.
  induction pending generalizing s done with
  | nil => exact ⟨s, rfl, empty, rfl⟩
  | cons txid pending ih =>
    have unknown : txid ∉ done := by
      intro isDone
      exact List.disjoint_of_nodup_append distinct isDone (by simp)
    obtain ⟨mid, queued, emptyNext, same⟩ := candidate_lateSliceEnv empty pending unknown
    have distinctNext : ((txid :: done) ++ pending).Nodup :=
      List.perm_middle.nodup_iff.mp distinct
    obtain ⟨after, drained, emptyAfter, sameAfter⟩ := ih (txid :: done) emptyNext distinctNext
    refine ⟨after, ?_, emptyAfter, sameAfter.trans same⟩
    rw [List.reverse_cons, List.append_assoc, List.singleton_append, ← drained]
    change Function.uncurry (ClusterService.drain lateSliceEnv (pending.length + 1))
      (s.candidate lateSliceEnv txid (lateQueue done pending)) = _
    rw [queued]
    rfl

/-- Every buffered transaction is in the batch, whatever order the buffer is read in. -/
theorem lookup_lateQueue {txids : List Txid} {txid : Txid} (member : txid ∈ txids) :
    (lateQueue txids []).freshSingletons.lookup txid = some (lateSingleton txid) := by
  induction txids with
  | nil => simp at member
  | cons other txids ih =>
    rw [lateQueue, List.map_cons, List.lookup_cons]
    by_cases same : txid = other
    · simp [same]
    · have later := ih ((List.mem_cons.mp member).resolve_left same)
      rw [beq_eq_false_iff_ne.mpr same]
      exact later

/-- The first slice is stored, the second fails, and nothing is marked. -/
theorem insertSingletons_lateSliceEnv {txids : List Txid} (empty : s.db = Db.empty)
    (distinct : txids.Nodup) (many : mempoolDeltaInsertChunkSize < txids.length) :
    ∃ after, s.insertSingletons lateSliceEnv (lateQueue txids []) = (.default, after) ∧
      after.snapshot = s.snapshot ∧ after.db.activeState 1 ≠ none := by
  set batch := ((Enumeration.sorted Txid).toList txids.toFinset).map lateSingleton with batch_eq
  have keys : (lateQueue txids []).freshSingletons.map Prod.fst = txids := by
    simp [lateQueue, Function.comp_def]
  have batched : ((Enumeration.sorted Txid).toList txids.toFinset).filterMap
      (fun txid => (lateQueue txids []).freshSingletons.lookup txid) = batch := by
    rw [batch_eq, ← List.filterMap_eq_map]
    refine List.filterMap_congr fun txid listed => lookup_lateQueue ?_
    simpa using listed
  have length_batch : batch.length = txids.length := by
    rw [batch_eq, List.length_map, Enumeration.length_toList, List.toFinset_card_of_nodup distinct]
  -- More than one slice: the first is committed, the second fails.
  obtain ⟨second, rest, sliced⟩ :=
    slices_of_lt mempoolDeltaInsertChunkSize_pos (length_batch ▸ many)
  set stored := batch.take mempoolDeltaInsertChunkSize with stored_eq
  have small : ∀ cluster ∈ stored, cluster.chunks.length ≤ maxChunks := by
    intro cluster member
    obtain ⟨txid, -, rfl⟩ := List.mem_map.mp (List.mem_of_mem_take member)
    simp [lateSingleton, newCluster, maxChunks]
  obtain ⟨⟨rows, db⟩, inserted⟩ := Option.isSome_iff_exists.mp
    (Db.insertIn_isSome (fun _ => 0) Db.storeInv_empty.toVersioned small)
  have sliceFails : ClusterService.insertSlices (lateSliceEnv.fails s.calls) (fun _ => 0) 0
      (stored :: second :: rest) Db.empty = (none, db) := by
    rw [ClusterService.insertSlices, inserted]
    rfl
  have nonempty : batch ≠ [] := by
    intro none
    rw [none] at length_batch
    rw [← length_batch] at many
    simp at many
  refine ⟨{ s.called lateSliceEnv with db := db }, ?_, rfl, ?_⟩
  · have call : lateSliceEnv.call s.calls = ⟨fun _ => 0, .sorted Txid⟩ := rfl
    have commits : s.insertManyWithMembers lateSliceEnv batch =
        (none, { s.called lateSliceEnv with db := db }) := by
      rw [ClusterService.insertManyWithMembers, if_neg nonempty, call, sliced, empty, sliceFails]
    rw [ClusterService.insertSingletons, call, keys, batched, commits]
    rfl
  -- The first cluster of the committed slice is stored under id 1.
  · have ins := (Db.inserts_insertIn Db.storeInv_empty.toVersioned inserted).2
    obtain ⟨cluster, others, stored_cons⟩ : ∃ cluster others, stored = cluster :: others :=
      List.exists_cons_of_ne_nil
        (by simpa [stored_eq, mempoolDeltaInsertChunkSize_pos.ne'] using nonempty)
    have found : (fresh Db.empty.clusterSeq stored).lookup 1 = some cluster := by
      rw [stored_cons]
      exact (Db.lookup_fresh_cons 1 1 cluster others).trans (if_pos rfl)
    rw [Db.activeState_of_stored (ins.clusters_fresh found) rfl]
    simp

/-- The round ends with clusters in the store that the snapshot knows nothing of. -/
theorem run_lateSliceEnv {txids : List Txid} (distinct : txids.Nodup)
    (many : mempoolDeltaInsertChunkSize < txids.length) :
    ∃ fuel next, (ClusterRound.syncClustersFor txids []).run lateSliceEnv fuel .initial =
        some next ∧ next.snapshot ≠ next.db.activeState := by
  -- All the candidates are buffered, and the insert then fails half way.
  obtain ⟨mid, drained, empty, same⟩ := drain_lateSliceEnv (s := .initial) [] txids rfl distinct
  rw [List.append_nil] at drained
  obtain ⟨next, inserted, sameNext, stored⟩ := insertSingletons_lateSliceEnv empty
    (List.nodup_reverse.mpr distinct) (by rwa [List.length_reverse])
  have nonempty : txids ≠ [] := by
    intro none
    simp [none] at many
  have handled : ClusterService.initial.handleCandidates lateSliceEnv (txids.length + 1) txids =
      some (.default, next) := by
    change (ClusterService.drain _ _ (lateQueue [] txids) _).map _ = _
    rw [drained, Option.map_some]
    exact congrArg some inserted
  refine ⟨txids.length + 1, next, ?_, ?_⟩
  · simp only [ClusterRound.run, ClusterService.syncClusters, ClusterService.stage, nonempty,
      if_true, if_false, handled, Option.bind_eq_bind, Option.bind_some, Option.pure_def]
    rfl
  -- The snapshot heard nothing of the slice that was committed.
  · intro agree
    rw [← agree, sameNext, same] at stored
    exact stored rfl

/-- Transactions with different ids. -/
def manyTxids (count : ℕ) : List Txid :=
  (List.range count).map fun n => String.ofList (List.replicate n 'a')

theorem nodup_manyTxids (count : ℕ) : (manyTxids count).Nodup := by
  refine List.Nodup.map (fun m n same => ?_) List.nodup_range
  have lengths := congrArg String.length same
  simpa using lengths

/-- From an empty store the service hears of one transaction more than a slice
holds. The first slice is committed, the second fails, and nothing is published. -/
theorem lateSlice_leaves_snapshot_behind :
    (lateSliceEnv.SmallAnswers ∧ lateSliceEnv.AnswersAsked ∧
      ClusterService.initial.snapshot = ClusterService.initial.db.activeState) ∧
    ∃ fuel next,
      (ClusterRound.syncClustersFor (manyTxids 10001) []).run lateSliceEnv fuel .initial =
        some next ∧ next.snapshot ≠ next.db.activeState := by
  refine ⟨⟨smallAnswers_lateSliceEnv, answersAsked_lateSliceEnv, rfl⟩, ?_⟩
  refine run_lateSliceEnv (nodup_manyTxids _) ?_
  rw [manyTxids, List.length_map, List.length_range]
  decide

end LateSlice

end MempoolObserver
