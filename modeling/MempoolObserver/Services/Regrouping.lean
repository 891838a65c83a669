import MempoolObserver.Library.Regrouping
import MempoolObserver.Services.ClusterConsistency

/-!
# Whom the candidate queue leaves without a cluster

With no failing call, what the queue stores is the node's answers one after the
other, each of which dissolves the clusters it meets. The queue asks about
everyone it detaches, unless it heard about them before: `out_of_mempool` also
has every txid the node already answered about. So a transaction that is in the
mempool all along ends up in a cluster unless the node, later in the round, shows
a former companion of it in a group without it.

## Main results

* `ClusterService.regroups_handleCandidates` — the active clusters of a round are
  the node's answers stored in order
* `clustered_iff_last_group_kept` — who belongs to exactly one active cluster
* `regrouped_txid_is_orphaned` — a transaction that belongs to none
-/

namespace MempoolObserver

open Relation Collections Regrouping

/-- At each call the node's mempool is split into groups; the node answers with
the group of the txid it is asked for, or that it does not have it. -/
structure ClusterEnv.Truthful (env : ClusterEnv) : Prop where
  answers : ∀ call txid, env.getMempoolCluster call txid ≠ .error
  asked : ∀ call txid cluster, env.getMempoolCluster call txid = .cluster cluster →
    txid ∈ cluster.txids
  shared : ∀ call txid cluster, env.getMempoolCluster call txid = .cluster cluster →
    ∀ other ∈ cluster.txids, env.getMempoolCluster call other = .cluster cluster

/-- No call to the database fails. -/
def ClusterEnv.Reliable (env : ClusterEnv) : Prop := ∀ call slice, env.fails call slice = false

/-- The node has the txid in its mempool at each of these calls. -/
def ClusterEnv.Resident (env : ClusterEnv) (txid : Txid) (first last : ℕ) : Prop :=
  ∀ call, first ≤ call → call < last →
    ∃ cluster, env.getMempoolCluster call txid = .cluster cluster

theorem ClusterEnv.Resident.mono {env : ClusterEnv} {txid : Txid} {first later last : ℕ}
    (resident : env.Resident txid first last) (le : first ≤ later) :
    env.Resident txid later last :=
  fun call above below => resident call (le.trans above) below

/-- The group the node answered with, if it did. -/
def answeredGroup : Txid × ClusterAnswer → Option (List Txid)
  | (_, .cluster cluster) => if cluster.txids = [] then none else some cluster.txids
  | _ => none

/-- The groups among the answers, in the order the node gave them. -/
def answeredGroups (asked : List (Txid × ClusterAnswer)) : List (List Txid) :=
  asked.filterMap answeredGroup

theorem Db.selfGrouped_together (db : Db) : SelfGrouped db.Together := by
  rintro txid other ⟨id, active, member, -⟩
  exact ⟨id, active, member, member⟩

namespace ClusterService

variable {α : Type} {env : ClusterEnv} {start s mid next : ClusterService}
  {queue : CandidateQueue} {cluster : GetMempoolClusterModel} {existingIds : List ClusterId}

/-! ### Calls that do not fail -/

/-- The service made calls, and asked the node nothing. -/
structure Advances (s next : ClusterService) : Prop where
  asked : next.asked = s.asked
  calls : s.calls ≤ next.calls

theorem Advances.refl (s : ClusterService) : Advances s s := ⟨rfl, le_rfl⟩

theorem Advances.trans (first : Advances s mid) (second : Advances mid next) : Advances s next :=
  ⟨second.asked.trans first.asked, first.calls.trans second.calls⟩

theorem advances_called (env : ClusterEnv) (s : ClusterService) :
    Advances s (s.called env) := ⟨rfl, Nat.le_succ _⟩

theorem query_of_holds (holds : env.fails s.calls 0 = false) (read : Db → α) :
    s.query env read = (some (read s.db), s.called env) := by
  simp [query, holds]

theorem query_of_failed (failed : env.fails s.calls 0 = true) (read : Db → α) :
    s.query env read = (none, s.called env) := by
  simp [query, failed]

theorem query_of_reliable (reliable : env.Reliable) (read : Db → α) (s : ClusterService) :
    s.query env read = (some (read s.db), s.called env) :=
  query_of_holds (reliable s.calls 0) read

theorem transact_of_holds (holds : env.fails s.calls 0 = false)
    {transaction : Db → Option (α × Db)} {result : α} {db : Db}
    (commits : transaction s.db = some (result, db)) :
    s.transact env transaction = (some result, { s.called env with db := db }) := by
  simp [transact, holds, commits]

theorem transact_of_failed (failed : env.fails s.calls 0 = true)
    (transaction : Db → Option (α × Db)) :
    s.transact env transaction = (none, s.called env) := by
  simp [transact, failed]

theorem transact_of_reliable (reliable : env.Reliable) {transaction : Db → Option (α × Db)}
    {result : α} {db : Db} (commits : transaction s.db = some (result, db)) :
    s.transact env transaction = (some result, { s.called env with db := db }) :=
  transact_of_holds (reliable s.calls 0) commits

theorem findActiveIdsByTxids_of_reliable (reliable : env.Reliable) (inv : Db.StoreInv [] s.db)
    {txids : List Txid} (nonempty : txids ≠ []) :
    ∃ ids, s.findActiveIdsByTxids env txids = (some ids, s.called env) ∧ Meets s.db txids ids := by
  refine ⟨s.db.findActiveIdsByTxids txids, ?_, fun id => inv.mem_findActiveIdsByTxids⟩
  rw [findActiveIdsByTxids, if_neg nonempty, query_of_reliable reliable]

theorem markMerged_of_reliable (reliable : env.Reliable) (inv : Db.StoreInv [] s.db)
    (ids : List ClusterId) :
    ∃ changes after, s.markMerged env ids = (some changes, after) ∧ Db.StoreInv [] after.db ∧
      Without s.db ids after.db ∧ Advances s after := by
  unfold markMerged
  split_ifs with none
  · subst none
    exact ⟨_, s, rfl, inv, ⟨by simp, fun _ _ => rfl⟩, .refl s⟩
  · rw [transact_of_reliable reliable rfl]
    exact ⟨_, _, rfl, (inv.closeMany _ ids _).1, without_closeMany inv.toVersioned ids _ _,
      rfl, Nat.le_succ _⟩

theorem insertWithMembers_isSome {db : Db} (now : Txid → OffsetDateTime) (inv : db.Versioned)
    {new : NewCluster} (small : new.chunks.length ≤ maxChunks) :
    ∃ inserted after, db.insertWithMembers now new = some (inserted, after) := by
  have accepted : (db.insertIn now [new]).isSome = true :=
    Db.insertIn_isSome now inv (by simpa using small)
  obtain ⟨⟨rows, after⟩, inserted⟩ := Option.isSome_iff_exists.mp accepted
  obtain ⟨rows_eq, -⟩ := Db.inserts_insertIn inv inserted
  rw [Db.insertWithMembers, inserted, rows_eq]
  exact ⟨_, _, rfl⟩

/-! ### Upserts -/

/-- What `upsert` does when nothing fails. -/
structure Stores (txids : List Txid) (outcome : UpsertOutcome) (s next : ClusterService) :
    Prop where
  together : next.db.Together = regroup s.db.Together txids
  detached : ∀ txid, txid ∈ outcome.detached ↔
    txid ∉ txids ∧ ∃ other ∈ txids, s.db.Together txid other
  advances : Advances s next

/-- A group that meets no active cluster is stored beside them. -/
theorem stores_insert (reliable : env.Reliable) (inv : Db.StoreInv [] s.db)
    (meets : Meets s.db cluster.txids []) (small : cluster.chunks.length ≤ maxChunks) :
    Stores cluster.txids (s.upsert env cluster []).1 s (s.upsert env cluster []).2 := by
  -- No active cluster meets the group, so nobody is taken out of one.
  have unmet : ∀ txid, ∀ other ∈ cluster.txids, ¬ s.db.Together txid other := by
    rintro txid other member ⟨id, active, -, inOther⟩
    exact absurd ((meets id).mpr ⟨active, other, member, inOther⟩) (by simp)
  obtain ⟨updated, db, commits⟩ := insertWithMembers_isSome (env.call s.calls).now inv.toVersioned
    (show (newCluster (env.now s.calls) cluster).chunks.length ≤ maxChunks from small)
  have inserted := insertWithMembers_eq_some inv.toVersioned commits
  rw [upsert, if_pos rfl]
  dsimp only
  rw [transact_of_reliable reliable commits]
  refine ⟨?_, ?_, rfl, Nat.le_succ _⟩
  · funext txid other
    refine propext ((Db.together_insertIn inv.toVersioned inserted txid other).trans ?_)
    simp only [List.mem_singleton, exists_eq_left, regroup]
    refine or_congr Iff.rfl ⟨fun together => ⟨together, unmet txid⟩, And.left⟩
  · intro txid
    constructor
    · intro member
      simp at member
    · rintro ⟨-, other, member, together⟩
      exact absurd together (unmet txid other member)

/-- The clusters a group meets, whoever of their members is asked. -/
theorem meets_iff (meets : Meets s.db cluster.txids existingIds) (inv : Db.StoreInv [] s.db)
    {id : ClusterId} {txid : Txid} (active : s.db.IsActive id) (member : txid ∈ s.db.members id) :
    id ∈ existingIds ↔ ∃ other ∈ cluster.txids, s.db.Together txid other := by
  rw [meets id]
  constructor
  · rintro ⟨-, other, inGroup, inMembers⟩
    exact ⟨other, inGroup, id, active, member, inMembers⟩
  · rintro ⟨other, inGroup, otherId, otherActive, inFirst, inSecond⟩
    obtain rfl := inv.unique active otherActive txid member inFirst
    exact ⟨active, other, inGroup, inSecond⟩

/-- The clusters the group meets are loaded by their ids. -/
theorem mem_loaded_ids (inv : Db.StoreInv [] s.db) (meets : Meets s.db cluster.txids existingIds)
    {id : ClusterId} :
    id ∈ (s.db.findByIds existingIds).map Cluster.id ↔ id ∈ existingIds := by
  constructor
  · intro member
    obtain ⟨found, inFound, rfl⟩ := List.mem_map.mp member
    obtain ⟨id, row, -, inIds, rfl⟩ := inv.toVersioned.mem_findByIds.mp inFound
    exact inIds
  · intro inIds
    exact id_mem_findByIds inv.toVersioned ((meets id).mp inIds).1 inIds

/-- One of the clusters the group meets is kept. -/
theorem exists_keep (inv : Db.StoreInv [] s.db) (meets : Meets s.db cluster.txids existingIds)
    (exist : existingIds ≠ []) :
    ∃ keep, (s.db.findByIds existingIds).minOn? Cluster.firstSeenAt = some keep ∧
      keep.id ∈ existingIds := by
  obtain ⟨first, firstIn⟩ := List.exists_mem_of_ne_nil _ exist
  cases chosen : (s.db.findByIds existingIds).minOn? Cluster.firstSeenAt with
  | none =>
    have member := (mem_loaded_ids inv meets).mpr firstIn
    obtain ⟨cluster, loaded, -⟩ := List.mem_map.mp member
    have found : ((s.db.findByIds existingIds).minOn? Cluster.firstSeenAt).isSome :=
      List.isSome_minOn?_of_mem loaded
    rw [chosen] at found
    cases found
  | some keep =>
    refine ⟨keep, rfl, (mem_loaded_ids inv meets).mp ?_⟩
    exact List.mem_map_of_mem (List.minOn?_mem chosen)

/-- Whoever is left once the clusters the group meets are gone or taken over. -/
theorem together_of_without (inv : Db.StoreInv [] s.db)
    (meets : Meets s.db cluster.txids existingIds) {keep : ClusterId} (keepIn : keep ∈ existingIds)
    {after : Db} (without : Without s.db (((s.db.findByIds existingIds).map Cluster.id).filter
      (· ≠ keep)) after) (txid other : Txid) :
    (∃ id, id ≠ keep ∧ after.IsActive id ∧ txid ∈ after.members id ∧ other ∈ after.members id) ↔
      s.db.Together txid other ∧ ∀ met ∈ cluster.txids, ¬ s.db.Together txid met := by
  -- Of the clusters met by the group all but the kept one are closed.
  have closed (id : ClusterId) : id ∈ ((s.db.findByIds existingIds).map Cluster.id).filter
      (· ≠ keep) ↔ id ∈ existingIds ∧ id ≠ keep := by
    rw [List.mem_filter, mem_loaded_ids inv meets, decide_eq_true_eq]
  constructor
  · rintro ⟨id, differs, active, inFirst, inSecond⟩
    obtain ⟨wasActive, kept⟩ := (without.isActive id).mp active
    rw [without.members id kept] at inFirst inSecond
    refine ⟨⟨id, wasActive, inFirst, inSecond⟩, fun met inGroup together => kept ?_⟩
    exact (closed id).mpr ⟨(meets_iff meets inv wasActive inFirst).mpr ⟨met, inGroup, together⟩,
      differs⟩
  · rintro ⟨⟨id, wasActive, inFirst, inSecond⟩, unmet⟩
    have outside : id ∉ existingIds := by
      intro inIds
      obtain ⟨met, inGroup, together⟩ := (meets_iff meets inv wasActive inFirst).mp inIds
      exact unmet met inGroup together
    have kept := mt (fun member => ((closed id).mp member).1) outside
    refine ⟨id, fun same => outside (same ▸ keepIn), ?_, ?_⟩
    · exact (without.isActive id).mpr ⟨wasActive, kept⟩
    · rw [without.members id kept]
      exact ⟨inFirst, inSecond⟩

/-- The members of the clusters the group meets. -/
theorem mem_flatMap_findByIds (inv : Db.StoreInv [] s.db)
    (meets : Meets s.db cluster.txids existingIds) (txid : Txid) :
    txid ∈ (s.db.findByIds existingIds).flatMap Cluster.txids ↔
      ∃ met ∈ cluster.txids, s.db.Together txid met := by
  constructor
  · intro member
    obtain ⟨found, inFound, inTxids⟩ := List.mem_flatMap.mp member
    obtain ⟨active, txids_eq⟩ := mem_findByIds_of_meets inv meets inFound
    rw [txids_eq] at inTxids
    refine (meets_iff meets inv active inTxids).mp ((mem_loaded_ids inv meets).mp ?_)
    exact List.mem_map_of_mem inFound
  · rintro ⟨met, inGroup, id, active, inMembers, inMet⟩
    have inIds := (meets id).mpr ⟨active, met, inGroup, inMet⟩
    obtain ⟨found, inFound, rfl⟩ := List.mem_map.mp ((mem_loaded_ids inv meets).mpr inIds)
    refine List.mem_flatMap.mpr ⟨found, inFound, ?_⟩
    rw [(mem_findByIds_of_meets inv meets inFound).2]
    exact inMembers

/-- A group that meets active clusters takes the place of all of them. -/
theorem stores_replace (reliable : env.Reliable) (inv : Db.StoreInv [] s.db)
    (meets : Meets s.db cluster.txids existingIds) (exist : existingIds ≠ [])
    (small : cluster.chunks.length ≤ maxChunks) :
    Stores cluster.txids (s.upsert env cluster existingIds).1 s
      (s.upsert env cluster existingIds).2 := by
  obtain ⟨keep, chosen, keepIn⟩ := exists_keep inv meets exist
  obtain ⟨changes, after, merges, afterInv, without, advances⟩ := markMerged_of_reliable
    (s := s.called env) reliable inv
    (((s.db.findByIds existingIds).map Cluster.id).filter (· ≠ keep.id))
  have keepActive : after.db.IsActive keep.id :=
    (without.isActive keep.id).mpr ⟨((meets keep.id).mp keepIn).1, by simp⟩
  have accepted : (after.db.replaceChunksIn (env.call after.calls).now
      ⟨keep.id, cluster.chunks⟩ true).isSome = true := by
    obtain ⟨row, stored, -⟩ := keepActive
    exact Db.replaceChunksIn_isSome afterInv.toVersioned stored small
  obtain ⟨⟨updated, db⟩, commits⟩ := Option.isSome_iff_exists.mp accepted
  rw [upsert, if_neg exist, query_of_reliable reliable]
  dsimp only
  rw [chosen]
  dsimp only
  rw [merges]
  dsimp only
  rw [transact_of_reliable reliable commits]
  -- The store becomes the regrouped one, and whoever the merges left without a group is detached.
  refine ⟨?_, fun txid => ?_, ?_⟩
  · funext txid other
    have replaced := Db.together_replaceChunksIn afterInv.toVersioned keepActive commits txid other
    exact propext (replaced.trans
      (or_congr Iff.rfl (together_of_without inv meets keepIn without txid other)))
  · rw [List.mem_filter, mem_flatMap_findByIds inv meets, decide_eq_true_eq, and_comm]
  · exact (advances_called env s).trans (advances.trans ⟨rfl, Nat.le_succ _⟩)

theorem stores_upsert (reliable : env.Reliable) (inv : Db.StoreInv [] s.db)
    (meets : Meets s.db cluster.txids existingIds) (small : cluster.chunks.length ≤ maxChunks) :
    Stores cluster.txids (s.upsert env cluster existingIds).1 s
      (s.upsert env cluster existingIds).2 := by
  by_cases exist : existingIds = []
  · subst exist
    exact stores_insert reliable inv meets small
  · exact stores_replace reliable inv meets exist small

/-! ### The candidate queue -/

/-- Who is kept with whom, the buffered singletons included. -/
def kept (queue : CandidateQueue) (s : ClusterService) (txid other : Txid) : Prop :=
  s.db.Together txid other ∨ txid = other ∧ txid ∈ queue.freshSingletons.map Prod.fst

/-- What an answered group does to the queue when nothing fails. -/
structure Regroups (txids : List Txid) (queue after : CandidateQueue) (s next : ClusterService) :
    Prop where
  kept : kept after next = regroup (kept queue s) txids
  pending : ∀ txid, txid ∈ after.pending ↔ txid ∈ queue.pending ∨
    txid ∉ queue.outOfMempool ∪ txids.toFinset ∧ ∃ met ∈ txids, s.db.Together txid met
  buffered : ∀ txid ∈ after.freshSingletons.map Prod.fst,
    txid ∈ txids ∨ txid ∈ queue.freshSingletons.map Prod.fst
  advances : Advances s next

theorem mem_keys_filter {singletons : List (Txid × NewCluster)} {txids : List Txid} {txid : Txid} :
    txid ∈ (singletons.filter (·.1 ∉ txids)).map Prod.fst ↔
      txid ∉ txids ∧ txid ∈ singletons.map Prod.fst := by
  simp only [List.mem_map, List.mem_filter, decide_eq_true_eq]
  constructor
  · rintro ⟨entry, ⟨member, outside⟩, rfl⟩
    exact ⟨outside, entry, member, rfl⟩
  · rintro ⟨outside, entry, member, rfl⟩
    exact ⟨entry, ⟨member, outside⟩, rfl⟩

/-- Storing a group in the database and dropping its members from the buffer is
storing it among what is kept. -/
theorem kept_of_stored {after : CandidateQueue} {txids : List Txid}
    (buffered : Buffered queue.freshSingletons s.db)
    (together : next.db.Together = regroup s.db.Together txids)
    (keys : ∀ txid, txid ∈ after.freshSingletons.map Prod.fst ↔
      txid ∉ txids ∧ txid ∈ queue.freshSingletons.map Prod.fst) :
    kept after next = regroup (kept queue s) txids := by
  -- A buffered transaction is in no active cluster.
  have apart {txid other : Txid} (member : txid ∈ queue.freshSingletons.map Prod.fst) :
      ¬ s.db.Together txid other := by
    obtain ⟨entry, inBuffer, rfl⟩ := List.mem_map.mp member
    exact fun stored => buffered.apart entry inBuffer (s.db.selfGrouped_together _ _ stored)
  funext txid other
  refine propext ?_
  rw [kept, together, keys]
  -- Stored or buffered before against in the group, or kept and apart from it.
  constructor
  · rintro ((inGroup | ⟨stored, unmet⟩) | ⟨rfl, outside, member⟩)
    · exact .inl inGroup
    · refine .inr ⟨.inl stored, fun met inGroup kept => ?_⟩
      rcases kept with metStored | ⟨rfl, member⟩
      · exact unmet met inGroup metStored
      · exact apart member stored
    · refine .inr ⟨.inr ⟨rfl, member⟩, fun met inGroup kept => ?_⟩
      rcases kept with metStored | ⟨rfl, -⟩
      · exact apart member metStored
      · exact outside inGroup
  · rintro (inGroup | ⟨stored | ⟨rfl, member⟩, unmet⟩)
    · exact .inl (.inl inGroup)
    · exact .inl (.inr ⟨stored, fun met inGroup metStored => unmet met inGroup (.inl metStored)⟩)
    · refine .inr ⟨rfl, fun inGroup => ?_, member⟩
      exact unmet txid inGroup (.inr ⟨rfl, member⟩)

/-- Buffering a group of one that no active cluster has is storing it too. -/
theorem kept_of_buffered {after : CandidateQueue} {txid : Txid} (db_eq : next.db = s.db)
    (alone : ¬ s.db.Together txid txid)
    (keys : ∀ other, other ∈ after.freshSingletons.map Prod.fst ↔
      other = txid ∨ other ∈ queue.freshSingletons.map Prod.fst) :
    kept after next = regroup (kept queue s) [txid] := by
  have unmet (other : Txid) : ¬ s.db.Together other txid := by
    rintro ⟨id, active, -, member⟩
    exact alone ⟨id, active, member, member⟩
  funext first second
  refine propext ?_
  rw [kept, db_eq, keys]
  simp only [regroup, List.mem_singleton, forall_eq]
  constructor
  -- The lone transaction is grouped with itself; every other pair is kept as it was.
  · rintro (stored | ⟨rfl, rfl | member⟩)
    · refine .inr ⟨.inl stored, ?_⟩
      rintro (metStored | ⟨rfl, -⟩)
      · exact unmet first metStored
      · exact alone (s.db.selfGrouped_together _ _ stored)
    · exact .inl ⟨rfl, rfl⟩
    · by_cases same : first = txid
      · exact .inl ⟨same, same⟩
      · refine .inr ⟨.inr ⟨rfl, member⟩, ?_⟩
        rintro (metStored | ⟨rfl, -⟩)
        · exact unmet first metStored
        · exact same rfl
  · rintro (⟨rfl, rfl⟩ | ⟨stored | ⟨rfl, member⟩, -⟩)
    · exact .inr ⟨rfl, .inl rfl⟩
    · exact .inl stored
    · exact .inr ⟨rfl, .inr member⟩

theorem regroups_reportPresent (reliable : env.Reliable) (inv : QueueInv env start queue s)
    (nonempty : cluster.txids ≠ []) (small : cluster.chunks.length ≤ maxChunks) :
    Regroups cluster.txids queue (s.reportPresent env cluster queue).1 s
      (s.reportPresent env cluster queue).2 := by
  unfold reportPresent
  dsimp only
  set present : ClusterService := { s with
    mempoolLedger :=
      s.mempoolLedger.assertPresent (env.call s.calls) cluster.txids } with present_eq
  have presentInv : Db.StoreInv [] present.db := inv.keeps.inv
  obtain ⟨ids, found, meets⟩ := findActiveIdsByTxids_of_reliable reliable presentInv nonempty
  rw [found]
  dsimp only
  -- A buffered singleton regroups only itself; a stored group takes its members out of their
  -- clusters.
  split_ifs with single
  · obtain ⟨rfl, one⟩ := single
    obtain ⟨txid, txids_eq⟩ := List.length_eq_one_iff.mp one
    have unmet : ∀ other, ∀ met ∈ cluster.txids, ¬ s.db.Together other met := by
      rintro other met member ⟨id, active, -, inMembers⟩
      exact absurd ((meets id).mpr ⟨active, met, member, inMembers⟩) (by simp)
    have keys (other : Txid) : other ∈ (cluster.txids.map (fun txid =>
        (txid, newCluster (env.now (present.called env).calls) cluster)) ++
          queue.freshSingletons.filter (·.1 ∉ cluster.txids)).map Prod.fst ↔
        other = txid ∨ other ∈ queue.freshSingletons.map Prod.fst := by
      rw [List.map_append, List.mem_append, mem_keys_filter, txids_eq]
      simp only [List.map_cons, List.map_nil, List.mem_singleton]
      tauto
    refine ⟨?_, fun other => ?_, fun other member => ?_, rfl, Nat.le_succ _⟩
    · rw [txids_eq]
      exact kept_of_buffered rfl (unmet txid txid (by simp [txids_eq])) (txids_eq ▸ keys)
    · refine ⟨.inl, fun member => member.resolve_right ?_⟩
      rintro ⟨-, met, inGroup, together⟩
      exact unmet other met inGroup together
    · rw [txids_eq, List.mem_singleton]
      exact (keys other).mp member
  · have stores := stores_upsert (s := present.called env) reliable presentInv meets small
    refine ⟨kept_of_stored inv.buffered stores.together fun txid => mem_keys_filter, ?_, ?_, ?_⟩
    -- Detached and unheard is what the queue is given, whichever of the two is tested first.
    · intro txid
      simp only [List.mem_append, List.mem_filter, stores.detached, decide_eq_true_eq,
        Finset.mem_union, List.mem_toFinset, not_or]
      refine or_congr Iff.rfl ⟨?_, ?_⟩
      · rintro ⟨⟨outside, met⟩, unheard⟩
        exact ⟨unheard, met⟩
      · rintro ⟨unheard, met⟩
        exact ⟨⟨unheard.2, met⟩, unheard⟩
    · intro txid member
      exact .inr (mem_keys_filter.mp member).2
    · have called : Advances s (present.called env) := ⟨rfl, Nat.le_succ _⟩
      exact called.trans stores.advances

variable {groups : List (List Txid)} (candidateTxids : List Txid)

/-- What is kept are the groups answered since the start, stored in order. -/
structure Hears (start : ClusterService) (queue : CandidateQueue) (s : ClusterService)
    (groups : List (List Txid)) : Prop where
  asked : answeredGroups s.asked = answeredGroups start.asked ++ groups
  kept : kept queue s = regroupAll start.db.Together groups
  buffered : ∀ txid ∈ queue.freshSingletons.map Prod.fst, ∃ group ∈ groups, txid ∈ group

/-- The queue has not lost sight of a transaction: the node answered about it, or
it is pending, or nothing concerned it so far. -/
structure Watches (start : ClusterService) (candidateTxids : List Txid) (txid : Txid)
    (queue : CandidateQueue) (groups : List (List Txid)) : Prop where
  heard : txid ∈ queue.outOfMempool → ∃ group ∈ groups, txid ∈ group
  found : (∃ group ∈ groups, txid ∈ group) ∨ txid ∈ queue.pending ∨
    txid ∉ candidateTxids ∧ ∀ group ∈ groups, ∀ met ∈ group, ¬ start.db.Together txid met

theorem answeredGroups_append (asked : List (Txid × ClusterAnswer)) (entry : Txid × ClusterAnswer) :
    answeredGroups (asked ++ [entry]) = answeredGroups asked ++ (answeredGroup entry).toList := by
  rw [answeredGroups, List.filterMap_append, answeredGroups]
  cases answered : answeredGroup entry <;> simp [answered]

/-- The service after it asked the node about a txid. -/
def askedFor (env : ClusterEnv) (txid : Txid) (s : ClusterService) : ClusterService :=
  { s.called env with asked := s.asked ++ [(txid, env.getMempoolCluster s.calls txid)] }

/-- An answered group is stored, and its members heard about. -/
theorem Hears.reportPresent {after : CandidateQueue} {txid : Txid}
    (hears : Hears start queue s groups)
    (answered : env.getMempoolCluster s.calls txid = .cluster cluster)
    (nonempty : cluster.txids ≠ [])
    (regroups : Regroups cluster.txids queue after (s.askedFor env txid) next) :
    Hears start after next (groups ++ [cluster.txids]) where
  asked := by
    rw [regroups.advances.asked, askedFor, answered, answeredGroups_append, hears.asked,
      answeredGroup, if_neg nonempty, List.append_assoc]
    rfl
  -- The call changes no store, so regrouping picks up from the state before it.
  kept := by
    have before : ClusterService.kept queue (s.askedFor env txid) = ClusterService.kept queue s :=
      rfl
    rw [regroups.kept, before, hears.kept, regroupAll, regroupAll, List.foldl_append]
    rfl
  buffered other member := by
    rcases regroups.buffered other member with inGroup | before
    · exact ⟨cluster.txids, by simp, inGroup⟩
    · obtain ⟨group, inGroups, inGroup⟩ := hears.buffered other before
      exact ⟨group, by simp [inGroups], inGroup⟩

/-- Whoever an answered group detaches is heard about or pending. -/
theorem Watches.reportPresent {candidateTxids : List Txid} {after : CandidateQueue}
    {txid popped : Txid} {pending : List Txid}
    (watches : Watches start candidateTxids txid queue groups) (hears : Hears start queue s groups)
    (front : queue.pending = popped :: pending) (member : popped ∈ cluster.txids)
    (regroups : Regroups cluster.txids { queue with pending := pending } after
      (s.askedFor env popped) next)
    (outOfMempool : after.outOfMempool = queue.outOfMempool ∪ cluster.txids.toFinset) :
    Watches start candidateTxids txid after (groups ++ [cluster.txids]) := by
  have before (heard : ∃ group ∈ groups, txid ∈ group) :
      ∃ group ∈ groups ++ [cluster.txids], txid ∈ group := by
    obtain ⟨group, inGroups, inGroup⟩ := heard
    exact ⟨group, by simp [inGroups], inGroup⟩
  constructor
  · intro out
    rw [outOfMempool, Finset.mem_union, List.mem_toFinset] at out
    rcases out with wasOut | inGroup
    · exact before (watches.heard wasOut)
    · exact ⟨cluster.txids, by simp, inGroup⟩
  -- In the group, heard before, pending, or met now for the first time.
  · by_cases inGroup : txid ∈ cluster.txids
    · exact .inl ⟨cluster.txids, by simp, inGroup⟩
    rcases watches.found with heard | isPending | ⟨noCandidate, untouched⟩
    · exact .inl (before heard)
    · rw [front, List.mem_cons] at isPending
      refine .inr (.inl ((regroups.pending txid).mpr (.inl (isPending.resolve_left ?_))))
      rintro rfl
      exact inGroup member
    · by_cases heard : ∃ group ∈ groups, txid ∈ group
      · exact .inl (before heard)
      by_cases met : ∃ met ∈ cluster.txids, start.db.Together txid met
      · -- the first group that meets its cluster: it is detached, and asked about next
        obtain ⟨met, inMet, together⟩ := met
        have outside : ∀ group ∈ groups, txid ∉ group :=
          fun group inGroups has => heard ⟨group, inGroups, has⟩
        have still : ClusterService.kept queue s txid met := by
          rw [hears.kept, regroupAll_of_apart outside untouched]
          exact together
        have stored : s.db.Together txid met := by
          refine still.resolve_right fun buffered => heard ?_
          exact hears.buffered txid buffered.2
        refine .inr (.inl ((regroups.pending txid).mpr (.inr ⟨?_, met, inMet, stored⟩)))
        rw [Finset.mem_union, List.mem_toFinset, not_or]
        exact ⟨fun out => heard (watches.heard out), inGroup⟩
      -- Neither heard nor met: still untouched by every group so far.
      · refine .inr (.inr ⟨noCandidate, fun group inGroups other inOther together => ?_⟩)
        rcases List.mem_append.mp inGroups with old | new
        · exact untouched group old other inOther together
        · rw [List.mem_singleton.mp new] at inOther
          exact met ⟨other, inOther, together⟩

/-- An iteration of the queue. -/
theorem Hears.candidate (truthful : env.Truthful) (reliable : env.Reliable)
    (small : env.SmallAnswers) (inv : QueueInv env start queue s)
    (hears : Hears start queue s groups)
    {popped : Txid} {pending : List Txid} (front : queue.pending = popped :: pending) :
    let after := s.candidate env popped { queue with pending := pending }
    ∃ new, Hears start after.1 after.2 (groups ++ new) ∧ s.calls ≤ after.2.calls ∧
      ∀ txid, (s.calls < after.2.calls → ∃ cluster, env.getMempoolCluster s.calls txid =
          .cluster cluster) →
        Watches start candidateTxids txid queue groups →
          Watches start candidateTxids txid after.1 (groups ++ new) := by
  have popInv : QueueInv env start { queue with pending := pending } (s.askedFor env popped) :=
    ⟨inv.keeps.to_eq rfl ⟨rfl, Nat.le_succ _⟩, inv.buffered⟩
  have skip {txid : Txid} (isPending : txid ∈ queue.pending) (other : txid ≠ popped) :
      txid ∈ pending := by
    rw [front, List.mem_cons] at isPending
    exact isPending.resolve_left other
  unfold ClusterService.candidate
  dsimp only
  -- A transaction marked before was heard in some group, and popping it asks nothing.
  split_ifs with out
  · refine ⟨[], ?_, le_rfl, fun txid _ watches => ?_⟩ <;> rw [List.append_nil]
    · exact ⟨hears.asked, hears.kept, hears.buffered⟩
    refine ⟨watches.heard, ?_⟩
    rcases watches.found with heard | isPending | untouched
    · exact .inl heard
    · by_cases same : txid = popped
      · exact .inl (watches.heard (same ▸ out))
      · exact .inr (.inl (skip isPending same))
    · exact .inr (.inr untouched)
  · split
    -- A truthful node never leaves a call unanswered.
    case h_1 answered => exact absurd answered (truthful.answers _ _)
    case h_2 answered =>
      refine ⟨[], ?_, Nat.le_succ _, fun txid resident watches => ?_⟩ <;> rw [List.append_nil]
      · refine ⟨?_, hears.kept, hears.buffered⟩
        rw [← hears.asked]
        refine (answeredGroups_append _ _).trans ?_
        simp [answered, answeredGroup]
      -- A resident transaction is never reported absent, so it is another one that was popped.
      · have other : txid ≠ popped := by
          rintro rfl
          obtain ⟨cluster, present⟩ := resident (Nat.lt_succ_self _)
          simp [answered] at present
        refine ⟨fun isOut => ?_, ?_⟩
        · exact watches.heard ((Finset.mem_insert.mp isOut).resolve_left other)
        · exact watches.found.imp id (.imp (skip · other) id)
    case h_3 cluster answered =>
      have member := truthful.asked _ _ _ answered
      have nonempty := List.ne_nil_of_mem member
      rw [if_neg nonempty]
      have regroups := regroups_reportPresent reliable popInv nonempty (small _ _ _ answered)
      have reports := reports_reportPresent env cluster popInv.keeps.inv.liveInStep
        { queue with pending := pending }
      have popHears : Hears start { queue with pending := pending } s groups :=
        ⟨hears.asked, hears.kept, hears.buffered⟩
      refine ⟨[cluster.txids], popHears.reportPresent answered nonempty regroups, ?_, ?_⟩
      · exact (Nat.le_succ _).trans regroups.advances.calls
      · intro txid _ watches
        exact watches.reportPresent hears front member regroups reports.outOfMempool

theorem hears_drain (truthful : env.Truthful) (reliable : env.Reliable) (small : env.SmallAnswers)
    {fuel : ℕ} {last : CandidateQueue} (inv : QueueInv env start queue s)
    (hears : Hears start queue s groups) (drained : s.drain env fuel queue = some (last, next)) :
    ∃ new, Hears start last next (groups ++ new) ∧ last.pending = [] ∧ s.calls ≤ next.calls ∧
      ∀ txid, env.Resident txid s.calls next.calls →
        Watches start candidateTxids txid queue groups →
          Watches start candidateTxids txid last (groups ++ new) := by
  -- Induction on the fuel; the watched transaction is resident throughout, so also for the rest.
  induction fuel generalizing queue s groups with
  | zero => simp [ClusterService.drain] at drained
  | succ fuel ih =>
    rw [ClusterService.drain] at drained
    split at drained
    case h_1 empty =>
      simp only [Option.some.injEq, Prod.mk.injEq] at drained
      obtain ⟨rfl, rfl⟩ := drained
      refine ⟨[], by simpa using hears, empty, le_rfl, fun txid _ watches => by simpa using watches⟩
    case h_2 popped pending front =>
      have popInv : QueueInv env start { queue with pending := pending } s :=
        ⟨inv.keeps, inv.buffered⟩
      obtain ⟨first, hearsFirst, advances, watchesFirst⟩ :=
        hears.candidate candidateTxids truthful reliable small inv front
      obtain ⟨rest, hearsRest, dry, advancesRest, watchesRest⟩ :=
        ih (popInv.candidate small popped) hearsFirst drained
      rw [List.append_assoc] at hearsRest watchesRest
      refine ⟨first ++ rest, hearsRest, dry, advances.trans advancesRest, ?_⟩
      intro txid resident watches
      refine watchesRest txid (resident.mono advances)
        (watchesFirst txid (fun called => ?_) watches)
      exact resident s.calls le_rfl (called.trans_le advancesRest)

/-! ### The batch of singletons -/

/-- Slices that do not fail are all stored. -/
theorem together_insertSlices {fails : ℕ → Bool} (holds : ∀ slice, fails slice = false)
    (now : Txid → OffsetDateTime) (slice : ℕ) {batches : List (List NewCluster)} {db : Db}
    (insertable : Insertable batches.flatten db) (inv : Db.StoreInv [] db) (txid other : Txid) :
    (insertSlices fails now slice batches db).2.Together txid other ↔
      (∃ cluster ∈ batches.flatten, txid ∈ cluster.txids ∧ other ∈ cluster.txids) ∨
        db.Together txid other := by
  induction batches generalizing slice db with
  | nil => simp [insertSlices]
  | cons batch batches ih =>
    rw [List.flatten_cons] at insertable
    obtain ⟨⟨rows, after⟩, inserted⟩ := Option.isSome_iff_exists.mp
      (Db.insertIn_isSome now inv.toVersioned insertable.left.small)
    obtain ⟨afterInv, -⟩ := insertable.left.insertIn inv inserted
    have later := ih (slice + 1) (insertable.right inv.toVersioned inserted) afterInv
    rw [insertSlices, if_neg (by simp [holds]), inserted]
    dsimp only
    rw [later, Db.together_insertIn inv.toVersioned inserted, List.flatten_cons]
    simp only [List.mem_append, or_and_right, exists_or]
    exact or_left_comm.trans or_assoc.symm

theorem insertManyWithMembers_snd (env : ClusterEnv) (new : List NewCluster) (s : ClusterService) :
    (s.insertManyWithMembers env new).2.db = (insertSlices (env.fails s.calls)
        (env.call s.calls).now 0 (slices mempoolDeltaInsertChunkSize new) s.db).2 ∧
      Advances s (s.insertManyWithMembers env new).2 := by
  unfold insertManyWithMembers
  split_ifs with none
  · subst none
    exact ⟨rfl, .refl s⟩
  · exact ⟨rfl, rfl, Nat.le_succ _⟩

theorem insertSingletons_snd (env : ClusterEnv) (queue : CandidateQueue) (s : ClusterService) :
    (s.insertSingletons env queue).2 = (s.insertManyWithMembers env
      (((env.call s.calls).order.toList (queue.freshSingletons.map Prod.fst).toFinset).filterMap
        fun txid => queue.freshSingletons.lookup txid)).2 := by
  unfold insertSingletons
  dsimp only
  split <;> simp_all

/-- What was kept is stored. -/
theorem together_insertSingletons (reliable : env.Reliable) (inv : QueueInv env start queue s) :
    (s.insertSingletons env queue).2.db.Together = kept queue s ∧
      Advances s (s.insertSingletons env queue).2 := by
  obtain ⟨keeps, buffered⟩ := inv
  set batch := ((env.call s.calls).order.toList
    (queue.freshSingletons.map Prod.fst).toFinset).filterMap fun txid =>
      queue.freshSingletons.lookup txid with batch_eq
  -- Each key of the buffer is listed once, with a cluster that holds only that key.
  have inBatch (txid other : Txid) :
      (∃ cluster ∈ batch, txid ∈ cluster.txids ∧ other ∈ cluster.txids) ↔
        txid = other ∧ txid ∈ queue.freshSingletons.map Prod.fst := by
    constructor
    · rintro ⟨cluster, member, inFirst, inSecond⟩
      obtain ⟨key, -, found⟩ := List.mem_filterMap.mp member
      have entry := lookup_mem found
      rw [buffered.txids _ entry, List.mem_singleton] at inFirst inSecond
      subst inFirst
      exact ⟨inSecond.symm, List.mem_map.mpr ⟨_, entry, rfl⟩⟩
    · rintro ⟨rfl, member⟩
      obtain ⟨cluster, found⟩ : ∃ cluster, queue.freshSingletons.lookup txid = some cluster := by
        refine Option.isSome_iff_exists.mp (List.lookup_isSome_iff.mpr ?_)
        obtain ⟨entry, inBuffer, rfl⟩ := List.mem_map.mp member
        exact ⟨entry, inBuffer, by simp⟩
      refine ⟨cluster, List.mem_filterMap.mpr ⟨txid, by simpa using member, found⟩, ?_⟩
      simp [buffered.txids _ (lookup_mem found)]
  have insertable : Insertable (slices mempoolDeltaInsertChunkSize batch).flatten s.db := by
    rw [slices_flatten mempoolDeltaInsertChunkSize_pos, batch_eq]
    exact buffered.insertable _
  have stored :=
    together_insertSlices (reliable s.calls) (env.call s.calls).now 0 insertable keeps.inv
  rw [slices_flatten mempoolDeltaInsertChunkSize_pos] at stored
  obtain ⟨db_eq, advances⟩ := insertManyWithMembers_snd env batch s
  rw [insertSingletons_snd, ← batch_eq]
  refine ⟨?_, advances⟩
  funext txid other
  refine propext ?_
  rw [db_eq, stored, inBatch, kept, or_comm]

/-- The round is about the transaction: it is a candidate, or the node's answers
have it or someone of its cluster. -/
def Concerns (db : Db) (candidateTxids : List Txid) (groups : List (List Txid)) (txid : Txid) :
    Prop :=
  txid ∈ candidateTxids ∨ (∃ group ∈ groups, txid ∈ group) ∨
    ∃ group ∈ groups, ∃ met ∈ group, db.Together txid met

/-- The active clusters are the node's answers stored in order, and the node is
heard about every transaction concerned that it has all along. -/
theorem regroups_handleCandidates (truthful : env.Truthful) (reliable : env.Reliable)
    (small : env.SmallAnswers) (inv : Db.StoreInv [] s.db) {candidateTxids : List Txid} {fuel : ℕ}
    {changes : ClusterDeltaSet}
    (h : s.handleCandidates env fuel candidateTxids = some (changes, next)) :
    ∃ groups, answeredGroups next.asked = answeredGroups s.asked ++ groups ∧
      next.db.Together = regroupAll s.db.Together groups ∧
      ∀ txid, env.Resident txid s.calls next.calls → Concerns s.db candidateTxids groups txid →
        ∃ group ∈ groups, txid ∈ group := by
  obtain ⟨⟨queue, drained⟩, drains, done⟩ := Option.map_eq_some_iff.mp h
  obtain ⟨-, rfl⟩ : (drained.insertSingletons env queue).1 = changes ∧
      (drained.insertSingletons env queue).2 = next := by
    simpa [Prod.ext_iff] using done
  have initial : QueueInv env s ⟨candidateTxids, ∅, [], .default⟩ s :=
    ⟨.refl env inv rfl (.refl _), by simp, by simp, by simp⟩
  have hears : Hears s ⟨candidateTxids, ∅, [], .default⟩ s [] := by
    refine ⟨by simp, ?_, by simp⟩
    funext txid other
    simp [kept, regroupAll]
  -- At the end the queue is dry, so pending is no longer a way to be found.
  obtain ⟨groups, heard, dry, -, watches⟩ :=
    hears_drain candidateTxids truthful reliable small initial hears drains
  obtain ⟨stored, advances⟩ := together_insertSingletons reliable (initial.drain small drains)
  rw [List.nil_append] at heard watches
  refine ⟨groups, ?_, ?_, fun txid resident concerned => ?_⟩
  · rw [advances.asked, heard.asked]
  · rw [stored, heard.kept]
  -- At the start a candidate is pending, and no group has touched anyone else.
  · have atStart : Watches s candidateTxids txid ⟨candidateTxids, ∅, [], .default⟩ [] := by
      refine ⟨by simp, ?_⟩
      by_cases candidate : txid ∈ candidateTxids
      · exact .inr (.inl candidate)
      · exact .inr (.inr ⟨candidate, by simp⟩)
    have throughout : env.Resident txid s.calls drained.calls :=
      fun call above below => resident call above (below.trans_le advances.calls)
    rcases (watches txid throughout atStart).found with inGroup | isPending | ⟨other, untouched⟩
    · exact inGroup
    · simp [dry] at isPending
    · rcases concerned with candidate | inGroup | ⟨group, inGroups, met, inGroup, together⟩
      · exact absurd candidate other
      · exact inGroup
      · exact absurd together (untouched group inGroups met inGroup)

end ClusterService

/-- With a truthful node and a database that does not fail, the round returns,
and of the transactions it concerns that the node has all along, exactly those
belong to exactly one active cluster whose last group no later answer meets. -/
theorem clustered_iff_last_group_kept {first s : ClusterService} {env : ClusterEnv}
    (empty : first.db = Db.empty) (run : ReflTransGen ClusterStep first s)
    (small : env.SmallAnswers) (truthful : env.Truthful) (reliable : env.Reliable)
    (candidateTxids : List Txid) :
    (∃ fuel changes next, s.handleCandidates env fuel candidateTxids = some (changes, next)) ∧
      ∀ fuel changes next, s.handleCandidates env fuel candidateTxids = some (changes, next) →
        ∃ groups, answeredGroups next.asked = answeredGroups s.asked ++ groups ∧
          ∀ txid, env.Resident txid s.calls next.calls →
            ClusterService.Concerns s.db candidateTxids groups txid →
              ((∃! id, next.db.IsActive id ∧ txid ∈ next.db.members id) ↔
                LastKept groups txid) := by
  have inv := (ClusterStep.run_keeps run (empty ▸ Db.storeInv_empty)).1
  constructor
  · have answers : env.AnswersAsked := fun call txid cluster answered _ =>
      truthful.asked call txid cluster answered
    obtain ⟨⟨changes, next⟩, ⟨enough, returns⟩, -⟩ :=
      ClusterService.settles_handleCandidatesCovering answers inv.liveInStep candidateTxids ∅
    exact ⟨enough, changes, next, returns enough le_rfl⟩
  · intro fuel changes next handled
    obtain ⟨groups, asked, together, heard⟩ :=
      ClusterService.regroups_handleCandidates truthful reliable small inv handled
    have nextInv := (ClusterService.keeps_handleCandidatesCovering small inv handled).inv
    refine ⟨groups, asked, fun txid resident concerned => ?_⟩
    -- An active cluster with the transaction is the only one, by the invariant of the store.
    have unique : (∃! id, next.db.IsActive id ∧ txid ∈ next.db.members id) ↔
        next.db.Together txid txid := by
      constructor
      · rintro ⟨id, ⟨active, member⟩, -⟩
        exact ⟨id, active, member, member⟩
      · rintro ⟨id, active, member, -⟩
        refine ⟨id, ⟨active, member⟩, ?_⟩
        rintro other ⟨otherActive, inOther⟩
        exact nextInv.unique otherActive active txid inOther member
    rw [unique, together]
    exact regroupAll_self_iff_lastKept s.db.selfGrouped_together (heard txid resident concerned)

/-! ### A transaction that is orphaned -/

/-- First `m` holds `a` and `x` together; then `n` replaces it, which holds `b`
and `x` together. -/
def replacedEnv : ClusterEnv where
  getMempoolCluster call txid :=
    if call = 0 then
      if txid ∈ ["a", "m", "x"] then .cluster ⟨[⟨["a", "m", "x"], 30, 600⟩]⟩
      else if txid = "b" then .cluster ⟨[⟨["b"], 10, 200⟩]⟩
      else .txNotFoundInMempool
    else
      if txid ∈ ["b", "n", "x"] then .cluster ⟨[⟨["b", "n", "x"], 40, 600⟩]⟩
      else if txid = "a" then .cluster ⟨[⟨["a"], 10, 200⟩]⟩
      else .txNotFoundInMempool
  fails _ _ := false
  now call := call
  call _ := ⟨fun _ => 0, .sorted Txid⟩

/-- Every answer of the node is one of its four groups. -/
theorem replacedEnv_cases {call : ℕ} {txid : Txid} {cluster : GetMempoolClusterModel}
    (answered : replacedEnv.getMempoolCluster call txid = .cluster cluster) :
    (call = 0 ∧ (txid ∈ ["a", "m", "x"] ∧ cluster = ⟨[⟨["a", "m", "x"], 30, 600⟩]⟩ ∨
        txid = "b" ∧ cluster = ⟨[⟨["b"], 10, 200⟩]⟩)) ∨
      call ≠ 0 ∧ (txid ∈ ["b", "n", "x"] ∧ cluster = ⟨[⟨["b", "n", "x"], 40, 600⟩]⟩ ∨
        txid = "a" ∧ cluster = ⟨[⟨["a"], 10, 200⟩]⟩) := by
  simp only [replacedEnv] at answered
  split_ifs at answered with initially inGroup single inGroup single <;> cases answered
  · exact .inl ⟨initially, .inl ⟨inGroup, rfl⟩⟩
  · exact .inl ⟨initially, .inr ⟨single, rfl⟩⟩
  · exact .inr ⟨initially, .inl ⟨inGroup, rfl⟩⟩
  · exact .inr ⟨initially, .inr ⟨single, rfl⟩⟩

theorem truthful_replacedEnv : replacedEnv.Truthful := by
  constructor
  · intro call txid
    simp only [replacedEnv]
    split_ifs <;> simp
  · intro call txid cluster answered
    rcases replacedEnv_cases answered with
      ⟨-, ⟨member, rfl⟩ | ⟨rfl, rfl⟩⟩ | ⟨-, ⟨member, rfl⟩ | ⟨rfl, rfl⟩⟩
    · exact member
    · decide
    · exact member
    · decide
  · intro call txid cluster answered other member
    rcases replacedEnv_cases answered with
      ⟨rfl, ⟨-, rfl⟩ | ⟨-, rfl⟩⟩ | ⟨later, ⟨-, rfl⟩ | ⟨-, rfl⟩⟩
    all_goals
      simp only [GetMempoolClusterModel.txids, List.flatMap_cons, List.flatMap_nil, List.append_nil]
        at member
    · simp only [replacedEnv, if_true, if_pos member]
    · rw [List.mem_singleton.mp member]
      decide
    · simp only [replacedEnv, later, if_false, if_pos member]
    · rw [List.mem_singleton.mp member]
      simp [replacedEnv, later]

theorem smallAnswers_replacedEnv : replacedEnv.SmallAnswers := by
  intro call txid cluster answered
  rcases replacedEnv_cases answered with
    ⟨-, ⟨-, rfl⟩ | ⟨-, rfl⟩⟩ | ⟨-, ⟨-, rfl⟩ | ⟨-, rfl⟩⟩ <;> simp [maxChunks]

/-- The node has `a` all along, but `x` takes its cluster with it. -/
theorem regrouped_txid_is_orphaned :
    (replacedEnv.SmallAnswers ∧ replacedEnv.Truthful ∧ replacedEnv.Reliable ∧
      ∀ call, ∃ cluster, replacedEnv.getMempoolCluster call "a" = .cluster cluster) ∧
    ∃ fuel changes next, ClusterService.initial.handleCandidates replacedEnv fuel ["a", "b"] =
        some (changes, next) ∧ ∀ id, ¬ (next.db.IsActive id ∧ "a" ∈ next.db.members id) := by
  refine ⟨⟨smallAnswers_replacedEnv, truthful_replacedEnv, fun _ _ => rfl, fun call => ?_⟩, ?_⟩
  · by_cases initially : call = 0 <;> simp [replacedEnv, initially]
  · obtain ⟨⟨changes, next⟩, handled⟩ := Option.isSome_iff_exists.mp (show
      (ClusterService.initial.handleCandidates replacedEnv 3 ["a", "b"]).isSome = true by decide)
    refine ⟨3, changes, next, handled, ?_⟩
    rintro id ⟨active, member⟩
    have inv := (ClusterService.keeps_handleCandidatesCovering smallAnswers_replacedEnv
      Db.storeInv_empty handled).inv
    have unlinked : (ClusterService.initial.handleCandidates replacedEnv 3 ["a", "b"]).map
        (fun result => result.2.db.link "a") = some none := by decide
    rw [handled, Option.map_some, Option.some.injEq] at unlinked
    simpa [unlinked] using (inv.linked active "a").mpr member

/-- `b` is in the last group the node answered with. -/
theorem last_group_txid_is_clustered :
    ∃ fuel changes next, ClusterService.initial.handleCandidates replacedEnv fuel ["a", "b"] =
        some (changes, next) ∧ ∃! id, next.db.IsActive id ∧ "b" ∈ next.db.members id := by
  obtain ⟨⟨changes, next⟩, handled⟩ := Option.isSome_iff_exists.mp (show
    (ClusterService.initial.handleCandidates replacedEnv 3 ["a", "b"]).isSome = true by decide)
  obtain ⟨-, clustered⟩ := clustered_iff_last_group_kept
    (show ClusterService.initial.db = Db.empty from rfl) .refl smallAnswers_replacedEnv
    truthful_replacedEnv (fun _ _ => rfl) ["a", "b"]
  obtain ⟨groups, asked, iff⟩ := clustered 3 changes next handled
  have answered : (ClusterService.initial.handleCandidates replacedEnv 3 ["a", "b"]).map
      (fun result => answeredGroups result.2.asked) = some [["a", "m", "x"], ["b", "n", "x"]] := by
    decide
  rw [handled, Option.map_some, Option.some.injEq, asked] at answered
  refine ⟨3, changes, next, handled, (iff "b" ?_ (.inl (by simp))).mpr ?_⟩
  · intro call _ _
    by_cases initially : call = 0 <;> simp [replacedEnv, initially]
  · rw [show groups = [["a", "m", "x"], ["b", "n", "x"]] from answered]
    rintro (_ | ⟨first, _ | ⟨second, before⟩⟩) group after split member last
    · obtain ⟨rfl, rfl⟩ := List.cons.inj split
      simp at member
    · obtain ⟨-, rfl⟩ : group = ["b", "n", "x"] ∧ after = [] := by
        simpa [eq_comm] using (List.cons.inj split).2
      simp
    · simp at split

end MempoolObserver
