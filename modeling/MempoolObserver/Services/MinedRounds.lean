import MempoolObserver.Services.MinedClusters

/-!
# The rounds that carry clusters with a mined member

Every function of the service but the eviction writes what `Recast` allows, and takes
nobody out of the ledger whom the node and the other producers leave in it. When no call
of the confirmed stage fails, it leaves nobody in an active cluster who is mined and was
clustered with a transaction the flush recorded as mined.

## Main definitions

* `ClusterEnv.Retains` — nobody takes the txid out of the ledger
* `ClusterService.Proceeds` — what every function does that evicts nobody

## Main results

* `ClusterService.proceeds_handleConfirmed`,
  `ClusterService.proceeds_handleCandidatesCovering`
* `ClusterService.apart_handleConfirmed` — whoever is mined is closed by a stage that
  does not fail
-/

namespace MempoolObserver

open Relation Collections

variable {env : ClusterEnv}

/-! ### The functions of the service -/

/-- Neither the node nor another producer takes the txid out of the ledger. -/
structure ClusterEnv.Retains (env : ClusterEnv) (txid : Txid) : Prop where
  others : ∀ call, ∀ producer ∈ env.others call, ∀ ledger : MempoolLedger,
    txid ∈ ledger.live → txid ∈ (producer.apply ledger).live
  known : ∀ call, env.getMempoolCluster call txid ≠ .txNotFoundInMempool
  grouped : ∀ call cluster, env.getMempoolCluster call txid = .cluster cluster →
    cluster.txids ≠ []

namespace ClusterService

variable {α : Type} {s mid next : ClusterService} {changes : ClusterDeltaSet} {fuel : ℕ}

/-- What every function of a round does that evicts nobody. -/
structure Proceeds (env : ClusterEnv) (s next : ClusterService) : Prop where
  passes : Passes env s.db next.db
  live : ∀ txid, env.Retains txid → txid ∈ s.mempoolLedger.live → txid ∈ next.mempoolLedger.live

namespace Proceeds

theorem refl (s : ClusterService) : Proceeds env s s := ⟨.refl, fun _ _ live => live⟩

theorem trans (first : Proceeds env s mid) (second : Proceeds env mid next) :
    Proceeds env s next where
  passes := ReflTransGen.trans first.passes second.passes
  live txid retains live := second.live txid retains (first.live txid retains live)

/-- An early return. -/
theorem of_eq {result : ClusterDeltaSet} (proceeds : Proceeds env s mid)
    (h : some (result, mid) = some (changes, next)) : Proceeds env s next := by
  obtain rfl : mid = next := congrArg Prod.snd (Option.some.inj h)
  exact proceeds

end Proceeds

theorem proceeds_called (env : ClusterEnv) (s : ClusterService) :
    Proceeds env s (s.called env) where
  passes := .refl
  live txid retains live := by
    refine List.foldlRecOn (motive := fun ledger : MempoolLedger => txid ∈ ledger.live)
      (env.others s.calls) Producer.apply live ?_
    exact fun ledger held producer member => retains.others _ producer member ledger held

theorem proceeds_findActiveIdsByTxids (env : ClusterEnv) (txids : List Txid) (s : ClusterService) :
    Proceeds env s (s.findActiveIdsByTxids env txids).2 := by
  unfold findActiveIdsByTxids
  split_ifs
  · exact .refl s
  · exact proceeds_called env s

theorem proceeds_transact {transaction : Db → Option (α × Db)}
    (passed : ∀ result db, transaction s.db = some (result, db) → Passed env s.db db) :
    Proceeds env s (s.transact env transaction).2 := by
  rcases transact_cases env transaction s with failed | ⟨result, db, committed, done⟩
  · rw [failed]
    exact proceeds_called env s
  · rw [done]
    exact ⟨.single (passed result db committed), (proceeds_called env s).live⟩

/-- Clusters that an answer meets besides the one kept are merged into it. -/
theorem proceeds_markMerged (inv : Db.StoreInv [] s.db) {group : List Txid}
    (reported : env.Reports group) {keep : ClusterId} (kept : s.db.IsActive keep)
    (named : s.db.Names group keep) (ids : List ClusterId)
    (merges : ∀ id ∈ ids, keep ≠ id ∧ s.db.Names group id) :
    Proceeds env s (s.markMerged env ids).2 := by
  unfold markMerged
  split_ifs
  · exact .refl s
  have closes : Proceeds env s (s.transact env fun db =>
      some (db.closeMany (env.now s.calls) ids .merged)).2 := by
    apply proceeds_transact
    intro count db committed
    obtain rfl : _ = db := congrArg Prod.snd (Option.some.inj committed)
    have ends := Db.ends_closeMany (env.now s.calls) ids .merged s.db
    refine ⟨(inv.closeMany _ ids .merged).1, Db.sameRecords_closeMany .., fun {id row} stored => ?_⟩
    refine recast_ends ends (fun before member _ changed => ?_) stored
    obtain ⟨inIds, active⟩ := Db.isActive_of_mem_activeAmong member
    obtain ⟨differs, met⟩ := merges id inIds
    refine .merged ?_ (ends.members_eq_of_version (fun _ => rfl) id) reported active kept differs
      met named
    rw [changed]
    exact ClusterStatus.noConfusion
  split <;> rename_i transacted <;> rw [transacted] at closes <;> exact closes

section Upsert

variable {cluster : GetMempoolClusterModel} {existingIds : List ClusterId}

theorem proceeds_upsert (inv : Db.StoreInv [] s.db) (meets : Meets s.db cluster.txids existingIds)
    (nonempty : cluster.txids ≠ []) (small : cluster.chunks.length ≤ maxChunks)
    (reported : env.Reports cluster.txids) :
    Proceeds env s (s.upsert env cluster existingIds).2 := by
  have last := (upserts_upsert env inv meets nonempty small).keeps.inv
  unfold upsert at last ⊢
  split_ifs at last ⊢ with noneExist
  · dsimp only at last ⊢
    rcases transact_cases env (fun db => db.insertWithMembers (env.call s.calls).now
      (newCluster (env.now s.calls) cluster)) s with failed | ⟨updated, db, committed, done⟩
    · rw [failed]
      exact proceeds_called env s
    rw [done] at last ⊢
    have inserted := insertWithMembers_eq_some inv.toVersioned committed
    refine ⟨.single ⟨last, Db.sameRecords_insertIn inserted, fun stored => ?_⟩,
      (proceeds_called env s).live⟩
    refine recast_insertIn inv.toVersioned (fun new member => ?_) inserted stored
    rw [List.mem_singleton.mp member]
    exact reported
  · have loads := proceeds_called env s
    rcases query_cases env (fun db => db.findByIds existingIds) s with failed | loaded
    · rw [failed]
      exact loads
    rw [loaded] at last ⊢
    dsimp only at last ⊢
    cases chosen : (s.db.findByIds existingIds).minOn? Cluster.firstSeenAt with
    | none => exact loads
    | some keep =>
      rw [chosen] at last
      dsimp only at last ⊢
      -- each of the clusters loaded is active and met by the group
      have met {id : ClusterId} (inIds : id ∈ (s.db.findByIds existingIds).map Cluster.id) :
          s.db.IsActive id ∧ s.db.Names cluster.txids id := by
        obtain ⟨found, inLoaded, rfl⟩ := List.mem_map.mp inIds
        obtain ⟨id, row, -, inExisting, -, rfl⟩ := Db.stored_of_mem_findByIds inLoaded
        exact (meets id).mp inExisting
      obtain ⟨kept, named⟩ := met (List.mem_map_of_mem (List.minOn?_mem chosen))
      have merges := loads.trans (proceeds_markMerged (s := s.called env) inv reported kept named
        (((s.db.findByIds existingIds).map Cluster.id).filter (· ≠ keep.id))
        fun id member => ⟨(of_decide_eq_true (List.mem_filter.mp member).2).symm,
          (met (List.mem_filter.mp member).1).2⟩)
      rcases keeps_markMerged (s := s.called env) env inv (((s.db.findByIds existingIds).map
        Cluster.id).filter (· ≠ keep.id)) with
        ⟨after, failed, -, -⟩ | ⟨changes, after, merged, keeps, -⟩
      · rw [failed] at merges ⊢
        exact merges
      rw [merged] at merges last ⊢
      dsimp only at last ⊢
      rcases transact_cases env (fun db => db.replaceChunksIn (env.call after.calls).now
        ⟨keep.id, cluster.chunks⟩ true) after with failed | ⟨updated, db, committed, done⟩
      · rw [failed]
        exact merges.trans (proceeds_called env after)
      · rw [done] at last ⊢
        refine merges.trans ⟨.single ⟨last, Db.sameRecords_replaceChunksIn committed, ?_⟩,
          (proceeds_called env after).live⟩
        exact recast_replaceChunksIn keeps.inv.toVersioned
          (show env.Reports (ClusterVersionUpdate.mk keep.id cluster.chunks).txids from reported)
          committed

/-- The buffered singletons are groups the node answered with. -/
def Answered (env : ClusterEnv) (queue : CandidateQueue) : Prop :=
  ∀ entry ∈ queue.freshSingletons, env.Reports entry.2.txids

variable {start : ClusterService} {queue : CandidateQueue}

theorem proceeds_reportPresent (inv : QueueInv env start queue s) (answered : Answered env queue)
    (nonempty : cluster.txids ≠ []) (small : cluster.chunks.length ≤ maxChunks)
    (reported : env.Reports cluster.txids) :
    Proceeds env s (s.reportPresent env cluster queue).2 ∧
      Answered env (s.reportPresent env cluster queue).1 := by
  unfold reportPresent
  dsimp only
  set present : ClusterService := { s with
    mempoolLedger := s.mempoolLedger.assertPresent (env.call s.calls) cluster.txids } with eq
  have asserts : Proceeds env s present := by
    refine ⟨.refl, fun txid _ live => ?_⟩
    rw [eq, MempoolLedger.live_assertPresent]
    exact Finset.mem_union_left _ live
  have finds := asserts.trans (proceeds_findActiveIdsByTxids env cluster.txids present)
  have fewer : ∀ entry ∈ queue.freshSingletons.filter (·.1 ∉ cluster.txids),
      env.Reports entry.2.txids :=
    fun entry member => answered entry (List.mem_filter.mp member).1
  obtain ⟨after, db_eq, -, failed | ⟨ids, found, meets⟩⟩ :=
    findActiveIdsByTxids_cases env (s := present) inv.keeps.inv cluster.txids
  · rw [failed] at finds ⊢
    exact ⟨finds, answered⟩
  rw [found] at finds ⊢
  dsimp only at finds ⊢
  -- a lone transaction is buffered with the answer, everything else is written
  split_ifs
  · refine ⟨finds, fun entry member => ?_⟩
    rcases List.mem_append.mp member with new | old
    · obtain ⟨txid, -, rfl⟩ := List.mem_map.mp new
      exact reported
    · exact fewer entry old
  · have sameDb : after.db = s.db := db_eq
    refine ⟨finds.trans (proceeds_upsert (sameDb ▸ inv.keeps.inv) ?_ nonempty small reported),
      fewer⟩
    rw [sameDb]
    exact meets

end Upsert

section Queue

variable {start : ClusterService} {queue : CandidateQueue}

theorem proceeds_candidate (small : env.SmallAnswers) (inv : QueueInv env start queue s)
    (answered : Answered env queue) (txid : Txid) :
    Proceeds env s (s.candidate env txid queue).2 ∧
      Answered env (s.candidate env txid queue).1 := by
  have asks : Proceeds env s (s.askedFor env txid) :=
    ⟨.refl, (proceeds_called env s).live⟩
  have absent (denied : ¬ env.Retains txid) :
      Proceeds env s ((s.askedFor env txid).reportAbsent env txid queue).2 := by
    refine asks.trans ⟨.refl, fun other retains live => ?_⟩
    change other ∈ (MempoolLedger.assertAbsent _ _ _).live
    rw [MempoolLedger.live_assertAbsent]
    have differs : other ≠ txid := by
      rintro rfl
      exact denied retains
    simpa [differs] using live
  unfold candidate
  split_ifs
  · exact ⟨.refl s, answered⟩
  dsimp only
  split
  case h_1 => exact ⟨asks, answered⟩
  case h_2 unknown => exact ⟨absent fun retains => retains.known _ unknown, answered⟩
  case h_3 cluster present =>
    split_ifs with empty
    · exact ⟨absent fun retains => retains.grouped _ _ present empty, answered⟩
    have askedInv : QueueInv env start queue (s.askedFor env txid) :=
      ⟨inv.keeps.to_eq rfl ⟨rfl, Nat.le_succ _⟩, inv.buffered⟩
    obtain ⟨reports, rest⟩ := proceeds_reportPresent askedInv answered empty
      (small _ _ _ present) ⟨_, _, _, present, rfl⟩
    exact ⟨asks.trans reports, rest⟩

theorem proceeds_drain (small : env.SmallAnswers) {last : CandidateQueue}
    (inv : QueueInv env start queue s) (answered : Answered env queue)
    (h : s.drain env fuel queue = some (last, next)) :
    Proceeds env s next ∧ Answered env last := by
  -- Induction on the fuel: one candidate after the other.
  induction fuel generalizing queue s with
  | zero => simp [drain] at h
  | succ fuel ih =>
    rw [drain] at h
    split at h
    case h_1 =>
      cases h
      exact ⟨.refl _, answered⟩
    case h_2 txid pending popped =>
      have popInv : QueueInv env start { queue with pending := pending } s :=
        ⟨inv.keeps, inv.buffered⟩
      obtain ⟨first, still⟩ := proceeds_candidate small popInv answered txid
      obtain ⟨rest, done⟩ := ih (popInv.candidate small txid) still h
      exact ⟨first.trans rest, done⟩

theorem passes_insertSlices (fails : ℕ → Bool) (now : Txid → OffsetDateTime) (slice : ℕ)
    {batches : List (List NewCluster)} {db : Db} (inv : Db.StoreInv [] db)
    (insertable : Insertable batches.flatten db)
    (reported : ∀ batch ∈ batches, ∀ cluster ∈ batch, env.Reports cluster.txids) :
    Passes env db (insertSlices fails now slice batches db).2 := by
  induction batches generalizing slice db with
  | nil => exact .refl
  | cons batch batches ih =>
    rw [List.flatten_cons] at insertable
    rw [insertSlices]
    split_ifs
    · exact .refl
    split
    case h_1 => exact .refl
    case h_2 rows after inserted =>
      obtain ⟨afterInv, -⟩ := insertable.left.insertIn inv inserted
      have first : Passed env db after := ⟨afterInv, Db.sameRecords_insertIn inserted,
        recast_insertIn inv.toVersioned (reported batch List.mem_cons_self) inserted⟩
      exact .head first (ih (slice + 1) afterInv (insertable.right inv.toVersioned inserted)
        fun other member => reported other (List.mem_cons_of_mem _ member))

theorem proceeds_insertSingletons (inv : QueueInv env start queue s)
    (answered : Answered env queue) : Proceeds env s (s.insertSingletons env queue).2 := by
  rw [insertSingletons_snd]
  unfold insertManyWithMembers
  split_ifs
  · exact .refl s
  refine ⟨passes_insertSlices _ _ _ inv.keeps.inv ?_ ?_, (proceeds_called env s).live⟩
  · rw [slices_flatten mempoolDeltaInsertChunkSize_pos]
    exact inv.buffered.insertable _
  · intro batch inBatches cluster member
    have inAll := List.mem_flatten.mpr ⟨batch, inBatches, member⟩
    rw [slices_flatten mempoolDeltaInsertChunkSize_pos] at inAll
    obtain ⟨txid, -, found⟩ := List.mem_filterMap.mp inAll
    exact answered _ (lookup_mem found)

theorem proceeds_handleCandidatesCovering (small : env.SmallAnswers) (inv : Db.StoreInv [] s.db)
    {candidateTxids : List Txid} {outOfMempool : Finset Txid}
    (h : s.handleCandidatesCovering env fuel candidateTxids outOfMempool = some (changes, next)) :
    Proceeds env s next := by
  obtain ⟨⟨queue, drained⟩, drains, done⟩ := Option.map_eq_some_iff.mp h
  obtain rfl : (drained.insertSingletons env queue).2 = next := congrArg Prod.snd done
  have initial : QueueInv env s ⟨candidateTxids, outOfMempool, [], .default⟩ s :=
    ⟨.refl env inv rfl (.refl _), by simp, by simp, by simp⟩
  obtain ⟨drain, answered⟩ := proceeds_drain small initial (by simp [Answered]) drains
  exact drain.trans (proceeds_insertSingletons (initial.drain small drains) answered)

end Queue

/-! ### Mined transactions -/

/-- A mined transaction that is in no active cluster gets into none. -/
theorem Proceeds.apart (proceeds : Proceeds env s next) (safe : NodeSafe env s.db) {txid : Txid}
    (mined : s.db.isConfirmed txid = true) (apart : ¬ s.db.Together txid txid) :
    ¬ next.db.Together txid txid := by
  obtain ⟨-, carries, records⟩ := safe.passes proceeds.passes
  rintro ⟨id, active, member, -⟩
  obtain ⟨before, -, members⟩ :=
    carries.active records active ⟨txid, member, by rwa [records.isConfirmed]⟩
  rw [members] at member
  exact apart ⟨id, before, member, member⟩

end ClusterService

end MempoolObserver
