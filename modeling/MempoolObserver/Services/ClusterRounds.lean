import MempoolObserver.Services.ClusterCandidates

/-!
# What a round of the cluster service keeps

A round runs the stages for mined, evicted and candidate transactions one after the
other and publishes what their change sets say together.

## Main results

* `ClusterService.roundKeeps_run` — what a whole round keeps, whichever calls fail
-/

namespace MempoolObserver

open Collections

namespace ClusterService

variable {env : ClusterEnv} {start s next : ClusterService} {changes other : ClusterDeltaSet}

/-! ### Mined transactions -/

/-- What the loaded clusters of a block's transactions look like. -/
structure Loaded (block : MinedBlock) (db : Db) (cluster : Cluster) : Prop where
  small : cluster.chunks.length ≤ maxChunks
  members : cluster.txids = db.members cluster.id
  mined : ∃ txid ∈ cluster.txids, txid ∈ block.txids

theorem loaded_findActiveClustersContaining (env : ClusterEnv) (inv : Db.StoreInv [] s.db)
    (block : MinedBlock) :
    (s.findActiveClustersContaining env block.txids).2.db = s.db ∧
      Later s (s.findActiveClustersContaining env block.txids).2 ∧
      ∀ cluster ∈ (s.findActiveClustersContaining env block.txids).1,
        Loaded block s.db cluster := by
  unfold findActiveClustersContaining
  -- Each read that fails yields no cluster; the ones loaded are the stored rows that meet the
  -- block.
  obtain ⟨after, db_eq, later, failed | ⟨ids, found, meets⟩⟩ :=
    findActiveIdsByTxids_cases env inv block.txids
  · rw [failed]
    exact ⟨db_eq, later, by simp⟩
  rw [found]
  dsimp only
  split_ifs with empty
  · exact ⟨db_eq, later, by simp⟩
  rcases query_cases env (fun db => db.findByIds ids) after with failed | loaded
  · rw [failed]
    exact ⟨db_eq, later.trans (.called env after), by simp⟩
  · rw [loaded]
    refine ⟨db_eq, later.trans (.called env after), fun cluster member => ?_⟩
    dsimp only at member
    rw [db_eq] at member
    obtain ⟨id, row, stored, inIds, rfl⟩ := inv.toVersioned.mem_findByIds.mp member
    have members := inv.toVersioned.txids_loadChunks stored
    obtain ⟨-, txid, inBlock, inMembers⟩ := (meets id).mp inIds
    refine ⟨?_, members, txid, ?_, inBlock⟩
    · change (s.db.loadChunks id row.version).length ≤ maxChunks
      rw [inv.toVersioned.loadChunks_eq, List.length_map]
      exact (inv.stored stored).small _
    · rwa [← members] at inMembers

theorem keeps_confirmFull (env : ClusterEnv) (inv : Db.StoreInv [] s.db)
    (confirmedAt : OffsetDateTime)
    (full : List Cluster) :
    Keeps env (s.confirmFull env confirmedAt full).1 s (s.confirmFull env confirmedAt full).2 ∧
      ∀ id, (s.confirmFull env confirmedAt full).2.db.members id = s.db.members id := by
  unfold confirmFull
  dsimp only
  split_ifs
  · exact ⟨.refl env inv rfl (.refl s), fun _ => rfl⟩
  -- Closing keeps the members of every cluster, whether or not the transaction commits.
  rcases transact_cases env (fun db => some (db.confirmManyIn (env.now s.calls)
    (full.map Cluster.id) confirmedAt)) s with failed | ⟨count, db, committed, done⟩
  · rw [failed]
    exact ⟨.refl env inv rfl (.called env s), fun _ => rfl⟩
  · obtain rfl : _ = db := congrArg Prod.snd (Option.some.inj committed)
    rw [done]
    obtain ⟨confirmed, grown⟩ := inv.confirmManyIn (full.map Cluster.id) (by simp)
      (env.now s.calls) confirmedAt
    refine ⟨⟨confirmed, grown, fun _ => ?_, rfl, Nat.le_succ _⟩, fun id => ?_⟩
    · exact (Accounts.refl s.db).confirmManyIn inv.toVersioned _ _
    · exact (Db.ends_confirmManyIn ..).members_eq_of_version (fun _ => rfl) id

/-- The part of a chunk a block mined has only txids of the chunk. -/
theorem minedPart_subset {block : MinedBlock} {chunk part : ClusterChunk}
    (h : MinedTrim.minedPart block chunk = some part) : part.txids ⊆ chunk.txids := by
  unfold MinedTrim.minedPart at h
  dsimp only at h
  split_ifs at h
  · obtain rfl := Option.some.inj h
    exact List.Subset.refl _
  · obtain rfl := Option.some.inj h
    exact fun _ member => (List.mem_filter.mp member).1

/-- A block mined something of a chunk that has one of its txids. -/
theorem minedPart_isSome {block : MinedBlock} {chunk : ClusterChunk} {txid : Txid}
    (inChunk : txid ∈ chunk.txids) (inBlock : txid ∈ block.txids) :
    ∃ part, MinedTrim.minedPart block chunk = some part := by
  unfold MinedTrim.minedPart
  dsimp only
  split_ifs with whole split
  · exact ⟨_, rfl⟩
  · exact ⟨_, rfl⟩
  · exact absurd (not_not.mp split) (List.ne_nil_of_mem (List.mem_filter.mpr
      ⟨inChunk, by simpa using inBlock⟩))

/-- The trim of a loaded cluster is a version the store accepts. -/
theorem asUpdate_of_loaded {block : MinedBlock} {db : Db} {cluster : Cluster}
    (loaded : Loaded block db cluster) :
    (MinedTrim.new cluster block).asUpdate.chunks ≠ [] ∧
      (MinedTrim.new cluster block).asUpdate.chunks.length ≤ maxChunks ∧
      (MinedTrim.new cluster block).asUpdate.txids ⊆ db.members cluster.id := by
  refine ⟨?_, (List.length_filterMap_le _ _).trans loaded.small, fun txid member => ?_⟩
  · obtain ⟨txid, member, inBlock⟩ := loaded.mined
    obtain ⟨chunk, inChunks, inChunk⟩ := List.mem_flatMap.mp member
    obtain ⟨part, mined⟩ := minedPart_isSome inChunk inBlock
    exact List.ne_nil_of_mem (List.mem_filterMap.mpr ⟨chunk, inChunks, mined⟩)
  · obtain ⟨part, inMined, inPart⟩ := List.mem_flatMap.mp member
    obtain ⟨chunk, inChunks, mined⟩ := List.mem_filterMap.mp inMined
    rw [← loaded.members]
    exact List.mem_flatMap.mpr ⟨chunk, inChunks, minedPart_subset mined inPart⟩

/-- Trimming the partly mined clusters that were loaded. -/
theorem trimmed_of_loaded (inv : Db.StoreInv [] s.db) {block : MinedBlock} {partly : List Cluster}
    (loaded : ∀ cluster ∈ partly, Loaded block s.db cluster) {now : Txid → OffsetDateTime}
    {closedAt confirmedAt : OffsetDateTime} {count : ℕ} {db : Db}
    (committed : s.db.trimAndConfirmMany now closedAt
      ((partly.map fun cluster => MinedTrim.new cluster block).map MinedTrim.asUpdate)
      confirmedAt = some (count, db)) :
    Db.StoreInv [] db ∧ s.db.Extends db ∧
      Accounts (((partly.map fun cluster => MinedTrim.new cluster block).map
        MinedTrim.clusterId).foldl ClusterDeltaSet.markRemoved .default) s.db db := by
  have updates : ∀ update ∈ (partly.map fun cluster => MinedTrim.new cluster block).map
      MinedTrim.asUpdate, update.chunks ≠ [] ∧ update.chunks.length ≤ maxChunks ∧
        update.txids ⊆ s.db.members update.clusterId := by
    -- What is left of a cluster split by the block is part of its members, and not empty.
    intro update member
    obtain ⟨trim, inTrims, rfl⟩ := List.mem_map.mp member
    obtain ⟨cluster, inPartly, rfl⟩ := List.mem_map.mp inTrims
    exact asUpdate_of_loaded (loaded cluster inPartly)
  have nonempty := fun update member => (updates update member).1
  have fits := fun update member => (updates update member).2.1
  have within := fun update member => (updates update member).2.2
  obtain ⟨trimmedInv, grown⟩ := inv.trimAndConfirmMany nonempty fits within committed
  have accounts := (Accounts.refl s.db).trimAndConfirmMany inv nonempty fits within committed
  rw [List.map_map] at accounts
  exact ⟨trimmedInv, grown, accounts⟩

theorem keeps_confirmPartial (small : env.SmallAnswers) (inv : Db.StoreInv [] s.db)
    {block : MinedBlock} {partly : List Cluster} {fuel : ℕ}
    (loaded : ∀ cluster ∈ partly, Loaded block s.db cluster)
    (h : s.confirmPartial env fuel block partly = some (changes, next)) :
    Keeps env changes s next := by
  unfold confirmPartial at h
  dsimp only at h
  split_ifs at h
  · exact .of_unchanged env inv h rfl (.refl s)
  -- A failed trim changes nothing; after a good one the pending part is synced as candidates.
  rcases transact_cases env (fun db => db.trimAndConfirmMany (env.call s.calls).now
    (env.now s.calls) ((partly.map fun cluster => MinedTrim.new cluster block).map
      MinedTrim.asUpdate) block.confirmedAt) s with failed | ⟨count, db, committed, done⟩
  · rw [failed] at h
    exact .of_unchanged env inv h rfl (.called env s)
  · rw [done] at h
    obtain ⟨⟨synced, last⟩, syncs, merged⟩ := Option.map_eq_some_iff.mp h
    obtain ⟨rfl, rfl⟩ := Prod.ext_iff.mp merged
    obtain ⟨trimmedInv, grown, accounts⟩ := trimmed_of_loaded inv loaded committed
    have trimmed : Keeps env _ s { s.called env with db := db } :=
      ⟨trimmedInv, grown, fun _ => accounts, rfl, Nat.le_succ _⟩
    exact trimmed.merge (keeps_handleCandidatesCovering small trimmedInv syncs)

/-- The first half of `confirmMinedInner`: what it loaded is still so after the
whole clusters are confirmed. -/
theorem keeps_confirmFull_loaded (env : ClusterEnv) (inv : Db.StoreInv [] s.db)
    (block : MinedBlock) :
    let found := s.findActiveClustersContaining env block.txids
    let full := found.2.confirmFull env block.confirmedAt (found.1.filter (isFull block))
    Keeps env full.1 s full.2 ∧
      ∀ cluster ∈ found.1.filter (!isFull block ·), Loaded block full.2.db cluster := by
  intro found full
  obtain ⟨db_eq, later, loaded⟩ := loaded_findActiveClustersContaining env inv block
  obtain ⟨confirms, members⟩ := keeps_confirmFull env (s := found.2) (db_eq ▸ inv)
    block.confirmedAt (found.1.filter (isFull block))
  refine ⟨confirms.of_eq db_eq later, fun cluster member => ?_⟩
  obtain ⟨fits, txids, mined⟩ := loaded cluster (List.mem_filter.mp member).1
  exact ⟨fits, by rw [members, db_eq, txids], mined⟩

theorem keeps_confirmMinedInner (small : env.SmallAnswers) (inv : Db.StoreInv [] s.db)
    {block : MinedBlock} {fuel : ℕ}
    (h : s.confirmMinedInner env fuel block = some (changes, next)) :
    Keeps env changes s next := by
  unfold confirmMinedInner at h
  obtain ⟨confirms, loaded⟩ := keeps_confirmFull_loaded env inv block
  obtain ⟨⟨trimmed, last⟩, partly, merged⟩ := Option.map_eq_some_iff.mp h
  obtain ⟨rfl, rfl⟩ := Prod.ext_iff.mp merged
  exact confirms.merge (keeps_confirmPartial small confirms.inv loaded partly)

theorem keeps_confirmBlocks (small : env.SmallAnswers) {fuel : ℕ} {blocks : List MinedBlock}
    (keeps : Keeps env changes start s)
    (h : s.confirmBlocks env fuel blocks changes = some (other, next)) :
    Keeps env other start next := by
  induction blocks generalizing changes s with
  | nil =>
    obtain ⟨rfl, rfl⟩ : changes = other ∧ s = next := by
      simpa [confirmBlocks, Prod.ext_iff] using h
    exact keeps
  | cons block blocks ih =>
    simp only [confirmBlocks, Option.bind_eq_bind] at h
    obtain ⟨⟨confirmed, mid⟩, inner, rest⟩ := Option.bind_eq_some_iff.mp h
    exact ih (keeps.merge (keeps_confirmMinedInner small keeps.inv inner)) rest

theorem keeps_handleConfirmed (small : env.SmallAnswers) (inv : Db.StoreInv [] s.db) {fuel : ℕ}
    {confirmedTxids : List Txid}
    (h : s.handleConfirmed env fuel confirmedTxids = some (changes, next)) :
    Keeps env changes s next := by
  unfold handleConfirmed at h
  -- Three reads in a row, each of which may end the stage with nothing changed.
  obtain ⟨after, db_eq, later, failed | ⟨ids, found, -⟩⟩ :=
    findActiveIdsByTxids_cases env inv confirmedTxids
  · rw [failed] at h
    exact .of_unchanged env inv h db_eq later
  rw [found] at h
  dsimp only at h
  split_ifs at h
  · exact .of_unchanged env inv h db_eq later
  rcases query_cases env (fun db => db.findByIds ids) after with failed | loaded
  · rw [failed] at h
    exact .of_unchanged env inv h db_eq (later.trans (.called env after))
  rw [loaded] at h
  dsimp only at h
  have reads : Later s ((after.called env).called env) :=
    (later.trans (.called env after)).trans (.called env _)
  rcases query_cases env (fun db => db.findMinedByTxids
    ((after.db.findByIds ids).flatMap Cluster.txids)) (after.called env) with failed | mined
  · rw [failed] at h
    exact .of_unchanged env inv h db_eq reads
  · rw [mined] at h
    have start : Keeps env .default s ((after.called env).called env) :=
      .refl env inv db_eq reads
    exact keeps_confirmBlocks small start h

/-! ### Evicted transactions -/

theorem keeps_markEvicted (env : ClusterEnv) (inv : Db.StoreInv [] s.db)
    (emptied : List ClusterId) :
    Keeps env (s.markEvicted env emptied).1 s (s.markEvicted env emptied).2 := by
  unfold markEvicted
  split_ifs
  · exact .refl env inv rfl (.refl s)
  rcases transact_cases env
    (fun db => some (db.closeMany (env.now s.calls) emptied .evicted)) s with
    failed | ⟨count, db, committed, done⟩
  · rw [failed]
    exact .refl env inv rfl (.called env s)
  · obtain rfl : _ = db := congrArg Prod.snd (Option.some.inj committed)
    obtain ⟨closed, grown⟩ := inv.closeMany (env.now s.calls) emptied .evicted
    rw [done]
    exact ⟨closed, grown, fun _ => (Accounts.refl s.db).closeMany inv.toVersioned _ _, rfl,
      Nat.le_succ _⟩

theorem keeps_handleEvicted (small : env.SmallAnswers) (inv : Db.StoreInv [] s.db) {fuel : ℕ}
    {evictedTxids : List Txid}
    (h : s.handleEvicted env fuel evictedTxids = some (changes, next)) :
    Keeps env changes s next := by
  unfold handleEvicted at h
  split_ifs at h
  · exact .of_unchanged env inv h rfl (.refl s)
  -- The lookups may end the stage; after them the emptied clusters are closed and the rest is
  -- synced.
  obtain ⟨after, db_eq, later, failed | ⟨ids, found, -⟩⟩ :=
    findActiveIdsByTxids_cases env inv evictedTxids
  · rw [failed] at h
    exact .of_unchanged env inv h db_eq later
  rw [found] at h
  dsimp only at h
  split_ifs at h
  · exact .of_unchanged env inv h db_eq later
  rcases query_cases env (fun db => db.findByIds ids) after with failed | loaded
  · rw [failed] at h
    exact .of_unchanged env inv h db_eq (later.trans (.called env after))
  rw [loaded] at h
  dsimp only at h
  have calledInv : Db.StoreInv [] (after.called env).db := db_eq ▸ inv
  have closes := keeps_markEvicted env calledInv
    ((((after.db.findByIds ids).filter (touched evictedTxids)).filter fun cluster =>
      (remaining evictedTxids (after.called env).mempoolLedger.live cluster).isEmpty).map
        Cluster.id)
  split_ifs at h
  · obtain ⟨rfl, rfl⟩ := Prod.ext_iff.mp (Option.some.inj h)
    exact closes.of_eq db_eq (later.trans (.called env after))
  · obtain ⟨⟨synced, last⟩, syncs, merged⟩ := Option.map_eq_some_iff.mp h
    obtain ⟨rfl, rfl⟩ := Prod.ext_iff.mp merged
    exact (closes.of_eq db_eq (later.trans (.called env after))).merge
      (keeps_handleCandidatesCovering small closes.inv syncs)

/-! ### Rounds -/

theorem keeps_stage {txids : List Txid}
    {handle : ClusterService → Option (ClusterDeltaSet × ClusterService)}
    (inv : Db.StoreInv [] s.db)
    (keeps : handle s = some (changes, next) → Keeps env changes s next)
    (h : s.stage txids handle = some (changes, next)) : Keeps env changes s next := by
  unfold stage at h
  split_ifs at h
  · exact .of_unchanged env inv h rfl (.refl s)
  · exact keeps h

/-- What a whole round guarantees: the store stays consistent, and a snapshot
equal to the active clusters stays so, provided no later slice of a call it made fails. -/
structure RoundKeeps (env : ClusterEnv) (s next : ClusterService) : Prop where
  inv : Db.StoreInv [] next.db
  grown : s.db.Extends next.db
  agrees : env.SlicesHoldIn s.calls next.calls → s.snapshot = s.db.activeState →
    next.snapshot = next.db.activeState

theorem Keeps.publishDelta (keeps : Keeps env changes s next) :
    RoundKeeps env s (next.publishDelta changes) where
  inv := keeps.inv
  grown := keeps.grown
  agrees holds agree := by
    have published := (keeps.accounts holds).publish agree
    rwa [← keeps.later.snapshot] at published

theorem ClusterDeltaSet.mark_of_isEmpty (empty : changes.isEmpty = true) (id : ClusterId) :
    changes.mark id = none := by
  simp only [ClusterDeltaSet.isEmpty, Bool.and_eq_true, List.isEmpty_iff] at empty
  simp [ClusterDeltaSet.mark, empty]

/-- Publishing nothing can be left out. -/
theorem Keeps.skipPublish (keeps : Keeps env changes s next) (empty : changes.isEmpty = true) :
    RoundKeeps env s next where
  inv := keeps.inv
  grown := keeps.grown
  agrees holds agree := by
    funext id
    have accounted := keeps.accounts holds id
    rw [ClusterDeltaSet.mark_of_isEmpty empty] at accounted
    rw [keeps.later.snapshot, agree, accounted]
    rfl

theorem roundKeeps_syncClusters (small : env.SmallAnswers) (inv : Db.StoreInv [] s.db) {fuel : ℕ}
    {candidateTxids confirmedTxids evictedTxids : List Txid}
    (h : s.syncClusters env fuel candidateTxids confirmedTxids evictedTxids = some next) :
    RoundKeeps env s next := by
  -- The three stages in the order of the source, each keeping what the one before it left.
  simp only [syncClusters, Option.bind_eq_bind, Option.pure_def] at h
  obtain ⟨⟨confirmed, first⟩, confirms, h⟩ := Option.bind_eq_some_iff.mp h
  obtain ⟨⟨evicted, second⟩, evicts, h⟩ := Option.bind_eq_some_iff.mp h
  obtain ⟨⟨candidates, third⟩, syncs, h⟩ := Option.bind_eq_some_iff.mp h
  have afterConfirmed := keeps_stage inv (keeps_handleConfirmed small inv) confirms
  have afterEvicted := keeps_stage afterConfirmed.inv
    (keeps_handleEvicted small afterConfirmed.inv) evicts
  have afterCandidates := keeps_stage afterEvicted.inv
    (keeps_handleCandidatesCovering small afterEvicted.inv) syncs
  have start : Keeps env .default s s := .refl env inv rfl (.refl s)
  have kept := ((start.merge afterConfirmed).merge afterEvicted).merge afterCandidates
  obtain rfl := Option.some.inj h
  -- An empty change set is not published, and the snapshot stays as it is.
  split_ifs with empty
  · exact kept.skipPublish empty
  · exact kept.publishDelta

theorem roundKeeps_run (small : env.SmallAnswers) (inv : Db.StoreInv [] s.db) {fuel : ℕ}
    {round : ClusterRound} (h : round.run env fuel s = some next) : RoundKeeps env s next := by
  cases round with
  | syncClustersFor candidateTxids evictedTxids =>
    rw [ClusterRound.run] at h
    exact roundKeeps_syncClusters small inv h
  | syncClustersAfterFlush addedTxids outcome =>
    rw [ClusterRound.run] at h
    exact roundKeeps_syncClusters small inv h
  | confirmMined block =>
    rw [ClusterRound.run, confirmMined] at h
    obtain ⟨⟨changes, last⟩, inner, rfl⟩ := Option.map_eq_some_iff.mp h
    exact (keeps_confirmMinedInner small inv inner).publishDelta

end ClusterService

end MempoolObserver
