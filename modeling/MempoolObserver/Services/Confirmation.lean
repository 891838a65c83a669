import MempoolObserver.Services.ClusterCommits

/-!
# Confirming a block when no call fails

While no call of it fails, confirming a block closes every active
cluster the block mined something of: whole clusters as they are, the others
trimmed to what the block mined. Whoever the block mined is in no active cluster
afterwards, and the rest of a trimmed cluster is asked about.

## Main results

* `ClusterService.confirmMinedInner_of_holds` — the two halves of it
-/

namespace MempoolObserver

open Relation Collections

namespace ClusterService

variable {env : ClusterEnv} {s mid next : ClusterService} {changes : ClusterDeltaSet} {fuel : ℕ}
  {block : MinedBlock}

/-! ### Closed clusters -/

section Closings

variable {db trimmed last : Db} {ids more : List ClusterId}

theorem Without.append (first : Without db ids trimmed) (second : Without trimmed more last) :
    Without db (ids ++ more) last := by
  constructor
  · intro id
    rw [second.isActive, first.isActive, List.mem_append]
    tauto
  · intro id absent
    obtain ⟨inFirst, inSecond⟩ := not_or.mp (mt List.mem_append.mpr absent)
    exact (second.members id inSecond).trans (first.members id inFirst)

theorem without_confirmManyIn (inv : db.Versioned) (ids : List ClusterId)
    (closedAt confirmedAt : OffsetDateTime) :
    Without db ids (db.confirmManyIn closedAt ids confirmedAt).2 := by
  have ends := Db.ends_confirmManyIn closedAt ids confirmedAt db
  have among (id : ClusterId) := Db.mem_activeAmong inv.allocated ids id
  constructor
  · intro id
    rw [ends.isActive_iff ClusterStatus.noConfusion fun _ => rfl, among]
    tauto
  · intro id absent
    apply ends.members_eq
    exact fun member => absent ((among id).mp member).1

/-- The clusters trimmed end closed, and nobody else is touched. -/
theorem without_trims (trims : Db.Trims db ids trimmed) (closedAt confirmedAt : OffsetDateTime) :
    Without db ids (trimmed.confirmManyIn closedAt ids confirmedAt).2 := by
  have confirms := without_confirmManyIn trims.inv.toVersioned ids closedAt confirmedAt
  constructor
  · intro id
    rw [confirms.isActive]
    refine and_congr_left fun kept => ⟨fun active => (trims.shrunk id active).1, fun active => ?_⟩
    obtain ⟨row, stored, isActive⟩ := active
    exact ⟨row, (trims.others id kept).1.trans stored, isActive⟩
  · intro id kept
    rw [confirms.members id kept]
    exact Db.members_congr (trims.others id kept).1 (trims.others id kept).2

/-- The members of closed clusters are in none. -/
theorem Without.apart {txid : Txid} (without : Without db ids last)
    (covers : ∀ id, db.IsActive id → txid ∈ db.members id → id ∈ ids) (other : Txid) :
    ¬ last.Together txid other := by
  intro together
  obtain ⟨id, kept, active, member, -⟩ := without.together.mp together
  exact kept (covers id active member)

end Closings

/-! ### The clusters of a block -/

theorem findByIds_nil {db : Db} (inv : db.Versioned) : db.findByIds [] = [] := by
  apply List.eq_nil_iff_forall_not_mem.mpr
  intro cluster member
  obtain ⟨id, row, -, inIds, -⟩ := inv.mem_findByIds.mp member
  cases inIds

/-- No call between `s` and `next` fails. -/
def Holds (env : ClusterEnv) (s next : ClusterService) : Prop :=
  ∀ call, s.calls ≤ call → call < next.calls → env.fails call 0 = false

theorem Holds.first (holds : Holds env s next) (called : s.calls < next.calls) :
    ¬ env.fails s.calls 0 = true := by
  rw [holds s.calls le_rfl called]
  exact Bool.false_ne_true

theorem Holds.within {first last : ClusterService} (holds : Holds env s next)
    (later : s.calls ≤ first.calls) (earlier : last.calls ≤ next.calls) :
    Holds env first last :=
  fun call above before => holds call (later.trans above) (before.trans_le earlier)

theorem holds_of_reliable (reliable : env.Reliable) (s next : ClusterService) :
    Holds env s next :=
  fun call _ _ => reliable call 0

/-- Every active cluster with a txid of the list is found. -/
theorem findActiveClustersContaining_of_holds (inv : Db.StoreInv [] s.db) {txids : List Txid}
    (holds : Holds env s (s.findActiveClustersContaining env txids).2) :
    (s.findActiveClustersContaining env txids).1 =
      s.db.findByIds (s.db.findActiveIdsByTxids txids) := by
  unfold findActiveClustersContaining findActiveIdsByTxids at holds ⊢
  by_cases nobody : txids = []
  · have none : s.db.findActiveIdsByTxids txids = [] := by
      apply List.eq_nil_iff_forall_not_mem.mpr
      intro id member
      simpa [nobody] using (inv.mem_findActiveIdsByTxids.mp member).2
    rw [if_pos nobody, none, findByIds_nil inv.toVersioned]
    rfl
  · rw [if_neg nobody] at holds ⊢
    have lookup : env.fails s.calls 0 = false := by
      refine eq_false_of_ne_true fun failed => ?_
      rw [query_of_failed failed] at holds
      exact holds.first (Nat.lt_succ_self _) failed
    rw [query_of_holds lookup] at holds ⊢
    dsimp only at holds ⊢
    split_ifs at holds ⊢ with none
    · rw [none, findByIds_nil inv.toVersioned]
    · have load : env.fails (s.called env).calls 0 = false := by
        refine eq_false_of_ne_true fun failed => ?_
        rw [query_of_failed failed] at holds
        exact (holds.within (Nat.le_succ _) le_rfl).first (Nat.lt_succ_self _) failed
      rw [query_of_holds load]
      rfl

theorem findActiveClustersContaining_of_reliable (reliable : env.Reliable)
    (inv : Db.StoreInv [] s.db) (txids : List Txid) :
    (s.findActiveClustersContaining env txids).1 =
      s.db.findByIds (s.db.findActiveIdsByTxids txids) :=
  findActiveClustersContaining_of_holds inv (holds_of_reliable reliable _ _)

theorem confirmFull_of_holds (inv : Db.StoreInv [] s.db) {confirmedAt : OffsetDateTime}
    {full : List Cluster} (holds : Holds env s (s.confirmFull env confirmedAt full).2) :
    Without s.db (full.map Cluster.id) (s.confirmFull env confirmedAt full).2.db := by
  unfold confirmFull at holds ⊢
  dsimp only at holds ⊢
  split_ifs at holds ⊢ with none
  · rw [none]
    exact ⟨by simp, fun _ _ => rfl⟩
  · have commits : env.fails s.calls 0 = false := by
      refine eq_false_of_ne_true fun failed => ?_
      rw [transact_of_failed failed] at holds
      exact holds.first (Nat.lt_succ_self _) failed
    rw [transact_of_holds commits rfl]
    exact without_confirmManyIn inv.toVersioned ..

/-- A cluster with members is stored. -/
theorem Loaded.isSome {db : Db} {cluster : Cluster} (loaded : Loaded block db cluster) :
    (db.clusters cluster.id).isSome = true := by
  obtain ⟨txid, member, -⟩ := loaded.mined
  rw [loaded.members] at member
  by_contra unstored
  rw [Option.not_isSome_iff_eq_none] at unstored
  simp [Db.members, Db.current, unstored] at member

/-- The clusters mined in part are trimmed and closed, and the rest of their
members asked about. -/
theorem confirmPartial_of_holds (inv : Db.StoreInv [] s.db)
    {partly : List Cluster} (loaded : ∀ cluster ∈ partly, Loaded block s.db cluster)
    (h : s.confirmPartial env fuel block partly = some (changes, next))
    (holds : Holds env s next) :
    partly = [] ∧ next = s ∨
      ∃ after synced, Silent env s after ∧ Db.StoreInv [] after.db ∧
        Without s.db (partly.map Cluster.id) after.db ∧
        after.handleCandidates env fuel ((partly.map fun cluster =>
          MinedTrim.new cluster block).flatMap MinedTrim.pending) = some (synced, next) ∧
        ∃ count, s.db.trimAndConfirmMany (env.call s.calls).now (env.now s.calls)
          ((partly.map fun cluster => MinedTrim.new cluster block).map MinedTrim.asUpdate)
          block.confirmedAt = some (count, after.db) := by
  unfold confirmPartial at h
  -- Nothing partly mined: the stage returns at once.
  split_ifs at h with none
  · cases h
    exact .inl ⟨none, rfl⟩
  right
  -- Each update keeps part of a stored cluster, so the transaction commits.
  have updates : ∀ update ∈ (partly.map fun cluster => MinedTrim.new cluster block).map
      MinedTrim.asUpdate, (update.chunks ≠ [] ∧ update.chunks.length ≤ maxChunks ∧
        update.txids ⊆ s.db.members update.clusterId) ∧
        (s.db.clusters update.clusterId).isSome = true := by
    intro update member
    obtain ⟨trim, inTrims, rfl⟩ := List.mem_map.mp member
    obtain ⟨cluster, inPartly, rfl⟩ := List.mem_map.mp inTrims
    exact ⟨asUpdate_of_loaded (loaded cluster inPartly), (loaded cluster inPartly).isSome⟩
  have nonempty := fun update member => (updates update member).1.1
  have fits := fun update member => (updates update member).1.2.1
  have within := fun update member => (updates update member).1.2.2
  have commits : (s.db.trimAndConfirmMany (env.call s.calls).now (env.now s.calls)
      ((partly.map fun cluster => MinedTrim.new cluster block).map MinedTrim.asUpdate)
      block.confirmedAt).isSome = true :=
    Db.trimAndConfirmMany_isSome (env.now s.calls) block.confirmedAt inv nonempty fits within
      fun update member => (updates update member).2
  obtain ⟨⟨count, db⟩, committed⟩ := Option.isSome_iff_exists.mp commits
  have silent := silent_trimAndConfirmMany env ((partly.map fun cluster =>
    MinedTrim.new cluster block).map MinedTrim.asUpdate) block.confirmedAt s
  dsimp only at h
  have trims : env.fails s.calls 0 = false := by
    refine eq_false_of_ne_true fun failed => ?_
    rw [transact_of_failed failed] at h
    cases h
    exact holds.first (Nat.lt_succ_self _) failed
  rw [transact_of_holds trims committed] at h silent
  obtain ⟨⟨synced, last⟩, handled, done⟩ := Option.map_eq_some_iff.mp h
  cases done
  obtain ⟨ids, trimmed, listed, trims, rfl⟩ :=
    Db.trims_trimAndConfirmMany inv nonempty fits within committed
  refine ⟨_, synced, silent, (inv.trimAndConfirmMany nonempty fits within committed).1, ?_,
    handled, count, committed⟩
  have closes := without_trims trims (env.now s.calls) block.confirmedAt
  -- The clusters trimmed are those that were handed in.
  have same (id : ClusterId) : id ∈ partly.map Cluster.id ↔ id ∈ ids := by
    rw [listed]
    simp [MinedTrim.new, MinedTrim.asUpdate]
  constructor
  · intro id
    rw [same]
    exact closes.isActive id
  · intro id kept
    exact closes.members id (mt (same id).mpr kept)

/-- Confirming a block closes the active clusters it mined something of, and then
at most asks about the rest of their members. -/
theorem confirmMinedInner_of_holds (inv : Db.StoreInv [] s.db)
    (h : s.confirmMinedInner env fuel block = some (changes, next)) (holds : Holds env s next) :
    ∃ after, Silent env s after ∧ Db.StoreInv [] after.db ∧
      (∃ ids, Without s.db ids after.db) ∧
      (∀ txid ∈ block.txids, ∀ other, ¬ after.db.Together txid other) ∧
      (next = after ∨ ∃ pending synced,
        after.handleCandidates env fuel pending = some (synced, next)) := by
  obtain ⟨⟨trimmed, last⟩, partly, done⟩ := Option.map_eq_some_iff.mp h
  cases done
  obtain ⟨db_eq, -, loaded⟩ := loaded_findActiveClustersContaining env inv block
  have looks : Silent env s (s.findActiveClustersContaining env block.txids).2 :=
    silent_findActiveClustersContaining ..
  have confirms := silent_confirmFull env block.confirmedAt
    ((s.findActiveClustersContaining env block.txids).1.filter (isFull block))
    (s.findActiveClustersContaining env block.txids).2
  have moves := moves_confirmPartial partly
  have found := findActiveClustersContaining_of_holds inv
    (holds.within le_rfl (confirms.calls.trans moves.calls))
  set clusters := (s.findActiveClustersContaining env block.txids).1
  set lookedUp := (s.findActiveClustersContaining env block.txids).2
  have lookedUpInv : Db.StoreInv [] lookedUp.db := db_eq ▸ inv
  obtain ⟨keeps, loadedStill⟩ := keeps_confirmFull_loaded env inv block
  have full := confirmFull_of_holds lookedUpInv (holds.within looks.calls moves.calls)
  set confirmed := (lookedUp.confirmFull env block.confirmedAt
    (clusters.filter (isFull block))).2
  rw [db_eq] at full
  -- every cluster with a txid of the block is among those looked up
  have covers {txid : Txid} (mined : txid ∈ block.txids) (id : ClusterId)
      (active : s.db.IsActive id) (member : txid ∈ s.db.members id) :
      id ∈ (clusters.filter (isFull block)).map Cluster.id ∨
        id ∈ (clusters.filter (!isFull block ·)).map Cluster.id := by
    have inIds := inv.mem_findActiveIdsByTxids.mpr ⟨active, txid, mined, member⟩
    have inFound := id_mem_findByIds inv.toVersioned active inIds
    rw [← found] at inFound
    obtain ⟨cluster, inClusters, rfl⟩ := List.mem_map.mp inFound
    by_cases whole : isFull block cluster = true
    · exact .inl (List.mem_map_of_mem (List.mem_filter.mpr ⟨inClusters, whole⟩))
    · exact .inr (List.mem_map_of_mem (List.mem_filter.mpr ⟨inClusters, by simpa using whole⟩))
  rcases confirmPartial_of_holds keeps.inv loadedStill partly
    (holds.within (looks.calls.trans confirms.calls) le_rfl) with
    ⟨none, rfl⟩ | ⟨after, synced, trims, afterInv, without, handled, -⟩
  · refine ⟨_, looks.trans confirms, keeps.inv, ⟨_, full⟩, ?_, .inl rfl⟩
    intro txid mined
    apply full.apart
    intro id active member
    apply (covers mined id active member).resolve_right
    rw [none]
    exact List.not_mem_nil
  · refine ⟨after, (looks.trans confirms).trans trims, afterInv, ⟨_, full.append without⟩, ?_,
      .inr ⟨_, synced, handled⟩⟩
    intro txid mined
    apply (full.append without).apart
    intro id active member
    exact List.mem_append.mpr (covers mined id active member)

end ClusterService

/-! ### The blocks of mined transactions -/

/-- A stored transaction is mined by a stored block. -/
def Db.ConfirmedStored (db : Db) : Prop :=
  ∀ txid, db.isConfirmed txid = true →
    ∃ hash ∈ db.blocks.map Block.hash, (db.confirmation txid).2 = some hash

/-- The block that some mined transactions make up. -/
def MinedBlock.ofRows (mined : List (Txid × Transaction × Int × OffsetDateTime))
    (confirmedAt : OffsetDateTime) : MinedBlock where
  txids := mined.map Prod.fst
  fees txid := (mined.find? fun row => row.1 = txid).bind fun row => row.2.1.fee
  weights txid := (mined.find? fun row => row.1 = txid).map fun row => row.2.1.weight
  confirmedAt := confirmedAt

/-- A mined txid among those looked up is in one of the blocks. -/
theorem MinedBlock.mem_byBlock {db : Db} (stored : db.ConfirmedStored) {txids : List Txid}
    {txid : Txid} (member : txid ∈ txids) (confirmed : db.isConfirmed txid = true) :
    ∃ block ∈ MinedBlock.byBlock (db.findMinedByTxids txids), txid ∈ block.txids := by
  -- A confirmed transaction names a block, and that block is stored.
  obtain ⟨hash, inBlocks, known⟩ := stored txid confirmed
  obtain ⟨row, present, atBlock⟩ := Option.bind_eq_some_iff.mp known
  obtain ⟨block, found⟩ := Option.isSome_iff_exists.mp (show
      (db.blocks.find? fun block => block.hash = hash).isSome = true by
    obtain ⟨block, listed, rfl⟩ := List.mem_map.mp inBlocks
    exact List.find?_isSome.mpr ⟨block, listed, by simp⟩)
  have inRows : (txid, row, block.height, block.minedAt) ∈ db.findMinedByTxids txids := by
    apply List.mem_filterMap.mpr
    exact ⟨txid, List.mem_dedup.mpr member, by simp [present, atBlock, found]⟩
  -- The rows of the block are those that carry its key, and this one is among them.
  set rows := db.findMinedByTxids txids
  set mined := rows.filter fun row => minedKey row = some (block.height, hash) with mined_eq
  have inMined : (txid, row, block.height, block.minedAt) ∈ mined :=
    List.mem_filter.mpr ⟨inRows, by simp [minedKey, atBlock]⟩
  obtain ⟨first, isFirst⟩ : ∃ first, mined.head? = some first :=
    Option.isSome_iff_exists.mp (List.isSome_head?.mpr (List.ne_nil_of_mem inMined))
  refine ⟨.ofRows mined first.2.2.2, List.mem_filterMap.mpr ⟨(block.height, hash), ?_, ?_⟩, ?_⟩
  · rw [List.mem_insertionSort, List.mem_dedup]
    exact List.mem_filterMap.mpr ⟨_, inRows, by simp [minedKey, atBlock]⟩
  · change mined.head?.map _ = _
    rw [isFirst]
    rfl
  · exact List.mem_map.mpr ⟨_, inMined, rfl⟩

end MempoolObserver
