import MempoolObserver.Db.ClusterStore

/-!
# Two lookups of the active clusters by their transactions

A short list of txids is looked up among the live chunk rows, a long one through
the active clusters and the chunks of their current version. The live flag is a
copy of what status and version say, and it is in step with them in every state
the repositories reach, whatever their callers pass.

## Main definitions

* `activeIdsByLiveChunks`, `activeIdsByJoin` — the two queries
* `LiveInStep` — the live flag says what status and version say

## Main results

* `active_lookups_agree` — both queries find the active clusters with one of the
  txids, each once
-/

namespace MempoolObserver.Db

open Relation Collections

/-! ### The queries -/

/-- The form for short lists: the live chunk rows that overlap the list. -/
def activeIdsByLiveChunks (txids : List Txid) (db : Db) : List ClusterId :=
  ((db.clusterChunks.filter fun row => row.live = true ∧ ∃ txid ∈ txids, txid ∈ row.txids).map
    ClusterChunkRow.clusterId).dedup

/-- The form for long lists: the active clusters joined with the chunks of their
current version, and the members of these with the list. -/
def activeIdsByJoin (txids : List Txid) (db : Db) : List ClusterId :=
  ((List.range db.clusterSeq).flatMap fun id =>
    match db.clusters id with
    | some row =>
      if row.status = .active then
        (db.chunksOf id row.version).flatMap fun chunk =>
          chunk.txids.flatMap fun member => (txids.filter (· = member)).map fun _ => id
      else []
    | none => []).dedup

/-! ### The live flag -/

/-- The flag of a chunk row, against the row of its cluster. -/
structure FlagInStep (trimmed : Prop) (version : ℕ) (row : ClusterRow) (live : Bool) : Prop where
  bounded : version ≤ row.version
  current : live = true → row.status = .active ∧ version = row.version
  flagged : ¬ trimmed → row.status = .active → version = row.version → live = true

/-- The live flag says what status and version say, up to clusters that are being trimmed. -/
structure LiveInStep (trimmed : List ClusterId) (db : Db) : Prop where
  allocated : ∀ {id}, db.clusterSeq ≤ id → db.clusters id = none
  chunks : ∀ {id version}, ∀ chunk ∈ db.chunksOf id version, ∃ row, db.clusters id = some row ∧
    FlagInStep (id ∈ trimmed) version row chunk.live

variable {db next : Db} {now : Txid → OffsetDateTime} {trimmed : List ClusterId}

namespace LiveInStep

theorem empty : LiveInStep [] Db.empty where
  allocated _ := rfl
  chunks chunk member := by simp [chunksOf, Db.empty] at member

/-- The invariant is about the clusters and their chunks only. -/
theorem congr (inv : LiveInStep trimmed db) (same : db.SameClusters next) :
    LiveInStep trimmed next where
  allocated above := by
    rw [same.clusters]
    exact inv.allocated (same.clusterSeq ▸ above)
  chunks chunk member := by
    rw [chunksOf, same.clusterChunks] at member
    rw [same.clusters]
    exact inv.chunks chunk member

theorem insertIn (inv : LiveInStep [] db) {new : List NewCluster} {clusters : List Cluster}
    (h : db.insertIn now new = some (clusters, next)) : LiveInStep [] next := by
  obtain ⟨untaken, seq, rows, chunks⟩ := tables_insertIn h
  constructor
  · intro id above
    rw [seq] at above
    -- Ids are handed out below the new counter.
    have beyond : (fresh db.clusterSeq new).lookup id = none := by
      by_contra found
      obtain ⟨cluster, found⟩ := Option.ne_none_iff_exists'.mp found
      exact not_lt.mpr above (lookup_fresh_bounds found).2.2
    rw [rows, beyond, Option.map_none, Option.none_or]
    exact inv.allocated ((Nat.le_add_right ..).trans above)
  · intro id version chunk member
    rw [chunks, List.mem_append] at member
    rw [rows]
    -- An old chunk belongs to a stored id, which no new cluster was given.
    rcases member with old | inserted
    · obtain ⟨row, stored, inStep⟩ := inv.chunks chunk old
      have known : (fresh db.clusterSeq new).lookup id = none := by
        apply lookup_fresh_of_lt
        by_contra above
        simp [inv.allocated (not_lt.mp above)] at stored
      exact ⟨row, by rw [known, Option.map_none, Option.none_or, stored], inStep⟩
    · unfold freshChunks at inserted
      split at inserted
      · rename_i cluster found
        split_ifs at inserted with first
        · obtain ⟨-, -, live⟩ := mem_chunkRows _ _ _ _ inserted
          subst first
          refine ⟨cluster.row, by rw [found, Option.map_some, Option.some_or], le_rfl,
            fun _ => ⟨rfl, rfl⟩, fun _ _ _ => live⟩
        · cases inserted
      · cases inserted

/-- A new version takes over the flag of the one before, or it is born closed. -/
theorem replaceChunksIn (inv : LiveInStep trimmed db) {update : ClusterVersionUpdate}
    {live : Bool} {cluster : Cluster} (covered : live = true ∨ update.clusterId ∈ trimmed)
    (h : db.replaceChunksIn now update live = some (cluster, next)) : LiveInStep trimmed next := by
  obtain ⟨old, stored, ⟨-, -, rfl⟩ | ⟨active, -, replaces⟩⟩ := replaceChunksIn_cases h
  · exact inv
  constructor
  -- The counter stands still and the id written was stored before.
  · intro id above
    rw [replaces.clusterSeq] at above
    have unknown := inv.allocated above
    have other : id ≠ update.clusterId := by
      rintro rfl
      simp [unknown] at stored
    rw [replaces.clusters, if_neg other, unknown]
  · intro id version chunk member
    rw [replaces.chunksOf, List.mem_append] at member
    rw [replaces.clusters]
    by_cases here : id = update.clusterId
    · subst here
      refine ⟨update.row old, if_pos rfl, ?_⟩
      have numbered : (update.row old).version = old.version + 1 := rfl
      rcases member with before | inserted
      · -- a row of an older version, which is not live any more
        split_ifs at before with last
        · obtain ⟨-, rfl⟩ := last
          obtain ⟨row, -, rfl⟩ := List.mem_map.mp before
          exact ⟨by omega, by simp [ClusterChunkRow.retire], by omega⟩
        · obtain ⟨row, present, inStep⟩ := inv.chunks chunk before
          obtain rfl : row = old := Option.some.inj (present.symm.trans stored)
          refine ⟨by have := inStep.bounded; omega, fun isLive => ?_, ?_⟩
          · exact absurd ⟨rfl, (inStep.current isLive).2⟩ last
          · have := inStep.bounded
            omega
      -- A row just written is live unless the cluster is being trimmed.
      · split_ifs at inserted with next
        · obtain ⟨-, -, flag⟩ := mem_chunkRows _ _ _ _ inserted
          refine ⟨by omega, fun _ => ⟨active, next.2⟩, fun kept _ _ => ?_⟩
          rw [flag]
          exact covered.resolve_right kept
        · cases inserted
    · simp only [here, false_and, if_false, List.not_mem_nil, or_false] at member
      rw [if_neg here]
      exact inv.chunks chunk member

/-- Ending clusters takes the flag from their chunks. -/
theorem ends (inv : LiveInStep trimmed db) {ended : List ClusterId}
    {change : ClusterRow → ClusterRow} (ends : Ends db ended change next)
    (closes : ∀ row, (change row).status ≠ .active ∧ (change row).version = row.version)
    (all : ∀ id ∈ trimmed, db.IsActive id → id ∈ ended) : LiveInStep [] next := by
  constructor
  · intro id above
    rw [ends.clusterSeq] at above
    rw [ends.clusters, inv.allocated above, Option.map_none, ite_self]
  · intro id version chunk member
    rw [ends.chunksOf] at member
    rw [ends.clusters]
    -- A chunk of an ended cluster is retired, and its cluster is not active any more.
    split_ifs at member ⊢ with isEnded
    · obtain ⟨before, inVersion, rfl⟩ := List.mem_map.mp member
      obtain ⟨row, stored, inStep⟩ := inv.chunks before inVersion
      obtain ⟨closed, version⟩ := closes row
      refine ⟨change row, by rw [stored, Option.map_some], ?_, ?_, ?_⟩
      · rw [version]
        exact inStep.bounded
      · simp [ClusterChunkRow.retire]
      · exact fun _ active => absurd active closed
    · obtain ⟨row, stored, inStep⟩ := inv.chunks chunk member
      refine ⟨row, stored, inStep.bounded, inStep.current, fun _ active => ?_⟩
      apply inStep.flagged ?_ active
      exact fun inTrim => isEnded (all id inTrim ⟨row, stored, active⟩)

theorem confirmManyIn (inv : LiveInStep trimmed db) (closedAt : OffsetDateTime)
    {ids : List ClusterId} (all : trimmed ⊆ ids) (confirmedAt : OffsetDateTime) :
    LiveInStep [] (db.confirmManyIn closedAt ids confirmedAt).2 := by
  apply inv.ends (ends_retireChunks ..)
  · exact fun row => ⟨by simp, rfl⟩
  · exact fun id member active => (mem_activeAmong inv.allocated ids id).mpr ⟨all member, active⟩

/-- Every transaction of the repository keeps the flag in step. -/
theorem run (inv : LiveInStep [] db) {tx : ClusterTx} (h : tx.run db = some next) :
    LiveInStep [] next := by
  cases tx with
  | insert now new =>
    obtain ⟨result, inserted, rfl⟩ := Option.map_eq_some_iff.mp h
    exact inv.insertIn inserted
  | replaceChunks now update =>
    obtain ⟨result, replaced, rfl⟩ := Option.map_eq_some_iff.mp h
    exact inv.replaceChunksIn (.inl rfl) replaced
  | close closedAt ids closing =>
    cases h
    apply inv.ends (ends_closeMany closedAt ids closing db)
    · intro row
      cases closing <;> exact ⟨by simp [ClusterClosing.status], rfl⟩
    · simp
  | confirm closedAt ids confirmedAt =>
    cases h
    exact inv.confirmManyIn closedAt (List.nil_subset ids) confirmedAt
  -- Within the transaction the trimmed clusters are out of step; confirming them mends that.
  | trimAndConfirm now closedAt updates confirmedAt =>
    obtain ⟨result, trims, rfl⟩ := Option.map_eq_some_iff.mp h
    simp only [trimAndConfirmMany, Option.bind_eq_bind, Option.pure_def] at trims
    obtain ⟨mid, folded, confirms⟩ := Option.bind_eq_some_iff.mp trims
    set ids := (ClusterVersionUpdate.sortedById updates).map ClusterVersionUpdate.clusterId
    have trimmed : LiveInStep ids mid := by
      refine foldlM_option_induction ?_ ?_ folded
      · intro before update listed after kept stepped
        obtain ⟨result, replaced, rfl⟩ := Option.map_eq_some_iff.mp stepped
        exact kept.replaceChunksIn (.inr (List.mem_map_of_mem listed)) replaced
      · refine ⟨inv.allocated, fun chunk member => ?_⟩
        obtain ⟨row, stored, inStep⟩ := inv.chunks chunk member
        exact ⟨row, stored, inStep.bounded, inStep.current, fun _ => inStep.flagged (by simp)⟩
    rw [← congrArg Prod.snd (Option.some.inj confirms)]
    exact trimmed.confirmManyIn closedAt (List.Subset.refl ids) confirmedAt

end LiveInStep

/-! ### Who is clustered -/

/-- The txid is a member of an active cluster. -/
def Clustered (db : Db) (txid : Txid) : Prop := ∃ id, db.IsActive id ∧ txid ∈ db.members id

namespace LiveInStep

variable {txid : Txid}

theorem chunksOf_unstored (inv : LiveInStep trimmed db) {id : ClusterId}
    (unstored : db.clusters id = none) (version : ℕ) : db.chunksOf id version = [] := by
  apply List.eq_nil_iff_forall_not_mem.mpr
  intro chunk member
  obtain ⟨row, stored, -⟩ := inv.chunks chunk member
  simp [unstored] at stored

theorem chunksOf_unwritten (inv : LiveInStep trimmed db) {id : ClusterId} {row : ClusterRow}
    (stored : db.clusters id = some row) {version : ℕ} (above : row.version < version) :
    db.chunksOf id version = [] := by
  apply List.eq_nil_iff_forall_not_mem.mpr
  intro chunk member
  obtain ⟨found, same, inStep⟩ := inv.chunks chunk member
  obtain rfl : found = row := Option.some.inj (same.symm.trans stored)
  have bounded := inStep.bounded
  omega

/-- An insert clusters nobody but the members it is handed. -/
theorem clustered_insertIn (inv : LiveInStep trimmed db) {new : List NewCluster}
    {clusters : List Cluster} (h : db.insertIn now new = some (clusters, next))
    (clustered : next.Clustered txid) :
    txid ∈ new.flatMap NewCluster.txids ∨ db.Clustered txid := by
  obtain ⟨untaken, -, rows, chunks⟩ := tables_insertIn h
  obtain ⟨id, ⟨row, stored, active⟩, member⟩ := clustered
  rw [members_of_stored stored, chunks, List.flatMap_append] at member
  rw [rows] at stored
  -- The active cluster with the transaction is an old one or one just inserted.
  cases found : (fresh db.clusterSeq new).lookup id with
  | none =>
    rw [found, Option.map_none, Option.none_or] at stored
    have none : freshChunks db.clusterSeq new id row.version = [] := by
      rw [freshChunks, found]
    rw [none, List.flatMap_nil, List.append_nil] at member
    exact Or.inr ⟨id, ⟨row, stored, active⟩, by rwa [members_of_stored stored]⟩
  | some cluster =>
    have unstored : db.clusters id = none := by
      by_contra known
      exact untaken ⟨id, mem_allocatedIds.mpr (lookup_fresh_bounds found).2,
        Option.isSome_iff_ne_none.mpr known⟩
    rw [inv.chunksOf_unstored unstored, List.flatMap_nil, List.nil_append, List.mem_flatMap]
      at member
    obtain ⟨chunk, inserted, inChunk⟩ := member
    obtain ⟨same, located, inRows⟩ := mem_freshChunks inserted
    obtain rfl : same = cluster := Option.some.inj (located.symm.trans found)
    have handed : txid ∈ same.txids :=
      (exists_txid_chunkRows id 1 same.chunks true).mp ⟨chunk, inRows, inChunk⟩
    exact Or.inl (List.mem_flatMap.mpr ⟨same, (lookup_fresh_bounds found).1, handed⟩)

/-- A new version clusters nobody but the members it is handed. -/
theorem clustered_replaceChunksIn (inv : LiveInStep trimmed db) {update : ClusterVersionUpdate}
    {live : Bool} {cluster : Cluster}
    (h : db.replaceChunksIn now update live = some (cluster, next))
    (clustered : next.Clustered txid) : txid ∈ update.txids ∨ db.Clustered txid := by
  obtain ⟨old, stored, ⟨-, -, rfl⟩ | ⟨-, -, replaces⟩⟩ := replaceChunksIn_cases h
  · exact Or.inr clustered
  obtain ⟨id, ⟨row, present, active⟩, member⟩ := clustered
  rw [members_of_stored present, replaces.chunksOf] at member
  rw [replaces.clusters] at present
  by_cases here : id = update.clusterId
  · subst here
    rw [if_pos rfl, Option.some.injEq] at present
    subst present
    have version : (update.row old).version = old.version + 1 := rfl
    rw [version, if_neg (by omega), inv.chunksOf_unwritten stored (by omega), List.nil_append,
      if_pos ⟨rfl, rfl⟩, flatMap_txids_chunkRows] at member
    exact Or.inl member
  · rw [if_neg here] at present
    rw [if_neg fun same => here same.1, if_neg fun same => here same.1, List.append_nil] at member
    exact Or.inr ⟨id, ⟨row, present, active⟩, by rwa [members_of_stored present]⟩

end LiveInStep

/-- Ending clusters clusters nobody. -/
theorem Ends.clustered {ended : List ClusterId} {change : ClusterRow → ClusterRow}
    (ends : Ends db ended change next) (closes : ∀ row, (change row).status ≠ .active)
    {txid : Txid} (clustered : next.Clustered txid) : db.Clustered txid := by
  obtain ⟨id, ⟨row, stored, active⟩, member⟩ := clustered
  rw [members_of_stored stored, ends.chunksOf] at member
  rw [ends.clusters] at stored
  split_ifs at stored member with isEnded
  · obtain ⟨before, -, rfl⟩ := Option.map_eq_some_iff.mp stored
    exact absurd active (closes before)
  · exact ⟨id, ⟨row, stored, active⟩, by rwa [members_of_stored stored]⟩

/-! ### The states the repositories reach -/

/-- A transaction of the membership repository commits, or some other repository
writes rows without touching a cluster. -/
def RepositoryStep (db next : Db) : Prop :=
  (∃ tx : ClusterTx, tx.run db = some next) ∨ db.SameClusters next

theorem LiveInStep.reached (reached : ReflTransGen RepositoryStep Db.empty db) :
    LiveInStep [] db := by
  induction reached with
  | refl => exact .empty
  | tail _ step ih =>
    rcases step with ⟨tx, ran⟩ | same
    · exact ih.run ran
    · exact ih.congr same

section Lookups

variable {txids : List Txid} {id : ClusterId}

theorem LiveInStep.mem_activeIdsByLiveChunks (inv : LiveInStep [] db) :
    id ∈ db.activeIdsByLiveChunks txids ↔
      db.IsActive id ∧ ∃ txid ∈ txids, txid ∈ db.members id := by
  simp only [activeIdsByLiveChunks, List.mem_dedup, List.mem_map, List.mem_filter,
    decide_eq_true_eq]
  constructor
  · rintro ⟨chunk, ⟨stored, live, txid, asked, inChunk⟩, rfl⟩
    obtain ⟨row, present, inStep⟩ := inv.chunks chunk (mem_chunksOf_self stored)
    obtain ⟨active, current⟩ := inStep.current live
    refine ⟨⟨row, present, active⟩, txid, asked, ?_⟩
    rw [members_of_stored present, ← current]
    exact List.mem_flatMap.mpr ⟨chunk, mem_chunksOf_self stored, inChunk⟩
  · rintro ⟨⟨row, present, active⟩, txid, asked, member⟩
    rw [members_of_stored present] at member
    obtain ⟨chunk, inVersion, inChunk⟩ := List.mem_flatMap.mp member
    obtain ⟨found, same, inStep⟩ := inv.chunks chunk inVersion
    obtain rfl : found = row := Option.some.inj (same.symm.trans present)
    obtain ⟨stored, owner, -⟩ := (db.mem_chunksOf _ _).mp inVersion
    exact ⟨chunk, ⟨stored, inStep.flagged (by simp) active rfl, txid, asked, inChunk⟩, owner⟩

theorem LiveInStep.mem_activeIdsByJoin (inv : LiveInStep [] db) :
    id ∈ db.activeIdsByJoin txids ↔ db.IsActive id ∧ ∃ txid ∈ txids, txid ∈ db.members id := by
  simp only [activeIdsByJoin, List.mem_dedup, List.mem_flatMap, List.mem_range]
  constructor
  -- The join walks every id, its current rows and the transactions asked for.
  · rintro ⟨other, -, joined⟩
    split at joined
    · rename_i row stored
      split_ifs at joined with active
      · simp only [List.mem_flatMap, List.mem_map, List.mem_filter, decide_eq_true_eq] at joined
        obtain ⟨chunk, inVersion, member, inChunk, txid, ⟨asked, rfl⟩, rfl⟩ := joined
        refine ⟨⟨row, stored, active⟩, txid, asked, ?_⟩
        rw [members_of_stored stored]
        exact List.mem_flatMap.mpr ⟨chunk, inVersion, inChunk⟩
      · cases joined
    · cases joined
  · rintro ⟨⟨row, stored, active⟩, txid, asked, member⟩
    refine ⟨id, ?_, ?_⟩
    · by_contra above
      simp [inv.allocated (not_lt.mp above)] at stored
    · rw [members_of_stored stored] at member
      obtain ⟨chunk, inVersion, inChunk⟩ := List.mem_flatMap.mp member
      simp only [stored, active, if_true, List.mem_flatMap, List.mem_map, List.mem_filter,
        decide_eq_true_eq]
      exact ⟨chunk, inVersion, txid, inChunk, txid, ⟨asked, rfl⟩, trivial⟩

/-- A loaded cluster has the members of its current version. -/
theorem mem_txids_loaded {row : ClusterRow} (stored : db.clusters id = some row) {txid : Txid} :
    txid ∈ (Cluster.fromRow id row (db.loadChunks id row.version)).txids ↔
      txid ∈ db.members id := by
  simp [Cluster.fromRow, Cluster.txids, loadChunks, members_of_stored stored,
    ClusterChunkRow.chunk]

/-- A loaded cluster is stored. -/
theorem stored_of_mem_findByIds {ids : List ClusterId} {cluster : Cluster}
    (member : cluster ∈ db.findByIds ids) : ∃ id row, id < db.clusterSeq ∧ id ∈ ids ∧
      db.clusters id = some row ∧ cluster = .fromRow id row (db.loadChunks id row.version) := by
  obtain ⟨id, below, found⟩ := List.mem_filterMap.mp member
  split at found
  case h_1 row stored =>
    split_ifs at found with passes
    cases found
    exact ⟨id, row, List.mem_range.mp below, by simpa using passes, stored, rfl⟩
  case h_2 => cases found

/-- What the repository runs, whichever of the two forms it takes. -/
theorem LiveInStep.mem_findActiveIdsByTxids (inv : LiveInStep [] db) :
    id ∈ db.findActiveIdsByTxids txids ↔
      db.IsActive id ∧ ∃ txid ∈ txids, txid ∈ db.members id := by
  unfold findActiveIdsByTxids
  split_ifs with short
  · exact inv.mem_activeIdsByLiveChunks
  · simp only [findActive, List.mem_map, List.mem_filter, mem_loadClusters inv.allocated,
      decide_eq_true_eq]
    constructor
    · rintro ⟨cluster, ⟨⟨id, row, present, active, rfl⟩, txid, asked, member⟩, rfl⟩
      exact ⟨⟨row, present, active⟩, txid, asked, (mem_txids_loaded present).mp member⟩
    · rintro ⟨⟨row, present, active⟩, txid, asked, member⟩
      exact ⟨_,
        ⟨⟨id, row, present, active, rfl⟩, txid, asked, (mem_txids_loaded present).mpr member⟩,
        rfl⟩

/-- A cluster is loaded once. -/
theorem nodup_loadClusters (filter : ClusterId → ClusterRow → Bool) (db : Db) :
    ((db.loadClusters filter).map Cluster.id).Nodup := by
  apply List.Nodup.sublist ?_ (List.nodup_range (n := db.clusterSeq))
  apply map_filterMap_sublist
  intro id cluster found
  split at found
  · split_ifs at found
    cases found
    rfl
  · cases found

theorem nodup_findActiveIdsByTxids (txids : List Txid) (db : Db) :
    (db.findActiveIdsByTxids txids).Nodup := by
  unfold findActiveIdsByTxids
  split_ifs
  · exact List.nodup_dedup _
  · apply List.Nodup.sublist (List.filter_sublist.map Cluster.id)
    exact nodup_loadClusters _ db

/-- **Both lookups agree.** In every state that the repositories reach, the query
for short lists and the one for long lists find the active clusters whose current
chunks have one of the txids, each once; so what the lookup finds does not depend
on the length at which it goes from one to the other. -/
theorem active_lookups_agree (reached : ReflTransGen RepositoryStep Db.empty db)
    (txids : List Txid) :
    (∀ id, id ∈ db.activeIdsByLiveChunks txids ↔
      db.IsActive id ∧ ∃ txid ∈ txids, txid ∈ db.members id) ∧
    (db.activeIdsByLiveChunks txids).Nodup ∧
    (db.activeIdsByLiveChunks txids).Perm (db.activeIdsByJoin txids) ∧
    (db.findActiveIdsByTxids txids).Perm (db.activeIdsByLiveChunks txids) := by
  have inv := LiveInStep.reached reached
  have short : (db.activeIdsByLiveChunks txids).Nodup := List.nodup_dedup _
  have long : (db.activeIdsByJoin txids).Nodup := List.nodup_dedup _
  refine ⟨fun id => inv.mem_activeIdsByLiveChunks, short, ?_, ?_⟩
  · apply (List.perm_ext_iff_of_nodup short long).mpr
    intro id
    rw [inv.mem_activeIdsByLiveChunks, inv.mem_activeIdsByJoin]
  · apply (List.perm_ext_iff_of_nodup (nodup_findActiveIdsByTxids txids db) short).mpr
    intro id
    rw [inv.mem_activeIdsByLiveChunks, inv.mem_findActiveIdsByTxids]

/-- Two pairs; `b` is trimmed off the first and the second is closed. -/
def trimThenClose : List ClusterTx :=
  [.insert (fun _ => 0) [⟨[⟨["a", "b"], 30, 400⟩], 0⟩, ⟨[⟨["c", "d"], 10, 200⟩], 0⟩],
    .replaceChunks (fun _ => 1) ⟨1, [⟨["a"], 20, 200⟩]⟩,
    .close 2 [2] .evicted]

theorem reached_of_transactions {txs : List ClusterTx} {db last : Db}
    (ran : txs.foldlM ClusterTx.run db = some last) : ReflTransGen RepositoryStep db last := by
  refine foldlM_option_induction (motive := ReflTransGen RepositoryStep db) ?_ .refl ran
  intro before tx _ after reached committed
  exact reached.tail (.inl ⟨tx, committed⟩)

/-- Neither lookup finds a cluster by a member that it lost, nor the closed one. -/
theorem pair_lookups_agree : ∃ db, ReflTransGen RepositoryStep Db.empty db ∧
    trimThenClose.foldlM ClusterTx.run Db.empty = some db ∧
    db.activeIdsByLiveChunks ["d", "b", "a"] = [1] ∧ db.activeIdsByLiveChunks ["d", "b"] = [] ∧
    (db.activeIdsByLiveChunks ["d", "b", "a"]).Perm (db.activeIdsByJoin ["d", "b", "a"]) ∧
    (db.findActiveIdsByTxids ["d", "b"]).Perm [] := by
  have found : (trimThenClose.foldlM ClusterTx.run Db.empty).map (fun db =>
      (db.activeIdsByLiveChunks ["d", "b", "a"], db.activeIdsByLiveChunks ["d", "b"])) =
      some ([1], []) := by decide +kernel
  obtain ⟨db, ran, found⟩ := Option.map_eq_some_iff.mp found
  simp only [Prod.mk.injEq] at found
  obtain ⟨one, lost⟩ := found
  have reached := reached_of_transactions ran
  refine ⟨db, reached, ran, one, lost, ?_, ?_⟩
  · exact (active_lookups_agree reached ["d", "b", "a"]).2.2.1
  · exact lost ▸ (active_lookups_agree reached ["d", "b"]).2.2.2

end Lookups

end MempoolObserver.Db
