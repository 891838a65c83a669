import MempoolObserver.Db.ClusterLinks

/-!
# The cluster transactions keep the store consistent

What the invariant asks of a caller is only that a group it hands over is not
empty, fits the position column, and shares no member with another active cluster.

## Main results

* `StoreInv.insertIn`, `StoreInv.replaceChunksIn`, `StoreInv.closeMany`,
  `StoreInv.confirmManyIn`, `StoreInv.trimAndConfirmMany` — membership stays consistent
-/

namespace MempoolObserver.Db

open Collections

variable {db next : Db} {now : Txid → OffsetDateTime}

/-! ### The transactions -/

section Transactions

variable {new : List NewCluster} {update : ClusterVersionUpdate} {clusters : List Cluster}
  {cluster : Cluster} {live : Bool} {trimmed : List ClusterId}

theorem StoreInv.insertIn (inv : StoreInv trimmed db)
    (nonempty : ∀ cluster ∈ new, cluster.chunks ≠ [])
    (small : ∀ cluster ∈ new, cluster.chunks.length ≤ maxChunks)
    (disjoint : new.Pairwise fun a b => ∀ txid ∈ a.txids, txid ∉ b.txids)
    (apart : ∀ cluster ∈ new, ∀ txid ∈ cluster.txids, ∀ id, db.IsActive id → txid ∉ db.members id)
    (h : db.insertIn now new = some (clusters, next)) :
    StoreInv trimmed next ∧ Extends db next := by
  obtain ⟨-, ins⟩ := inserts_insertIn inv.toVersioned h
  exact ⟨ins.storeInv inv nonempty small disjoint apart, ins.toExtends inv.toVersioned⟩

theorem StoreInv.replaceChunksIn (inv : StoreInv trimmed db) (nonempty : update.chunks ≠ [])
    (small : update.chunks.length ≤ maxChunks)
    (apart : ∀ txid ∈ update.txids, ∀ id, id ≠ update.clusterId → db.IsActive id →
      txid ∉ db.members id)
    (closed : live = false → update.clusterId ∈ trimmed)
    (h : db.replaceChunksIn now update live = some (cluster, next)) :
    StoreInv trimmed next ∧ Extends db next := by
  obtain ⟨old, stored, ⟨-, -, rfl⟩ | ⟨active, -, rep⟩⟩ := replaceChunksIn_cases h
  · exact ⟨inv, .refl next⟩
  · exact ⟨rep.storeInv inv stored active nonempty small apart closed,
      rep.toExtends inv.toVersioned stored⟩

theorem Versioned.closeMany (inv : Versioned db) (closedAt : OffsetDateTime) (ids : List ClusterId)
    (closing : ClusterClosing) : Versioned (db.closeMany closedAt ids closing).2 :=
  (ends_closeMany ..).versioned inv (fun _ => rfl) (fun _ => rfl) (fun _ => rfl)

theorem Versioned.confirmManyIn (inv : Versioned db) (closedAt : OffsetDateTime)
    (ids : List ClusterId) (confirmedAt : OffsetDateTime) :
    Versioned (db.confirmManyIn closedAt ids confirmedAt).2 :=
  (ends_confirmManyIn ..).versioned inv (fun _ => rfl) (fun _ => rfl) (fun _ => rfl)

theorem ClusterClosing.status_ne_active (closing : ClusterClosing) :
    closing.status ≠ .active ∧ closing.status ≠ .confirmed := by
  cases closing <;> simp [ClusterClosing.status]

theorem StoreInv.closeMany (inv : StoreInv trimmed db) (closedAt : OffsetDateTime)
    (ids : List ClusterId) (closing : ClusterClosing) :
    StoreInv trimmed (db.closeMany closedAt ids closing).2 ∧
      Extends db (db.closeMany closedAt ids closing).2 := by
  obtain ⟨inactive, unconfirmed⟩ := ClusterClosing.status_ne_active closing
  refine ⟨(ends_closeMany ..).storeInv inv (inv.toVersioned.closeMany ..) inactive (fun _ => rfl) ?_
    fun id member _ => .inr member, (ends_closeMany ..).toExtends⟩
  intro txid id
  rw [link_closeMany]
  split_ifs with unlinked
  · obtain ⟨other, member, linked⟩ := unlinked
    simp only [linked, Option.some.injEq, false_iff]
    rintro ⟨rfl, confirmed⟩
    exact unconfirmed (confirmed member)
  · constructor
    · exact fun linked => ⟨linked, fun member => absurd ⟨id, member, linked⟩ unlinked⟩
    · exact fun kept => kept.1

/-- Confirming clusters settles the ones that were being trimmed. -/
theorem StoreInv.confirmManyIn (ids : List ClusterId) (inv : StoreInv trimmed db)
    (covered : ∀ id ∈ trimmed, id ∈ ids) (closedAt confirmedAt : OffsetDateTime) :
    StoreInv [] (db.confirmManyIn closedAt ids confirmedAt).2 ∧
      Extends db (db.confirmManyIn closedAt ids confirmedAt).2 := by
  refine ⟨(ends_confirmManyIn ..).storeInv inv (inv.toVersioned.confirmManyIn ..)
    (show ClusterStatus.confirmed ≠ .active by simp) (fun _ => rfl)
      (by simp [link_confirmManyIn]) ?_,
    (ends_confirmManyIn ..).toExtends⟩
  intro id member active
  exact .inl ((mem_activeAmong inv.allocated _ _).mpr ⟨covered id member, active⟩)

theorem StoreInv.mono {more : List ClusterId} (inv : StoreInv trimmed db)
    (subset : trimmed ⊆ more) : StoreInv more db :=
  { inv with live_of_active := fun untrimmed => inv.live_of_active fun member =>
      untrimmed (subset member) }

/-- What trimming the clusters in `ids` leaves, before they are confirmed. -/
structure Trims (db : Db) (ids : List ClusterId) (trimmed : Db) : Prop where
  inv : StoreInv ids trimmed
  grown : Extends db trimmed
  shrunk : ∀ id, trimmed.IsActive id → db.IsActive id ∧ trimmed.members id ⊆ db.members id
  others : ∀ id, id ∉ ids → trimmed.clusters id = db.clusters id ∧
    trimmed.chunksOf id = db.chunksOf id

/-- Trimming one more cluster only takes members away from it, so groups that
were apart stay apart. -/
theorem Trims.replaceChunksIn {ids : List ClusterId} {before after : Db} (inv : StoreInv [] db)
    (trims : Trims db ids before) (member : update.clusterId ∈ ids) (nonempty : update.chunks ≠ [])
    (small : update.chunks.length ≤ maxChunks)
    (within : update.txids ⊆ db.members update.clusterId)
    (h : before.replaceChunksIn now update false = some (cluster, after)) : Trims db ids after := by
  -- A cluster that is no longer active is skipped, the others are rewritten.
  obtain ⟨old, stored, ⟨-, -, rfl⟩ | ⟨active, -, rep⟩⟩ := replaceChunksIn_cases h
  · exact trims
  · have wasActive := (trims.shrunk _ ⟨old, stored, active⟩).1
    have apart : ∀ txid ∈ update.txids, ∀ id, id ≠ update.clusterId → before.IsActive id →
        txid ∉ before.members id := by
      intro txid inUpdate id other isActive inOther
      obtain ⟨otherActive, subset⟩ := trims.shrunk id isActive
      -- The update stays within members the cluster had at the start, and these no other cluster
      -- had.
      exact other (inv.unique otherActive wasActive txid (subset inOther) (within inUpdate))
    refine ⟨rep.storeInv trims.inv stored active nonempty small apart fun _ => member,
      trims.grown.trans (rep.toExtends trims.inv.toVersioned stored), fun id isActive => ?_,
      fun id outside => ?_⟩
    · rw [rep.isActive_iff stored] at isActive
      obtain ⟨otherActive, subset⟩ := trims.shrunk id isActive
      refine ⟨otherActive, ?_⟩
      by_cases other : id = update.clusterId
      · subst other
        rwa [rep.members_self trims.inv.toVersioned stored]
      · rwa [rep.members_other other]
    · have other : id ≠ update.clusterId := fun same => outside (same ▸ member)
      rw [rep.clusters_other other, rep.chunksOf_other other]
      exact trims.others id outside

/-- `trimAndConfirmMany` trims every cluster it is given and then confirms them all. -/
theorem trims_trimAndConfirmMany {updates : List ClusterVersionUpdate}
    {closedAt confirmedAt : OffsetDateTime} {count : ℕ} (inv : StoreInv [] db)
    (nonempty : ∀ update ∈ updates, update.chunks ≠ [])
    (small : ∀ update ∈ updates, update.chunks.length ≤ maxChunks)
    (within : ∀ update ∈ updates, update.txids ⊆ db.members update.clusterId)
    (h : db.trimAndConfirmMany now closedAt updates confirmedAt = some (count, next)) :
    ∃ ids trimmed, (∀ id, id ∈ ids ↔ ∃ update ∈ updates, update.clusterId = id) ∧
      Trims db ids trimmed ∧ next = (trimmed.confirmManyIn closedAt ids confirmedAt).2 := by
  simp only [Db.trimAndConfirmMany, Option.bind_eq_bind, Option.pure_def] at h
  obtain ⟨trimmed, folded, h⟩ := Option.bind_eq_some_iff.mp h
  have inUpdates (update : ClusterVersionUpdate) :
      update ∈ ClusterVersionUpdate.sortedById updates ↔ update ∈ updates := by
    rw [ClusterVersionUpdate.sortedById, List.mem_insertionSort]
  refine ⟨(ClusterVersionUpdate.sortedById updates).map ClusterVersionUpdate.clusterId, trimmed,
    fun id => by simp [inUpdates], ?_, (congrArg Prod.snd (Option.some.inj h)).symm⟩
  -- The fold over the updates keeps what a trim preserves, one rewrite at a time.
  refine foldlM_option_induction ?_ ⟨inv.mono (List.nil_subset _), .refl db,
    fun id active => ⟨active, List.Subset.refl _⟩, fun id _ => ⟨rfl, rfl⟩⟩ folded
  intro before update member after trims replaced
  obtain ⟨⟨cluster, _⟩, found, rfl⟩ := Option.map_eq_some_iff.mp replaced
  have inBefore := (inUpdates update).mp member
  exact trims.replaceChunksIn inv (List.mem_map_of_mem member) (nonempty update inBefore)
    (small update inBefore) (within update inBefore) found

theorem StoreInv.trimAndConfirmMany {updates : List ClusterVersionUpdate}
    {closedAt confirmedAt : OffsetDateTime} {count : ℕ} (inv : StoreInv [] db)
    (nonempty : ∀ update ∈ updates, update.chunks ≠ [])
    (small : ∀ update ∈ updates, update.chunks.length ≤ maxChunks)
    (within : ∀ update ∈ updates, update.txids ⊆ db.members update.clusterId)
    (h : db.trimAndConfirmMany now closedAt updates confirmedAt = some (count, next)) :
    StoreInv [] next ∧ Extends db next := by
  obtain ⟨ids, trimmed, -, trims, rfl⟩ := trims_trimAndConfirmMany inv nonempty small within h
  obtain ⟨confirmed, closed⟩ :=
    trims.inv.confirmManyIn ids (fun _ member => member) closedAt confirmedAt
  exact ⟨confirmed, trims.grown.trans closed⟩

end Transactions

/-! ### Nothing the service stores is rejected -/

/-- The keys of one version's rows, when they fit the position column. -/
theorem map_key_chunkRows {id : ClusterId} {version : ℕ} {chunks : List ClusterChunk} {live : Bool}
    (small : chunks.length ≤ maxChunks) :
    (chunkRows id version chunks live).map ClusterChunkRow.key =
      (List.range chunks.length).map fun position : ℕ => (id, version, (position : ℤ)) := by
  refine List.ext_getElem (by simp) fun position inRows _ => ?_
  have bound : position < maxChunks := by
    rw [List.length_map, length_chunkRows] at inRows
    omega
  simp [chunkRows, ClusterChunkRow.key, toI16_eq bound]

theorem nodup_key_chunkRows {id : ClusterId} {version : ℕ} {chunks : List ClusterChunk}
    {live : Bool} (small : chunks.length ≤ maxChunks) :
    ((chunkRows id version chunks live).map ClusterChunkRow.key).Nodup := by
  rw [map_key_chunkRows small]
  refine List.nodup_range.map fun first second same => ?_
  have positions : (first : ℤ) = second := congrArg (fun key => key.2.2) same
  exact_mod_cast positions

/-- Rows of versions the table does not have yet are accepted. -/
theorem insertChunks_isSome (db : Db) (rows : List ClusterChunkRow)
    (keys : (db.clusterChunks.map ClusterChunkRow.key).Nodup)
    (distinct : (rows.map ClusterChunkRow.key).Nodup)
    (untaken : ∀ row ∈ rows, db.chunksOf row.clusterId row.version = []) :
    (db.insertChunks rows).isSome = true := by
  unfold insertChunks
  rw [if_pos]
  · rfl
  rw [List.map_append, List.nodup_append]
  refine ⟨keys, distinct, ?_⟩
  rintro _ inTable _ inRows rfl
  obtain ⟨old, stored, old_eq⟩ := List.mem_map.mp inTable
  obtain ⟨row, member, row_eq⟩ := List.mem_map.mp inRows
  have same : old.key = row.key := old_eq.trans row_eq.symm
  simp only [ClusterChunkRow.key, Prod.mk.injEq] at same
  have present := mem_chunksOf_self stored
  rw [same.1, same.2.1, untaken row member] at present
  simp at present

theorem nodup_key_fresh {seq : ℕ} {new : List NewCluster}
    (small : ∀ cluster ∈ new, cluster.chunks.length ≤ maxChunks) :
    (((fresh seq new).flatMap fun inserted =>
      chunkRows inserted.1 1 inserted.2.chunks true).map ClusterChunkRow.key).Nodup := by
  rw [List.map_flatMap, List.nodup_flatMap]
  constructor
  · intro inserted member
    exact nodup_key_chunkRows (small inserted.2 (List.of_mem_zip member).2)
  · have ids : (fresh seq new).Pairwise fun a b => a.1 ≠ b.1 := by
      have distinct : ((fresh seq new).map Prod.fst).Nodup := by
        rw [fresh, List.map_fst_zip (by simp [allocatedIds])]
        exact nodup_allocatedIds
      exact List.pairwise_map.mp distinct
    refine ids.imp fun differ => ?_
    rintro key inFirst inSecond
    obtain ⟨first, inRows, rfl⟩ := List.mem_map.mp inFirst
    obtain ⟨second, inOther, same⟩ := List.mem_map.mp inSecond
    have owner := (mem_chunkRows _ _ _ _ inRows).1
    have other := (mem_chunkRows _ _ _ _ inOther).1
    simp only [ClusterChunkRow.key, Prod.mk.injEq] at same
    exact differ (owner.symm.trans (same.1.symm.trans other))

/-- An insert is never rejected: its ids are new. -/
theorem insertIn_isSome (now : Txid → OffsetDateTime) (inv : Versioned db) {new : List NewCluster}
    (small : ∀ cluster ∈ new, cluster.chunks.length ≤ maxChunks) :
    (db.insertIn now new).isSome = true := by
  have unowned : ∀ id ∈ allocatedIds db.clusterSeq new.length, db.clusters id = none :=
    fun id member => inv.allocated (mem_allocatedIds.mp member).1
  unfold insertIn
  dsimp only
  rw [if_neg (by rintro ⟨id, member, stored⟩; simp [unowned id member] at stored)]
  have accepted := insertChunks_isSome { db with
      clusterSeq := db.clusterSeq + new.length
      clusters := fun id => (((fresh db.clusterSeq new).lookup id).map NewCluster.row).or
        (db.clusters id) } _ inv.keys (nodup_key_fresh small) (by
    intro row member
    obtain ⟨⟨id, cluster⟩, inFresh, inRows⟩ := List.mem_flatMap.mp member
    obtain ⟨owner, -, -⟩ := mem_chunkRows _ _ _ _ inRows
    rw [owner]
    exact inv.owned (unowned id (List.of_mem_zip inFresh).1) _)
  obtain ⟨withChunks, inserted⟩ := Option.isSome_iff_exists.mp accepted
  rw [inserted]
  rfl

/-- A new version is never rejected. -/
theorem replaceChunksIn_isSome (inv : Versioned db) {update : ClusterVersionUpdate} {live : Bool}
    {old : ClusterRow} (stored : db.clusters update.clusterId = some old)
    (small : update.chunks.length ≤ maxChunks) :
    (db.replaceChunksIn now update live).isSome = true := by
  have accepted := insertChunks_isSome
    (db.retireWhere fun row => row.clusterId = update.clusterId ∧ row.version = old.version)
    (chunkRows update.clusterId (old.version + 1) update.chunks live)
    (by rw [map_key_retireWhere]; exact inv.keys) (nodup_key_chunkRows small) (by
      intro row member
      obtain ⟨owner, numbered, -⟩ := mem_chunkRows _ _ _ _ member
      rw [owner, numbered, chunksOf_retireWhere, (inv.stored stored).next_eq_nil]
      rfl)
  obtain ⟨withChunks, inserted⟩ := Option.isSome_iff_exists.mp accepted
  unfold replaceChunksIn
  simp only [stored, Option.bind_eq_bind, Option.bind_some, Option.pure_def]
  split_ifs
  · rfl
  · rw [inserted]
    rfl

/-- A new version leaves every cluster stored. -/
theorem isSome_replaceChunksIn {update : ClusterVersionUpdate} {live : Bool} {cluster : Cluster}
    (h : db.replaceChunksIn now update live = some (cluster, next)) {id : ClusterId}
    (stored : (db.clusters id).isSome = true) : (next.clusters id).isSome = true := by
  obtain ⟨old, -, ⟨-, -, rfl⟩ | ⟨-, -, rep⟩⟩ := replaceChunksIn_cases h
  · exact stored
  · by_cases other : id = update.clusterId
    · rw [other, rep.clusters_self]
      rfl
    · rwa [rep.clusters_other other]

/-- Trims of stored clusters are not rejected either. -/
theorem trimAndConfirmMany_isSome {updates : List ClusterVersionUpdate}
    (closedAt confirmedAt : OffsetDateTime) (inv : StoreInv [] db)
    (nonempty : ∀ update ∈ updates, update.chunks ≠ [])
    (small : ∀ update ∈ updates, update.chunks.length ≤ maxChunks)
    (within : ∀ update ∈ updates, update.txids ⊆ db.members update.clusterId)
    (stored : ∀ update ∈ updates, (db.clusters update.clusterId).isSome = true) :
    (db.trimAndConfirmMany now closedAt updates confirmedAt).isSome = true := by
  have inUpdates {update : ClusterVersionUpdate}
      (member : update ∈ ClusterVersionUpdate.sortedById updates) : update ∈ updates := by
    rwa [ClusterVersionUpdate.sortedById, List.mem_insertionSort] at member
  set ids := (ClusterVersionUpdate.sortedById updates).map ClusterVersionUpdate.clusterId
  have accepted : ((ClusterVersionUpdate.sortedById updates).foldlM (fun before update =>
      (replaceChunksIn now update false before).map Prod.snd) db).isSome = true := by
    -- No update can fail along the fold: its cluster stays stored, and the chunks are few enough.
    apply foldlM_option_isSome (motive := fun before => Trims db ids before ∧
      ∀ update ∈ updates, (before.clusters update.clusterId).isSome = true)
    · intro before update member after kept replaced
      obtain ⟨trims, present⟩ := kept
      obtain ⟨⟨cluster, _⟩, found, rfl⟩ := Option.map_eq_some_iff.mp replaced
      constructor
      · exact trims.replaceChunksIn inv (List.mem_map_of_mem member)
          (nonempty update (inUpdates member)) (small update (inUpdates member))
          (within update (inUpdates member)) found
      · exact fun other inOther => isSome_replaceChunksIn found (present other inOther)
    · intro before update member kept
      obtain ⟨row, present⟩ := Option.isSome_iff_exists.mp (kept.2 update (inUpdates member))
      rw [Option.isSome_map]
      exact replaceChunksIn_isSome kept.1.inv.toVersioned present (small update (inUpdates member))
    · refine ⟨⟨inv.mono (List.nil_subset _), .refl db, ?_, fun _ _ => ⟨rfl, rfl⟩⟩, stored⟩
      exact fun id active => ⟨active, List.Subset.refl _⟩
  obtain ⟨trimmed, folded⟩ := Option.isSome_iff_exists.mp accepted
  simp [trimAndConfirmMany, folded]

/-! ### Who is clustered with whom -/

/-- The two transactions are members of one active cluster. -/
def Together (db : Db) (txid other : Txid) : Prop :=
  ∃ id, db.IsActive id ∧ txid ∈ db.members id ∧ other ∈ db.members id

theorem Together.symm {txid other : Txid} (together : db.Together txid other) :
    db.Together other txid := by
  obtain ⟨id, active, inFirst, inSecond⟩ := together
  exact ⟨id, active, inSecond, inFirst⟩

theorem StoreInv.together_trans {trimmed : List ClusterId} (inv : StoreInv trimmed db)
    {first second third : Txid} (left : db.Together first second)
    (right : db.Together second third) : db.Together first third := by
  obtain ⟨id, active, inFirst, inSecond⟩ := left
  obtain ⟨other, otherActive, inOther, inThird⟩ := right
  obtain rfl := inv.unique active otherActive second inSecond inOther
  exact ⟨id, active, inFirst, inThird⟩

theorem together_insertIn {new : List NewCluster} {clusters : List Cluster} (inv : Versioned db)
    (h : db.insertIn now new = some (clusters, next)) (txid other : Txid) :
    next.Together txid other ↔
      (∃ cluster ∈ new, txid ∈ cluster.txids ∧ other ∈ cluster.txids) ∨ db.Together txid other := by
  obtain ⟨-, ins⟩ := inserts_insertIn inv h
  constructor
  -- An id with members is new, and they are the cluster's own, or old and unchanged.
  · rintro ⟨id, active, inFirst, inSecond⟩
    cases inserted : (fresh db.clusterSeq new).lookup id with
    | some cluster =>
      rw [ins.members_fresh inv inserted] at inFirst inSecond
      exact .inl ⟨cluster, (lookup_fresh_bounds inserted).1, inFirst, inSecond⟩
    | none =>
      rw [ins.members_old inserted] at inFirst inSecond
      exact .inr ⟨id, (ins.isActive_old inserted).mp active, inFirst, inSecond⟩
  · rintro (⟨cluster, member, inFirst, inSecond⟩ | ⟨id, active, inFirst, inSecond⟩)
    · obtain ⟨id, inserted⟩ := exists_lookup_fresh db.clusterSeq member
      refine ⟨id, ins.isActive_fresh inserted, ?_⟩
      rw [ins.members_fresh inv inserted]
      exact ⟨inFirst, inSecond⟩
    · have old : (fresh db.clusterSeq new).lookup id = none := by
        by_contra inserted
        obtain ⟨cluster, inserted⟩ := Option.ne_none_iff_exists'.mp inserted
        obtain ⟨row, stored, -⟩ := active
        simp [Inserts.unowned inv inserted] at stored
      refine ⟨id, (ins.isActive_old old).mpr active, ?_⟩
      rw [ins.members_old old]
      exact ⟨inFirst, inSecond⟩

theorem together_replaceChunksIn {update : ClusterVersionUpdate} {cluster : Cluster} {live : Bool}
    (inv : Versioned db) (active : db.IsActive update.clusterId)
    (h : db.replaceChunksIn now update live = some (cluster, next)) (txid other : Txid) :
    next.Together txid other ↔
      txid ∈ update.txids ∧ other ∈ update.txids ∨
        ∃ id, id ≠ update.clusterId ∧ db.IsActive id ∧ txid ∈ db.members id ∧
          other ∈ db.members id := by
  -- after the update the cluster has the members it was given, recorded anew or not
  have after : next.members update.clusterId = update.txids ∧
      (∀ id, next.IsActive id ↔ db.IsActive id) ∧
      ∀ id, id ≠ update.clusterId → next.members id = db.members id := by
    obtain ⟨old, stored, ⟨asIs, -, rfl⟩ | ⟨-, -, rep⟩⟩ := replaceChunksIn_cases h
    · obtain ⟨row, present, isActive⟩ := active
      obtain rfl : old = row := by simpa using stored.symm.trans present
      have same := asIs.resolve_left (not_not.mpr isActive)
      refine ⟨?_, fun _ => Iff.rfl, fun _ _ => rfl⟩
      rw [← inv.txids_loadChunks stored, same]
      rfl
    · exact ⟨rep.members_self inv stored, fun id => rep.isActive_iff stored,
        fun id differs => rep.members_other differs⟩
  obtain ⟨self, isActive, others⟩ := after
  constructor
  · rintro ⟨id, idActive, inFirst, inSecond⟩
    by_cases differs : id = update.clusterId
    · subst differs
      rw [self] at inFirst inSecond
      exact .inl ⟨inFirst, inSecond⟩
    · rw [others id differs] at inFirst inSecond
      exact .inr ⟨id, differs, (isActive id).mp idActive, inFirst, inSecond⟩
  · rintro (⟨inFirst, inSecond⟩ | ⟨id, differs, idActive, inFirst, inSecond⟩)
    · refine ⟨update.clusterId, (isActive _).mpr active, ?_⟩
      rw [self]
      exact ⟨inFirst, inSecond⟩
    · refine ⟨id, (isActive id).mpr idActive, ?_⟩
      rw [others id differs]
      exact ⟨inFirst, inSecond⟩

end MempoolObserver.Db
