import MempoolObserver.Db.ClusterVersions

/-!
# Members, links and the live flag

The effects on the tables keep the live flags, the back-links and the current chunks
naming the same members.

## Main results

* `StoreInv.mem_findActiveIdsByTxids` — both forms of the by-txid lookup find the
  active clusters with one of the txids
-/

namespace MempoolObserver.Db

open Collections

variable {db next : Db} {now : Txid → OffsetDateTime}

/-! ### Members, links and the live flag -/

namespace Inserts

variable {new : List NewCluster} {id : ClusterId} {cluster : NewCluster}

theorem isActive_fresh (ins : Inserts db new next)
    (inserted : (fresh db.clusterSeq new).lookup id = some cluster) : next.IsActive id :=
  ⟨_, ins.clusters_fresh inserted, rfl⟩

theorem isActive_old (ins : Inserts db new next)
    (old : (fresh db.clusterSeq new).lookup id = none) : next.IsActive id ↔ db.IsActive id := by
  rw [IsActive, ins.clusters_old old, IsActive]

theorem members_fresh (ins : Inserts db new next) (inv : Versioned db)
    (inserted : (fresh db.clusterSeq new).lookup id = some cluster) :
    next.members id = cluster.txids := by
  rw [members_of_stored (ins.clusters_fresh inserted), ins.chunksOf_fresh inv inserted]
  exact flatMap_txids_chunkRows ..

theorem members_old (ins : Inserts db new next)
    (old : (fresh db.clusterSeq new).lookup id = none) : next.members id = db.members id := by
  simp only [members, current, ins.clusters_old old, ins.chunksOf_old old]

end Inserts

/-- Clusters inserted together have their members apart. -/
theorem eq_of_mem_fresh {seq first second : ℕ} {new : List NewCluster} {a b : NewCluster}
    {txid : Txid} (disjoint : new.Pairwise fun a b => ∀ txid ∈ a.txids, txid ∉ b.txids)
    (left : (fresh seq new).lookup first = some a) (right : (fresh seq new).lookup second = some b)
    (inLeft : txid ∈ a.txids) (inRight : txid ∈ b.txids) : first = second := by
  induction new generalizing seq with
  | nil => simp [fresh, allocatedIds] at left
  | cons cluster new ih =>
    obtain ⟨apart, disjoint⟩ := List.pairwise_cons.mp disjoint
    rw [lookup_fresh_cons] at left right
    split_ifs at left right with isFirst isSecond isSecond
    · exact isFirst.trans isSecond.symm
    · obtain rfl := Option.some.inj left
      exact absurd inRight (apart b (lookup_fresh_bounds right).1 txid inLeft)
    · obtain rfl := Option.some.inj right
      exact absurd inLeft (apart a (lookup_fresh_bounds left).1 txid inRight)
    · exact ih disjoint left right

theorem Inserts.storeInv {trimmed : List ClusterId} {new : List NewCluster}
    (ins : Inserts db new next) (inv : StoreInv trimmed db)
    (nonempty : ∀ cluster ∈ new, cluster.chunks ≠ [])
    (small : ∀ cluster ∈ new, cluster.chunks.length ≤ maxChunks)
    (disjoint : new.Pairwise fun a b => ∀ txid ∈ a.txids, txid ∉ b.txids)
    (apart : ∀ cluster ∈ new, ∀ txid ∈ cluster.txids, ∀ id, db.IsActive id → txid ∉ db.members id) :
    StoreInv trimmed next where
  toVersioned := ins.versioned inv.toVersioned nonempty small
  active_of_live {id version} chunk member live := by
    -- Live rows of a new cluster are those of version 1, which is its current one.
    cases inserted : (fresh db.clusterSeq new).lookup id with
    | some cluster =>
      rw [ins.chunksOf_fresh inv.toVersioned inserted] at member
      dsimp only at member
      split_ifs at member with first
      · exact ⟨_, ins.clusters_fresh inserted, rfl, first.symm⟩
      · simp at member
    | none =>
      rw [ins.chunksOf_old inserted] at member
      rw [ins.clusters_old inserted]
      exact inv.active_of_live chunk member live
  live_of_active {id row} untrimmed stored active chunk member := by
    cases inserted : (fresh db.clusterSeq new).lookup id with
    | some cluster =>
      obtain rfl : cluster.row = row := by
        simpa using (ins.clusters_fresh inserted).symm.trans stored
      rw [ins.chunksOf_fresh inv.toVersioned inserted] at member
      exact (mem_chunkRows _ _ _ _ member).2.2
    | none =>
      rw [ins.chunksOf_old inserted] at member
      rw [ins.clusters_old inserted] at stored
      exact inv.live_of_active untrimmed stored active chunk member
  -- Four cases: two new ids, a new one against an old one twice, and two old ones.
  unique {first second} active₁ active₂ txid in₁ in₂ := by
    cases inserted₁ : (fresh db.clusterSeq new).lookup first with
    | some a =>
      rw [ins.members_fresh inv.toVersioned inserted₁] at in₁
      cases inserted₂ : (fresh db.clusterSeq new).lookup second with
      | some b =>
        rw [ins.members_fresh inv.toVersioned inserted₂] at in₂
        exact eq_of_mem_fresh disjoint inserted₁ inserted₂ in₁ in₂
      | none =>
        rw [ins.members_old inserted₂] at in₂
        rw [ins.isActive_old inserted₂] at active₂
        exact absurd in₂ (apart a (lookup_fresh_bounds inserted₁).1 txid in₁ second active₂)
    -- No new cluster shares a transaction with an active one.
    | none =>
      rw [ins.members_old inserted₁] at in₁
      rw [ins.isActive_old inserted₁] at active₁
      cases inserted₂ : (fresh db.clusterSeq new).lookup second with
      | some b =>
        rw [ins.members_fresh inv.toVersioned inserted₂] at in₂
        exact absurd in₁ (apart b (lookup_fresh_bounds inserted₂).1 txid in₂ first active₁)
      | none =>
        rw [ins.members_old inserted₂] at in₂
        rw [ins.isActive_old inserted₂] at active₂
        exact inv.unique active₁ active₂ txid in₁ in₂
  linked {id} active txid := by
    cases inserted : (fresh db.clusterSeq new).lookup id with
    | some cluster =>
      rw [ins.members_fresh inv.toVersioned inserted]
      -- The link was set by this insert, to the cluster that names the transaction, or is an old
      -- one.
      rcases ins.link txid with ⟨other, target, found, named, linked⟩ | ⟨absent, linked⟩
      · rw [linked, Option.some.injEq]
        constructor
        · rintro rfl
          obtain rfl : target = cluster := by simpa using found.symm.trans inserted
          exact named
        · exact fun member => eq_of_mem_fresh disjoint found inserted named member
      · have unlinked : db.link txid ≠ some id := by
          intro linked
          obtain ⟨row, stored, -⟩ := inv.kept linked
          simp [Inserts.unowned inv.toVersioned inserted] at stored
        rw [linked]
        exact iff_of_false unlinked (absent cluster (lookup_fresh_bounds inserted).1)
    -- An old active cluster loses no link, since the new ones name none of its members.
    | none =>
      rw [ins.isActive_old inserted] at active
      rw [ins.members_old inserted]
      rcases ins.link txid with ⟨other, target, found, named, linked⟩ | ⟨-, linked⟩
      · have moved : other ≠ id := by
          rintro rfl
          simp [inserted] at found
        rw [linked, Option.some.injEq]
        exact iff_of_false moved (apart target (lookup_fresh_bounds found).1 txid named id active)
      · rw [linked]
        exact inv.linked active txid
  kept {txid id} linked := by
    rcases ins.link txid with ⟨other, target, found, -, link_eq⟩ | ⟨-, link_eq⟩
    · obtain rfl : other = id := by simpa using link_eq.symm.trans linked
      exact ⟨_, ins.clusters_fresh found, .inl rfl⟩
    · obtain ⟨row, stored, status⟩ := inv.kept (link_eq.symm.trans linked)
      refine ⟨row, ?_, status⟩
      rw [ins.clusters, stored]
      cases inserted : (fresh db.clusterSeq new).lookup id with
      | some cluster => simp [Inserts.unowned inv.toVersioned inserted] at stored
      | none => rfl

namespace Replaces

variable {update : ClusterVersionUpdate} {live : Bool} {old : ClusterRow} {id : ClusterId}

theorem isActive_iff (rep : Replaces db update live old next)
    (stored : db.clusters update.clusterId = some old) : next.IsActive id ↔ db.IsActive id := by
  by_cases other : id = update.clusterId
  · subst other
    simp [IsActive, rep.clusters_self, stored, ClusterVersionUpdate.row]
  · rw [IsActive, rep.clusters_other other, IsActive]

theorem members_self (rep : Replaces db update live old next) (inv : Versioned db)
    (stored : db.clusters update.clusterId = some old) :
    next.members update.clusterId = update.txids := by
  rw [members_of_stored rep.clusters_self]
  exact (congrArg _ (rep.chunksOf_top inv stored)).trans (flatMap_txids_chunkRows ..)

theorem members_other (rep : Replaces db update live old next) (other : id ≠ update.clusterId) :
    next.members id = db.members id := by
  simp only [members, current, rep.clusters_other other, rep.chunksOf_other other]

theorem storeInv {trimmed : List ClusterId} (rep : Replaces db update live old next)
    (inv : StoreInv trimmed db) (stored : db.clusters update.clusterId = some old)
    (active : old.status = .active) (nonempty : update.chunks ≠ [])
    (small : update.chunks.length ≤ maxChunks)
    (apart : ∀ txid ∈ update.txids, ∀ id, id ≠ update.clusterId → db.IsActive id →
      txid ∉ db.members id)
    (closed : live = false → update.clusterId ∈ trimmed) : StoreInv trimmed next where
  toVersioned := rep.versioned inv.toVersioned stored nonempty small
  active_of_live {id version} chunk member isLive := by
    by_cases other : id = update.clusterId
    · subst other
      -- Only the top version has live rows: the one below it was retired by the rewrite.
      by_cases top : version = old.version + 1
      · exact ⟨_, rep.clusters_self, active, top.symm⟩
      · rw [rep.chunksOf_below top] at member
        split_ifs at member with replaced
        · obtain ⟨before, -, rfl⟩ := List.mem_map.mp member
          simp [ClusterChunkRow.retire] at isLive
        · obtain ⟨row, present, -, current⟩ := inv.active_of_live chunk member isLive
          obtain rfl : old = row := by simpa using stored.symm.trans present
          exact absurd current.symm replaced
    · rw [rep.chunksOf_other other] at member
      rw [rep.clusters_other other]
      exact inv.active_of_live chunk member isLive
  live_of_active {id row} untrimmed present isActive chunk member := by
    by_cases other : id = update.clusterId
    · subst other
      obtain rfl : update.row old = row := by simpa using rep.clusters_self.symm.trans present
      rw [show (update.row old).version = old.version + 1 from rfl,
        rep.chunksOf_top inv.toVersioned stored] at member
      rw [(mem_chunkRows _ _ _ _ member).2.2]
      by_contra notLive
      exact untrimmed (closed (Bool.eq_false_iff.mpr notLive))
    · rw [rep.chunksOf_other other] at member
      rw [rep.clusters_other other] at present
      exact inv.live_of_active untrimmed present isActive chunk member
  -- At most one of the two clusters is the rewritten one, whose members meet no other's.
  unique {first second} active₁ active₂ txid in₁ in₂ := by
    rw [rep.isActive_iff stored] at active₁ active₂
    by_cases here₁ : first = update.clusterId <;> by_cases here₂ : second = update.clusterId
    · exact here₁.trans here₂.symm
    · subst here₁
      rw [rep.members_self inv.toVersioned stored] at in₁
      rw [rep.members_other here₂] at in₂
      exact absurd in₂ (apart txid in₁ second here₂ active₂)
    · subst here₂
      rw [rep.members_self inv.toVersioned stored] at in₂
      rw [rep.members_other here₁] at in₁
      exact absurd in₁ (apart txid in₂ first here₁ active₁)
    · rw [rep.members_other here₁] at in₁
      rw [rep.members_other here₂] at in₂
      exact inv.unique active₁ active₂ txid in₁ in₂
  -- The rewrite links what it names and unlinks the rest of the cluster.
  linked {id} isActive txid := by
    rw [rep.isActive_iff stored] at isActive
    by_cases other : id = update.clusterId
    · subst other
      rw [rep.members_self inv.toVersioned stored, rep.link]
      by_cases member : txid ∈ update.txids
      · simp [member]
      · by_cases linked : db.link txid = some update.clusterId <;> simp [member, linked]
    · rw [rep.members_other other, rep.link]
      by_cases member : txid ∈ update.txids
      · have elsewhere := apart txid member id other isActive
        simp [member, elsewhere, Ne.symm other]
      · rw [if_neg member, ← inv.linked isActive]
        by_cases linked : db.link txid = some update.clusterId <;> simp [linked, Ne.symm other]
  kept {txid id} linked := by
    by_cases other : id = update.clusterId
    · subst other
      exact ⟨_, rep.clusters_self, .inl active⟩
    · rw [rep.clusters_other other]
      rw [rep.link] at linked
      split_ifs at linked
      · exact absurd (Option.some.inj linked).symm other
      · exact inv.kept linked

end Replaces

namespace Ends

variable {ended : List ClusterId} {change : ClusterRow → ClusterRow} {status : ClusterStatus}
  {id : ClusterId}

theorem isActive_iff (ends : Ends db ended change next) (inactive : status ≠ .active)
    (status_eq : ∀ row, (change row).status = status) :
    next.IsActive id ↔ db.IsActive id ∧ id ∉ ended := by
  rw [IsActive, ends.clusters]
  by_cases member : id ∈ ended
  · simp [member, status_eq, inactive]
  · simp [member, IsActive]

theorem members_eq (ends : Ends db ended change next) (kept : id ∉ ended) :
    next.members id = db.members id := by
  simp only [members, current, ends.clusters, ends.chunksOf, kept, if_false]

/-- Ending a cluster leaves its last version in place. -/
theorem members_eq_of_version (ends : Ends db ended change next)
    (version_eq : ∀ row, (change row).version = row.version) (id : ClusterId) :
    next.members id = db.members id := by
  by_cases member : id ∈ ended
  · cases stored : db.clusters id with
    | none => simp only [members, current, ends.clusters, member, if_true, stored, Option.map_none]
    | some row =>
      have after : next.clusters id = some (change row) := by
        rw [ends.clusters, if_pos member, stored]
        rfl
      rw [members_of_stored after, members_of_stored stored, ends.chunksOf, if_pos member,
        version_eq, List.flatMap_map]
      rfl
  · exact ends.members_eq member

theorem storeInv {trimmed remaining : List ClusterId} (ends : Ends db ended change next)
    (inv : StoreInv trimmed db) (versioned : Versioned next) (inactive : status ≠ .active)
    (status_eq : ∀ row, (change row).status = status)
    (links : ∀ txid id, next.link txid = some id ↔
      db.link txid = some id ∧ (id ∈ ended → status = .confirmed))
    (settled : ∀ id ∈ trimmed, db.IsActive id → id ∈ ended ∨ id ∈ remaining) :
    StoreInv remaining next where
  toVersioned := versioned
  active_of_live {id version} chunk member isLive := by
    rw [ends.chunksOf] at member
    rw [ends.clusters]
    split_ifs at member ⊢
    · obtain ⟨before, -, rfl⟩ := List.mem_map.mp member
      simp [ClusterChunkRow.retire] at isLive
    · exact inv.active_of_live chunk member isLive
  -- A cluster still active was not ended, so its rows are those of before.
  live_of_active {id row} untrimmed stored active chunk member := by
    have isActive : next.IsActive id := ⟨row, stored, active⟩
    obtain ⟨wasActive, kept⟩ := (ends.isActive_iff inactive status_eq).mp isActive
    rw [ends.chunksOf, if_neg kept] at member
    rw [ends.clusters, if_neg kept] at stored
    refine inv.live_of_active (fun inTrimmed => ?_) stored active chunk member
    rcases settled id inTrimmed wasActive with done | left
    · exact kept done
    · exact untrimmed left
  unique {first second} active₁ active₂ txid in₁ in₂ := by
    obtain ⟨was₁, kept₁⟩ := (ends.isActive_iff inactive status_eq).mp active₁
    obtain ⟨was₂, kept₂⟩ := (ends.isActive_iff inactive status_eq).mp active₂
    rw [ends.members_eq kept₁] at in₁
    rw [ends.members_eq kept₂] at in₂
    exact inv.unique was₁ was₂ txid in₁ in₂
  linked {id} active txid := by
    obtain ⟨wasActive, kept⟩ := (ends.isActive_iff inactive status_eq).mp active
    rw [ends.members_eq kept, links, inv.linked wasActive]
    simp [kept]
  -- An ended cluster keeps its links only when it was confirmed.
  kept {txid id} linked := by
    obtain ⟨before, confirmed⟩ := (links txid id).mp linked
    obtain ⟨row, stored, wasKept⟩ := inv.kept before
    rw [ends.clusters]
    split_ifs with member
    · exact ⟨change row, by rw [stored]; rfl, .inr ((status_eq row).trans (confirmed member))⟩
    · exact ⟨row, stored, wasKept⟩

end Ends

/-! ### Reads -/

namespace Versioned

/-- Chunks are stored in the order of their positions. -/
theorem loadChunks_eq (inv : Versioned db) (id : ClusterId) (version : ℕ) :
    db.loadChunks id version = (db.chunksOf id version).map ClusterChunkRow.chunk := by
  rw [loadChunks, List.Pairwise.insertionSort_eq]
  cases stored : db.clusters id with
  | none => rw [inv.owned stored]; exact .nil
  | some row =>
    have increasing : ((db.chunksOf id version).map ClusterChunkRow.position).Pairwise (· ≤ ·) := by
      rw [(inv.stored stored).positions version, List.pairwise_map]
      exact List.pairwise_le_range.imp fun le => Int.ofNat_le.mpr le
    exact List.pairwise_map.mp increasing

/-- The txids of a loaded cluster are the members of its current version. -/
theorem txids_loadChunks (inv : Versioned db) {id : ClusterId} {row : ClusterRow}
    (stored : db.clusters id = some row) :
    (db.loadChunks id row.version).flatMap ClusterChunk.txids = db.members id := by
  rw [inv.loadChunks_eq, members_of_stored stored, List.flatMap_map]
  rfl

theorem mem_findByIds (inv : Versioned db) {ids : List ClusterId} {cluster : Cluster} :
    cluster ∈ db.findByIds ids ↔ ∃ id row, db.clusters id = some row ∧ id ∈ ids ∧
      cluster = .fromRow id row (db.loadChunks id row.version) := by
  simp only [findByIds, mem_loadClusters inv.allocated, decide_eq_true_eq]

end Versioned

/-- In a consistent store the live flag is in step with status and version. -/
theorem StoreInv.liveInStep (inv : StoreInv [] db) : LiveInStep [] db where
  allocated := inv.allocated
  chunks {id version} chunk member := by
    cases stored : db.clusters id with
    | none =>
      rw [inv.owned stored] at member
      cases member
    | some row =>
      refine ⟨row, rfl, ?_, fun live => ?_, fun _ active same => ?_⟩
      · exact ((inv.stored stored).versions version |>.mp (List.ne_nil_of_mem member)).2
      · obtain ⟨other, present, active, current⟩ := inv.active_of_live chunk member live
        obtain rfl : row = other := Option.some.inj (stored.symm.trans present)
        exact ⟨active, current.symm⟩
      · subst same
        exact inv.live_of_active (by simp) stored active chunk member

/-- Both forms of the by-txid lookup find the active clusters with one of the txids. -/
theorem StoreInv.mem_findActiveIdsByTxids (inv : StoreInv [] db) {txids : List Txid}
    {id : ClusterId} :
    id ∈ db.findActiveIdsByTxids txids ↔ db.IsActive id ∧ ∃ txid ∈ txids, txid ∈ db.members id :=
  inv.liveInStep.mem_findActiveIdsByTxids

end MempoolObserver.Db
