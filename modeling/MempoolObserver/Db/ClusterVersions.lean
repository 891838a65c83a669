import MempoolObserver.Db.ActiveLookup

/-!
# The cluster transactions keep the versions complete

From the effect on the tables that `MempoolObserver.Db.ClusterStore` gives each
transaction of the membership repository: the versions of every cluster stay complete,
and earlier versions stay as they were.
-/

namespace MempoolObserver.Db

open Collections

variable {db next : Db} {now : Txid → OffsetDateTime}

/-! ### The versions of one cluster -/

namespace VersionsOk

variable {row after : ClusterRow} {chunks : ℕ → List ClusterChunkRow}

/-- A cluster that was just inserted has its first version. -/
theorem first {cluster : NewCluster} (nonempty : cluster.chunks ≠ [])
    (small : cluster.chunks.length ≤ maxChunks) (id : ClusterId) :
    VersionsOk cluster.row fun version =>
      if version = 1 then chunkRows id 1 cluster.chunks true else [] where
  pos := le_rfl
  -- A new cluster starts at version 1, the only one with chunks.
  versions version := by
    by_cases one : version = 1
    · simp [one, NewCluster.row, List.ne_nil_iff_length_pos, List.length_pos_iff.mpr nonempty]
    · simp only [one, if_false, ne_eq, not_true_eq_false, false_iff, NewCluster.row]
      omega
  positions version := by
    split_ifs
    · rw [map_position_chunkRows _ _ _ small, length_chunkRows]
    · rfl
  small version := by
    split_ifs
    · rwa [length_chunkRows]
    · exact Nat.zero_le _
  totalWeight := by
    simp only [NewCluster.row, if_true, totals_eq_sum_chunkRows id 1 cluster.chunks true]
  totalFee := by
    simp only [NewCluster.row, if_true, totals_eq_sum_chunkRows id 1 cluster.chunks true]

/-- Only the `live` column, or columns the versions do not depend on, changed. -/
theorem congr (ok : VersionsOk row chunks) {other : ℕ → List ClusterChunkRow}
    (version_eq : after.version = row.version) (weight_eq : after.totalWeight = row.totalWeight)
    (fee_eq : after.totalFee = row.totalFee)
    (same : ∀ version, other version = chunks version ∨
      other version = (chunks version).map ClusterChunkRow.retire) :
    VersionsOk after other := by
  -- Retiring a row touches no column the invariant reads.
  have column {α : Type} (f : ClusterChunkRow → α) (keeps : ∀ row, f row.retire = f row)
      (version : ℕ) : (other version).map f = (chunks version).map f := by
    rcases same version with eq | eq <;> rw [eq]
    rw [List.map_map]
    exact List.map_congr_left fun row _ => keeps row
  have length (version : ℕ) : (other version).length = (chunks version).length := by
    rcases same version with eq | eq <;> simp [eq]
  constructor
  case pos => rw [version_eq]; exact ok.pos
  case versions =>
    intro version
    rw [version_eq, ← ok.versions version, ne_eq, ne_eq, ← List.length_eq_zero_iff, length,
      List.length_eq_zero_iff]
  case positions =>
    intro version
    rw [column _ (fun _ => rfl), length, ok.positions]
  case small => exact fun version => (length version).trans_le (ok.small version)
  case totalWeight => rw [weight_eq, version_eq, column _ (fun _ => rfl), ok.totalWeight]
  case totalFee => rw [fee_eq, version_eq, column _ (fun _ => rfl), ok.totalFee]

/-- The version after the current one has no chunks yet. -/
theorem next_eq_nil (ok : VersionsOk row chunks) : chunks (row.version + 1) = [] := by
  by_contra stored
  have bound := ((ok.versions _).mp stored).2
  omega

/-- A new version goes on top of the current one. -/
theorem replace (ok : VersionsOk row chunks) {update : ClusterVersionUpdate}
    (nonempty : update.chunks ≠ []) (small : update.chunks.length ≤ maxChunks) {live : Bool}
    {id : ClusterId} {other : ℕ → List ClusterChunkRow}
    (top : other (row.version + 1) = chunkRows id (row.version + 1) update.chunks live)
    (below : ∀ version, version ≠ row.version + 1 → other version = chunks version ∨
      other version = (chunks version).map ClusterChunkRow.retire) :
    VersionsOk (update.row row) other := by
  -- the versions up to the current one, as if the new version did not exist
  have older : VersionsOk row fun version =>
      if version = row.version + 1 then [] else other version := by
    refine ok.congr rfl rfl rfl fun version => ?_
    split_ifs with isTop
    · rw [isTop, ok.next_eq_nil]
      exact .inl rfl
    · exact below version isTop
  constructor
  case pos => exact Nat.succ_le_succ (Nat.zero_le _)
  case versions =>
    intro version
    have known := older.versions version
    by_cases isTop : version = row.version + 1
    · have written : chunkRows id (row.version + 1) update.chunks live ≠ [] := by
        rwa [ne_eq, ← List.length_eq_zero_iff, length_chunkRows, List.length_eq_zero_iff]
      simp [isTop, top, written, ClusterVersionUpdate.row]
    · rw [if_neg isTop] at known
      rw [known, ClusterVersionUpdate.row]
      dsimp only
      omega
  case positions =>
    intro version
    have known := older.positions version
    by_cases isTop : version = row.version + 1
    · rw [isTop, top, map_position_chunkRows _ _ _ small, length_chunkRows]
    · rwa [if_neg isTop] at known
  case small =>
    intro version
    have known := older.small version
    by_cases isTop : version = row.version + 1
    · rwa [isTop, top, length_chunkRows]
    · rwa [if_neg isTop] at known
  case totalWeight =>
    simp only [ClusterVersionUpdate.row, top, totals_eq_sum_chunkRows id (row.version + 1) _ live]
  case totalFee =>
    simp only [ClusterVersionUpdate.row, top, totals_eq_sum_chunkRows id (row.version + 1) _ live]

end VersionsOk

/-! ### Inserting clusters -/

namespace Inserts

variable {new : List NewCluster} {id : ClusterId} {cluster : NewCluster}

/-- An inserted cluster is new. -/
theorem unowned (inv : Versioned db)
    (inserted : (fresh db.clusterSeq new).lookup id = some cluster) : db.clusters id = none :=
  inv.allocated (lookup_fresh_bounds inserted).2.1

theorem clusters_fresh (ins : Inserts db new next)
    (inserted : (fresh db.clusterSeq new).lookup id = some cluster) :
    next.clusters id = some cluster.row := by
  rw [ins.clusters, inserted]
  rfl

theorem clusters_old (ins : Inserts db new next)
    (old : (fresh db.clusterSeq new).lookup id = none) : next.clusters id = db.clusters id := by
  rw [ins.clusters, old]
  rfl

theorem chunksOf_fresh (ins : Inserts db new next) (inv : Versioned db)
    (inserted : (fresh db.clusterSeq new).lookup id = some cluster) :
    next.chunksOf id = fun version =>
      if version = 1 then chunkRows id 1 cluster.chunks true else [] := by
  funext version
  rw [ins.chunksOf, inv.owned (unowned inv inserted), freshChunks, inserted, List.nil_append]

theorem chunksOf_old (ins : Inserts db new next)
    (old : (fresh db.clusterSeq new).lookup id = none) : next.chunksOf id = db.chunksOf id := by
  funext version
  rw [ins.chunksOf, freshChunks, old, List.append_nil]

theorem versioned (ins : Inserts db new next) (inv : Versioned db)
    (nonempty : ∀ cluster ∈ new, cluster.chunks ≠ [])
    (small : ∀ cluster ∈ new, cluster.chunks.length ≤ maxChunks) : Versioned next where
  owned {id} none version := by
    -- Every id is either one of those just allocated or as it was before.
    cases inserted : (fresh db.clusterSeq new).lookup id with
    | some cluster => simp [ins.clusters_fresh inserted] at none
    | none =>
      rw [ins.chunksOf_old inserted]
      exact inv.owned ((ins.clusters_old inserted).symm.trans none) version
  stored {id row} stored := by
    cases inserted : (fresh db.clusterSeq new).lookup id with
    | some cluster =>
      have member := (lookup_fresh_bounds inserted).1
      obtain rfl : cluster.row = row := by
        simpa using (ins.clusters_fresh inserted).symm.trans stored
      rw [ins.chunksOf_fresh inv inserted]
      exact .first (nonempty cluster member) (small cluster member) id
    | none =>
      rw [ins.chunksOf_old inserted]
      exact inv.stored ((ins.clusters_old inserted).symm.trans stored)
  keys := ins.keys
  allocated {id} above := by
    rw [ins.clusterSeq] at above
    cases inserted : (fresh db.clusterSeq new).lookup id with
    | some cluster => exact absurd (lookup_fresh_bounds inserted).2.2 (Nat.not_lt.mpr above)
    | none =>
      rw [ins.clusters_old inserted]
      exact inv.allocated (le_trans (Nat.le_add_right _ _) above)

theorem toExtends (ins : Inserts db new next) (inv : Versioned db) : Extends db next := by
  intro id version stored
  cases inserted : (fresh db.clusterSeq new).lookup id with
  | some cluster => exact absurd (inv.owned (unowned inv inserted) version) stored
  | none =>
    rw [ins.chunksOf_old inserted]
    exact Extends.refl db id version stored

end Inserts

/-! ### Recording a new version -/

theorem forall₂_retire (rows : List ClusterChunkRow) :
    List.Forall₂ Retires rows (rows.map ClusterChunkRow.retire) := by
  rw [List.forall₂_map_right_iff]
  exact List.forall₂_same.mpr fun _ _ => .inr rfl

namespace Replaces

variable {update : ClusterVersionUpdate} {live : Bool} {old : ClusterRow} {id : ClusterId}

theorem clusters_self (rep : Replaces db update live old next) :
    next.clusters update.clusterId = some (update.row old) := by
  rw [rep.clusters, if_pos rfl]

theorem clusters_other (rep : Replaces db update live old next) (other : id ≠ update.clusterId) :
    next.clusters id = db.clusters id := by
  rw [rep.clusters, if_neg other]

theorem chunksOf_other (rep : Replaces db update live old next) (other : id ≠ update.clusterId) :
    next.chunksOf id = db.chunksOf id := by
  funext version
  simp [rep.chunksOf, other]

theorem chunksOf_top (rep : Replaces db update live old next) (inv : Versioned db)
    (stored : db.clusters update.clusterId = some old) :
    next.chunksOf update.clusterId (old.version + 1) =
      chunkRows update.clusterId (old.version + 1) update.chunks live := by
  simp [rep.chunksOf, (inv.stored stored).next_eq_nil]

/-- The versions up to the one replaced, which is retired. -/
theorem chunksOf_below (rep : Replaces db update live old next) {version : ℕ}
    (below : version ≠ old.version + 1) :
    next.chunksOf update.clusterId version =
      if version = old.version then
        (db.chunksOf update.clusterId version).map ClusterChunkRow.retire
      else db.chunksOf update.clusterId version := by
  simp [rep.chunksOf, below]

theorem versioned (rep : Replaces db update live old next) (inv : Versioned db)
    (stored : db.clusters update.clusterId = some old) (nonempty : update.chunks ≠ [])
    (small : update.chunks.length ≤ maxChunks) : Versioned next where
  owned {id} none version := by
    have other : id ≠ update.clusterId := by
      rintro rfl
      simp [rep.clusters_self] at none
    rw [rep.chunksOf_other other]
    exact inv.owned ((rep.clusters_other other).symm.trans none) version
  -- The rewritten cluster gets one version more; its older rows are kept, some of them retired.
  stored {id row} present := by
    by_cases other : id = update.clusterId
    · subst other
      obtain rfl : update.row old = row := by simpa using rep.clusters_self.symm.trans present
      refine (inv.stored stored).replace nonempty small (rep.chunksOf_top inv stored) ?_
      intro version below
      rw [rep.chunksOf_below below]
      split_ifs
      · exact .inr rfl
      · exact .inl rfl
    · rw [rep.chunksOf_other other]
      exact inv.stored ((rep.clusters_other other).symm.trans present)
  keys := rep.keys
  allocated {id} above := by
    rw [rep.clusterSeq] at above
    have other : id ≠ update.clusterId := by
      rintro rfl
      simp [inv.allocated above] at stored
    rw [rep.clusters_other other]
    exact inv.allocated above

theorem toExtends (rep : Replaces db update live old next) (inv : Versioned db)
    (stored : db.clusters update.clusterId = some old) : Extends db next := by
  intro id version present
  by_cases other : id = update.clusterId
  · subst other
    have below : version ≠ old.version + 1 := by
      rintro rfl
      exact present (inv.stored stored).next_eq_nil
    rw [rep.chunksOf_below below]
    split_ifs
    · exact forall₂_retire _
    · exact Extends.refl db _ version present
  · rw [rep.chunksOf_other other]
    exact Extends.refl db id version present

end Replaces

/-! ### Ending clusters -/

namespace Ends

variable {ended : List ClusterId} {change : ClusterRow → ClusterRow}

theorem versioned (ends : Ends db ended change next) (inv : Versioned db)
    (version_eq : ∀ row, (change row).version = row.version)
    (weight_eq : ∀ row, (change row).totalWeight = row.totalWeight)
    (fee_eq : ∀ row, (change row).totalFee = row.totalFee) : Versioned next where
  -- Ending changes rows in place, so nothing appears under an id that had nothing.
  owned {id} none version := by
    have absent : db.clusters id = Option.none := by
      rw [ends.clusters] at none
      split_ifs at none
      · exact Option.map_eq_none_iff.mp none
      · exact none
    rw [ends.chunksOf, inv.owned absent]
    simp
  stored {id row} stored := by
    rw [ends.clusters] at stored
    split_ifs at stored with member
    · obtain ⟨before, present, rfl⟩ := Option.map_eq_some_iff.mp stored
      refine (inv.stored present).congr (version_eq _) (weight_eq _) (fee_eq _) fun version => ?_
      rw [ends.chunksOf, if_pos member]
      exact .inr rfl
    · refine (inv.stored stored).congr rfl rfl rfl fun version => ?_
      rw [ends.chunksOf, if_neg member]
      exact .inl rfl
  keys := by
    rw [ends.keys]
    exact inv.keys
  allocated {id} above := by
    rw [ends.clusterSeq] at above
    rw [ends.clusters, inv.allocated above]
    simp

theorem toExtends (ends : Ends db ended change next) : Extends db next := by
  intro id version stored
  rw [ends.chunksOf]
  split_ifs
  · exact forall₂_retire _
  · exact Extends.refl db id version stored

end Ends

end MempoolObserver.Db
