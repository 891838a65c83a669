import MempoolObserver.Db.ClusterMembership

/-!
# The cluster store's representation invariant

Membership is stored three times over: in the chunk rows of each version, in the
`live` flag the by-txid lookup filters on, and in the `cluster_id` back-link of
each transaction. `StoreInv` says how the copies agree. That every transaction of
the membership repository keeps it, given that the groups it is handed do not
overlap another active cluster, is shown in `MempoolObserver.Db.ClusterInvariant`
from the effects on the tables given here.

Inside `trim_and_confirm_many` a trimmed cluster is active while its new version
is already closed; `StoreInv` carries the clusters that are in this state.

## Main definitions

* `StoreInv` — the invariant, up to clusters being trimmed
* `Extends` — the versions of a cluster are only ever added to
* `Inserts`, `Replaces`, `Ends` — what a transaction leaves of the cluster tables

## Main results

* `inserts_insertIn`, `replaceChunksIn_cases`, `ends_closeMany`, `ends_confirmManyIn` —
  each transaction leaves what its relation says
-/

namespace MempoolObserver

open Collections

/-- Largest number of chunks whose positions fit their column. -/
def maxChunks : ℕ := 2 ^ 15

namespace Db

def IsActive (db : Db) (id : ClusterId) : Prop :=
  ∃ row, db.clusters id = some row ∧ row.status = .active

/-- The chunk rows of a cluster's current version. -/
def current (db : Db) (id : ClusterId) : List ClusterChunkRow :=
  match db.clusters id with
  | some row => db.chunksOf id row.version
  | none => []

/-- The members of a cluster, by its current version. -/
def members (db : Db) (id : ClusterId) : List Txid := (db.current id).flatMap ClusterChunkRow.txids

theorem members_of_stored {db : Db} {id : ClusterId} {row : ClusterRow}
    (stored : db.clusters id = some row) :
    db.members id = (db.chunksOf id row.version).flatMap ClusterChunkRow.txids := by
  rw [members, current, stored]

/-! ### The statements, column by column -/

section Statements

variable (db : Db) (id : ClusterId) (version : ℕ) (txid : Txid)

theorem mem_chunksOf {row : ClusterChunkRow} :
    row ∈ db.chunksOf id version ↔
      row ∈ db.clusterChunks ∧ row.clusterId = id ∧ row.version = version := by
  simp [chunksOf]

/-- A retired row, as `retireWhere` leaves it. -/
def retireRow (retired : ClusterChunkRow → Bool) (row : ClusterChunkRow) : ClusterChunkRow :=
  if retired row then row.retire else row

theorem retireRow_eq (retired : ClusterChunkRow → Bool) (row : ClusterChunkRow) :
    retireRow retired row = row ∨ retireRow retired row = row.retire := by
  unfold retireRow
  split_ifs <;> simp

theorem chunksOf_retireWhere (retired : ClusterChunkRow → Bool) :
    (db.retireWhere retired).chunksOf id version =
      (db.chunksOf id version).map (retireRow retired) := by
  have keeps : (fun row => decide (row.clusterId = id ∧ row.version = version)) ∘
      retireRow retired = fun row => decide (row.clusterId = id ∧ row.version = version) := by
    funext row
    rcases retireRow_eq retired row with same | closed <;>
      simp [Function.comp, ClusterChunkRow.retire, *]
  rw [chunksOf, chunksOf, show (db.retireWhere retired).clusterChunks =
    db.clusterChunks.map (retireRow retired) from rfl, List.filter_map, keeps]

@[simp] theorem clusters_retireWhere (retired : ClusterChunkRow → Bool) :
    (db.retireWhere retired).clusters = db.clusters := rfl

@[simp] theorem chunksOf_updateClusters (ids : List ClusterId) (update : ClusterRow → ClusterRow) :
    (db.updateClusters ids update).chunksOf id version = db.chunksOf id version := rfl

@[simp] theorem chunksOf_relink (newLink : Txid → Option ClusterId → Option ClusterId) :
    (db.relink newLink).chunksOf id version = db.chunksOf id version := rfl

@[simp] theorem clusters_relink (newLink : Txid → Option ClusterId → Option ClusterId) :
    (db.relink newLink).clusters = db.clusters := rfl

@[simp] theorem chunksOf_insertHollowMembers (now : Txid → OffsetDateTime) (txids : List Txid) :
    (db.insertHollowMembers now txids).chunksOf id version = db.chunksOf id version := rfl

@[simp] theorem clusters_insertHollowMembers (now : Txid → OffsetDateTime) (txids : List Txid) :
    (db.insertHollowMembers now txids).clusters = db.clusters := rfl

@[simp] theorem link_insertHollowMembers (now : Txid → OffsetDateTime) (txids : List Txid) :
    (db.insertHollowMembers now txids).link txid = db.link txid :=
  link_insertOrIgnore isHollow_of_mem_map_hollow db txid

/-- After a relink, a stored transaction has the new link. -/
theorem link_relink (newLink : Txid → Option ClusterId → Option ClusterId) :
    (db.relink newLink).link txid =
      (db.transactions txid).bind fun row => newLink txid row.clusterId := by
  cases stored : db.transactions txid <;> simp [link, relink, updateTransactions, stored]

/-- A relink that sends no link to no link acts on the links alone. -/
theorem link_relink_of_none {newLink : Txid → Option ClusterId → Option ClusterId}
    (none_none : newLink txid none = none) :
    (db.relink newLink).link txid = newLink txid (db.link txid) := by
  rw [link_relink, link]
  cases stored : db.transactions txid <;> simp [none_none]

variable {txid}

/-- A member inserted hollow has a row. -/
theorem transactions_insertHollowMembers (now : Txid → OffsetDateTime) {txids : List Txid}
    (member : txid ∈ txids) :
    ∃ row, (db.insertHollowMembers now txids).transactions txid = some row ∧
      row.clusterId = db.link txid := by
  unfold insertHollowMembers insertOrIgnore
  cases stored : db.transactions txid with
  | some row => exact ⟨row, by simp [stored], by simp [link, stored]⟩
  | none =>
    have found : ((txids.map fun txid => NewTransaction.hollow (now txid) txid).find?
        fun new => new.txid = txid).isSome = true := by
      simp only [List.find?_isSome, List.mem_map]
      exact ⟨_, ⟨txid, member, rfl⟩, by simp [NewTransaction.hollow]⟩
    obtain ⟨new, found⟩ := Option.isSome_iff_exists.mp found
    obtain ⟨now, hollow⟩ := isHollow_of_mem_map_hollow new (List.mem_of_find?_eq_some found)
    refine ⟨new.row, by simp [stored, found], ?_⟩
    rw [hollow]
    simp [NewTransaction.hollow, link, stored]

end Statements

/-! ### The rows of one version -/

section ChunkRows

variable (id : ClusterId) (version : ℕ) (chunks : List ClusterChunk) (live : Bool)

theorem mem_chunkRows {row : ClusterChunkRow} (member : row ∈ chunkRows id version chunks live) :
    row.clusterId = id ∧ row.version = version ∧ row.live = live := by
  obtain ⟨position, bound, rfl⟩ := List.mem_mapIdx.mp member
  exact ⟨rfl, rfl, rfl⟩

@[simp] theorem length_chunkRows : (chunkRows id version chunks live).length = chunks.length :=
  List.length_mapIdx

theorem filter_chunkRows (other : ClusterId) (number : ℕ) :
    (chunkRows id version chunks live).filter
        (fun row => row.clusterId = other ∧ row.version = number) =
      if id = other ∧ version = number then chunkRows id version chunks live else [] := by
  split_ifs with same
  · refine List.filter_eq_self.mpr fun row member => ?_
    obtain ⟨owner, numbered, -⟩ := mem_chunkRows _ _ _ _ member
    simpa [owner, numbered] using same
  · refine List.filter_eq_nil_iff.mpr fun row member => ?_
    obtain ⟨owner, numbered, -⟩ := mem_chunkRows _ _ _ _ member
    simpa [owner, numbered] using same

/-- Stored amounts are read back as they were: both casts keep the bits. -/
theorem map_chunk_chunkRows :
    (chunkRows id version chunks live).map ClusterChunkRow.chunk = chunks := by
  refine List.ext_getElem (by simp) fun position _ _ => ?_
  simp [chunkRows, ClusterChunkRow.chunk]

theorem flatMap_txids_chunkRows :
    (chunkRows id version chunks live).flatMap ClusterChunkRow.txids =
      chunks.flatMap ClusterChunk.txids := by
  have same : (chunkRows id version chunks live).map ClusterChunkRow.txids =
      chunks.map ClusterChunk.txids := by
    refine List.ext_getElem (by simp) fun position _ _ => ?_
    simp [chunkRows]
  rw [List.flatMap_def, List.flatMap_def, same]

theorem totals_eq_sum_chunkRows :
    totals chunks = ⟨((chunkRows id version chunks live).map ClusterChunkRow.weight).sum,
      ((chunkRows id version chunks live).map ClusterChunkRow.fee).sum⟩ := by
  have weights : (chunkRows id version chunks live).map ClusterChunkRow.weight =
      chunks.map fun chunk => chunk.weight.toInt64 := by
    refine List.ext_getElem (by simp) fun position _ _ => ?_
    simp [chunkRows]
  have fees : (chunkRows id version chunks live).map ClusterChunkRow.fee =
      chunks.map fun chunk => chunk.feeSats.toInt64 := by
    refine List.ext_getElem (by simp) fun position _ _ => ?_
    simp [chunkRows]
  rw [totals, weights, fees]

variable {chunks}

/-- A position below the bound is stored as it is. -/
theorem toI16_eq {position : ℕ} (small : position < maxChunks) : toI16 position = position := by
  unfold maxChunks at small
  unfold toI16
  refine Int.bmod_eq_of_le ?_ ?_ <;> omega

theorem map_position_chunkRows (small : chunks.length ≤ maxChunks) :
    (chunkRows id version chunks live).map ClusterChunkRow.position =
      (List.range chunks.length).map (↑·) := by
  refine List.ext_getElem (by simp) fun position inRows _ => ?_
  have bound : position < maxChunks := by
    rw [List.length_map, length_chunkRows] at inRows
    omega
  simp [chunkRows, toI16_eq bound]

end ChunkRows

/-! ### Fresh ids -/

section Allocation

variable {seq id count : ℕ} {new : List NewCluster}

theorem allocatedIds_succ (seq count : ℕ) :
    allocatedIds seq (count + 1) = seq :: allocatedIds (seq + 1) count := by
  simp [allocatedIds, List.range_succ_eq_map, Function.comp_def, Nat.add_assoc, Nat.add_comm 1]

theorem mem_allocatedIds : id ∈ allocatedIds seq count ↔ seq ≤ id ∧ id < seq + count := by
  simp only [allocatedIds, List.mem_map, List.mem_range]
  constructor
  · rintro ⟨offset, small, rfl⟩
    omega
  · rintro ⟨low, high⟩
    exact ⟨id - seq, by omega, by omega⟩

theorem nodup_allocatedIds : (allocatedIds seq count).Nodup :=
  List.nodup_range.map fun _ _ same => Nat.add_left_cancel same

theorem fresh_cons (seq : ℕ) (cluster : NewCluster) (new : List NewCluster) :
    fresh seq (cluster :: new) = (seq, cluster) :: fresh (seq + 1) new := by
  rw [fresh, List.length_cons, allocatedIds_succ, List.zip_cons_cons, fresh]

theorem lookup_fresh_cons (seq id : ℕ) (cluster : NewCluster) (new : List NewCluster) :
    (fresh seq (cluster :: new)).lookup id =
      if id = seq then some cluster else (fresh (seq + 1) new).lookup id := by
  rw [fresh_cons, List.lookup_cons]
  by_cases here : id = seq
  · simp [here]
  · rw [beq_false_of_ne here, if_neg here]

/-- An id the sequence already gave out is not a fresh one. -/
theorem lookup_fresh_of_lt (old : id < seq) : (fresh seq new).lookup id = none := by
  induction new generalizing seq with
  | nil => simp [fresh, allocatedIds]
  | cons cluster new ih =>
    rw [lookup_fresh_cons, if_neg old.ne, ih (old.trans (Nat.lt_succ_self _))]

theorem mem_fresh_iff {cluster : NewCluster} :
    (id, cluster) ∈ fresh seq new ↔ (fresh seq new).lookup id = some cluster := by
  induction new generalizing seq with
  | nil => simp [fresh, allocatedIds]
  | cons first new ih =>
    rw [fresh_cons, List.mem_cons, ih, ← fresh_cons, lookup_fresh_cons]
    by_cases here : id = seq
    · subst here
      simp [lookup_fresh_of_lt (Nat.lt_succ_self id), eq_comm]
    · simp [here]

theorem lookup_fresh_bounds {cluster : NewCluster}
    (found : (fresh seq new).lookup id = some cluster) :
    cluster ∈ new ∧ seq ≤ id ∧ id < seq + new.length := by
  have member := mem_fresh_iff.mpr found
  exact ⟨(List.of_mem_zip member).2, mem_allocatedIds.mp (List.of_mem_zip member).1⟩

theorem exists_lookup_fresh (seq : ℕ) {cluster : NewCluster} (member : cluster ∈ new) :
    ∃ id, (fresh seq new).lookup id = some cluster := by
  induction new generalizing seq with
  | nil => simp at member
  | cons first new ih =>
    rcases List.mem_cons.mp member with rfl | later
    · exact ⟨seq, by rw [lookup_fresh_cons, if_pos rfl]⟩
    · obtain ⟨id, found⟩ := ih (seq + 1) later
      have above := (lookup_fresh_bounds found).2.1
      exact ⟨id, by rw [lookup_fresh_cons, if_neg (by omega), found]⟩

end Allocation

/-! ### The invariant -/

/-- The versions of one cluster are stored in full. -/
structure VersionsOk (row : ClusterRow) (chunks : ℕ → List ClusterChunkRow) : Prop where
  pos : 1 ≤ row.version
  /-- The versions are exactly `1..current`. -/
  versions : ∀ version, chunks version ≠ [] ↔ 1 ≤ version ∧ version ≤ row.version
  /-- The positions within a version are exactly `0..n-1`. -/
  positions : ∀ version, (chunks version).map ClusterChunkRow.position =
    (List.range (chunks version).length).map (↑·)
  small : ∀ version, (chunks version).length ≤ maxChunks
  totalWeight : row.totalWeight = ((chunks row.version).map ClusterChunkRow.weight).sum
  totalFee : row.totalFee = ((chunks row.version).map ClusterChunkRow.fee).sum

/-- The versions of every cluster are stored in full, and nothing else is. -/
structure Versioned (db : Db) : Prop where
  owned : ∀ {id}, db.clusters id = none → ∀ version, db.chunksOf id version = []
  stored : ∀ {id row}, db.clusters id = some row → VersionsOk row (db.chunksOf id)
  keys : (db.clusterChunks.map ClusterChunkRow.key).Nodup
  allocated : ∀ {id}, db.clusterSeq ≤ id → db.clusters id = none

/-- The copies of membership agree, up to `live` on the clusters being trimmed. -/
structure StoreInv (trimmed : List ClusterId) (db : Db) : Prop extends Versioned db where
  active_of_live : ∀ {id version}, ∀ chunk ∈ db.chunksOf id version, chunk.live = true →
    ∃ row, db.clusters id = some row ∧ row.status = .active ∧ row.version = version
  live_of_active : ∀ {id row}, id ∉ trimmed → db.clusters id = some row → row.status = .active →
    ∀ chunk ∈ db.chunksOf id row.version, chunk.live = true
  unique : ∀ {first second}, db.IsActive first → db.IsActive second →
    ∀ txid ∈ db.members first, txid ∈ db.members second → first = second
  linked : ∀ {id}, db.IsActive id → ∀ txid, db.link txid = some id ↔ txid ∈ db.members id
  kept : ∀ {txid id}, db.link txid = some id →
    ∃ row, db.clusters id = some row ∧ (row.status = .active ∨ row.status = .confirmed)

/-- A row of an earlier version only ever leaves the by-txid lookup. -/
def Retires (before after : ClusterChunkRow) : Prop :=
  after = before ∨ after = before.retire

/-- `next` has every version `db` has, with the same chunks. -/
def Extends (db next : Db) : Prop :=
  ∀ id version, db.chunksOf id version ≠ [] →
    List.Forall₂ Retires (db.chunksOf id version) (next.chunksOf id version)

theorem Retires.trans {a b c : ClusterChunkRow} (first : Retires a b) (second : Retires b c) :
    Retires a c := by
  rcases first with rfl | rfl
  · exact second
  · rcases second with rfl | rfl <;> exact .inr rfl

theorem Extends.refl (db : Db) : Extends db db :=
  fun _ _ _ => List.forall₂_same.mpr fun _ _ => .inl rfl

theorem Extends.trans {a b c : Db} (first : Extends a b) (second : Extends b c) : Extends a c := by
  intro id version stored
  have mid := first id version stored
  have kept : b.chunksOf id version ≠ [] := by
    intro gone
    rw [gone] at mid
    exact stored (List.forall₂_nil_right_iff.mp mid)
  exact forall₂_trans (r := Retires) (fun _ _ _ => Retires.trans) mid (second id version kept)

/-! ### What a transaction does to the tables -/

section Effects

variable {now : Txid → OffsetDateTime} {db next : Db}

theorem chunksOf_insertChunks {rows : List ClusterChunkRow} (h : db.insertChunks rows = some next)
    (id : ClusterId) (version : ℕ) :
    next.chunksOf id version = db.chunksOf id version ++
      rows.filter fun row => row.clusterId = id ∧ row.version = version := by
  unfold insertChunks at h
  split_ifs at h
  cases h
  exact List.filter_append ..

theorem keys_insertChunks {rows : List ClusterChunkRow} (h : db.insertChunks rows = some next) :
    (next.clusterChunks.map ClusterChunkRow.key).Nodup := by
  unfold insertChunks at h
  split_ifs at h with distinct
  cases h
  exact distinct

/-- The chunk rows of one version that an insert adds. -/
def freshChunks (seq : ℕ) (new : List NewCluster) (id : ClusterId) (version : ℕ) :
    List ClusterChunkRow :=
  match (fresh seq new).lookup id with
  | some cluster => if version = 1 then chunkRows id 1 cluster.chunks true else []
  | none => []

theorem filter_freshRows (seq id version : ℕ) (new : List NewCluster) :
    ((fresh seq new).flatMap fun inserted => chunkRows inserted.1 1 inserted.2.chunks true).filter
        (fun row => row.clusterId = id ∧ row.version = version) =
      freshChunks seq new id version := by
  induction new generalizing seq with
  | nil => simp [freshChunks, fresh, allocatedIds]
  | cons cluster new ih =>
    rw [fresh_cons, List.flatMap_cons, List.filter_append, ih, filter_chunkRows, freshChunks,
      freshChunks, lookup_fresh_cons]
    by_cases here : id = seq
    · subst here
      rw [lookup_fresh_of_lt (Nat.lt_succ_self id)]
      simp [eq_comm]
    · simp [here, Ne.symm here]

/-- What `insertIn` leaves. -/
structure Inserts (db : Db) (new : List NewCluster) (next : Db) : Prop where
  clusterSeq : next.clusterSeq = db.clusterSeq + new.length
  clusters : ∀ id, next.clusters id =
    (((fresh db.clusterSeq new).lookup id).map NewCluster.row).or (db.clusters id)
  chunksOf : ∀ id version, next.chunksOf id version =
    db.chunksOf id version ++ freshChunks db.clusterSeq new id version
  keys : (next.clusterChunks.map ClusterChunkRow.key).Nodup
  link : ∀ txid,
    (∃ id cluster, (fresh db.clusterSeq new).lookup id = some cluster ∧ txid ∈ cluster.txids ∧
      next.link txid = some id) ∨
    (∀ cluster ∈ new, txid ∉ cluster.txids) ∧ next.link txid = db.link txid

theorem mem_freshChunks {seq id version : ℕ} {new : List NewCluster} {row : ClusterChunkRow}
    (member : row ∈ freshChunks seq new id version) :
    ∃ cluster, (fresh seq new).lookup id = some cluster ∧
      row ∈ chunkRows id 1 cluster.chunks true := by
  unfold freshChunks at member
  split at member
  case h_1 cluster inserted =>
    split_ifs at member
    · exact ⟨cluster, inserted, member⟩
    · simp at member
  case h_2 => simp at member

@[simp] theorem clusterChunks_insertHollowMembers (txids : List Txid) :
    (db.insertHollowMembers now txids).clusterChunks = db.clusterChunks := rfl

theorem insertChunks_keeps {rows : List ClusterChunkRow} (h : db.insertChunks rows = some next) :
    next.clusterSeq = db.clusterSeq ∧ next.clusters = db.clusters ∧
      ∀ txid, next.link txid = db.link txid := by
  unfold insertChunks at h
  split_ifs at h
  cases h
  exact ⟨rfl, rfl, fun _ => rfl⟩

/-- A chunk row of the table is one of its own version. -/
theorem mem_chunksOf_self {row : ClusterChunkRow} (member : row ∈ db.clusterChunks) :
    row ∈ db.chunksOf row.clusterId row.version :=
  (db.mem_chunksOf _ _).mpr ⟨member, rfl, rfl⟩

theorem exists_txid_chunkRows (id : ClusterId) (version : ℕ) (chunks : List ClusterChunk)
    (live : Bool) {txid : Txid} :
    (∃ row ∈ chunkRows id version chunks live, txid ∈ row.txids) ↔
      txid ∈ chunks.flatMap ClusterChunk.txids := by
  rw [← flatMap_txids_chunkRows id version chunks live, List.mem_flatMap]

/-- The row the back-link update reads a member's cluster from. -/
theorem find_fresh_row (inv : Versioned db) {new : List NewCluster} {withChunks : Db}
    (untaken : ¬ ∃ id ∈ allocatedIds db.clusterSeq new.length, (db.clusters id).isSome = true)
    (chunks : ∀ id version, withChunks.chunksOf id version =
      db.chunksOf id version ++ freshChunks db.clusterSeq new id version) (txid : Txid) :
    let found := withChunks.clusterChunks.find? fun row =>
      row.clusterId ∈ allocatedIds db.clusterSeq new.length ∧ txid ∈ row.txids
    (∃ row cluster, found = some row ∧
      (fresh db.clusterSeq new).lookup row.clusterId = some cluster ∧ txid ∈ cluster.txids) ∨
    found = none ∧ ∀ cluster ∈ new, txid ∉ cluster.txids := by
  intro found
  cases located : found with
  | some row =>
    have member := mem_chunksOf_self (List.mem_of_find?_eq_some located)
    obtain ⟨inIds, named⟩ : row.clusterId ∈ allocatedIds db.clusterSeq new.length ∧
        txid ∈ row.txids := by simpa using List.find?_some located
    -- the id was just allocated, so no older row has it
    have unowned : db.clusters row.clusterId = none := by
      by_contra stored
      exact untaken ⟨_, inIds, Option.isSome_iff_ne_none.mpr stored⟩
    rw [chunks, inv.owned unowned _, List.nil_append] at member
    obtain ⟨cluster, inserted, inRows⟩ := mem_freshChunks member
    exact .inl ⟨row, cluster, rfl, inserted, (exists_txid_chunkRows ..).mp ⟨row, inRows, named⟩⟩
  | none =>
    refine .inr ⟨rfl, fun cluster member named => ?_⟩
    obtain ⟨id, inserted⟩ := exists_lookup_fresh db.clusterSeq member
    obtain ⟨row, inRows, inRow⟩ := (exists_txid_chunkRows id 1 cluster.chunks true).mpr named
    have stored : row ∈ withChunks.chunksOf id 1 := by
      rw [chunks, freshChunks, inserted]
      exact List.mem_append_right _ (by simpa using inRows)
    obtain ⟨inTable, owner, -⟩ := (withChunks.mem_chunksOf _ _).mp stored
    have allocated := mem_allocatedIds.mpr (lookup_fresh_bounds inserted).2
    have missed := List.find?_eq_none.mp located row inTable
    simp [owner, allocated, inRow] at missed

/-- What an insert leaves of the cluster tables. -/
theorem tables_insertIn {new : List NewCluster} {clusters : List Cluster}
    (h : db.insertIn now new = some (clusters, next)) :
    (¬ ∃ id ∈ allocatedIds db.clusterSeq new.length, (db.clusters id).isSome = true) ∧
      next.clusterSeq = db.clusterSeq + new.length ∧
      (∀ id, next.clusters id =
        (((fresh db.clusterSeq new).lookup id).map NewCluster.row).or (db.clusters id)) ∧
      ∀ id version, next.chunksOf id version =
        db.chunksOf id version ++ freshChunks db.clusterSeq new id version := by
  unfold insertIn at h
  simp only [Option.bind_eq_bind, Option.pure_def] at h
  split_ifs at h with taken
  obtain ⟨withChunks, inserted, h⟩ := Option.bind_eq_some_iff.mp h
  simp only [Option.some.injEq, Prod.mk.injEq] at h
  obtain ⟨-, rfl⟩ := h
  obtain ⟨seq, rows, -⟩ := insertChunks_keeps inserted
  refine ⟨taken, seq, fun id => congrFun rows id, fun id version => ?_⟩
  rw [chunksOf_relink, chunksOf_insertHollowMembers, chunksOf_insertChunks inserted,
    filter_freshRows]
  rfl

theorem inserts_insertIn (inv : Versioned db) {new : List NewCluster} {clusters : List Cluster}
    (h : db.insertIn now new = some (clusters, next)) :
    clusters = (fresh db.clusterSeq new).map
        (fun inserted => .fromRow inserted.1 inserted.2.row inserted.2.chunks) ∧
      Inserts db new next := by
  unfold insertIn at h
  simp only [Option.bind_eq_bind, Option.pure_def] at h
  split_ifs at h with taken
  obtain ⟨withChunks, inserted, h⟩ := Option.bind_eq_some_iff.mp h
  simp only [Option.some.injEq, Prod.mk.injEq] at h
  obtain ⟨rfl, rfl⟩ := h
  -- Chunks are only added, under the ids just handed out.
  have chunks (id : ClusterId) (version : ℕ) : withChunks.chunksOf id version =
      db.chunksOf id version ++ freshChunks db.clusterSeq new id version := by
    rw [chunksOf_insertChunks inserted, filter_freshRows]
    rfl
  have keys := keys_insertChunks inserted
  have found := find_fresh_row inv taken chunks
  obtain ⟨seq, rows, links⟩ := insertChunks_keeps inserted
  refine ⟨rfl, ⟨seq, fun id => congrFun rows id, chunks, keys, fun txid => ?_⟩⟩
  rw [link_relink]
  -- The last row that names the transaction links it; without one its link stays.
  rcases found txid with ⟨row, cluster, located, inserted, named⟩ | ⟨located, absent⟩
  · have member : txid ∈ new.flatMap NewCluster.txids :=
      List.mem_flatMap.mpr ⟨cluster, (lookup_fresh_bounds inserted).1, named⟩
    obtain ⟨stored, stored_eq, -⟩ := transactions_insertHollowMembers withChunks now member
    refine .inl ⟨row.clusterId, cluster, inserted, named, ?_⟩
    rw [stored_eq, clusterChunks_insertHollowMembers, located]
    rfl
  · refine .inr ⟨absent, ?_⟩
    rw [clusterChunks_insertHollowMembers, located]
    exact (link_insertHollowMembers withChunks txid now _).trans (links txid)

theorem map_key_retireWhere (retired : ClusterChunkRow → Bool) (db : Db) :
    (db.retireWhere retired).clusterChunks.map ClusterChunkRow.key =
      db.clusterChunks.map ClusterChunkRow.key := by
  rw [show (db.retireWhere retired).clusterChunks =
      db.clusterChunks.map (retireRow retired) from rfl,
    List.map_map]
  refine List.map_congr_left fun row _ => ?_
  rcases retireRow_eq retired row with same | closed <;>
    simp [*, ClusterChunkRow.key, ClusterChunkRow.retire]

/-- Retiring the live rows of one version, or none of them. -/
theorem chunksOf_retireWhere_eq (db : Db) {retired : ClusterChunkRow → Bool} {id : ClusterId}
    {version : ℕ}
    {all : Prop} [Decidable all]
    (retires : all → ∀ row ∈ db.chunksOf id version, row.live = true → retired row = true)
    (keeps : ¬ all → ∀ row ∈ db.chunksOf id version, retired row = false) :
    (db.retireWhere retired).chunksOf id version =
      if all then (db.chunksOf id version).map ClusterChunkRow.retire
      else db.chunksOf id version := by
  rw [chunksOf_retireWhere]
  split_ifs with holds
  · refine List.map_congr_left fun row member => ?_
    by_cases live : row.live = true
    · rw [retireRow, if_pos (retires holds row member live)]
    · -- a row that is not live stays as it is either way
      have retired : row.retire = row := by
        rw [ClusterChunkRow.retire, ← Bool.eq_false_iff.mpr live]
      rw [retireRow, retired, ite_self]
  · conv_rhs => rw [← List.map_id (db.chunksOf id version)]
    refine List.map_congr_left fun row member => ?_
    rw [retireRow, keeps holds row member]
    rfl

/-- What `replaceChunksIn` leaves when it records a new version. -/
structure Replaces (db : Db) (update : ClusterVersionUpdate) (live : Bool) (old : ClusterRow)
    (next : Db) : Prop where
  clusterSeq : next.clusterSeq = db.clusterSeq
  clusters : ∀ id, next.clusters id =
    if id = update.clusterId then some (update.row old) else db.clusters id
  chunksOf : ∀ id version, next.chunksOf id version =
    (if id = update.clusterId ∧ version = old.version then
      (db.chunksOf id version).map ClusterChunkRow.retire else db.chunksOf id version) ++
    if id = update.clusterId ∧ version = old.version + 1 then
      chunkRows id version update.chunks live else []
  keys : (next.clusterChunks.map ClusterChunkRow.key).Nodup
  link : ∀ txid, next.link txid =
    if txid ∈ update.txids then some update.clusterId
    else if db.link txid = some update.clusterId then none else db.link txid

theorem replaceChunksIn_cases {update : ClusterVersionUpdate} {live : Bool} {cluster : Cluster}
    (h : db.replaceChunksIn now update live = some (cluster, next)) :
    ∃ old, db.clusters update.clusterId = some old ∧
      ((old.status ≠ .active ∨ db.loadChunks update.clusterId old.version = update.chunks) ∧
          cluster = .fromRow update.clusterId old (db.loadChunks update.clusterId old.version) ∧
          next = db ∨
        old.status = .active ∧
          cluster = .fromRow update.clusterId (update.row old) update.chunks ∧
          Replaces db update live old next) := by
  unfold replaceChunksIn at h
  simp only [Option.bind_eq_bind, Option.pure_def] at h
  obtain ⟨old, stored, h⟩ := Option.bind_eq_some_iff.mp h
  refine ⟨old, stored, ?_⟩
  -- No longer active, or rewritten as it is: both return what is stored.
  split_ifs at h with asIs
  · simp only [Option.some.injEq, Prod.mk.injEq] at h
    exact .inl ⟨asIs, h.1.symm, h.2.symm⟩
  · obtain ⟨withChunks, inserted, h⟩ := Option.bind_eq_some_iff.mp h
    simp only [Option.some.injEq, Prod.mk.injEq] at h
    obtain ⟨rfl, rfl⟩ := h
    obtain ⟨active, -⟩ := not_or.mp asIs
    obtain ⟨seq, rows, links⟩ := insertChunks_keeps inserted
    have keys := keys_insertChunks inserted
    have chunks := chunksOf_insertChunks inserted
    refine .inr ⟨not_not.mp active, rfl, seq, fun id => ?_, fun id version => ?_, keys,
      fun txid => ?_⟩
    -- Only the cluster's own row moves on to the next version.
    · have rows := congrFun rows id
      simp only [clusters_retireWhere] at rows
      by_cases here : id = update.clusterId
      · subst here
        simp [updateClusters, rows, stored]
      · simp [updateClusters, rows, here]
    · simp only [chunksOf_relink, chunksOf_insertHollowMembers, chunksOf_updateClusters]
      rw [chunks, filter_chunkRows]
      congr 1
      · refine chunksOf_retireWhere_eq db ?_ ?_
        -- The rows of the version replaced are retired, and nothing else is.
        · rintro ⟨rfl, rfl⟩ row member -
          simpa using ((db.mem_chunksOf _ _).mp member).2
        · intro other row member
          obtain ⟨-, rfl, rfl⟩ := (db.mem_chunksOf _ _).mp member
          simpa using other
      · by_cases here : id = update.clusterId ∧ version = old.version + 1
        · obtain ⟨rfl, rfl⟩ := here
          simp
        · rw [if_neg here, if_neg (by rintro ⟨rfl, rfl⟩; exact here ⟨rfl, rfl⟩)]
    -- The update links what it names; other transactions of the cluster lose their link.
    · by_cases member : txid ∈ update.txids
      · obtain ⟨row, row_eq, -⟩ := transactions_insertHollowMembers _ now member
        rw [link_relink, row_eq]
        simp [member]
      · rw [link_relink_of_none _ _ (by simp [member]), link_insertHollowMembers,
          link_relink_of_none _ _ (by simp)]
        simp only [member, if_false, not_false_eq_true, and_true]
        rw [show (withChunks.updateClusters _ _).link txid = db.link txid from links txid]

/-- What ending the clusters in `ended` leaves of the cluster tables. -/
structure Ends (db : Db) (ended : List ClusterId) (change : ClusterRow → ClusterRow) (next : Db) :
    Prop where
  clusterSeq : next.clusterSeq = db.clusterSeq
  clusters : ∀ id, next.clusters id =
    if id ∈ ended then (db.clusters id).map change else db.clusters id
  chunksOf : ∀ id version, next.chunksOf id version =
    if id ∈ ended then (db.chunksOf id version).map ClusterChunkRow.retire
    else db.chunksOf id version
  keys : next.clusterChunks.map ClusterChunkRow.key = db.clusterChunks.map ClusterChunkRow.key

theorem ends_retireChunks (ended : List ClusterId) (change : ClusterRow → ClusterRow) (db : Db) :
    Ends db ended change ((db.updateClusters ended change).retireChunks ended) where
  clusterSeq := rfl
  clusters _ := rfl
  chunksOf id version := by
    refine chunksOf_retireWhere_eq (db.updateClusters ended change) ?_ ?_
    · intro member row inRows live
      obtain ⟨-, rfl, -⟩ := (mem_chunksOf _ _ _).mp inRows
      simp [member, live]
    · intro absent row inRows
      obtain ⟨-, rfl, -⟩ := (mem_chunksOf _ _ _).mp inRows
      simp [absent]
  keys := map_key_retireWhere _ _

theorem Ends.relink {ended : List ClusterId} {change : ClusterRow → ClusterRow}
    (ends : Ends db ended change next) (newLink : Txid → Option ClusterId → Option ClusterId) :
    Ends db ended change (next.relink newLink) :=
  ⟨ends.clusterSeq, ends.clusters, ends.chunksOf, ends.keys⟩

/-- A filtered load finds every stored cluster that passes, ids being below the sequence. -/
theorem mem_loadClusters (allocated : ∀ {id}, db.clusterSeq ≤ id → db.clusters id = none)
    {filter : ClusterId → ClusterRow → Bool} {cluster : Cluster} :
    cluster ∈ db.loadClusters filter ↔ ∃ id row, db.clusters id = some row ∧
      filter id row = true ∧ cluster = .fromRow id row (db.loadChunks id row.version) := by
  simp only [loadClusters, List.mem_filterMap, List.mem_range]
  constructor
  · rintro ⟨id, -, found⟩
    split at found
    case h_1 row stored =>
      split_ifs at found with passes
      exact ⟨id, row, stored, passes, (Option.some.inj found).symm⟩
    case h_2 => simp at found
  · rintro ⟨id, row, stored, passes, rfl⟩
    have below : id < db.clusterSeq := by
      by_contra above
      rw [allocated (Nat.le_of_not_lt above)] at stored
      simp at stored
    exact ⟨id, below, by simp [stored, passes]⟩

theorem mem_activeAmong (allocated : ∀ {id}, db.clusterSeq ≤ id → db.clusters id = none)
    (ids : List ClusterId) (id : ClusterId) :
    id ∈ db.activeAmong ids ↔ id ∈ ids ∧ db.IsActive id := by
  simp only [activeAmong, List.mem_map, mem_loadClusters allocated, Bool.decide_and,
    Bool.and_eq_true, decide_eq_true_eq, IsActive]
  constructor
  · rintro ⟨cluster, ⟨id, row, stored, ⟨member, active⟩, rfl⟩, rfl⟩
    exact ⟨member, row, stored, active⟩
  · rintro ⟨member, row, stored, active⟩
    exact ⟨_, ⟨id, row, stored, ⟨member, active⟩, rfl⟩, rfl⟩

theorem ends_closeMany (closedAt : OffsetDateTime) (ids : List ClusterId)
    (closing : ClusterClosing) (db : Db) :
    Ends db (db.activeAmong ids)
      (fun row => { row with status := closing.status, closedAt := some closedAt })
      (db.closeMany closedAt ids closing).2 := by
  simp only [closeMany]
  exact (ends_retireChunks ..).relink _

theorem link_closeMany (closedAt : OffsetDateTime) (ids : List ClusterId)
    (closing : ClusterClosing) (db : Db) (txid : Txid) :
    (db.closeMany closedAt ids closing).2.link txid =
      if ∃ id ∈ db.activeAmong ids, db.link txid = some id then none else db.link txid := by
  simp only [closeMany]
  rw [link_relink_of_none _ _ (by simp)]
  rfl

theorem ends_confirmManyIn (closedAt : OffsetDateTime) (ids : List ClusterId)
    (confirmedAt : OffsetDateTime) (db : Db) :
    Ends db (db.activeAmong ids)
      (fun row => { row with
        confirmedAt := some confirmedAt, status := .confirmed, closedAt := some closedAt })
      (db.confirmManyIn closedAt ids confirmedAt).2 :=
  ends_retireChunks ..

theorem link_confirmManyIn (closedAt : OffsetDateTime) (ids : List ClusterId)
    (confirmedAt : OffsetDateTime) (db : Db) (txid : Txid) :
    (db.confirmManyIn closedAt ids confirmedAt).2.link txid = db.link txid := rfl

end Effects

end Db

end MempoolObserver
