import MempoolObserver.Db.ClusterInvariant

/-!
# Change sets and the cluster snapshot

A mutation round accumulates the clusters it touched in a `ClusterDeltaSet` and
publishes it once: the upserted clusters are written over the in-memory snapshot
of the active set, then the removed ones are dropped from it.

A change set is only worth what it says about the database, which is `Accounts`:
between two database states, every cluster is active exactly as its last mark
says, or as it was before if it has none. Accounts compose along `merge`, so each
function of the service is checked against its own database writes only.

## Main results

* `ClusterDeltaSet.mark_merge` — the last mark wins
* `Accounts.merge` — accounts of consecutive changes compose
* `Accounts.publish` — publishing an account keeps the snapshot equal to the
  active clusters
-/

namespace MempoolObserver

/-! ### The snapshot -/

/-- An active cluster as the api tracks it. -/
structure ActiveCluster where
  id : ClusterId
  chunks : List ClusterChunk
  totalWeight : Int64
  totalFee : Int64
  firstSeenAt : OffsetDateTime
  deriving DecidableEq, Repr

structure ClusterState where
  chunks : List ClusterChunk
  totalWeight : Int64
  totalFee : Int64
  firstSeenAt : OffsetDateTime
  deriving DecidableEq, Repr

def ActiveCluster.state (cluster : ActiveCluster) : ClusterState :=
  ⟨cluster.chunks, cluster.totalWeight, cluster.totalFee, cluster.firstSeenAt⟩

def ActiveCluster.ofCluster (cluster : Cluster) : ActiveCluster :=
  ⟨cluster.id, cluster.chunks, cluster.totalWeight, cluster.totalFee, cluster.firstSeenAt⟩

/-- The active clusters in memory, keyed by cluster id. -/
abbrev ClusterSnapshot := ClusterId → Option ClusterState

namespace ClusterSnapshot

/-- Records an upserted cluster, if it differs from what is tracked. -/
def upsert (snapshot : ClusterSnapshot) (cluster : ActiveCluster) : ClusterSnapshot :=
  if snapshot cluster.id = some cluster.state then snapshot
  else Function.update snapshot cluster.id (some cluster.state)

/-- Drops a cluster from the active set. -/
def remove (snapshot : ClusterSnapshot) (id : ClusterId) : ClusterSnapshot :=
  Function.update snapshot id none

theorem upsert_eq (snapshot : ClusterSnapshot) (cluster : ActiveCluster) :
    snapshot.upsert cluster = Function.update snapshot cluster.id (some cluster.state) := by
  unfold upsert
  split_ifs with tracked
  · exact (Function.update_eq_self_iff.mpr tracked.symm).symm
  · rfl

end ClusterSnapshot

/-! ### Change sets -/

/-- Clusters touched during one mutation round; `upserted` has one cluster per id. -/
structure ClusterDeltaSet where
  upserted : List ActiveCluster
  removed : List ClusterId

namespace ClusterDeltaSet

def default : ClusterDeltaSet := ⟨[], []⟩

def markRemoved (changes : ClusterDeltaSet) (id : ClusterId) : ClusterDeltaSet :=
  ⟨changes.upserted.filter (·.id ≠ id), changes.removed.insert id⟩

/-- Files a cluster under its id. -/
def put (changes : ClusterDeltaSet) (cluster : ActiveCluster) : ClusterDeltaSet :=
  ⟨cluster :: changes.upserted.filter (·.id ≠ cluster.id),
    changes.removed.filter (· ≠ cluster.id)⟩

/-- A cluster that is no longer active counts as removed. -/
def markUpserted (changes : ClusterDeltaSet) (cluster : Cluster) : ClusterDeltaSet :=
  if cluster.status ≠ .active then changes.markRemoved cluster.id
  else changes.put (.ofCluster cluster)

def isEmpty (changes : ClusterDeltaSet) : Bool :=
  changes.upserted.isEmpty && changes.removed.isEmpty

/-- Both maps are iterated in an arbitrary order, here from the back. -/
def merge (changes other : ClusterDeltaSet) : ClusterDeltaSet :=
  let upserts := other.upserted.foldr (fun cluster changes => changes.put cluster) changes
  other.removed.foldl markRemoved upserts

/-- The last mark of an id: upserted, removed, or none. -/
def mark (changes : ClusterDeltaSet) (id : ClusterId) : Option (Option ActiveCluster) :=
  if id ∈ changes.removed then some none
  else (changes.upserted.find? fun cluster => cluster.id = id).map some

@[simp] theorem mark_default (id : ClusterId) : default.mark id = none := by
  simp [mark, default]

private theorem find?_filter_ne {clusters : List ActiveCluster} {id other : ClusterId}
    (differ : id ≠ other) :
    (clusters.filter (·.id ≠ other)).find? (fun cluster => cluster.id = id) =
      clusters.find? fun cluster => cluster.id = id := by
  rw [List.find?_filter]
  congr 1
  funext cluster
  by_cases same : cluster.id = id <;> simp [same, differ]

theorem mark_markRemoved (changes : ClusterDeltaSet) (removed id : ClusterId) :
    (changes.markRemoved removed).mark id =
      if id = removed then some none else changes.mark id := by
  unfold mark markRemoved
  by_cases same : id = removed
  · simp [same]
  · simp only [List.mem_insert_iff, same, false_or, if_false, find?_filter_ne same]

theorem mark_put (changes : ClusterDeltaSet) (cluster : ActiveCluster) (id : ClusterId) :
    (changes.put cluster).mark id =
      if id = cluster.id then some (some cluster) else changes.mark id := by
  unfold mark put
  by_cases same : id = cluster.id
  · simp [same]
  · rw [List.find?_cons_of_neg (by simpa using Ne.symm same), find?_filter_ne same]
    simp [same]

theorem mark_markUpserted (changes : ClusterDeltaSet) (cluster : Cluster) (id : ClusterId) :
    (changes.markUpserted cluster).mark id =
      if id = cluster.id then
        some (if cluster.status = .active then some (.ofCluster cluster) else none)
      else changes.mark id := by
  unfold markUpserted
  by_cases active : cluster.status = .active
  · simp [active, mark_put, ActiveCluster.ofCluster]
  · simp [active, mark_markRemoved]

theorem mark_foldl_markRemoved (removed : List ClusterId) (changes : ClusterDeltaSet)
    (id : ClusterId) : (removed.foldl markRemoved changes).mark id =
      if id ∈ removed then some none else changes.mark id := by
  induction removed generalizing changes with
  | nil => simp
  | cons first rest ih =>
    rw [List.foldl_cons, ih, mark_markRemoved]
    by_cases later : id ∈ rest <;> by_cases same : id = first <;> simp [later, same]

private theorem mark_foldr_put (upserted : List ActiveCluster) (changes : ClusterDeltaSet)
    (id : ClusterId) :
    (upserted.foldr (fun cluster changes => changes.put cluster) changes).mark id =
      ((upserted.find? fun cluster => cluster.id = id).map some).or (changes.mark id) := by
  induction upserted with
  | nil => simp
  | cons cluster rest ih =>
    rw [List.foldr_cons, mark_put, ih]
    by_cases same : id = cluster.id
    · simp [same]
    · rw [if_neg same, List.find?_cons_of_neg (by simpa using Ne.symm same)]

/-- Merging lets the other set's marks win. -/
theorem mark_merge (changes other : ClusterDeltaSet) (id : ClusterId) :
    (changes.merge other).mark id = (other.mark id).or (changes.mark id) := by
  rw [merge, mark_foldl_markRemoved, mark_foldr_put, mark.eq_def other]
  by_cases removed : id ∈ other.removed <;> simp [removed]

end ClusterDeltaSet

/-! ### Publishing -/

/-- `ClusterDeltaService::publish`, as far as the snapshot goes. -/
def ClusterSnapshot.publish (snapshot : ClusterSnapshot) (changes : ClusterDeltaSet) :
    ClusterSnapshot :=
  let upserted := changes.upserted.foldr (fun cluster snapshot =>
    ClusterSnapshot.upsert snapshot cluster) snapshot
  changes.removed.foldl ClusterSnapshot.remove upserted

/-- After a publish every cluster is tracked as its last mark says. -/
theorem ClusterSnapshot.publish_apply (snapshot : ClusterSnapshot) (changes : ClusterDeltaSet)
    (id : ClusterId) :
    snapshot.publish changes id =
      (changes.mark id).elim (snapshot id) (Option.map ActiveCluster.state) := by
  have removes (removed : List ClusterId) (snapshot : ClusterSnapshot) :
      removed.foldl ClusterSnapshot.remove snapshot id =
        if id ∈ removed then none else snapshot id := by
    induction removed generalizing snapshot with
    | nil => simp
    | cons first rest ih =>
      rw [List.foldl_cons, ih, ClusterSnapshot.remove, Function.update_apply]
      by_cases later : id ∈ rest <;> by_cases same : id = first <;> simp [later, same]
  have upserts (upserted : List ActiveCluster) :
      upserted.foldr (fun cluster snapshot => ClusterSnapshot.upsert snapshot cluster) snapshot id =
        ((upserted.find? fun cluster => cluster.id = id).map ActiveCluster.state).or
          (snapshot id) := by
    induction upserted with
    | nil => simp
    | cons cluster rest ih =>
      rw [List.foldr_cons, ClusterSnapshot.upsert_eq, Function.update_apply, ih]
      by_cases same : id = cluster.id
      · simp [same]
      · rw [if_neg same, List.find?_cons_of_neg (by simpa using Ne.symm same)]
  rw [publish, removes, upserts, ClusterDeltaSet.mark]
  by_cases removed : id ∈ changes.removed
  · simp [removed]
  · cases changes.upserted.find? fun cluster => cluster.id = id <;> simp [removed]

/-! ### Accounts of database changes -/

/-- The cluster as the snapshot should track it; `none` when it is not active. -/
def Db.activeState (db : Db) (id : ClusterId) : Option ClusterState :=
  match db.clusters id with
  | some row =>
    if row.status = .active then
      some (ActiveCluster.ofCluster (.fromRow id row (db.loadChunks id row.version))).state
    else none
  | none => none

/-- The change set says what happened to the active clusters between two states. -/
def Accounts (changes : ClusterDeltaSet) (db next : Db) : Prop :=
  ∀ id, next.activeState id =
    (changes.mark id).elim (db.activeState id) (Option.map ActiveCluster.state)

theorem Accounts.refl (db : Db) : Accounts .default db db := fun id => by simp

theorem Accounts.merge {changes other : ClusterDeltaSet} {db mid next : Db}
    (first : Accounts changes db mid) (second : Accounts other mid next) :
    Accounts (changes.merge other) db next := by
  intro id
  rw [second id, first id, ClusterDeltaSet.mark_merge]
  cases other.mark id <;> rfl

/-- Publishing an account keeps the snapshot equal to the active clusters. -/
theorem Accounts.publish {changes : ClusterDeltaSet} {db next : Db} {snapshot : ClusterSnapshot}
    (accounts : Accounts changes db next) (agree : snapshot = db.activeState) :
    snapshot.publish changes = next.activeState := by
  funext id
  rw [ClusterSnapshot.publish_apply, accounts id, agree]

/-! ### The account of each transaction -/

section Transactions

variable {changes : ClusterDeltaSet} {db mid next : Db} {now : Txid → OffsetDateTime}

theorem Db.activeState_congr {id : ClusterId} (rows : next.clusters id = db.clusters id)
    (chunks : next.chunksOf id = db.chunksOf id) : next.activeState id = db.activeState id := by
  simp only [activeState, loadChunks, rows, chunks]

theorem Db.activeState_of_stored {id : ClusterId} {row : ClusterRow}
    (stored : db.clusters id = some row) (active : row.status = .active) :
    db.activeState id =
      some (ActiveCluster.ofCluster (.fromRow id row (db.loadChunks id row.version))).state := by
  simp [activeState, stored, active]

/-- Upserting what a transaction returned accounts for it. -/
theorem Accounts.markUpserted {cluster : Cluster} (accounts : Accounts changes db mid)
    (self : next.activeState cluster.id =
      if cluster.status = .active then some (ActiveCluster.ofCluster cluster).state else none)
    (others : ∀ id, id ≠ cluster.id → next.activeState id = mid.activeState id) :
    Accounts (changes.markUpserted cluster) db next := by
  intro id
  rw [ClusterDeltaSet.mark_markUpserted]
  by_cases same : id = cluster.id
  · rw [if_pos same, same, self]
    split_ifs <;> rfl
  · rw [if_neg same, others id same, accounts id]

/-- Removing the clusters a transaction ended accounts for it. -/
theorem Accounts.markRemoved {ids : List ClusterId} (accounts : Accounts changes db mid)
    (ended : ∀ id ∈ ids, next.activeState id = none)
    (others : ∀ id, id ∉ ids → next.activeState id = mid.activeState id) :
    Accounts (ids.foldl ClusterDeltaSet.markRemoved changes) db next := by
  intro id
  rw [ClusterDeltaSet.mark_foldl_markRemoved]
  by_cases member : id ∈ ids
  · rw [if_pos member, ended id member]
    rfl
  · rw [if_neg member, others id member, accounts id]

/-- The marks of a batch of inserted clusters. -/
theorem ClusterDeltaSet.mark_foldl_fresh (seq id : ℕ) (new : List NewCluster)
    (changes : ClusterDeltaSet) :
    (((fresh seq new).map fun inserted => Cluster.fromRow inserted.1 inserted.2.row
      inserted.2.chunks).foldl markUpserted changes).mark id =
      (((fresh seq new).lookup id).map fun cluster =>
        some (.ofCluster (.fromRow id cluster.row cluster.chunks))).or (changes.mark id) := by
  induction new generalizing seq changes with
  | nil => simp [fresh, allocatedIds]
  | cons cluster new ih =>
    rw [Db.fresh_cons, List.map_cons, List.foldl_cons, ih, ← Db.fresh_cons, Db.lookup_fresh_cons,
      mark_markUpserted]
    by_cases here : id = seq
    · subst here
      simp [Db.lookup_fresh_of_lt (Nat.lt_succ_self id), Cluster.fromRow, NewCluster.row]
    · have other : id ≠ (Cluster.fromRow seq cluster.row cluster.chunks).id := here
      rw [if_neg here, if_neg other]

theorem Accounts.insertIn {new : List NewCluster} {clusters : List Cluster}
    (accounts : Accounts changes db mid) (inv : mid.Versioned) (nextInv : next.Versioned)
    (h : mid.insertIn now new = some (clusters, next)) :
    Accounts (clusters.foldl ClusterDeltaSet.markUpserted changes) db next := by
  obtain ⟨rfl, ins⟩ := Db.inserts_insertIn inv h
  intro id
  rw [ClusterDeltaSet.mark_foldl_fresh]
  cases inserted : (fresh mid.clusterSeq new).lookup id with
  | some cluster =>
    have loaded : next.loadChunks id cluster.row.version = cluster.chunks := by
      rw [nextInv.loadChunks_eq, ins.chunksOf_fresh inv inserted]
      exact Db.map_chunk_chunkRows ..
    rw [Db.activeState_of_stored (ins.clusters_fresh inserted) rfl, loaded]
    rfl
  | none =>
    rw [Db.activeState_congr (ins.clusters_old inserted) (ins.chunksOf_old inserted), accounts id]
    rfl

theorem Accounts.replaceChunksIn {update : ClusterVersionUpdate} {cluster : Cluster}
    (accounts : Accounts changes db mid) (inv : mid.Versioned) (nextInv : next.Versioned)
    (h : mid.replaceChunksIn now update true = some (cluster, next)) :
    Accounts (changes.markUpserted cluster) db next := by
  obtain ⟨old, stored, ⟨-, rfl, rfl⟩ | ⟨active, rfl, rep⟩⟩ := Db.replaceChunksIn_cases h
  · refine accounts.markUpserted ?_ fun id _ => rfl
    simp only [Db.activeState, Cluster.fromRow, stored]
    rfl
  · refine accounts.markUpserted ?_ fun id other =>
      Db.activeState_congr (rep.clusters_other other) (rep.chunksOf_other other)
    have loaded : next.loadChunks update.clusterId (update.row old).version = update.chunks := by
      rw [nextInv.loadChunks_eq]
      exact (congrArg _ (rep.chunksOf_top inv stored)).trans (Db.map_chunk_chunkRows ..)
    have status : (update.row old).status = .active := active
    refine Eq.trans ?_ (if_pos status).symm
    exact (Db.activeState_of_stored rep.clusters_self status).trans (by rw [loaded])

theorem Db.Ends.activeState {ended : List ClusterId} {change : ClusterRow → ClusterRow}
    {status : ClusterStatus} (ends : Db.Ends mid ended change next) (inactive : status ≠ .active)
    (status_eq : ∀ row, (change row).status = status) (id : ClusterId) :
    next.activeState id = if id ∈ ended then none else mid.activeState id := by
  split_ifs with member
  · rw [Db.activeState, ends.clusters, if_pos member]
    cases mid.clusters id <;> simp [status_eq, inactive]
  · refine Db.activeState_congr (by rw [ends.clusters, if_neg member]) ?_
    funext version
    rw [ends.chunksOf, if_neg member]

theorem Db.activeState_eq_none {id : ClusterId} (inactive : ¬ db.IsActive id) :
    db.activeState id = none := by
  unfold activeState
  split
  case h_1 row stored => exact if_neg fun active => inactive ⟨row, stored, active⟩
  case h_2 => rfl

/-- Ending the active clusters among `ids` leaves none of `ids` active. -/
theorem Db.Ends.activeState_among {ids : List ClusterId} {change : ClusterRow → ClusterRow}
    {status : ClusterStatus} (ends : Db.Ends mid (mid.activeAmong ids) change next)
    (inv : mid.Versioned) (inactive : status ≠ .active)
    (status_eq : ∀ row, (change row).status = status) (id : ClusterId) :
    (id ∈ ids → next.activeState id = none) ∧
      (id ∉ ids → next.activeState id = mid.activeState id) := by
  have state := ends.activeState inactive status_eq id
  have among := Db.mem_activeAmong inv.allocated ids id
  constructor
  · intro member
    by_cases active : mid.IsActive id
    · rw [state, if_pos (among.mpr ⟨member, active⟩)]
    · rw [state, if_neg fun inAmong => active (among.mp inAmong).2]
      exact Db.activeState_eq_none active
  · intro absent
    rw [state, if_neg fun inAmong => absent (among.mp inAmong).1]

theorem Accounts.closeMany {ids : List ClusterId} (accounts : Accounts changes db mid)
    (inv : mid.Versioned) (closedAt : OffsetDateTime) (closing : ClusterClosing) :
    Accounts (ids.foldl ClusterDeltaSet.markRemoved changes) db
      (mid.closeMany closedAt ids closing).2 := by
  have ended := (Db.ends_closeMany closedAt ids closing mid).activeState_among inv
    (Db.ClusterClosing.status_ne_active closing).1 fun _ => rfl
  exact accounts.markRemoved (fun id => (ended id).1) fun id => (ended id).2

theorem Accounts.confirmManyIn {ids : List ClusterId} (accounts : Accounts changes db mid)
    (inv : mid.Versioned) (closedAt confirmedAt : OffsetDateTime) :
    Accounts (ids.foldl ClusterDeltaSet.markRemoved changes) db
      (mid.confirmManyIn closedAt ids confirmedAt).2 := by
  have ended := (Db.ends_confirmManyIn closedAt ids confirmedAt mid).activeState_among inv
    (show ClusterStatus.confirmed ≠ .active by simp) fun _ => rfl
  exact accounts.markRemoved (fun id => (ended id).1) fun id => (ended id).2

theorem Accounts.trimAndConfirmMany {updates : List ClusterVersionUpdate}
    {closedAt confirmedAt : OffsetDateTime} {count : ℕ} (accounts : Accounts changes db mid)
    (inv : Db.StoreInv [] mid) (nonempty : ∀ update ∈ updates, update.chunks ≠ [])
    (small : ∀ update ∈ updates, update.chunks.length ≤ maxChunks)
    (within : ∀ update ∈ updates, update.txids ⊆ mid.members update.clusterId)
    (h : mid.trimAndConfirmMany now closedAt updates confirmedAt = some (count, next)) :
    Accounts
      ((updates.map ClusterVersionUpdate.clusterId).foldl ClusterDeltaSet.markRemoved changes)
      db next := by
  obtain ⟨ids, trimmed, mem_ids, trims, rfl⟩ :=
    Db.trims_trimAndConfirmMany inv nonempty small within h
  have same (id : ClusterId) : id ∈ updates.map ClusterVersionUpdate.clusterId ↔ id ∈ ids := by
    rw [mem_ids, List.mem_map]
  have ended := (Db.ends_confirmManyIn closedAt ids confirmedAt trimmed).activeState_among
    trims.inv.toVersioned (show ClusterStatus.confirmed ≠ .active by simp) fun _ => rfl
  refine accounts.markRemoved (fun id member => (ended id).1 ((same id).mp member)) ?_
  intro id absent
  have outside : id ∉ ids := fun member => absent ((same id).mpr member)
  obtain ⟨rows, chunks⟩ := trims.others id outside
  rw [(ended id).2 outside, Db.activeState_congr rows chunks]

end Transactions

end MempoolObserver
