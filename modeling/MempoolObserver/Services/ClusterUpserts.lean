import MempoolObserver.Services.Cluster

/-!
# What a function of the cluster service keeps

Every function of the service is a chain of queries and transactions, any of
which may fail. `Keeps` is what each of them guarantees however they fail: the
store stays consistent, no version of a cluster is lost, and the change set it
returns accounts for what it did to the active clusters.

The account needs one thing of the failures: `insert_many_with_members` commits
slice by slice and reports nothing at all when a later slice fails, so no slice
after the first may fail.

## Main definitions

* `ClusterEnv.SmallAnswers` — the node's groups fit the position column
* `ClusterEnv.SlicesHold`, `ClusterEnv.SlicesHoldIn` — no later slice of a batch insert
  fails, at all or among the calls made
* `ClusterService.Keeps` — what a function of the service guarantees
-/

namespace MempoolObserver

open Collections

/-- The node's groups have as many chunks as the position column can number. -/
def ClusterEnv.SmallAnswers (env : ClusterEnv) : Prop :=
  ∀ call txid cluster, env.getMempoolCluster call txid = .cluster cluster →
    cluster.chunks.length ≤ maxChunks

/-- No transaction of a batch insert fails once one before it has committed. -/
def ClusterEnv.SlicesHold (env : ClusterEnv) : Prop :=
  ∀ call slice, env.fails call 0 = false → env.fails call slice = false

/-- The same of the calls from the `first`-th on and before the `last`-th. -/
def ClusterEnv.SlicesHoldIn (env : ClusterEnv) (first last : ℕ) : Prop :=
  ∀ call slice, first ≤ call → call < last → env.fails call 0 = false →
    env.fails call slice = false

theorem ClusterEnv.SlicesHold.within {env : ClusterEnv} (holds : env.SlicesHold)
    (first last : ℕ) : env.SlicesHoldIn first last :=
  fun call slice _ _ => holds call slice

theorem ClusterEnv.SlicesHoldIn.mono {env : ClusterEnv} {first last first' last' : ℕ}
    (holds : env.SlicesHoldIn first last) (begins : first ≤ first') (ends : last' ≤ last) :
    env.SlicesHoldIn first' last' :=
  fun call slice from_ below => holds call slice (begins.trans from_) (below.trans_le ends)

namespace ClusterService

/-- Calls may have been made, and nothing was published. -/
structure Later (s next : ClusterService) : Prop where
  snapshot : next.snapshot = s.snapshot
  calls : s.calls ≤ next.calls

/-- From `s` to `next` the store stays consistent and the change set accounts
for what happened, if no later slice of the calls in between fails. -/
structure Keeps (env : ClusterEnv) (changes : ClusterDeltaSet) (s next : ClusterService) :
    Prop where
  inv : Db.StoreInv [] next.db
  grown : s.db.Extends next.db
  accounts : env.SlicesHoldIn s.calls next.calls → Accounts changes s.db next.db
  later : Later s next

variable {α : Type} {env : ClusterEnv} {s mid next : ClusterService}
    {changes other : ClusterDeltaSet}

theorem Later.refl (s : ClusterService) : Later s s := ⟨rfl, le_rfl⟩

theorem Later.trans (first : Later s mid) (second : Later mid next) : Later s next :=
  ⟨second.snapshot.trans first.snapshot, first.calls.trans second.calls⟩

theorem Later.called (env : ClusterEnv) (s : ClusterService) : Later s (s.called env) :=
  ⟨rfl, Nat.le_succ _⟩

theorem Keeps.refl (env : ClusterEnv) (inv : Db.StoreInv [] s.db) (db_eq : next.db = s.db)
    (later : Later s next) : Keeps env .default s next where
  inv := db_eq ▸ inv
  grown := db_eq ▸ .refl s.db
  accounts _ := db_eq ▸ .refl s.db
  later := later

theorem Keeps.merge (first : Keeps env changes s mid) (second : Keeps env other mid next) :
    Keeps env (changes.merge other) s next where
  inv := second.inv
  grown := first.grown.trans second.grown
  accounts holds := (first.accounts (holds.mono le_rfl second.later.calls)).merge
    (second.accounts (holds.mono first.later.calls le_rfl))
  later := first.later.trans second.later

/-- What is not stored may change in between. -/
theorem Keeps.of_eq (keeps : Keeps env changes mid next) (db_eq : mid.db = s.db)
    (later : Later s mid) : Keeps env changes s next :=
  ⟨keeps.inv, db_eq ▸ keeps.grown,
    fun holds => db_eq ▸ keeps.accounts (holds.mono later.calls le_rfl),
    later.trans keeps.later⟩

theorem Keeps.to_eq (keeps : Keeps env changes s mid) (db_eq : next.db = mid.db)
    (later : Later mid next) : Keeps env changes s next :=
  ⟨db_eq ▸ keeps.inv, db_eq ▸ keeps.grown,
    fun holds => db_eq ▸ keeps.accounts (holds.mono le_rfl later.calls),
    keeps.later.trans later⟩

/-- A function that returns early, with nothing stored and nothing to report. -/
theorem Keeps.of_unchanged (env : ClusterEnv) (inv : Db.StoreInv [] s.db)
    (h : some (ClusterDeltaSet.default, mid) = some (changes, next)) (db_eq : mid.db = s.db)
    (later : Later s mid) : Keeps env changes s next := by
  obtain ⟨rfl, rfl⟩ : ClusterDeltaSet.default = changes ∧ mid = next := by
    simpa [Prod.ext_iff] using h
  exact .refl env inv db_eq later

/-! ### Calls -/

theorem query_cases (env : ClusterEnv) (read : Db → α) (s : ClusterService) :
    s.query env read = (none, s.called env) ∨ s.query env read =
      (some (read s.db), s.called env) := by
  unfold query
  split_ifs
  · exact .inl rfl
  · exact .inr rfl

theorem transact_cases (env : ClusterEnv) (transaction : Db → Option (α × Db))
    (s : ClusterService) :
    s.transact env transaction = (none, s.called env) ∨
      ∃ result db, transaction s.db = some (result, db) ∧
        s.transact env transaction = (some result, { s.called env with db := db }) := by
  unfold transact
  split_ifs
  · exact .inl rfl
  · split
    case h_1 result db committed => exact .inr ⟨result, db, committed, rfl⟩
    case h_2 => exact .inl rfl

theorem findActiveIdsByTxids_cases (env : ClusterEnv) (inv : Db.StoreInv [] s.db)
    (txids : List Txid) :
    ∃ after, after.db = s.db ∧ Later s after ∧
      (s.findActiveIdsByTxids env txids = (none, after) ∨
        ∃ ids, s.findActiveIdsByTxids env txids = (some ids, after) ∧
          ∀ id, id ∈ ids ↔ s.db.IsActive id ∧ ∃ txid ∈ txids, txid ∈ s.db.members id) := by
  unfold findActiveIdsByTxids
  split_ifs with empty
  · exact ⟨s, rfl, .refl s, .inr ⟨[], rfl, by simp [empty]⟩⟩
  · refine ⟨s.called env, rfl, .called env s, (query_cases env _ s).imp id fun found => ?_⟩
    exact ⟨_, found, fun id => inv.mem_findActiveIdsByTxids⟩

/-! ### Upserts -/

/-- What ending the active clusters among `ids` leaves of the membership. -/
structure Without (db : Db) (ids : List ClusterId) (next : Db) : Prop where
  isActive : ∀ id, next.IsActive id ↔ db.IsActive id ∧ id ∉ ids
  members : ∀ id, id ∉ ids → next.members id = db.members id

theorem without_closeMany {db : Db} (inv : db.Versioned) (ids : List ClusterId)
    (closedAt : OffsetDateTime) (closing : ClusterClosing) :
    Without db ids (db.closeMany closedAt ids closing).2 := by
  have ends := Db.ends_closeMany closedAt ids closing db
  have among (id : ClusterId) := Db.mem_activeAmong inv.allocated ids id
  refine ⟨fun id => ?_, fun id absent => ?_⟩
  · rw [ends.isActive_iff (Db.ClusterClosing.status_ne_active closing).1 fun _ => rfl, among]
    tauto
  · exact ends.members_eq fun member => absent ((among id).mp member).1

theorem keeps_markMerged (env : ClusterEnv) (inv : Db.StoreInv [] s.db) (ids : List ClusterId) :
    (∃ after, s.markMerged env ids = (none, after) ∧ Keeps env .default s after ∧
        after.db = s.db) ∨
      ∃ changes after, s.markMerged env ids = (some changes, after) ∧ Keeps env changes s after ∧
        Without s.db ids after.db := by
  unfold markMerged
  -- Nothing to merge, the transaction failed, or all the ids are closed at once.
  split_ifs with none
  · subst none
    exact .inr ⟨_, _, rfl, .refl env inv rfl (.refl s), by simp, fun _ _ => rfl⟩
  · rcases transact_cases env (fun db => some (db.closeMany (env.now s.calls) ids .merged)) s with
      failed | ⟨count, db, committed, done⟩
    · rw [failed]
      exact .inl ⟨_, rfl, .refl env inv rfl (.called env s), rfl⟩
    · obtain rfl : _ = db := congrArg Prod.snd (Option.some.inj committed)
      obtain ⟨closed, grown⟩ := inv.closeMany (env.now s.calls) ids .merged
      rw [done]
      refine .inr ⟨_, _, rfl, ⟨closed, grown, fun _ => ?_, rfl, Nat.le_succ _⟩,
        without_closeMany inv.toVersioned ids _ _⟩
      exact (Accounts.refl s.db).closeMany inv.toVersioned _ _

/-- The ids are the active clusters the group meets. -/
def Meets (db : Db) (txids : List Txid) (ids : List ClusterId) : Prop :=
  ∀ id, id ∈ ids ↔ db.IsActive id ∧ ∃ txid ∈ txids, txid ∈ db.members id

/-- What `upsert` guarantees, however it fails: nobody is clustered with anyone
new but the members of the group, and whoever it detached was clustered. -/
structure Upserts (env : ClusterEnv) (cluster : GetMempoolClusterModel) (outcome : UpsertOutcome)
    (s next : ClusterService) : Prop where
  keeps : Keeps env outcome.changes s next
  together : ∀ txid other, next.db.Together txid other →
    txid ∈ cluster.txids ∧ other ∈ cluster.txids ∨ s.db.Together txid other
  detached : ∀ txid ∈ outcome.detached, s.db.Together txid txid

theorem Upserts.untouched (env : ClusterEnv) (cluster : GetMempoolClusterModel)
    (inv : Db.StoreInv [] s.db) (db_eq : next.db = s.db) (later : Later s next) :
    Upserts env cluster (.untouched .default) s next where
  keeps := .refl env inv db_eq later
  together _ _ together := .inr (db_eq ▸ together)
  detached := by simp [UpsertOutcome.untouched]

theorem insertWithMembers_eq_some {db after : Db} {now : Txid → OffsetDateTime} {new : NewCluster}
    {cluster : Cluster} (inv : db.Versioned)
    (h : db.insertWithMembers now new = some (cluster, after)) :
    db.insertIn now [new] = some ([cluster], after) := by
  simp only [Db.insertWithMembers, Option.bind_eq_bind, Option.pure_def] at h
  obtain ⟨⟨rows, _⟩, inserted, h⟩ := Option.bind_eq_some_iff.mp h
  obtain ⟨first, head, h⟩ := Option.bind_eq_some_iff.mp h
  obtain ⟨rows_eq, -⟩ := Db.inserts_insertIn inv inserted
  simp only [Option.some.injEq, Prod.mk.injEq] at h
  obtain ⟨rfl, rfl⟩ := h
  rw [inserted]
  have one : fresh db.clusterSeq [new] = [(db.clusterSeq, new)] := rfl
  rw [rows_eq, one] at head ⊢
  obtain rfl := Option.some.inj head
  rfl

variable {cluster : GetMempoolClusterModel} {existingIds : List ClusterId}

/-- A group that meets no active cluster is inserted. -/
theorem upserts_insert (inv : Db.StoreInv [] s.db) (meets : Meets s.db cluster.txids [])
    (nonempty : cluster.txids ≠ []) (small : cluster.chunks.length ≤ maxChunks)
    {now : Txid → OffsetDateTime} {seenAt : OffsetDateTime} {updated : Cluster} {after : Db}
    (h : s.db.insertWithMembers now (newCluster seenAt cluster) = some (updated, after))
    (db_eq : next.db = after) (later : Later s next) :
    Upserts env cluster ⟨ClusterDeltaSet.default.markUpserted updated, []⟩ s next := by
  -- Nobody holds any of the group, so the insert keeps the invariant of the store.
  have inserted := insertWithMembers_eq_some inv.toVersioned h
  have chunks : cluster.chunks ≠ [] := by
    rintro empty
    exact nonempty (by rw [GetMempoolClusterModel.txids, empty]; rfl)
  obtain ⟨afterInv, grown⟩ := inv.insertIn (by simpa [newCluster] using chunks)
    (by simpa [newCluster] using small) (List.pairwise_singleton _ _) (by
      intro new member txid inNew id active inOther
      obtain rfl := List.mem_singleton.mp member
      exact absurd ((meets id).mpr ⟨active, txid, inNew, inOther⟩) (by simp)) inserted
  subst db_eq
  -- Two transactions are together afterwards if they are in the group or were together before.
  refine ⟨⟨afterInv, grown, fun _ => ?_, later⟩, fun txid other together => ?_, by simp⟩
  · exact (Accounts.refl s.db).insertIn inv.toVersioned afterInv.toVersioned inserted
  · rw [Db.together_insertIn inv.toVersioned inserted] at together
    simpa [newCluster, NewCluster.txids, GetMempoolClusterModel.txids] using together

/-- The clusters a group meets, loaded by their ids. -/
theorem mem_findByIds_of_meets {db : Db} (inv : Db.StoreInv [] db) {txids : List Txid}
    (meets : Meets db txids existingIds) {found : Cluster}
    (member : found ∈ db.findByIds existingIds) :
    db.IsActive found.id ∧ found.txids = db.members found.id := by
  obtain ⟨id, row, stored, inIds, rfl⟩ := inv.toVersioned.mem_findByIds.mp member
  exact ⟨((meets id).mp inIds).1, inv.toVersioned.txids_loadChunks stored⟩

theorem id_mem_findByIds {db : Db} (inv : Db.Versioned db) {id : ClusterId}
    (active : db.IsActive id) (member : id ∈ existingIds) :
    id ∈ (db.findByIds existingIds).map Cluster.id := by
  obtain ⟨row, stored, -⟩ := active
  exact List.mem_map.mpr ⟨_, inv.mem_findByIds.mpr ⟨id, row, stored, member, rfl⟩, rfl⟩

theorem Without.together {db after : Db} {ids : List ClusterId} (without : Without db ids after)
    {txid other : Txid} : after.Together txid other ↔
      ∃ id, id ∉ ids ∧ db.IsActive id ∧ txid ∈ db.members id ∧ other ∈ db.members id := by
  constructor
  · rintro ⟨id, active, inFirst, inSecond⟩
    obtain ⟨wasActive, kept⟩ := (without.isActive id).mp active
    rw [without.members id kept] at inFirst inSecond
    exact ⟨id, kept, wasActive, inFirst, inSecond⟩
  · rintro ⟨id, kept, wasActive, inFirst, inSecond⟩
    refine ⟨id, (without.isActive id).mpr ⟨wasActive, kept⟩, ?_⟩
    rw [without.members id kept]
    exact ⟨inFirst, inSecond⟩

/-- Once the other clusters the group meets are closed, it is apart from all but
the one kept. -/
theorem apart_of_without {db after : Db} (inv : db.Versioned) {txids : List Txid}
    (meets : Meets db txids existingIds) {keep : ClusterId}
    (without : Without db (((db.findByIds existingIds).map Cluster.id).filter (· ≠ keep)) after) :
    ∀ txid ∈ txids, ∀ id, id ≠ keep → after.IsActive id → txid ∉ after.members id := by
  intro txid member id differs active inOther
  obtain ⟨wasActive, kept⟩ := (without.isActive id).mp active
  rw [without.members id kept] at inOther
  have inIds := (meets id).mpr ⟨wasActive, txid, member, inOther⟩
  exact kept (by simpa [differs] using id_mem_findByIds inv wasActive inIds)

/-- The cluster kept takes the group over, or keeps the members it has. -/
theorem upserts_replace (inv : Db.StoreInv [] s.db)
    (meets : Meets s.db cluster.txids existingIds) (nonempty : cluster.txids ≠ [])
    (small : cluster.chunks.length ≤ maxChunks) {keep : ClusterId} (active : s.db.IsActive keep)
    {after : ClusterService} (keeps : Keeps env changes s after)
    (without : Without s.db (((s.db.findByIds existingIds).map Cluster.id).filter (· ≠ keep))
      after.db)
    {detached : List Txid} (wasTogether : ∀ txid ∈ detached, s.db.Together txid txid)
    {now : Txid → OffsetDateTime} {updated : Cluster} {db : Db}
    (committed : after.db.replaceChunksIn now ⟨keep, cluster.chunks⟩ true = some (updated, db))
    (db_eq : next.db = db) (later : Later after next) :
    Upserts env cluster ⟨changes.markUpserted updated, detached⟩ s next := by
  have chunks : (⟨keep, cluster.chunks⟩ : ClusterVersionUpdate).chunks ≠ [] := by
    rintro empty
    exact nonempty (by rw [GetMempoolClusterModel.txids, show cluster.chunks = [] from empty]; rfl)
  -- The clusters that met the group are closed by now, so the rewritten one overlaps no other.
  have apart := apart_of_without inv.toVersioned meets without
  obtain ⟨nextInv, grown⟩ := keeps.inv.replaceChunksIn chunks small apart (by simp) committed
  have keepActive : after.db.IsActive keep := (without.isActive keep).mpr ⟨active, by simp⟩
  subst db_eq
  refine ⟨⟨nextInv, keeps.grown.trans grown, fun holds => ?_, keeps.later.trans later⟩,
    fun txid other together => ?_, wasTogether⟩
  · exact (keeps.accounts (holds.mono le_rfl later.calls)).replaceChunksIn keeps.inv.toVersioned
      nextInv.toVersioned committed
  · rw [Db.together_replaceChunksIn keeps.inv.toVersioned keepActive committed] at together
    -- What is together through another cluster was so before the merges.
    rcases together with inGroup | ⟨id, -, isActive, inBoth⟩
    · exact .inl inGroup
    · obtain ⟨id, -, wasActive, inBoth⟩ := without.together.mp ⟨id, isActive, inBoth⟩
      exact .inr ⟨id, wasActive, inBoth⟩

theorem upserts_upsert (env : ClusterEnv) (inv : Db.StoreInv [] s.db)
    (meets : Meets s.db cluster.txids existingIds)
    (nonempty : cluster.txids ≠ []) (small : cluster.chunks.length ≤ maxChunks) :
    Upserts env cluster (s.upsert env cluster existingIds).1 s
      (s.upsert env cluster existingIds).2 := by
  unfold upsert
  split_ifs with noneExist
  · subst noneExist
    dsimp only
    rcases transact_cases env (fun db => db.insertWithMembers (env.call s.calls).now
      (newCluster (env.now s.calls) cluster)) s with failed | ⟨updated, db, committed, done⟩
    · rw [failed]
      exact .untouched env cluster inv rfl (.called env s)
    · rw [done]
      exact upserts_insert inv meets nonempty small committed rfl ⟨rfl, Nat.le_succ _⟩
  · rcases query_cases env (fun db => db.findByIds existingIds) s with failed | loaded
    · rw [failed]
      exact .untouched env cluster inv rfl (.called env s)
    rw [loaded]
    dsimp only
    cases chosen : (s.db.findByIds existingIds).minOn? Cluster.firstSeenAt with
    | none => exact .untouched env cluster inv rfl (.called env s)
    | some keep =>
      obtain ⟨keepActive, -⟩ := mem_findByIds_of_meets inv meets (List.minOn?_mem chosen)
      have wasTogether : ∀ txid ∈ ((s.db.findByIds existingIds).flatMap Cluster.txids).filter
          (· ∉ cluster.txids), s.db.Together txid txid := by
        intro txid member
        obtain ⟨found, inExisting, inFound⟩ := List.mem_flatMap.mp (List.mem_filter.mp member).1
        obtain ⟨active, txids_eq⟩ := mem_findByIds_of_meets inv meets inExisting
        rw [txids_eq] at inFound
        exact ⟨found.id, active, inFound, inFound⟩
      dsimp only
      rcases keeps_markMerged (s := s.called env) env inv (((s.db.findByIds existingIds).map
        Cluster.id).filter (· ≠ keep.id)) with
        ⟨after, failed, keeps, db_eq⟩ | ⟨changes, after, merged, keeps, without⟩
      · rw [failed]
        exact .untouched env cluster inv db_eq ((Later.called env s).trans keeps.later)
      rw [merged]
      dsimp only
      have fromStart : Keeps env changes s after := keeps.of_eq rfl (.called env s)
      rcases transact_cases env (fun db => db.replaceChunksIn (env.call after.calls).now
        ⟨keep.id, cluster.chunks⟩ true) after with failed | ⟨updated, db, committed, done⟩
      · rw [failed]
        -- the merge is committed, so its changes and the detached txids are reported
        refine ⟨fromStart.to_eq rfl (.called env after), fun txid other together => .inr ?_,
          wasTogether⟩
        obtain ⟨id, -, active, inBoth⟩ := without.together.mp together
        exact ⟨id, active, inBoth⟩
      · rw [done]
        exact upserts_replace inv meets nonempty small keepActive fromStart without wasTogether
          committed rfl ⟨rfl, Nat.le_succ _⟩

end ClusterService

end MempoolObserver
