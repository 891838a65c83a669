import MempoolObserver.Library.Absorption
import MempoolObserver.Services.Regrouping

/-!
# What storing one group does

With no failing call a group is stored with its chunks, in the place of every active
cluster it meets, and the others stay as they are.

## Main definitions

* `Db.Takes` — the store takes a group in

## Main results

* `ClusterService.takes_upsert` — what `upsert` leaves
-/

namespace MempoolObserver

open Relation Collections Regrouping Absorption

/-- The members of a list of chunks. -/
def chunkMembers (chunks : List ClusterChunk) : Set Txid :=
  {txid | txid ∈ chunks.flatMap ClusterChunk.txids}

namespace Db

variable {db mid next : Db} {now : Txid → OffsetDateTime} {id : ClusterId}
  {chunks : List ClusterChunk}

/-- The cluster is active, with these chunks. -/
def ActiveChunks (db : Db) (id : ClusterId) (chunks : List ClusterChunk) : Prop :=
  ∃ row, db.clusters id = some row ∧ row.status = .active ∧ db.loadChunks id row.version = chunks

/-- What is stored about the cluster is the same. -/
def SameAt (db next : Db) (id : ClusterId) : Prop :=
  next.clusters id = db.clusters id ∧ next.chunksOf id = db.chunksOf id

theorem SameAt.trans (first : SameAt db mid id) (second : SameAt mid next id) :
    SameAt db next id :=
  ⟨second.1.trans first.1, second.2.trans first.2⟩

theorem SameAt.activeChunks (same : SameAt db next id) :
    next.ActiveChunks id chunks ↔ db.ActiveChunks id chunks := by
  simp only [ActiveChunks, loadChunks, same.1, same.2]

theorem ActiveChunks.isActive (active : db.ActiveChunks id chunks) : db.IsActive id := by
  obtain ⟨row, stored, isActive, -⟩ := active
  exact ⟨row, stored, isActive⟩

theorem IsActive.exists_chunks (active : db.IsActive id) : ∃ chunks, db.ActiveChunks id chunks := by
  obtain ⟨row, stored, isActive⟩ := active
  exact ⟨_, row, stored, isActive, rfl⟩

theorem Versioned.mem_chunkMembers (inv : db.Versioned) (active : db.ActiveChunks id chunks)
    {txid : Txid} : txid ∈ chunkMembers chunks ↔ txid ∈ db.members id := by
  obtain ⟨row, stored, -, rfl⟩ := active
  rw [← inv.txids_loadChunks stored]
  rfl

/-- Clusters with these chunks are added, and those stored stay as they are. -/
structure Adds (db : Db) (lists : List (List ClusterChunk)) (next : Db) : Prop where
  same : ∀ {id}, (db.clusters id).isSome = true → SameAt db next id
  rows : ∀ {id row}, next.clusters id = some row → row.status = .active ∨ db.clusters id = some row
  origin : ∀ {id chunks}, next.ActiveChunks id chunks → chunks ∈ lists ∨ db.ActiveChunks id chunks
  stored : ∀ chunks ∈ lists, ∃ id, next.ActiveChunks id chunks

theorem Adds.refl (db : Db) : Adds db [] db :=
  ⟨fun _ => ⟨rfl, rfl⟩, .inr, .inr, by simp⟩

theorem ActiveChunks.isSome (active : db.ActiveChunks id chunks) :
    (db.clusters id).isSome = true := by
  obtain ⟨row, stored, -⟩ := active
  simp [stored]

theorem Adds.trans {lists more : List (List ClusterChunk)} (first : Adds db lists mid)
    (second : Adds mid more next) : Adds db (lists ++ more) next where
  same {id} stored := by
    have same := first.same stored
    exact same.trans (second.same (by rwa [same.1]))
  rows stored := (second.rows stored).elim .inl first.rows
  origin active := by
    rcases second.origin active with new | before
    · exact .inl (by simp [new])
    · exact (first.origin before).imp (by simp +contextual) id
  stored chunks member := by
    rcases List.mem_append.mp member with old | new
    · obtain ⟨id, active⟩ := first.stored chunks old
      exact ⟨id, (second.same active.isSome).activeChunks.mpr active⟩
    · exact second.stored chunks new

theorem adds_insertIn (inv : db.Versioned) {new : List NewCluster} {clusters : List Cluster}
    (nextInv : next.Versioned) (h : db.insertIn now new = some (clusters, next)) :
    Adds db (new.map NewCluster.chunks) next := by
  obtain ⟨-, ins⟩ := inserts_insertIn inv h
  have ofFresh {id : ClusterId} {cluster : NewCluster}
      (inserted : (fresh db.clusterSeq new).lookup id = some cluster) :
      next.loadChunks id cluster.row.version = cluster.chunks := by
    rw [nextInv.loadChunks_eq, ins.chunksOf_fresh inv inserted]
    exact map_chunk_chunkRows ..
  constructor
  · intro id stored
    have old : (fresh db.clusterSeq new).lookup id = none := by
      by_contra inserted
      obtain ⟨cluster, inserted⟩ := Option.ne_none_iff_exists'.mp inserted
      simp [Inserts.unowned inv inserted] at stored
    exact ⟨ins.clusters_old old, ins.chunksOf_old old⟩
  · intro id row stored
    cases inserted : (fresh db.clusterSeq new).lookup id with
    | some cluster =>
      obtain rfl : cluster.row = row :=
        Option.some.inj ((ins.clusters_fresh inserted).symm.trans stored)
      exact .inl rfl
    | none => exact .inr ((ins.clusters_old inserted).symm.trans stored)
  · intro id chunks active
    cases inserted : (fresh db.clusterSeq new).lookup id with
    | some cluster =>
      obtain ⟨row, stored, -, rfl⟩ := active
      obtain rfl : cluster.row = row :=
        Option.some.inj ((ins.clusters_fresh inserted).symm.trans stored)
      rw [ofFresh inserted]
      exact .inl (List.mem_map_of_mem (lookup_fresh_bounds inserted).1)
    | none =>
      have same : SameAt db next id := ⟨ins.clusters_old inserted, ins.chunksOf_old inserted⟩
      exact .inr (same.activeChunks.mp active)
  · intro chunks member
    obtain ⟨cluster, inNew, rfl⟩ := List.mem_map.mp member
    obtain ⟨id, inserted⟩ := exists_lookup_fresh db.clusterSeq inNew
    exact ⟨id, cluster.row, ins.clusters_fresh inserted, rfl, ofFresh inserted⟩

/-- What storing groups makes of the clusters stored before: an active one that they do
not meet and a closed one stay as they are, and whichever is closed meanwhile is merged. -/
structure Fates (db : Db) (groups : List (List ClusterChunk)) (next : Db) : Prop where
  untouched : ∀ {id other}, db.ActiveChunks id other →
    (∀ group ∈ groups, Disjoint (chunkMembers other) (chunkMembers group)) → SameAt db next id
  kept : ∀ {id}, (db.clusters id).isSome = true → (next.clusters id).isSome = true
  ended : ∀ {id row}, next.clusters id = some row → row.status ≠ .active →
    row.status = .merged ∨ db.clusters id = some row
  closed : ∀ {id row}, db.clusters id = some row → row.status ≠ .active → SameAt db next id

theorem Fates.refl (db : Db) : Fates db [] db :=
  ⟨fun _ _ => ⟨rfl, rfl⟩, id, fun stored _ => .inr stored, fun _ _ => ⟨rfl, rfl⟩⟩

theorem Fates.trans {groups more : List (List ClusterChunk)} (first : Fates db groups mid)
    (second : Fates mid more next) : Fates db (groups ++ more) next where
  untouched active disjoint := by
    have same := first.untouched active fun group member => disjoint group (by simp [member])
    refine same.trans (second.untouched (same.activeChunks.mpr active) ?_)
    exact fun group member => disjoint group (by simp [member])
  kept := second.kept ∘ first.kept
  ended stored inactive :=
    (second.ended stored inactive).elim .inl fun before => first.ended before inactive
  closed stored inactive := by
    have same := first.closed stored inactive
    exact same.trans (second.closed (same.1.trans stored) inactive)

/-- The store takes a group in: it is an active cluster, in the place of those it meets. -/
structure Takes (db : Db) (group : List ClusterChunk) (next : Db) : Prop
    extends Fates db [group] next where
  stored : ∃ id, next.ActiveChunks id group
  origin : ∀ {id other}, next.ActiveChunks id other → other = group ∨
    db.ActiveChunks id other ∧ Disjoint (chunkMembers other) (chunkMembers group)

theorem Takes.absorbs (takes : Takes db chunks next) :
    Absorbs chunkMembers db.ActiveChunks chunks next.ActiveChunks where
  apart before disjoint :=
    (takes.untouched before (by simpa using disjoint)).activeChunks.mpr before
  stored := takes.stored
  origin := takes.origin

theorem Adds.fates {lists : List (List ClusterChunk)} (adds : Adds db lists next) :
    Fates db [] next where
  untouched before _ := adds.same before.isSome
  kept stored := by
    rw [(adds.same stored).1]
    exact stored
  ended stored inactive := .inr ((adds.rows stored).resolve_left inactive)
  closed stored _ := adds.same (by simp [stored])

/-- A group that meets nobody is taken in by adding it. -/
theorem Adds.takes (inv : db.Versioned) (adds : Adds db [chunks] next)
    (unmet : ∀ txid ∈ chunkMembers chunks, ¬ db.Together txid txid) : Takes db chunks next where
  untouched before _ := adds.fates.untouched before (by simp)
  kept := adds.fates.kept
  ended := adds.fates.ended
  closed := adds.fates.closed
  stored := adds.stored chunks (by simp)
  origin {id other} active := by
    apply (adds.origin active).imp (by simp)
    intro before
    refine ⟨before, Set.disjoint_left.mpr ?_⟩
    intro txid inOther inGroup
    have member := (inv.mem_chunkMembers before).mp inOther
    exact unmet txid inGroup ⟨id, before.isActive, member, member⟩

/-- Closing clusters as merged leaves the others as they are. -/
theorem merges_closeMany (inv : db.Versioned) (closedAt : OffsetDateTime) (ids : List ClusterId) :
    (∀ id, id ∉ ids ∨ ¬ db.IsActive id → SameAt db (db.closeMany closedAt ids .merged).2 id) ∧
      ∀ id ∈ ids, db.IsActive id → ∃ row,
        (db.closeMany closedAt ids .merged).2.clusters id = some row ∧ row.status = .merged := by
  have ends := ends_closeMany closedAt ids .merged db
  have among (id : ClusterId) := mem_activeAmong inv.allocated ids id
  constructor
  · intro id spared
    have kept := mt (among id).mp (show ¬ (id ∈ ids ∧ db.IsActive id) by tauto)
    refine ⟨?_, ?_⟩
    · rw [ends.clusters, if_neg kept]
    · funext version
      rw [ends.chunksOf, if_neg kept]
  · intro id member active
    have ended := (among id).mpr ⟨member, active⟩
    obtain ⟨row, stored, -⟩ := active
    rw [ends.clusters, if_pos ended, stored]
    exact ⟨_, rfl, rfl⟩

/-- A rewritten active cluster has the new chunks, and the others are as before. -/
theorem activeChunks_replaceChunksIn {update : ClusterVersionUpdate} {cluster : Cluster}
    {live : Bool} (inv : db.Versioned) (nextInv : next.Versioned)
    (active : db.IsActive update.clusterId)
    (h : db.replaceChunksIn now update live = some (cluster, next)) :
    next.ActiveChunks update.clusterId update.chunks ∧
      ∀ id, id ≠ update.clusterId → SameAt db next id := by
  obtain ⟨row, stored, isActive⟩ := active
  obtain ⟨old, present, ⟨asIs, -, rfl⟩ | ⟨-, -, rep⟩⟩ := replaceChunksIn_cases h
  · obtain rfl : old = row := Option.some.inj (present.symm.trans stored)
    have same := asIs.resolve_left (not_not.mpr isActive)
    exact ⟨⟨old, stored, isActive, same⟩, fun _ _ => ⟨rfl, rfl⟩⟩
  · obtain rfl : old = row := Option.some.inj (present.symm.trans stored)
    refine ⟨⟨update.row old, rep.clusters_self, isActive, ?_⟩, fun id other => ?_⟩
    · rw [nextInv.loadChunks_eq]
      exact (congrArg _ (rep.chunksOf_top inv stored)).trans (map_chunk_chunkRows ..)
    · exact ⟨rep.clusters_other other, rep.chunksOf_other other⟩

end Db

namespace ClusterService

variable {env : ClusterEnv} {start s mid next : ClusterService} {queue : CandidateQueue}
  {cluster : GetMempoolClusterModel} {existingIds : List ClusterId}

theorem takes_insert (reliable : env.Reliable) (inv : Db.StoreInv [] s.db)
    (meets : Meets s.db cluster.txids []) (nonempty : cluster.txids ≠ [])
    (small : cluster.chunks.length ≤ maxChunks) :
    Db.Takes s.db cluster.chunks (s.upsert env cluster []).2.db := by
  obtain ⟨updated, db, commits⟩ := insertWithMembers_isSome (env.call s.calls).now inv.toVersioned
    (show (newCluster (env.now s.calls) cluster).chunks.length ≤ maxChunks from small)
  have inserted := insertWithMembers_eq_some inv.toVersioned commits
  have unmet : ∀ txid ∈ chunkMembers cluster.chunks, ¬ s.db.Together txid txid := by
    rintro txid member ⟨id, active, inMembers, -⟩
    exact absurd ((meets id).mpr ⟨active, txid, member, inMembers⟩) (by simp)
  have nextInv := (upserts_upsert env inv meets nonempty small).keeps.inv
  rw [upsert, if_pos rfl] at nextInv ⊢
  dsimp only at nextInv ⊢
  rw [transact_of_reliable reliable commits] at nextInv ⊢
  exact (Db.adds_insertIn inv.toVersioned nextInv.toVersioned inserted).takes inv.toVersioned unmet

/-- A group that meets active clusters takes over the one kept, and the others are merged. -/
theorem takes_of_merged {merged next : Db} {cluster : GetMempoolClusterModel}
    (inv : Db.StoreInv [] s.db)
    (meets : Meets s.db cluster.txids existingIds) {keep : ClusterId} (keepIn : keep ∈ existingIds)
    (others : ∀ id, id ∉ existingIds ∨ id = keep ∨ ¬ s.db.IsActive id → Db.SameAt s.db merged id)
    (closed : ∀ id ∈ existingIds, id ≠ keep →
      ∃ row, merged.clusters id = some row ∧ row.status = .merged)
    (rewritten : next.ActiveChunks keep cluster.chunks)
    (spared : ∀ id, id ≠ keep → Db.SameAt merged next id) : Db.Takes s.db cluster.chunks next := by
  -- Only the listed ids are written, and of these the kept one has its chunks replaced.
  have same {id : ClusterId} (outside : id ∉ existingIds ∨ ¬ s.db.IsActive id) (other : id ≠ keep) :
      Db.SameAt s.db next id :=
    (others id (outside.imp_right .inr)).trans (spared id other)
  have gone {id : ClusterId} (member : id ∈ existingIds) (other : id ≠ keep) :
      ∃ row, next.clusters id = some row ∧ row.status = .merged := by
    obtain ⟨row, stored, isMerged⟩ := closed id member other
    exact ⟨row, (spared id other).1.trans stored, isMerged⟩
  -- The ids listed are exactly the active clusters that share a txid with the group.
  have disjoint_iff {id : ClusterId} {chunks : List ClusterChunk}
    (active : s.db.ActiveChunks id chunks) :
      Disjoint (chunkMembers chunks) (chunkMembers cluster.chunks) ↔ id ∉ existingIds := by
    rw [meets id, Set.disjoint_right]
    constructor
    · rintro disjoint ⟨-, txid, inGroup, inMembers⟩
      exact disjoint inGroup ((inv.toVersioned.mem_chunkMembers active).mpr inMembers)
    · intro unmet txid inGroup inChunks
      exact unmet
        ⟨active.isActive, txid, inGroup, (inv.toVersioned.mem_chunkMembers active).mp inChunks⟩
  constructor
  · constructor
    · intro id chunks active disjoint
      have outside := (disjoint_iff active).mp (disjoint cluster.chunks (by simp))
      exact same (.inl outside) fun kept => outside (kept ▸ keepIn)
    · intro id stored
      by_cases kept : id = keep
      · exact kept ▸ rewritten.isSome
      · by_cases member : id ∈ existingIds
        · obtain ⟨row, isStored, -⟩ := gone member kept
          simp [isStored]
        · rw [(same (.inl member) kept).1]
          exact stored
    · intro id row stored inactive
      by_cases kept : id = keep
      · subst kept
        obtain ⟨other, present, isActive⟩ := rewritten.isActive
        obtain rfl : other = row := Option.some.inj (present.symm.trans stored)
        exact absurd isActive inactive
      · by_cases member : id ∈ existingIds
        · obtain ⟨other, present, isMerged⟩ := gone member kept
          obtain rfl : other = row := Option.some.inj (present.symm.trans stored)
          exact .inl isMerged
        · exact .inr ((same (.inl member) kept).1.symm.trans stored)
    · intro id row stored inactive
      have unlisted : ¬ s.db.IsActive id := by
        rintro ⟨other, present, isActive⟩
        obtain rfl : other = row := Option.some.inj (present.symm.trans stored)
        exact inactive isActive
      apply same (.inr unlisted)
      rintro rfl
      exact unlisted ((meets id).mp keepIn).1
  · exact ⟨keep, rewritten⟩
  -- An active cluster afterwards is the kept one, now the group, or one apart from the group.
  · intro id chunks active
    by_cases kept : id = keep
    · subst kept
      obtain ⟨row, stored, -, rfl⟩ := active
      obtain ⟨other, present, -, loaded⟩ := rewritten
      obtain rfl : other = row := Option.some.inj (present.symm.trans stored)
      exact .inl loaded
    · by_cases member : id ∈ existingIds
      · obtain ⟨row, stored, isMerged⟩ := gone member kept
        obtain ⟨other, present, isActive, -⟩ := active
        obtain rfl : other = row := Option.some.inj (present.symm.trans stored)
        rw [isMerged] at isActive
        cases isActive
      · have before := (same (.inl member) kept).activeChunks.mp active
        exact .inr ⟨before, (disjoint_iff before).mpr member⟩

/-- Merging clusters closes the active ones among them. -/
theorem merges_markMerged (reliable : env.Reliable) (inv : Db.StoreInv [] s.db)
    (ids : List ClusterId) :
    ∃ changes after, s.markMerged env ids = (some changes, after) ∧ Db.StoreInv [] after.db ∧
      (∀ id, id ∉ ids ∨ ¬ s.db.IsActive id → Db.SameAt s.db after.db id) ∧
      ∀ id ∈ ids, s.db.IsActive id →
        ∃ row, after.db.clusters id = some row ∧ row.status = .merged := by
  unfold markMerged
  split_ifs with none
  · subst none
    exact ⟨_, s, rfl, inv, fun _ _ => ⟨rfl, rfl⟩, by simp⟩
  · rw [transact_of_reliable reliable rfl]
    obtain ⟨others, closed⟩ := Db.merges_closeMany inv.toVersioned (env.now s.calls) ids
    exact ⟨_, _, rfl, (inv.closeMany _ ids _).1, others, closed⟩

theorem takes_replace (reliable : env.Reliable) (inv : Db.StoreInv [] s.db)
    (meets : Meets s.db cluster.txids existingIds) (exist : existingIds ≠ [])
    (nonempty : cluster.txids ≠ []) (small : cluster.chunks.length ≤ maxChunks) :
    Db.Takes s.db cluster.chunks (s.upsert env cluster existingIds).2.db := by
  -- The branch with clusters to join: the one kept is rewritten and the others are marked merged.
  have nextInv := (upserts_upsert env inv meets nonempty small).keeps.inv
  obtain ⟨keep, chosen, keepIn⟩ := exists_keep inv meets exist
  have inIds (id : ClusterId) : id ∈ ((s.db.findByIds existingIds).map Cluster.id).filter
      (· ≠ keep.id) ↔ id ∈ existingIds ∧ id ≠ keep.id := by
    rw [List.mem_filter, mem_loaded_ids inv meets, decide_eq_true_eq]
  obtain ⟨changes, after, merges, afterInv, others, closed⟩ := merges_markMerged
    (s := s.called env) reliable inv
    (((s.db.findByIds existingIds).map Cluster.id).filter (· ≠ keep.id))
  have spared : ∀ id, id ∉ existingIds ∨ id = keep.id ∨ ¬ s.db.IsActive id →
      Db.SameAt s.db after.db id := by
    intro id outside
    apply others
    rw [inIds]
    tauto
  have keepActive : after.db.IsActive keep.id := by
    obtain ⟨row, stored, isActive⟩ := ((meets keep.id).mp keepIn).1
    exact ⟨row, (spared keep.id (.inr (.inl rfl))).1.trans stored, isActive⟩
  have accepted : (after.db.replaceChunksIn (env.call after.calls).now
      ⟨keep.id, cluster.chunks⟩ true).isSome = true := by
    obtain ⟨row, stored, -⟩ := keepActive
    exact Db.replaceChunksIn_isSome afterInv.toVersioned stored small
  obtain ⟨⟨updated, db⟩, commits⟩ := Option.isSome_iff_exists.mp accepted
  rw [upsert, if_neg exist, query_of_reliable reliable] at nextInv ⊢
  dsimp only at nextInv ⊢
  rw [chosen] at nextInv ⊢
  dsimp only at nextInv ⊢
  rw [merges] at nextInv ⊢
  dsimp only at nextInv ⊢
  rw [transact_of_reliable reliable commits] at nextInv ⊢
  obtain ⟨rewritten, rest⟩ := Db.activeChunks_replaceChunksIn afterInv.toVersioned
    nextInv.toVersioned keepActive commits
  apply takes_of_merged inv meets keepIn spared _ rewritten rest
  intro id member other
  exact closed id ((inIds id).mpr ⟨member, other⟩) ((meets id).mp member).1

theorem takes_upsert (reliable : env.Reliable) (inv : Db.StoreInv [] s.db)
    (meets : Meets s.db cluster.txids existingIds) (nonempty : cluster.txids ≠ [])
    (small : cluster.chunks.length ≤ maxChunks) :
    Db.Takes s.db cluster.chunks (s.upsert env cluster existingIds).2.db := by
  by_cases exist : existingIds = []
  · subst exist
    exact takes_insert reliable inv meets nonempty small
  · exact takes_replace reliable inv meets exist nonempty small

end ClusterService

end MempoolObserver
