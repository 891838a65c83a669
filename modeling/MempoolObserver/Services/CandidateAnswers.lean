import MempoolObserver.Services.CandidateUpserts

/-!
# What the candidate queue stores

The queue stores the groups it hears about one after the other, or buffers them as
singletons that are stored at the end. What a round leaves is the groups it heard about
beside the clusters that none of them meets.

## Main definitions

* `ClusterService.Traces` — what the iterations so far have stored
* `ClusterService.Synced` — what a round leaves of the store

## Main results

* `ClusterService.synced_handleCandidates` — what the candidate stage of a round leaves
-/

namespace MempoolObserver

open Relation Collections Regrouping Absorption

namespace ClusterService

variable {env : ClusterEnv} {start s mid next : ClusterService} {queue : CandidateQueue}
  {cluster : GetMempoolClusterModel} {existingIds : List ClusterId}

/-! ### The candidate queue -/

/-- The chunks held under a cluster's id, or buffered under a txid. -/
def held (singletons : List (Txid × NewCluster)) (db : Db) :
    ClusterId ⊕ Txid → List ClusterChunk → Prop
  | .inl id, chunks => db.ActiveChunks id chunks
  | .inr txid, chunks => ∃ new, singletons.lookup txid = some new ∧ new.chunks = chunks

theorem lookup_filter_outside (singletons : List (Txid × NewCluster)) (txids : List Txid)
    (txid : Txid) :
    (singletons.filter (·.1 ∉ txids)).lookup txid =
      if txid ∈ txids then none else singletons.lookup txid := by
  induction singletons with
  | nil => simp
  | cons entry singletons ih =>
    obtain ⟨key, new⟩ := entry
    by_cases same : txid = key
    · subst same
      by_cases listed : txid ∈ txids
      · rw [List.filter_cons_of_neg (by simpa using listed), ih, if_pos listed, if_pos listed]
      · rw [List.filter_cons_of_pos (by simpa using listed), if_neg listed]
        simp
    · have differs : (txid == key) = false := by simpa using same
      have skip : ((key, new) :: singletons).lookup txid = singletons.lookup txid := by
        simp [List.lookup_cons, differs]
      rw [skip, ← ih]
      by_cases listed : key ∈ txids
      · rw [List.filter_cons_of_neg (by simpa using listed)]
      · rw [List.filter_cons_of_pos (by simpa using listed)]
        simp [List.lookup_cons, differs]

/-- A buffered cluster has the one member it is buffered under. -/
theorem Buffered.chunkMembers_eq {singletons : List (Txid × NewCluster)} {db : Db}
    (buffered : Buffered singletons db) {txid : Txid} {new : NewCluster}
    (found : singletons.lookup txid = some new) : chunkMembers new.chunks = {txid} := by
  have one := buffered.txids _ (lookup_mem found)
  ext other
  change other ∈ new.txids ↔ other = txid
  rw [one, List.mem_singleton]

/-- Storing a group in the store and dropping its members from the buffer is holding it. -/
theorem absorbs_of_takes {singletons : List (Txid × NewCluster)} {db next : Db}
    (buffered : Buffered singletons db) (takes : Db.Takes db cluster.chunks next) :
    Absorbs chunkMembers (held singletons db) cluster.chunks
      (held (singletons.filter (·.1 ∉ cluster.txids)) next) := by
  constructor
  -- A cluster stored or a singleton buffered: both are held, and the two cases go in parallel.
  · rintro (id | txid) other before disjoint
    · exact takes.absorbs.apart before disjoint
    · obtain ⟨new, found, rfl⟩ := before
      rw [buffered.chunkMembers_eq found, Set.disjoint_singleton_left] at disjoint
      refine ⟨new, ?_, rfl⟩
      rw [lookup_filter_outside, if_neg (by exact disjoint), found]
  · obtain ⟨id, active⟩ := takes.stored
    exact ⟨.inl id, active⟩
  · rintro (id | txid) other after
    · exact takes.origin after
    · obtain ⟨new, found, rfl⟩ := after
      rw [lookup_filter_outside] at found
      split_ifs at found with inGroup
      refine .inr ⟨⟨new, found, rfl⟩, ?_⟩
      rw [buffered.chunkMembers_eq found, Set.disjoint_singleton_left]
      exact inGroup

/-- Buffering a group of one that no active cluster has is holding it too. -/
theorem absorbs_of_buffered {singletons : List (Txid × NewCluster)} {db : Db} (inv : db.Versioned)
    {txid : Txid} (one : cluster.txids = [txid])
    (buffered : Buffered singletons db) (unmet : ¬ db.Together txid txid)
    (seenAt : OffsetDateTime) :
    Absorbs chunkMembers (held singletons db) cluster.chunks
      (held (cluster.txids.map (fun txid => (txid, newCluster seenAt cluster)) ++
        singletons.filter (·.1 ∉ cluster.txids)) db) := by
  have group : chunkMembers cluster.chunks = {txid} := by
    ext other
    change other ∈ cluster.txids ↔ other = txid
    rw [one, List.mem_singleton]
  have lookup (other : Txid) : (cluster.txids.map (fun txid => (txid, newCluster seenAt cluster)) ++
      singletons.filter (·.1 ∉ cluster.txids)).lookup other =
        if other = txid then some (newCluster seenAt cluster) else singletons.lookup other := by
    rw [List.lookup_append, lookup_filter_outside, one]
    by_cases same : other = txid
    · subst same
      simp
    · have differs : (other == txid) = false := by simpa using same
      simp [List.lookup_cons, differs, same]
  constructor
  · rintro (id | other) chunks before disjoint
    · exact before
    · obtain ⟨new, found, rfl⟩ := before
      rw [buffered.chunkMembers_eq found, group, Set.disjoint_singleton] at disjoint
      exact ⟨new, by rw [lookup, if_neg disjoint, found], rfl⟩
  · exact ⟨.inr txid, newCluster seenAt cluster, by rw [lookup, if_pos rfl], rfl⟩
  -- What is stored cannot meet the group, since its only transaction is in no active cluster.
  · rintro (id | other) chunks after
    · refine .inr ⟨after, ?_⟩
      rw [group, Set.disjoint_singleton_right]
      intro inChunks
      have inMembers := (inv.mem_chunkMembers after).mp inChunks
      exact unmet ⟨id, after.isActive, inMembers, inMembers⟩
    · obtain ⟨new, found, rfl⟩ := after
      rw [lookup] at found
      split_ifs at found with same
      · obtain rfl := Option.some.inj found
        exact .inl rfl
      · refine .inr ⟨⟨new, found, rfl⟩, ?_⟩
        rw [buffered.chunkMembers_eq found, group, Set.disjoint_singleton]
        exact same

/-- What an answered group does to the queue when nothing fails. -/
structure HoldsGroup (cluster : GetMempoolClusterModel) (queue after : CandidateQueue)
    (s next : ClusterService) : Prop where
  absorbs : Absorbs chunkMembers (held queue.freshSingletons s.db) cluster.chunks
    (held after.freshSingletons next.db)
  fates : Db.Fates s.db [cluster.chunks] next.db

theorem holdsGroup_reportPresent (reliable : env.Reliable) (inv : QueueInv env start queue s)
    (nonempty : cluster.txids ≠ []) (small : cluster.chunks.length ≤ maxChunks) :
    HoldsGroup cluster queue (s.reportPresent env cluster queue).1 s
      (s.reportPresent env cluster queue).2 := by
  unfold reportPresent
  dsimp only
  set present : ClusterService := { s with
    mempoolLedger :=
      s.mempoolLedger.assertPresent (env.call s.calls) cluster.txids } with present_eq
  have presentInv : Db.StoreInv [] present.db := inv.keeps.inv
  obtain ⟨ids, found, meets⟩ := findActiveIdsByTxids_of_reliable reliable presentInv nonempty
  rw [found]
  dsimp only
  -- A lone transaction that meets nothing is buffered; everything else is written through.
  split_ifs with single
  · obtain ⟨rfl, one⟩ := single
    obtain ⟨txid, txids_eq⟩ := List.length_eq_one_iff.mp one
    have unmet : ¬ s.db.Together txid txid := by
      rintro ⟨id, active, -, inMembers⟩
      exact absurd ((meets id).mpr ⟨active, txid, by simp [txids_eq], inMembers⟩) (by simp)
    refine ⟨absorbs_of_buffered presentInv.toVersioned txids_eq inv.buffered unmet _, ?_⟩
    exact ⟨fun _ _ => ⟨rfl, rfl⟩, id, fun stored _ => .inr stored, fun _ _ => ⟨rfl, rfl⟩⟩
  · have takes := takes_upsert (s := present.called env) reliable presentInv meets nonempty small
    exact ⟨absorbs_of_takes inv.buffered takes, takes.toFates⟩

/-- What the queue holds are the answers since the start, one after the other. All of
them, and all it still has to ask about, are reached. -/
structure Traces (env : ClusterEnv) (start : ClusterService) (candidateTxids : List Txid)
    (reached : Txid → Prop) (queue : CandidateQueue) (s : ClusterService)
    (groups : List GetMempoolClusterModel) : Prop where
  absorbs : AbsorbsAll chunkMembers (held [] start.db)
    (groups.map GetMempoolClusterModel.chunks) (held queue.freshSingletons s.db)
  fates : Db.Fates start.db (groups.map GetMempoolClusterModel.chunks) s.db
  answered : ∀ cluster ∈ groups, ∃ call txid, env.getMempoolCluster call txid = .cluster cluster
  asked : answeredGroups s.asked =
    answeredGroups start.asked ++ groups.map GetMempoolClusterModel.txids
  allReached : ∀ cluster ∈ groups, ∀ txid ∈ cluster.txids, reached txid
  pending : ∀ txid ∈ queue.pending, txid ∈ candidateTxids ∨ reached txid

/-- What is reached from the candidates, through answers and through the clusters
stored at the start. -/
structure Closed (env : ClusterEnv) (start : ClusterService) (candidateTxids : List Txid)
    (reached : Txid → Prop) : Prop where
  answer : ∀ call txid cluster, env.getMempoolCluster call txid = .cluster cluster →
    txid ∈ candidateTxids ∨ reached txid → ∀ other ∈ cluster.txids, reached other
  together : ∀ txid other, reached txid → start.db.Together txid other → reached other

/-- Whoever is clustered with a reached txid is reached. -/
theorem Traces.reached_of_together {candidateTxids : List Txid} {reached : Txid → Prop}
    {groups : List GetMempoolClusterModel}
    (traces : Traces env start candidateTxids reached queue s groups)
    (closed : Closed env start candidateTxids reached) (startInv : start.db.Versioned)
    (inv : s.db.Versioned) {txid other : Txid} (from_ : reached txid)
    (together : s.db.Together txid other) : reached other := by
  obtain ⟨id, active, inFirst, inSecond⟩ := together
  obtain ⟨chunks, isActive⟩ := active.exists_chunks
  rcases traces.absorbs.origin (show held _ _ (.inl id) chunks from isActive) with
    stored | ⟨before, -⟩
  · obtain ⟨cluster, inGroups, rfl⟩ := List.mem_map.mp stored
    exact traces.allReached cluster inGroups other ((inv.mem_chunkMembers isActive).mpr inSecond)
  · apply closed.together txid other from_
    refine ⟨id, Db.ActiveChunks.isActive before, ?_, ?_⟩
    · exact (startInv.mem_chunkMembers before).mp ((inv.mem_chunkMembers isActive).mpr inFirst)
    · exact (startInv.mem_chunkMembers before).mp ((inv.mem_chunkMembers isActive).mpr inSecond)

section Run

variable {candidateTxids : List Txid} {reached : Txid → Prop} {groups : List GetMempoolClusterModel}

/-- An iteration that stores nothing. -/
theorem Traces.skip {after : CandidateQueue}
    (traces : Traces env start candidateTxids reached queue s groups)
    (buffer : after.freshSingletons = queue.freshSingletons) (db_eq : next.db = s.db)
    (asked : answeredGroups next.asked = answeredGroups s.asked)
    (pending : after.pending ⊆ queue.pending) :
    Traces env start candidateTxids reached after next groups where
  absorbs := by
    rw [buffer, db_eq]
    exact traces.absorbs
  fates := db_eq ▸ traces.fates
  answered := traces.answered
  asked := asked.trans traces.asked
  allReached := traces.allReached
  pending txid member := traces.pending txid (pending member)

/-- An answered group is held, and whom it detaches is reached. -/
theorem Traces.reportPresent {after : CandidateQueue} {popped : Txid} {pending : List Txid}
    (traces : Traces env start candidateTxids reached queue s groups)
    (closed : Closed env start candidateTxids reached) (startInv : start.db.Versioned)
    (inv : s.db.Versioned) (front : queue.pending = popped :: pending)
    (answered : env.getMempoolCluster s.calls popped = .cluster cluster)
    (nonempty : cluster.txids ≠ [])
    (holds : HoldsGroup cluster { queue with pending := pending } after
      (s.askedFor env popped) next)
    (regroups : Regroups cluster.txids { queue with pending := pending } after
      (s.askedFor env popped) next) :
    Traces env start candidateTxids reached after next (groups ++ [cluster]) := by
  have inGroup : ∀ other ∈ cluster.txids, reached other := by
    apply closed.answer _ _ _ answered
    exact traces.pending popped (by simp [front])
  constructor
  · rw [List.map_append]
    exact traces.absorbs.snoc holds.absorbs
  · rw [List.map_append]
    exact traces.fates.trans holds.fates
  · intro other member
    rcases List.mem_append.mp member with old | new
    · exact traces.answered other old
    · rw [List.mem_singleton.mp new]
      exact ⟨_, _, answered⟩
  · rw [regroups.advances.asked, askedFor, answered, answeredGroups_append, traces.asked,
      answeredGroup, if_neg nonempty, List.map_append, List.append_assoc]
    rfl
  · intro other member
    rcases List.mem_append.mp member with old | new
    · exact traces.allReached other old
    · rw [List.mem_singleton.mp new]
      exact inGroup
  -- A transaction queued by the group shares an active cluster with one of its members.
  · intro other member
    rcases (regroups.pending other).mp member with old | ⟨-, met, inMet, together⟩
    · exact traces.pending other (by simp [front, show other ∈ pending from old])
    · exact .inr (traces.reached_of_together closed startInv inv (inGroup met inMet) together.symm)

/-- An iteration of the queue. -/
theorem Traces.candidate (reliable : env.Reliable) (small : env.SmallAnswers)
    (startInv : start.db.Versioned) (closed : Closed env start candidateTxids reached)
    (inv : QueueInv env start queue s)
    (traces : Traces env start candidateTxids reached queue s groups)
    {popped : Txid} {pending : List Txid} (front : queue.pending = popped :: pending) :
    let after := s.candidate env popped { queue with pending := pending }
    ∃ new, Traces env start candidateTxids reached after.1 after.2 (groups ++ new) := by
  have popInv : QueueInv env start { queue with pending := pending } (s.askedFor env popped) :=
    ⟨inv.keeps.to_eq rfl ⟨rfl, Nat.le_succ _⟩, inv.buffered⟩
  have rest : pending ⊆ queue.pending := by
    rw [front]
    exact List.subset_cons_self popped pending
  have unanswered (none : answeredGroup (popped, env.getMempoolCluster s.calls popped) = none) :
      answeredGroups (s.asked ++ [(popped, env.getMempoolCluster s.calls popped)]) =
        answeredGroups s.asked := by
    rw [answeredGroups_append, none]
    exact List.append_nil _
  unfold ClusterService.candidate
  dsimp only
  -- Heard of already, no answer, absent, empty group: the four ways to drop the candidate.
  split_ifs with out
  · refine ⟨[], ?_⟩
    rw [List.append_nil]
    exact traces.skip rfl rfl rfl rest
  split
  case h_1 answered =>
    refine ⟨[], ?_⟩
    rw [List.append_nil]
    exact traces.skip rfl rfl (unanswered (by rw [answered]; rfl)) rest
  case h_2 answered =>
    refine ⟨[], ?_⟩
    rw [List.append_nil]
    exact traces.skip rfl rfl (unanswered (by rw [answered]; rfl)) rest
  case h_3 cluster answered =>
    split_ifs with empty
    · refine ⟨[], ?_⟩
      rw [List.append_nil]
      exact traces.skip rfl rfl (unanswered (by rw [answered]; exact if_pos empty)) rest
    · have holds := holdsGroup_reportPresent reliable popInv empty (small _ _ _ answered)
      have regroups := regroups_reportPresent reliable popInv empty (small _ _ _ answered)
      exact ⟨[cluster], traces.reportPresent closed startInv inv.keeps.inv.toVersioned front
        answered empty holds regroups⟩

theorem Traces.drain (reliable : env.Reliable) (small : env.SmallAnswers)
    (startInv : start.db.Versioned) (closed : Closed env start candidateTxids reached)
    {fuel : ℕ} {last : CandidateQueue} (inv : QueueInv env start queue s)
    (traces : Traces env start candidateTxids reached queue s groups)
    (drained : s.drain env fuel queue = some (last, next)) :
    ∃ new, Traces env start candidateTxids reached last next (groups ++ new) := by
  -- Induction on the fuel: one candidate popped, and the rest of the queue after it.
  induction fuel generalizing queue s groups with
  | zero => simp [ClusterService.drain] at drained
  | succ fuel ih =>
    rw [ClusterService.drain] at drained
    split at drained
    case h_1 empty =>
      simp only [Option.some.injEq, Prod.mk.injEq] at drained
      obtain ⟨rfl, rfl⟩ := drained
      exact ⟨[], by simpa using traces⟩
    case h_2 popped pending front =>
      have popInv : QueueInv env start { queue with pending := pending } s :=
        ⟨inv.keeps, inv.buffered⟩
      obtain ⟨first, followsFirst⟩ := traces.candidate reliable small startInv closed inv front
      obtain ⟨rest, followsRest⟩ := ih (popInv.candidate small popped) followsFirst drained
      rw [List.append_assoc] at followsRest
      exact ⟨first ++ rest, followsRest⟩

end Run

/-! ### The batch of singletons -/

/-- Slices that do not fail are all added. -/
theorem adds_insertSlices {fails : ℕ → Bool} (holds : ∀ slice, fails slice = false)
    (now : Txid → OffsetDateTime) (slice : ℕ) {batches : List (List NewCluster)} {db : Db}
    (insertable : Insertable batches.flatten db) (inv : Db.StoreInv [] db) :
    Db.Adds db (batches.flatten.map NewCluster.chunks)
      (insertSlices fails now slice batches db).2 := by
  induction batches generalizing slice db with
  | nil => exact .refl db
  | cons batch batches ih =>
    rw [List.flatten_cons] at insertable
    obtain ⟨⟨rows, after⟩, inserted⟩ := Option.isSome_iff_exists.mp
      (Db.insertIn_isSome now inv.toVersioned insertable.left.small)
    obtain ⟨afterInv, -⟩ := insertable.left.insertIn inv inserted
    have first := Db.adds_insertIn inv.toVersioned afterInv.toVersioned inserted
    have rest := ih (slice + 1) (insertable.right inv.toVersioned inserted) afterInv
    rw [insertSlices, if_neg (by simp [holds]), inserted, List.flatten_cons, List.map_append]
    exact first.trans rest

/-- What was buffered is stored, beside what was stored before. -/
theorem adds_insertSingletons (reliable : env.Reliable) (inv : QueueInv env start queue s) :
    ∃ lists, Db.Adds s.db lists (s.insertSingletons env queue).2.db ∧
      (s.insertSingletons env queue).2.asked = s.asked ∧
      ∀ chunks, chunks ∈ lists ↔ ∃ txid, held queue.freshSingletons s.db (.inr txid) chunks := by
  obtain ⟨keeps, buffered⟩ := inv
  set batch := ((env.call s.calls).order.toList
    (queue.freshSingletons.map Prod.fst).toFinset).filterMap fun txid =>
      queue.freshSingletons.lookup txid with batch_eq
  -- The order in which the buffer is drained is free, but each singleton is in it once.
  have insertable : Insertable (slices mempoolDeltaInsertChunkSize batch).flatten s.db := by
    rw [slices_flatten mempoolDeltaInsertChunkSize_pos, batch_eq]
    exact buffered.insertable _
  have adds := adds_insertSlices (reliable s.calls) (env.call s.calls).now 0 insertable keeps.inv
  rw [slices_flatten mempoolDeltaInsertChunkSize_pos] at adds
  obtain ⟨db_eq, advances⟩ := insertManyWithMembers_snd env batch s
  refine ⟨batch.map NewCluster.chunks, ?_, ?_, ?_⟩
  · rw [insertSingletons_snd, ← batch_eq, db_eq]
    exact adds
  · rw [insertSingletons_snd, ← batch_eq]
    exact advances.asked
  · intro chunks
    rw [List.mem_map]
    constructor
    · rintro ⟨new, member, rfl⟩
      obtain ⟨txid, -, found⟩ := List.mem_filterMap.mp member
      exact ⟨txid, new, found, rfl⟩
    · rintro ⟨txid, new, found, rfl⟩
      refine ⟨new, List.mem_filterMap.mpr ⟨txid, ?_, found⟩, rfl⟩
      simpa using Exists.intro new (lookup_mem found)

/-! ### A round -/

/-- What a round leaves of the store: the answers it heard and the clusters that none
of them meets. -/
structure Synced (env : ClusterEnv) (reached : Txid → Prop) (groups : List GetMempoolClusterModel)
    (s next : ClusterService) : Prop where
  origin : ∀ {id chunks}, next.db.ActiveChunks id chunks →
    (∃ cluster ∈ groups, chunks = cluster.chunks) ∨ s.db.ActiveChunks id chunks ∧
      ∀ cluster ∈ groups, Disjoint (chunkMembers chunks) (chunkMembers cluster.chunks)
  /-- Answers that do not overlap are all stored. -/
  stored : (∀ cluster ∈ groups, ∀ other ∈ groups,
      cluster = other ∨ Disjoint (chunkMembers cluster.chunks) (chunkMembers other.chunks)) →
    ∀ cluster ∈ groups, ∃ id, next.db.ActiveChunks id cluster.chunks
  fates : Db.Fates s.db (groups.map GetMempoolClusterModel.chunks) next.db
  answered : ∀ cluster ∈ groups, ∃ call txid, env.getMempoolCluster call txid = .cluster cluster
  asked : answeredGroups next.asked =
    answeredGroups s.asked ++ groups.map GetMempoolClusterModel.txids
  allReached : ∀ cluster ∈ groups, ∀ txid ∈ cluster.txids, reached txid

theorem synced_handleCandidates (reliable : env.Reliable) (small : env.SmallAnswers)
    (inv : Db.StoreInv [] s.db) {candidateTxids : List Txid} {reached : Txid → Prop}
    (closed : Closed env s candidateTxids reached) {outOfMempool : Finset Txid} {fuel : ℕ}
    {changes : ClusterDeltaSet}
    (h : s.handleCandidatesCovering env fuel candidateTxids outOfMempool = some (changes, next)) :
    ∃ groups, Synced env reached groups s next := by
  obtain ⟨⟨queue, drained⟩, drains, done⟩ := Option.map_eq_some_iff.mp h
  obtain rfl : (drained.insertSingletons env queue).2 = next := congrArg Prod.snd done
  have initial : QueueInv env s ⟨candidateTxids, outOfMempool, [], .default⟩ s :=
    ⟨.refl env inv rfl (.refl _), by simp, by simp, by simp⟩
  have traces : Traces env s candidateTxids reached ⟨candidateTxids, outOfMempool, [], .default⟩ s
      [] :=
    ⟨.nil, .refl s.db, by simp, by simp, by simp, fun _ => .inl⟩
  obtain ⟨groups, after⟩ := traces.drain reliable small inv.toVersioned closed initial drains
  rw [List.nil_append] at after
  obtain ⟨lists, adds, asked, inLists⟩ :=
    adds_insertSingletons reliable (initial.drain small drains)
  refine ⟨groups, ?_, ?_, ?_, after.answered, ?_, after.allReached⟩
  · intro id chunks active
    have ofHeld (index : ClusterId ⊕ Txid)
        (present : held queue.freshSingletons drained.db index chunks) :
        (∃ cluster ∈ groups, chunks = cluster.chunks) ∨ held [] s.db index chunks ∧
          ∀ cluster ∈ groups, Disjoint (chunkMembers chunks) (chunkMembers cluster.chunks) := by
      rcases after.absorbs.origin present with stored | ⟨before, met⟩
      · obtain ⟨cluster, inGroups, rfl⟩ := List.mem_map.mp stored
        exact .inl ⟨cluster, inGroups, rfl⟩
      · exact .inr ⟨before, fun cluster member => met _ (List.mem_map_of_mem member)⟩
    rcases adds.origin active with buffered | before
    · obtain ⟨txid, present⟩ := (inLists chunks).mp buffered
      refine (ofHeld _ present).imp_right ?_
      -- nothing was buffered at the start
      rintro ⟨⟨new, found, -⟩, -⟩
      simp at found
    · exact ofHeld (.inl id) before
  · intro partition cluster member
    obtain ⟨id | txid, present⟩ := after.absorbs.stored (by
      rintro block inBlocks other inOthers
      obtain ⟨first, inFirst, rfl⟩ := List.mem_map.mp inBlocks
      obtain ⟨second, inSecond, rfl⟩ := List.mem_map.mp inOthers
      exact (partition first inFirst second inSecond).imp (congrArg _) id)
        (List.mem_map_of_mem member)
    · exact ⟨id, (adds.same (Db.ActiveChunks.isSome present)).activeChunks.mpr present⟩
    · exact adds.stored _ ((inLists _).mpr ⟨txid, present⟩)
  · simpa using after.fates.trans adds.fates
  · rw [asked, after.asked]

end ClusterService

end MempoolObserver
