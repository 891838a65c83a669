import MempoolObserver.Services.ClusterUpserts

/-!
# What the candidate queue keeps

## Main definitions

* `ClusterService.QueueInv` — what every iteration of the queue leaves in place

## Main results

* `ClusterService.keeps_handleCandidatesCovering`
-/

namespace MempoolObserver

open Collections

namespace ClusterService

variable {env : ClusterEnv} {s next : ClusterService} {changes : ClusterDeltaSet}
  {cluster : GetMempoolClusterModel} {existingIds : List ClusterId}

/-! ### The candidate queue -/

/-- The buffered singletons are clusters of their one key, which no active cluster has. -/
structure Buffered (singletons : List (Txid × NewCluster)) (db : Db) : Prop where
  txids : ∀ entry ∈ singletons, entry.2.txids = [entry.1]
  small : ∀ entry ∈ singletons, entry.2.chunks.length ≤ maxChunks
  apart : ∀ entry ∈ singletons, ¬ db.Together entry.1 entry.1

variable {start : ClusterService} {queue : CandidateQueue}

/-- What every iteration of the queue leaves in place. -/
structure QueueInv (env : ClusterEnv) (start : ClusterService) (queue : CandidateQueue)
    (s : ClusterService) : Prop where
  keeps : Keeps env queue.changes start s
  buffered : Buffered queue.freshSingletons s.db

/-- Fewer singletons, none of which was clustered in the meantime. -/
theorem Buffered.of_subset {db after : Db} {singletons fewer : List (Txid × NewCluster)}
    (buffered : Buffered singletons db) (subset : fewer ⊆ singletons)
    (apart : ∀ entry ∈ fewer, after.Together entry.1 entry.1 → db.Together entry.1 entry.1) :
    Buffered fewer after where
  txids entry member := buffered.txids entry (subset member)
  small entry member := buffered.small entry (subset member)
  apart entry member together :=
    buffered.apart entry (subset member) (apart entry member together)

/-- A group of one that no active cluster has is buffered. -/
theorem Buffered.append {db : Db} {singletons : List (Txid × NewCluster)}
    (buffered : Buffered singletons db) (meets : Meets db cluster.txids [])
    (one : cluster.txids.length = 1) (small : cluster.chunks.length ≤ maxChunks)
    (seenAt : OffsetDateTime) :
    Buffered (cluster.txids.map (fun txid => (txid, newCluster seenAt cluster)) ++ singletons)
      db := by
  obtain ⟨txid, txids_eq⟩ := List.length_eq_one_iff.mp one
  -- An entry of the buffer is the new one or an old one, and the three demands are checked on each.
  have cases (entry : Txid × NewCluster) (member : entry ∈ cluster.txids.map
      (fun txid => (txid, newCluster seenAt cluster)) ++ singletons) :
      entry = (txid, newCluster seenAt cluster) ∨ entry ∈ singletons := by
    rcases List.mem_append.mp member with new | old
    · rw [txids_eq] at new
      exact .inl (List.mem_singleton.mp new)
    · exact .inr old
  constructor
  · intro entry member
    rcases cases entry member with rfl | old
    · exact txids_eq
    · exact buffered.txids entry old
  · intro entry member
    rcases cases entry member with rfl | old
    · exact small
    · exact buffered.small entry old
  · intro entry member
    rcases cases entry member with rfl | old
    · rintro ⟨id, active, inMembers, -⟩
      exact absurd ((meets id).mpr ⟨active, txid, by simp [txids_eq], inMembers⟩) (by simp)
    · exact buffered.apart entry old

theorem queueInv_reportPresent (inv : QueueInv env start queue s) (nonempty : cluster.txids ≠ [])
    (small : cluster.chunks.length ≤ maxChunks) :
    QueueInv env start (s.reportPresent env cluster queue).1
      (s.reportPresent env cluster queue).2 := by
  unfold reportPresent
  dsimp only
  obtain ⟨keeps, buffered⟩ := inv
  set present : ClusterService := { s with
    mempoolLedger :=
      s.mempoolLedger.assertPresent (env.call s.calls) cluster.txids } with present_eq
  have presentInv : Db.StoreInv [] present.db := keeps.inv
  -- A failed lookup drops the group and leaves the store and the buffer as they are.
  obtain ⟨after, db_eq, later, looked⟩ := findActiveIdsByTxids_cases env presentInv cluster.txids
  have fromStart : Keeps env queue.changes start after :=
    keeps.to_eq db_eq ⟨later.snapshot, later.calls⟩
  rcases looked with failed | ⟨ids, found, meets⟩
  · rw [failed]
    exact ⟨fromStart, buffered.of_subset (List.Subset.refl _) fun _ _ together => db_eq ▸ together⟩
  rw [found]
  dsimp only
  have sameDb : after.db = s.db := db_eq
  have meetsAfter : Meets after.db cluster.txids ids := by
    rw [sameDb]
    exact meets
  -- A lone transaction that nobody holds is buffered; everything else is written through.
  split_ifs with single
  · obtain ⟨rfl, one⟩ := single
    refine ⟨fromStart, ?_⟩
    exact (buffered.of_subset (fun _ member => (List.mem_filter.mp member).1)
      fun _ _ together => sameDb ▸ together).append meetsAfter one small _
  · have upserts := upserts_upsert env (sameDb ▸ keeps.inv) meetsAfter nonempty small
    refine ⟨fromStart.merge upserts.keeps,
      buffered.of_subset (fun _ member => (List.mem_filter.mp member).1)
        fun entry member together => ?_⟩
    -- A buffered transaction outside the group stays alone, since the upsert joins only the group.
    have outside : entry.1 ∉ cluster.txids := by simpa using (List.mem_filter.mp member).2
    rcases upserts.together _ _ together with inGroup | before
    · exact absurd inGroup.1 outside
    · exact sameDb ▸ before

/-- An answer that stores nothing. -/
theorem QueueInv.reportAbsent (inv : QueueInv env start queue s) (txid : Txid) :
    QueueInv env start (s.reportAbsent env txid queue).1 (s.reportAbsent env txid queue).2 :=
  ⟨inv.keeps.to_eq rfl ⟨rfl, le_rfl⟩, inv.buffered⟩

theorem QueueInv.candidate (inv : QueueInv env start queue s) (small : env.SmallAnswers)
    (txid : Txid) :
    QueueInv env start (s.candidate env txid queue).1 (s.candidate env txid queue).2 := by
  unfold ClusterService.candidate
  split_ifs with known
  · exact inv
  dsimp only
  have asked (answer : ClusterAnswer) :
      QueueInv env start queue { s.called env with asked := s.asked ++ [(txid, answer)] } :=
    ⟨inv.keeps.to_eq rfl ⟨rfl, Nat.le_succ _⟩, inv.buffered⟩
  split
  case h_1 => exact asked _
  case h_2 => exact (asked _).reportAbsent txid
  case h_3 cluster answered =>
    split_ifs with empty
    · exact (asked _).reportAbsent txid
    · exact queueInv_reportPresent (asked _) empty (small _ _ _ answered)

theorem QueueInv.drain (small : env.SmallAnswers) {fuel : ℕ} {last : CandidateQueue}
    (inv : QueueInv env start queue s) (drained : s.drain env fuel queue = some (last, next)) :
    QueueInv env start last next := by
  induction fuel generalizing queue s with
  | zero => simp [ClusterService.drain] at drained
  | succ fuel ih =>
    rw [ClusterService.drain] at drained
    split at drained
    case h_1 =>
      simp only [Option.some.injEq, Prod.mk.injEq] at drained
      obtain ⟨rfl, rfl⟩ := drained
      exact inv
    case h_2 txid pending popped =>
      refine ih (QueueInv.candidate ?_ small txid) drained
      exact ⟨inv.keeps, inv.buffered⟩

/-! ### The batch of singletons -/

/-- Clusters that can be inserted next to the active ones. -/
structure Insertable (new : List NewCluster) (db : Db) : Prop where
  nonempty : ∀ cluster ∈ new, cluster.chunks ≠ []
  small : ∀ cluster ∈ new, cluster.chunks.length ≤ maxChunks
  disjoint : new.Pairwise fun a b => ∀ txid ∈ a.txids, txid ∉ b.txids
  apart : ∀ cluster ∈ new, ∀ txid ∈ cluster.txids, ¬ db.Together txid txid

section Slices

variable {db after : Db} {now : Txid → OffsetDateTime} {fails : ℕ → Bool}
  {new first rest : List NewCluster} {clusters : List Cluster}

theorem Insertable.insertIn (insertable : Insertable new db) (inv : Db.StoreInv [] db)
    (h : db.insertIn now new = some (clusters, after)) :
    Db.StoreInv [] after ∧ db.Extends after :=
  inv.insertIn insertable.nonempty insertable.small insertable.disjoint
    (fun cluster member txid inNew id active inOther =>
      insertable.apart cluster member txid inNew ⟨id, active, inOther, inOther⟩) h

theorem Insertable.left (insertable : Insertable (first ++ rest) db) : Insertable first db where
  nonempty cluster member := insertable.nonempty cluster (List.mem_append_left _ member)
  small cluster member := insertable.small cluster (List.mem_append_left _ member)
  disjoint := (List.pairwise_append.mp insertable.disjoint).1
  apart cluster member := insertable.apart cluster (List.mem_append_left _ member)

/-- What is left of a batch can still be inserted once its first slice is. -/
theorem Insertable.right (insertable : Insertable (first ++ rest) db) (inv : db.Versioned)
    (h : db.insertIn now first = some (clusters, after)) : Insertable rest after where
  nonempty cluster member := insertable.nonempty cluster (List.mem_append_right _ member)
  small cluster member := insertable.small cluster (List.mem_append_right _ member)
  disjoint := (List.pairwise_append.mp insertable.disjoint).2.1
  apart cluster member txid inNew together := by
    rw [Db.together_insertIn inv h] at together
    rcases together with ⟨other, inFirst, inOther, -⟩ | before
    · exact (List.pairwise_append.mp insertable.disjoint).2.2 other inFirst cluster member txid
        inOther inNew
    · exact insertable.apart cluster (List.mem_append_right _ member) txid inNew before

/-- However the slices fail, the store stays consistent. -/
theorem storeInv_insertSlices (fails : ℕ → Bool) (now : Txid → OffsetDateTime) (slice : ℕ)
    {batches : List (List NewCluster)}
    (insertable : Insertable batches.flatten db) (inv : Db.StoreInv [] db) :
    Db.StoreInv [] (insertSlices fails now slice batches db).2 ∧
      db.Extends (insertSlices fails now slice batches db).2 := by
  -- Induction over the slices; a failed one ends the batch, and what was committed stays.
  induction batches generalizing slice db with
  | nil => exact ⟨inv, .refl db⟩
  | cons batch batches ih =>
    rw [List.flatten_cons] at insertable
    rw [insertSlices]
    split_ifs
    · exact ⟨inv, .refl db⟩
    split
    case h_1 => exact ⟨inv, .refl db⟩
    case h_2 rows after inserted =>
      obtain ⟨afterInv, grown⟩ := insertable.left.insertIn inv inserted
      obtain ⟨lastInv, grownOn⟩ := ih (slice + 1)
        (insertable.right inv.toVersioned inserted) afterInv
      exact ⟨lastInv, grown.trans grownOn⟩

/-- Slices that do not fail are all inserted and all reported. -/
theorem accounts_insertSlices (now : Txid → OffsetDateTime) (slice : ℕ)
    {batches : List (List NewCluster)} {start : Db}
    (holds : ∀ later, slice ≤ later → fails later = false)
    (insertable : Insertable batches.flatten db) (inv : Db.StoreInv [] db)
    (accounts : Accounts changes start db) :
    ∃ rows, (insertSlices fails now slice batches db).1 = some rows ∧
      Accounts (rows.foldl ClusterDeltaSet.markUpserted changes) start
        (insertSlices fails now slice batches db).2 := by
  -- Induction over the slices, each counted into the changes as its rows come back.
  induction batches generalizing slice db changes with
  | nil => exact ⟨[], rfl, accounts⟩
  | cons batch batches ih =>
    rw [List.flatten_cons] at insertable
    obtain ⟨⟨rows, after⟩, inserted⟩ := Option.isSome_iff_exists.mp
      (Db.insertIn_isSome now inv.toVersioned insertable.left.small)
    obtain ⟨afterInv, -⟩ := insertable.left.insertIn inv inserted
    obtain ⟨more, reported, accounted⟩ := ih (slice + 1)
      (fun later above => holds later (by omega)) (insertable.right inv.toVersioned inserted)
      afterInv (accounts.insertIn inv.toVersioned afterInv.toVersioned inserted)
    simp only [insertSlices, holds slice le_rfl, inserted]
    refine ⟨rows ++ more, by simp [reported], ?_⟩
    rwa [List.foldl_append]

end Slices

theorem lookup_mem {entries : List (Txid × NewCluster)} {txid : Txid} {new : NewCluster}
    (found : entries.lookup txid = some new) : (txid, new) ∈ entries := by
  obtain ⟨before, after, rfl, -⟩ := List.lookup_eq_some_iff.mp found
  simp

/-- The buffered singletons, in whatever order, can be inserted. -/
theorem Buffered.insertable {db : Db} {singletons : List (Txid × NewCluster)}
    (buffered : Buffered singletons db) (order : Enumeration Txid) :
    Insertable ((order.toList (singletons.map Prod.fst).toFinset).filterMap fun txid =>
      singletons.lookup txid) db := by
  have entry {new : NewCluster} (member : new ∈ (order.toList
      (singletons.map Prod.fst).toFinset).filterMap fun txid => singletons.lookup txid) :
      ∃ txid, (txid, new) ∈ singletons := by
    obtain ⟨txid, -, found⟩ := List.mem_filterMap.mp member
    exact ⟨txid, lookup_mem found⟩
  constructor
  · intro new member
    obtain ⟨txid, inSingletons⟩ := entry member
    have txids := buffered.txids _ inSingletons
    rintro empty
    simp [NewCluster.txids, empty] at txids
  · intro new member
    obtain ⟨txid, inSingletons⟩ := entry member
    exact buffered.small _ inSingletons
  -- Distinct keys of the buffer name distinct single transactions.
  · rw [List.pairwise_filterMap]
    refine (order.nodup _).imp fun {first second} differ a foundA b foundB txid inA inB => ?_
    rw [buffered.txids _ (lookup_mem foundA), List.mem_singleton] at inA
    rw [buffered.txids _ (lookup_mem foundB), List.mem_singleton] at inB
    exact differ (inA.symm.trans inB)
  · intro new member txid inNew
    obtain ⟨key, inSingletons⟩ := entry member
    rw [buffered.txids _ inSingletons, List.mem_singleton] at inNew
    subst inNew
    exact buffered.apart _ inSingletons

theorem keeps_insertSingletons (inv : QueueInv env start queue s) :
    Keeps env (s.insertSingletons env queue).1 start (s.insertSingletons env queue).2 := by
  obtain ⟨keeps, buffered⟩ := inv
  unfold insertSingletons insertManyWithMembers
  dsimp only
  set batch := ((env.call s.calls).order.toList
    (queue.freshSingletons.map Prod.fst).toFinset).filterMap fun txid =>
      queue.freshSingletons.lookup txid with batch_eq
  have insertable : Insertable (slices mempoolDeltaInsertChunkSize batch).flatten s.db := by
    rw [slices_flatten mempoolDeltaInsertChunkSize_pos, batch_eq]
    exact buffered.insertable _
  split_ifs with empty
  · exact keeps
  obtain ⟨lastInv, grown⟩ := storeInv_insertSlices (env.fails s.calls)
    (env.call s.calls).now 0 insertable keeps.inv
  -- a first slice that fails leaves nothing behind; after it none fails
  by_cases firstFails : env.fails s.calls 0 = true
  · have stopped : insertSlices (env.fails s.calls) (env.call s.calls).now 0
        (slices mempoolDeltaInsertChunkSize batch) s.db = (none, s.db) ∨
      insertSlices (env.fails s.calls) (env.call s.calls).now 0
        (slices mempoolDeltaInsertChunkSize batch) s.db = (some [], s.db) := by
      cases slices mempoolDeltaInsertChunkSize batch with
      | nil => exact .inr rfl
      | cons first rest => exact .inl (by rw [insertSlices, if_pos firstFails])
    rcases stopped with none | none <;> rw [none] <;> exact keeps.to_eq rfl ⟨rfl, Nat.le_succ _⟩
  · have noneFails (holds : env.SlicesHoldIn start.calls (s.calls + 1)) (later : ℕ)
        (_ : 0 ≤ later) : env.fails s.calls later = false :=
      holds _ later keeps.later.calls (Nat.lt_succ_self _) (Bool.eq_false_iff.mpr firstFails)
    have reports (holds : env.SlicesHoldIn start.calls (s.calls + 1)) :=
      accounts_insertSlices (env.call s.calls).now 0 (noneFails holds) insertable keeps.inv
        (keeps.accounts (holds.mono le_rfl (Nat.le_succ _)))
    have after (db : Db) : Later start { s.called env with db := db } :=
      keeps.later.trans ⟨rfl, Nat.le_succ _⟩
    rcases result : insertSlices (env.fails s.calls) (env.call s.calls).now 0
      (slices mempoolDeltaInsertChunkSize batch) s.db with ⟨inserted, db⟩
    rw [result] at lastInv grown reports
    cases inserted with
    | none =>
      refine ⟨lastInv, keeps.grown.trans grown, fun holds => ?_, after db⟩
      obtain ⟨rows, reported, -⟩ := reports holds
      simp at reported
    | some rows =>
      refine ⟨lastInv, keeps.grown.trans grown, fun holds => ?_, after db⟩
      obtain ⟨reportedRows, reported, accounts⟩ := reports holds
      obtain rfl := Option.some.inj reported
      exact accounts

theorem keeps_handleCandidatesCovering (small : env.SmallAnswers) (inv : Db.StoreInv [] s.db)
    {fuel : ℕ} {candidateTxids : List Txid} {outOfMempool : Finset Txid}
    (h : s.handleCandidatesCovering env fuel candidateTxids outOfMempool = some (changes, next)) :
    Keeps env changes s next := by
  obtain ⟨⟨queue, drained⟩, drains, done⟩ := Option.map_eq_some_iff.mp h
  have initial : QueueInv env s ⟨candidateTxids, outOfMempool, [], .default⟩ s :=
    ⟨.refl env inv rfl (.refl s), by simp, by simp, by simp⟩
  have kept := keeps_insertSingletons (initial.drain small drains)
  obtain ⟨rfl, rfl⟩ : (drained.insertSingletons env queue).1 = changes ∧
      (drained.insertSingletons env queue).2 = next := by
    simpa [Prod.ext_iff] using done
  exact kept

end ClusterService

end MempoolObserver
