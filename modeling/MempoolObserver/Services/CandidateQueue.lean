import Mathlib.Data.Finset.Card
import MempoolObserver.Services.ClusterRounds

/-!
# The candidate work queue terminates

An iteration of the queue either only drops a txid, or learns about one it did
not know: an answer contains the txid it was asked for. Whoever an upsert
detaches was in an active cluster, and the clusters the queue itself stored are
made of txids it already knows, so the queue only ever grows by txids from the
clusters that were active when it started. That bounds it, whatever the node
answers and whichever repository calls fail.

## Main results

* `ClusterService.settles_drain` — with enough iterations the queue runs dry, and the
  groups it hears of are bounded
* `candidateQueue_terminates` — the same from every state of the store
* `ClusterService.settles_run` — a round returns
-/

namespace MempoolObserver

open Collections Relation

/-- A group the node answers with contains the txid it was asked for. -/
def ClusterEnv.AnswersAsked (env : ClusterEnv) : Prop :=
  ∀ call txid cluster, env.getMempoolCluster call txid = .cluster cluster →
    cluster.txids ≠ [] → txid ∈ cluster.txids

/-- With enough iterations the computation has the result, and keeps it. -/
def Settles {α : Type} (f : ℕ → Option α) (result : α) : Prop :=
  ∃ enough, ∀ fuel, enough ≤ fuel → f fuel = some result

namespace Settles

variable {α β : Type} {f : ℕ → Option α} {result : α}

theorem pure (result : α) : Settles (fun _ => some result) result := ⟨0, fun _ _ => rfl⟩

theorem map (settles : Settles f result) (g : α → β) :
    Settles (fun fuel => (f fuel).map g) (g result) := by
  obtain ⟨enough, returns⟩ := settles
  exact ⟨enough, fun fuel le => by simp [returns fuel le]⟩

theorem bind {g : ℕ → α → Option β} {last : β} (settles : Settles f result)
    (later : Settles (fun fuel => g fuel result) last) :
    Settles (fun fuel => (f fuel).bind (g fuel)) last := by
  obtain ⟨enough, returns⟩ := settles
  obtain ⟨more, returnsLater⟩ := later
  refine ⟨max enough more, fun fuel le => ?_⟩
  dsimp only
  rw [returns fuel (le_trans (le_max_left _ _) le)]
  exact returnsLater fuel (le_trans (le_max_right _ _) le)

end Settles

def ClusterAnswer.isCluster : ClusterAnswer → Bool
  | cluster _ => true
  | txNotFoundInMempool | error => false

namespace ClusterService

variable {env : ClusterEnv} {s next last : ClusterService} {queue : CandidateQueue}
  {cluster : GetMempoolClusterModel} {known : Finset Txid} {txids : List Txid}

/-- How many groups the node answered with so far. -/
def groupsAnswered (s : ClusterService) : ℕ := s.asked.countP fun asked => asked.2.isCluster

/-! ### Whom an upsert clusters -/

/-- A call that clusters nobody but the given txids, whatever else it does. -/
structure Clusters (txids : List Txid) (s next : ClusterService) : Prop where
  inStep : Db.LiveInStep [] next.db
  clustered : ∀ txid, next.db.Clustered txid → txid ∈ txids ∨ s.db.Clustered txid
  asked : next.asked = s.asked

theorem Clusters.of_db (inStep : Db.LiveInStep [] s.db) (db_eq : next.db = s.db)
    (asked : next.asked = s.asked) : Clusters txids s next where
  inStep := db_eq ▸ inStep
  clustered _ clustered := Or.inr (db_eq ▸ clustered)
  asked := asked

/-- What came before clustered nobody at all. -/
theorem Clusters.after (clusters : Clusters txids next last) (closes : Clusters [] s next) :
    Clusters txids s last where
  inStep := clusters.inStep
  clustered := by
    intro txid clustered
    rcases clusters.clustered txid clustered with handed | before
    · exact Or.inl handed
    · exact Or.inr ((closes.clustered txid before).resolve_left (by simp))
  asked := clusters.asked.trans closes.asked

theorem clusters_markMerged (env : ClusterEnv) (inStep : Db.LiveInStep [] s.db)
    (ids : List ClusterId) : Clusters [] s (s.markMerged env ids).2 := by
  unfold markMerged
  split_ifs
  · exact .of_db inStep rfl rfl
  · rcases transact_cases env (fun db => some (db.closeMany (env.now s.calls) ids .merged)) s with
      failed | ⟨count, db, committed, done⟩
    · rw [failed]
      exact .of_db inStep rfl rfl
    · rw [done]
      obtain rfl : _ = db := congrArg Prod.snd (Option.some.inj committed)
      have ends := Db.ends_closeMany (env.now s.calls) ids .merged s.db
      have ran : (ClusterTx.close (env.now s.calls) ids .merged).run s.db = some _ := rfl
      constructor
      · exact inStep.run ran
      · exact fun txid clustered =>
        Or.inr (ends.clustered (by simp [ClusterClosing.status]) clustered)
      · rfl

theorem clusters_insertWithMembers (env : ClusterEnv) (inStep : Db.LiveInStep [] s.db)
    {seenAt : OffsetDateTime} {updated : Cluster} {db : Db}
    (committed : s.db.insertWithMembers (env.call s.calls).now (newCluster seenAt cluster) =
      some (updated, db)) (db_eq : next.db = db) (asked : next.asked = s.asked) :
    Clusters cluster.txids s next := by
  simp only [Db.insertWithMembers, Option.bind_eq_bind, Option.pure_def] at committed
  obtain ⟨⟨rows, after⟩, inserted, committed⟩ := Option.bind_eq_some_iff.mp committed
  obtain ⟨first, -, committed⟩ := Option.bind_eq_some_iff.mp committed
  obtain rfl : after = db := congrArg Prod.snd (Option.some.inj committed)
  subst db_eq
  refine ⟨inStep.insertIn inserted, fun txid clustered => ?_, asked⟩
  rcases inStep.clustered_insertIn inserted clustered with handed | before
  · refine Or.inl ?_
    simpa [newCluster, NewCluster.txids, GetMempoolClusterModel.txids] using handed
  · exact Or.inr before

/-- However an upsert fails, it clusters nobody but the group, and whom it detached
was clustered. -/
theorem clusters_upsert (env : ClusterEnv) (cluster : GetMempoolClusterModel)
    (inStep : Db.LiveInStep [] s.db) {existingIds : List ClusterId}
    (active : ∀ id ∈ existingIds, s.db.IsActive id) :
    Clusters cluster.txids s (s.upsert env cluster existingIds).2 ∧
      ∀ txid ∈ (s.upsert env cluster existingIds).1.detached, s.db.Clustered txid := by
  unfold upsert
  split_ifs with noneExist
  · dsimp only
    rcases transact_cases env (fun db => db.insertWithMembers (env.call s.calls).now
      (newCluster (env.now s.calls) cluster)) s with failed | ⟨updated, db, committed, done⟩
    · rw [failed]
      exact ⟨.of_db inStep rfl rfl, by simp [UpsertOutcome.untouched]⟩
    · rw [done]
      exact ⟨clusters_insertWithMembers env inStep committed rfl rfl, by simp⟩
  · rcases query_cases env (fun db => db.findByIds existingIds) s with failed | loaded
    · rw [failed]
      exact ⟨.of_db inStep rfl rfl, by simp [UpsertOutcome.untouched]⟩
    rw [loaded]
    dsimp only
    cases chosen : (s.db.findByIds existingIds).minOn? Cluster.firstSeenAt with
    | none => exact ⟨.of_db inStep rfl rfl, by simp [UpsertOutcome.untouched]⟩
    | some keep =>
      have was : ∀ txid ∈ ((s.db.findByIds existingIds).flatMap Cluster.txids).filter
          (· ∉ cluster.txids), s.db.Clustered txid := by
        intro txid member
        obtain ⟨found, inExisting, inFound⟩ := List.mem_flatMap.mp (List.mem_filter.mp member).1
        obtain ⟨id, row, -, listed, stored, rfl⟩ := Db.stored_of_mem_findByIds inExisting
        exact ⟨id, active id listed, (Db.mem_txids_loaded stored).mp inFound⟩
      dsimp only
      have closes : Clusters [] s _ := (clusters_markMerged (s := s.called env) env inStep
        (((s.db.findByIds existingIds).map Cluster.id).filter (· ≠ keep.id))).after
          (.of_db inStep rfl rfl)
      generalize (s.called env).markMerged env (((s.db.findByIds existingIds).map
        Cluster.id).filter (· ≠ keep.id)) = merged at closes
      obtain ⟨_ | changes, after⟩ := merged
      · refine ⟨Clusters.after (.of_db closes.inStep rfl rfl) closes, ?_⟩
        simp [UpsertOutcome.untouched]
      · dsimp only
        rcases transact_cases env (fun db => db.replaceChunksIn (env.call after.calls).now
          ⟨keep.id, cluster.chunks⟩ true) after with failed | ⟨updated, db, committed, done⟩
        · rw [failed]
          -- the merge is committed, and the group goes without its cluster
          exact ⟨Clusters.after (.of_db closes.inStep rfl rfl) closes, was⟩
        · rw [done]
          have replaced : Clusters cluster.txids after { after.called env with db := db } := by
            constructor
            · exact closes.inStep.replaceChunksIn (.inl rfl) committed
            · exact fun txid => closes.inStep.clustered_replaceChunksIn committed
            · rfl
          exact ⟨replaced.after closes, was⟩

/-! ### An iteration of the queue -/

/-- The queue only knows of txids in `known`: what is pending, and what an upsert
could still detach. -/
structure Bounded (known : Finset Txid) (queue : CandidateQueue) (s : ClusterService) : Prop where
  inStep : Db.LiveInStep [] s.db
  pending : ∀ txid ∈ queue.pending, txid ∈ known
  clustered : ∀ txid, s.db.Clustered txid → txid ∈ known ∨ txid ∈ queue.outOfMempool

/-- What storing an answer does to the queue. -/
structure Reports (txids : List Txid) (queue after : CandidateQueue) (s next : ClusterService) :
    Prop where
  clusters : Clusters txids s next
  outOfMempool : after.outOfMempool = queue.outOfMempool ∪ txids.toFinset
  pending : ∀ txid ∈ after.pending, txid ∈ queue.pending ∨
    s.db.Clustered txid ∧ txid ∉ queue.outOfMempool ∪ txids.toFinset

theorem reports_reportPresent (env : ClusterEnv) (cluster : GetMempoolClusterModel)
    (inStep : Db.LiveInStep [] s.db) (queue : CandidateQueue) :
    Reports cluster.txids queue (s.reportPresent env cluster queue).1 s
      (s.reportPresent env cluster queue).2 := by
  unfold reportPresent
  dsimp only
  -- The lookup changes neither the store nor the answers, whether it fails or not.
  have lookup : ∀ present : ClusterService, present.db = s.db → present.asked = s.asked →
      ∃ after, after.db = s.db ∧ after.asked = s.asked ∧
        (present.findActiveIdsByTxids env cluster.txids = (none, after) ∨
          ∃ ids, present.findActiveIdsByTxids env cluster.txids = (some ids, after) ∧
            ∀ id ∈ ids, s.db.IsActive id) := by
    intro present db_eq asked
    unfold findActiveIdsByTxids
    split_ifs
    · exact ⟨present, db_eq, asked, .inr ⟨[], rfl, by simp⟩⟩
    · refine ⟨present.called env, db_eq, asked, (query_cases env _ present).imp id fun found => ?_⟩
      refine ⟨_, found, fun id member => ?_⟩
      rw [db_eq] at member
      exact (inStep.mem_findActiveIdsByTxids.mp member).1
  obtain ⟨after, db_eq, asked, failed | ⟨ids, found, active⟩⟩ := lookup
    { s with mempoolLedger := s.mempoolLedger.assertPresent (env.call s.calls) cluster.txids }
    rfl rfl
  · rw [failed]
    exact ⟨.of_db inStep db_eq asked, rfl, fun _ => .inl⟩
  rw [found]
  dsimp only
  split_ifs with single
  · exact ⟨.of_db inStep db_eq asked, rfl, fun _ => .inl⟩
  · obtain ⟨clusters, detached⟩ := clusters_upsert (s := after) env cluster
      (db_eq ▸ inStep) (db_eq ▸ active)
    -- What joins the queue is detached by the upsert and not marked as heard.
    refine ⟨clusters.after (.of_db inStep db_eq asked), rfl, fun txid member => ?_⟩
    rcases List.mem_append.mp member with old | new
    · exact .inl old
    · obtain ⟨wasDetached, unknown⟩ := List.mem_filter.mp new
      exact .inr ⟨db_eq ▸ detached txid wasDetached, by simpa using unknown⟩

/-- What an iteration for `txid` makes of the queue: it learns nothing and hears of no
group, or learns about a txid it did not know, from one group at most. -/
def Progress (known : Finset Txid) (txid : Txid) (pending : List Txid)
    (queue after : CandidateQueue)
    (s next : ClusterService) : Prop :=
  after.outOfMempool = queue.outOfMempool ∧ after.pending = pending ∧
      next.groupsAnswered = s.groupsAnswered ∨
    txid ∈ known \ queue.outOfMempool ∧ queue.outOfMempool ⊆ after.outOfMempool ∧
      txid ∈ after.outOfMempool ∧ next.groupsAnswered ≤ s.groupsAnswered + 1

/-- An iteration drops a txid, or takes one out of what is still unknown. -/
theorem Bounded.candidate (answers : env.AnswersAsked) {txid : Txid} {pending : List Txid}
    (bounded : Bounded known queue s) (popped : queue.pending = txid :: pending) :
    let after := s.candidate env txid { queue with pending := pending }
    Bounded known after.1 after.2 ∧ Progress known txid pending queue after.1 s after.2 := by
  -- The popped transaction is known, so hearing of it strictly shrinks what is still unheard.
  have isKnown : txid ∈ known := bounded.pending txid (by simp [popped])
  have rest : ∀ other ∈ pending, other ∈ known :=
    fun other member => bounded.pending other (by simp [popped, member])
  unfold ClusterService.candidate
  dsimp only
  split_ifs with out
  · exact ⟨⟨bounded.inStep, rest, bounded.clustered⟩, .inl ⟨rfl, rfl, rfl⟩⟩
  have unknown : txid ∈ known \ queue.outOfMempool := Finset.mem_sdiff.mpr ⟨isKnown, out⟩
  have counted (answer : ClusterAnswer) : ({ s.called env with
      asked := s.asked ++ [(txid, answer)] } : ClusterService).groupsAnswered =
        s.groupsAnswered + if answer.isCluster then 1 else 0 := by
    simp [groupsAnswered, List.countP_append, List.countP_singleton]
  have most (answer : ClusterAnswer) : ({ s.called env with
      asked := s.asked ++ [(txid, answer)] } : ClusterService).groupsAnswered ≤
        s.groupsAnswered + 1 := by
    rw [counted]
    split_ifs <;> omega
  have absent (answer : ClusterAnswer) :
      let answered : ClusterService := { s.called env with asked := s.asked ++ [(txid, answer)] }
      let after := answered.reportAbsent env txid { queue with pending := pending }
      Bounded known after.1 after.2 ∧ Progress known txid pending queue after.1 s after.2 := by
    refine ⟨⟨bounded.inStep, rest, fun other clustered => ?_⟩,
      .inr ⟨unknown, Finset.subset_insert _ _, Finset.mem_insert_self _ _, ?_⟩⟩
    · exact (bounded.clustered other clustered).imp id Finset.mem_insert_of_mem
    · exact most answer
  split
  case h_1 heard =>
    have silent := counted .error
    exact ⟨⟨bounded.inStep, rest, bounded.clustered⟩, .inl ⟨rfl, rfl, heard ▸ silent⟩⟩
  case h_2 => exact absent _
  -- A group is heard as a whole, and it contains the transaction that was asked about.
  case h_3 cluster answered =>
    split_ifs with empty
    · exact absent _
    · have reports := reports_reportPresent env cluster (s := { s.called env with
        asked := s.asked ++ [(txid, env.getMempoolCluster s.calls txid)] }) bounded.inStep
        { queue with pending := pending }
      have inGroup := answers _ _ _ answered empty
      refine ⟨⟨reports.clusters.inStep, fun other member => ?_, fun other clustered => ?_⟩,
        .inr ⟨unknown, ?_, ?_, ?_⟩⟩
      · rcases reports.pending other member with old | ⟨clustered, fresh⟩
        · exact rest other old
        -- A detached transaction is clustered and not yet heard, so it is known.
        · rcases bounded.clustered other clustered with known | out
          · exact known
          · exact absurd (Finset.mem_union_left _ out) fresh
      · rw [reports.outOfMempool]
        rcases reports.clusters.clustered other clustered with grouped | before
        · exact .inr (Finset.mem_union_right _ (List.mem_toFinset.mpr grouped))
        · exact (bounded.clustered other before).imp id (Finset.mem_union_left _)
      · rw [reports.outOfMempool]
        exact Finset.subset_union_left
      · rw [reports.outOfMempool]
        exact Finset.mem_union_right _ (List.mem_toFinset.mpr inGroup)
      · rw [groupsAnswered, reports.clusters.asked]
        exact most _

theorem card_unknown_lt {out after : Finset Txid} {txid : Txid} (unknown : txid ∈ known \ out)
    (grows : out ⊆ after) (learned : txid ∈ after) : (known \ after).card < (known \ out).card := by
  apply Finset.card_lt_card
  refine ⟨Finset.sdiff_subset_sdiff (Finset.Subset.refl _) grows, fun subset => ?_⟩
  exact (Finset.mem_sdiff.mp (subset unknown)).2 learned

/-- The queue runs dry: txids still unknown only get fewer, and between two of
them the queue only gets shorter. -/
theorem settles_drain {queue : CandidateQueue} {s : ClusterService} (answers : env.AnswersAsked)
    (bounded : Bounded known queue s) :
    ∃ result, Settles (fun fuel => s.drain env fuel queue) result ∧
      result.2.groupsAnswered ≤ s.groupsAnswered + (known \ queue.outOfMempool).card := by
  rcases popped : queue.pending with _ | ⟨txid, pending⟩
  · refine ⟨(queue, s), ⟨1, fun fuel le => ?_⟩, Nat.le_add_right _ _⟩
    obtain ⟨fuel, rfl⟩ := Nat.exists_eq_add_of_le' le
    simp [drain, popped]
  · obtain ⟨boundedAfter, progress⟩ := bounded.candidate answers popped
    obtain ⟨result, ⟨enough, returns⟩, heard⟩ := settles_drain answers boundedAfter
    refine ⟨result, ⟨enough + 1, fun fuel le => ?_⟩, ?_⟩
    · obtain ⟨fuel, rfl⟩ := Nat.exists_eq_add_of_le' (le_trans (Nat.le_add_left 1 enough) le)
      simp only [drain, popped]
      exact returns fuel (by omega)
    · rcases progress with ⟨same, -, silent⟩ | ⟨unknown, grows, learned, one⟩
      · rwa [same, silent] at heard
      · have fewer := card_unknown_lt unknown grows learned
        omega
termination_by ((known \ queue.outOfMempool).card, queue.pending.length)
decreasing_by
  rcases progress with ⟨same, shorter, -⟩ | ⟨unknown, grows, learned, -⟩
  · rw [same, shorter, popped]
    exact Prod.Lex.right _ (Nat.lt_succ_self _)
  · exact Prod.Lex.left _ _ (card_unknown_lt unknown grows learned)

theorem asked_insertManyWithMembers (env : ClusterEnv) (new : List NewCluster)
    (s : ClusterService) : (s.insertManyWithMembers env new).2.asked = s.asked := by
  unfold insertManyWithMembers
  split_ifs <;> rfl

theorem asked_insertSingletons (env : ClusterEnv) (queue : CandidateQueue) (s : ClusterService) :
    (s.insertSingletons env queue).2.asked = s.asked := by
  unfold insertSingletons
  dsimp only
  rw [← asked_insertManyWithMembers env (((env.call s.calls).order.toList
    (queue.freshSingletons.map Prod.fst).toFinset).filterMap fun txid =>
      queue.freshSingletons.lookup txid) s]
  generalize s.insertManyWithMembers env _ = inserted
  obtain ⟨_ | rows, after⟩ := inserted <;> rfl

/-- The txids the queue can ever hold: the candidates and the members of the active clusters. -/
def reachable (candidateTxids : List Txid) (s : ClusterService) : Finset Txid :=
  (candidateTxids ++ s.db.findActive.flatMap Cluster.txids).toFinset

theorem bounded_start (inStep : Db.LiveInStep [] s.db) (candidateTxids : List Txid)
    (outOfMempool : Finset Txid) :
    Bounded (s.reachable candidateTxids) ⟨candidateTxids, outOfMempool, [], .default⟩ s where
  inStep := inStep
  pending txid member := by simp [reachable, show txid ∈ candidateTxids from member]
  clustered := by
    rintro txid ⟨id, ⟨row, stored, active⟩, member⟩
    refine Or.inl ?_
    rw [reachable, List.mem_toFinset, List.mem_append, List.mem_flatMap]
    refine Or.inr ⟨_, ?_, (Db.mem_txids_loaded stored).mpr member⟩
    exact (Db.mem_loadClusters inStep.allocated).mpr ⟨id, row, stored, by simpa using active, rfl⟩

/-- The queue runs dry after at most one group for each txid it can hold. -/
theorem settles_handleCandidatesCovering (answers : env.AnswersAsked)
    (inStep : Db.LiveInStep [] s.db) (candidateTxids : List Txid) (outOfMempool : Finset Txid) :
    ∃ result, Settles (fun fuel => s.handleCandidatesCovering env fuel candidateTxids outOfMempool)
        result ∧
      result.2.groupsAnswered ≤ s.groupsAnswered + (s.reachable candidateTxids).card := by
  obtain ⟨result, settles, heard⟩ :=
    settles_drain answers (bounded_start inStep candidateTxids outOfMempool)
  refine ⟨_, settles.map _, ?_⟩
  rw [groupsAnswered, asked_insertSingletons]
  have fewer := Finset.card_le_card (Finset.sdiff_subset (s := s.reachable candidateTxids)
    (t := outOfMempool))
  exact heard.trans (Nat.add_le_add_left fewer _)

/-! ### Rounds return -/

theorem settles_confirmPartial (answers : env.AnswersAsked)
    (inv : Db.StoreInv [] s.db) {block : MinedBlock} {partly : List Cluster}
    (loaded : ∀ cluster ∈ partly, Loaded block s.db cluster) :
    ∃ result, Settles (fun fuel => s.confirmPartial env fuel block partly) result := by
  unfold confirmPartial
  split_ifs
  · exact ⟨_, .pure _⟩
  dsimp only
  rcases transact_cases env (fun db => db.trimAndConfirmMany (env.call s.calls).now
    (env.now s.calls) ((partly.map fun cluster => MinedTrim.new cluster block).map
      MinedTrim.asUpdate) block.confirmedAt) s with failed | ⟨count, db, committed, done⟩
  · rw [failed]
    exact ⟨_, .pure _⟩
  · rw [done]
    have trimmedInv := (trimmed_of_loaded inv loaded committed).1
    obtain ⟨result, settles, -⟩ :=
      settles_handleCandidatesCovering (s := { s.called env with db := db })
      answers trimmedInv.liveInStep ((partly.map fun cluster => MinedTrim.new cluster block).flatMap
        MinedTrim.pending) ∅
    exact ⟨_, settles.map _⟩

theorem settles_confirmMinedInner (answers : env.AnswersAsked)
    (inv : Db.StoreInv [] s.db) (block : MinedBlock) :
    ∃ result, Settles (fun fuel => s.confirmMinedInner env fuel block) result := by
  unfold confirmMinedInner
  obtain ⟨confirms, loaded⟩ := keeps_confirmFull_loaded env inv block
  obtain ⟨result, settles⟩ := settles_confirmPartial answers confirms.inv loaded
  exact ⟨_, settles.map _⟩

theorem settles_confirmBlocks (small : env.SmallAnswers) (answers : env.AnswersAsked)
    (inv : Db.StoreInv [] s.db) (blocks : List MinedBlock) (changes : ClusterDeltaSet) :
    ∃ result, Settles (fun fuel => s.confirmBlocks env fuel blocks changes) result := by
  induction blocks generalizing s changes with
  | nil => exact ⟨_, .pure _⟩
  | cons block blocks ih =>
    obtain ⟨⟨confirmed, mid⟩, settles⟩ := settles_confirmMinedInner answers inv block
    have midInv : Db.StoreInv [] mid.db := by
      obtain ⟨enough, returns⟩ := settles
      exact (keeps_confirmMinedInner small inv (returns enough le_rfl)).inv
    obtain ⟨result, later⟩ := ih midInv (changes.merge confirmed)
    exact ⟨result, settles.bind later⟩

theorem settles_handleConfirmed (small : env.SmallAnswers) (answers : env.AnswersAsked)
    (inv : Db.StoreInv [] s.db) (confirmedTxids : List Txid) :
    ∃ result, Settles (fun fuel => s.handleConfirmed env fuel confirmedTxids) result := by
  unfold handleConfirmed
  obtain ⟨after, db_eq, -, failed | ⟨ids, found, -⟩⟩ :=
    findActiveIdsByTxids_cases env inv confirmedTxids
  · rw [failed]
    exact ⟨_, .pure _⟩
  rw [found]
  dsimp only
  split_ifs
  · exact ⟨_, .pure _⟩
  rcases query_cases env (fun db => db.findByIds ids) after with failed | loaded
  · rw [failed]
    exact ⟨_, .pure _⟩
  rw [loaded]
  dsimp only
  rcases query_cases env (fun db => db.findMinedByTxids
    ((after.db.findByIds ids).flatMap Cluster.txids)) (after.called env) with failed | mined
  · rw [failed]
    exact ⟨_, .pure _⟩
  · rw [mined]
    have calledInv : Db.StoreInv [] ((after.called env).called env).db := db_eq ▸ inv
    exact settles_confirmBlocks small answers calledInv _ _

theorem settles_handleEvicted (answers : env.AnswersAsked)
    (inv : Db.StoreInv [] s.db) (evictedTxids : List Txid) :
    ∃ result, Settles (fun fuel => s.handleEvicted env fuel evictedTxids) result := by
  unfold handleEvicted
  split_ifs
  · exact ⟨_, .pure _⟩
  obtain ⟨after, db_eq, -, failed | ⟨ids, found, -⟩⟩ :=
    findActiveIdsByTxids_cases env inv evictedTxids
  · rw [failed]
    exact ⟨_, .pure _⟩
  rw [found]
  dsimp only
  split_ifs
  · exact ⟨_, .pure _⟩
  rcases query_cases env (fun db => db.findByIds ids) after with failed | loaded
  · rw [failed]
    exact ⟨_, .pure _⟩
  rw [loaded]
  dsimp only
  have calledInv : Db.StoreInv [] (after.called env).db := db_eq ▸ inv
  have closes := keeps_markEvicted env calledInv
    ((((after.db.findByIds ids).filter (touched evictedTxids)).filter fun cluster =>
      (remaining evictedTxids (after.called env).mempoolLedger.live cluster).isEmpty).map
        Cluster.id)
  split_ifs
  · exact ⟨_, .pure _⟩
  · obtain ⟨result, settles, -⟩ :=
      settles_handleCandidatesCovering answers closes.inv.liveInStep _ _
    exact ⟨_, settles.map _⟩

/-- A stage settles in a consistent store. -/
theorem settles_stage (inv : Db.StoreInv [] s.db) (txids : List Txid)
    {handle : ℕ → ClusterService → Option (ClusterDeltaSet × ClusterService)}
    (settles : ∃ result, Settles (fun fuel => handle fuel s) result)
    (keeps : ∀ fuel changes next, handle fuel s = some (changes, next) → Keeps env changes s next) :
    ∃ result, Settles (fun fuel => s.stage txids (handle fuel)) result ∧
      Db.StoreInv [] result.2.db := by
  unfold stage
  split_ifs
  · exact ⟨_, .pure _, inv⟩
  · obtain ⟨result, enough, returns⟩ := settles
    exact ⟨result, ⟨enough, returns⟩, (keeps enough _ _ (returns enough le_rfl)).inv⟩

theorem settles_syncClusters (small : env.SmallAnswers) (answers : env.AnswersAsked)
    (inv : Db.StoreInv [] s.db) (candidateTxids confirmedTxids evictedTxids : List Txid) :
    ∃ result, Settles (fun fuel =>
      s.syncClusters env fuel candidateTxids confirmedTxids evictedTxids) result := by
  obtain ⟨⟨confirmed, first⟩, confirms, firstInv⟩ := settles_stage inv confirmedTxids
    (settles_handleConfirmed small answers inv confirmedTxids)
    fun _ _ _ => keeps_handleConfirmed small inv
  obtain ⟨⟨evicted, second⟩, evicts, secondInv⟩ := settles_stage firstInv evictedTxids
    (settles_handleEvicted answers firstInv evictedTxids)
    fun _ _ _ => keeps_handleEvicted small firstInv
  obtain ⟨synced, covers, -⟩ :=
    settles_handleCandidatesCovering answers secondInv.liveInStep candidateTxids ∅
  obtain ⟨⟨candidates, third⟩, syncs, -⟩ := settles_stage secondInv candidateTxids ⟨synced, covers⟩
    fun _ _ _ => keeps_handleCandidatesCovering small secondInv
  exact ⟨_, confirms.bind (evicts.bind (syncs.bind (.pure _)))⟩

/-- A round returns, whatever the node answers and whichever calls fail. -/
theorem settles_run (small : env.SmallAnswers) (answers : env.AnswersAsked)
    (inv : Db.StoreInv [] s.db) (round : ClusterRound) :
    ∃ result, Settles (fun fuel => round.run env fuel s) result := by
  cases round with
  | syncClustersFor candidateTxids evictedTxids => exact settles_syncClusters small answers inv ..
  | syncClustersAfterFlush addedTxids outcome => exact settles_syncClusters small answers inv ..
  | confirmMined block =>
    obtain ⟨result, settles⟩ := settles_confirmMinedInner answers inv block
    exact ⟨_, settles.map _⟩

end ClusterService

/-- The work queue terminates from every state of the store, whatever the node answers
from call to call and whichever repository calls fail, after at most as many groups as
there are txids among the candidates and the members of the active clusters. -/
theorem candidateQueue_terminates {env : ClusterEnv} (answers : env.AnswersAsked)
    {s : ClusterService} (reached : ReflTransGen Db.RepositoryStep Db.empty s.db)
    (candidateTxids : List Txid) (outOfMempool : Finset Txid) :
    ∃ result, Settles (fun fuel => s.handleCandidatesCovering env fuel candidateTxids outOfMempool)
        result ∧
      result.2.groupsAnswered ≤ s.groupsAnswered +
        (candidateTxids ++ s.db.findActive.flatMap Cluster.txids).toFinset.card :=
  ClusterService.settles_handleCandidatesCovering answers (Db.LiveInStep.reached reached)
    candidateTxids outOfMempool

/-- Every transaction is a group of its own, and no cluster can be rewritten. -/
def rewriteFailsEnv : ClusterEnv where
  getMempoolCluster _ txid := .cluster ⟨[⟨[txid], 10, 200⟩]⟩
  fails call _ := decide (call % 4 = 3)
  now call := call
  call _ := ⟨fun _ => 0, .sorted Txid⟩

/-- A stored pair stays linked and is detached again and again. -/
theorem pair_candidateQueue_terminates : ∃ db,
    (ClusterTx.insert (fun _ => 0) [⟨[⟨["a", "b"], 30, 400⟩], 0⟩]).run Db.empty = some db ∧
    ∃ result, Settles (fun fuel =>
        ClusterService.handleCandidatesCovering rewriteFailsEnv fuel ["a"] ∅
          ⟨db, .default, fun _ => none, 0, []⟩) result ∧ result.2.groupsAnswered ≤ 2 := by
  obtain ⟨db, ran⟩ := Option.isSome_iff_exists.mp (show
    ((ClusterTx.insert (fun _ => 0) [⟨[⟨["a", "b"], 30, 400⟩], 0⟩]).run Db.empty).isSome = true by
      decide)
  have size : ((ClusterTx.insert (fun _ => 0) [⟨[⟨["a", "b"], 30, 400⟩], 0⟩]).run Db.empty).map
      (fun db => (["a"] ++ db.findActive.flatMap Cluster.txids).toFinset.card) = some 2 := by decide
  rw [ran, Option.map_some, Option.some.injEq] at size
  have answers : rewriteFailsEnv.AnswersAsked := by
    intro call txid cluster answered _
    obtain rfl : _ = cluster := ClusterAnswer.cluster.inj answered
    simp [GetMempoolClusterModel.txids]
  obtain ⟨result, settles, heard⟩ := candidateQueue_terminates answers
    (s := ⟨db, .default, fun _ => none, 0, []⟩) (.single (.inl ⟨_, ran⟩)) ["a"] ∅
  rw [size] at heard
  exact ⟨db, ran, result, settles, by simpa [ClusterService.groupsAnswered] using heard⟩

end MempoolObserver
