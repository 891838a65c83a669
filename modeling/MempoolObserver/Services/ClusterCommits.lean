import MempoolObserver.Services.Regrouping
import MempoolObserver.Shared.Removals

/-!
# What a round commits

Apart from the one call that closes clusters as evicted, a round is a chain of
transactions of the membership repository and of calls on the ledger, whatever
fails in between. So what every such transaction keeps, the round keeps: no
closed cluster is touched again, and no cluster becomes evicted. And whatever the
ledger's producers keep, the round keeps.

## Main definitions

* `Commits` — some transactions of the repository, none of them an eviction
* `Db.Spares` — closed clusters stay as they are, and none is newly evicted
* `ClusterService.Silent` — a function of the service that reports nothing of the node
* `ClusterService.Moves` — any function of the service that evicts nobody

## Main results

* `ClusterTx.spares`, `Commits.spares` — from one transaction to all of them
* `ClusterService.moves_handleConfirmed`, `ClusterService.moves_handleCandidatesCovering`
-/

namespace MempoolObserver

open Relation Collections

/-- The transaction closes clusters as evicted. -/
def ClusterTx.Evicts : ClusterTx → Prop
  | close _ _ closing => closing = .evicted
  | _ => False

/-- `next` is `db` after some transactions, none of which is an eviction. -/
def Commits : Db → Db → Prop :=
  ReflTransGen fun db next => ∃ tx : ClusterTx, ¬ tx.Evicts ∧ tx.run db = some next

namespace Db

/-- Closed clusters stay as they were closed. -/
def KeepsClosed (db next : Db) : Prop :=
  ∀ id row, db.clusters id = some row → row.status ≠ .active →
    next.clusters id = some row ∧ next.chunksOf id = db.chunksOf id

/-- Closed clusters stay as they were closed, and none becomes evicted. -/
structure Spares (db next : Db) : Prop where
  closed : KeepsClosed db next
  evicted : ∀ {id row}, next.clusters id = some row → row.status = .evicted →
    db.clusters id = some row

variable {db mid next : Db} {now : Txid → OffsetDateTime}

theorem KeepsClosed.trans (first : KeepsClosed db mid) (second : KeepsClosed mid next) :
    KeepsClosed db next := by
  intro id row stored inactive
  obtain ⟨kept, chunks⟩ := first id row stored inactive
  obtain ⟨keptOn, chunksOn⟩ := second id row kept inactive
  exact ⟨keptOn, chunksOn.trans chunks⟩

theorem Spares.refl (db : Db) : Spares db db :=
  ⟨fun _ _ stored _ => ⟨stored, rfl⟩, fun stored _ => stored⟩

theorem Spares.trans (first : Spares db mid) (second : Spares mid next) : Spares db next where
  closed := first.closed.trans second.closed
  evicted stored status := first.evicted (second.evicted stored status) status

/-- What is stored about a cluster is all its members depend on. -/
theorem members_congr {id : ClusterId} (clusters : next.clusters id = db.clusters id)
    (chunks : next.chunksOf id = db.chunksOf id) : next.members id = db.members id := by
  simp only [members, current, clusters, chunks]

theorem KeepsClosed.members_eq (keeps : KeepsClosed db next) {id : ClusterId} {row : ClusterRow}
    (stored : db.clusters id = some row) (inactive : row.status ≠ .active) :
    next.members id = db.members id := by
  obtain ⟨kept, chunks⟩ := keeps id row stored inactive
  exact members_congr (kept.trans stored.symm) chunks

/-! ### One transaction -/

/-- An insert takes ids that are not stored, and its clusters are active. -/
theorem spares_insertIn {new : List NewCluster} {clusters : List Cluster}
    (h : db.insertIn now new = some (clusters, next)) : Spares db next := by
  obtain ⟨untaken, -, rows, chunks⟩ := tables_insertIn h
  constructor
  · intro id row stored _
    have old : (fresh db.clusterSeq new).lookup id = none := by
      by_contra found
      obtain ⟨cluster, found⟩ := Option.ne_none_iff_exists'.mp found
      exact untaken ⟨id, mem_allocatedIds.mpr (lookup_fresh_bounds found).2, by rw [stored]; rfl⟩
    constructor
    · rw [rows, old, stored]
      rfl
    · funext version
      rw [chunks, freshChunks, old]
      exact List.append_nil _
  · intro id row stored evicted
    rw [rows] at stored
    cases found : (fresh db.clusterSeq new).lookup id with
    | none => simpa [found] using stored
    | some cluster =>
      -- an inserted cluster is active
      simp only [found, Option.map_some, Option.some_or, Option.some.injEq] at stored
      rw [← stored] at evicted
      cases evicted

theorem spares_replaceChunksIn {update : ClusterVersionUpdate} {live : Bool} {cluster : Cluster}
    (h : db.replaceChunksIn now update live = some (cluster, next)) : Spares db next := by
  obtain ⟨old, present, ⟨-, -, rfl⟩ | ⟨active, -, rep⟩⟩ := replaceChunksIn_cases h
  · exact .refl next
  -- A closed cluster is not rewritten, and the rewritten one stays active.
  constructor
  · intro id row stored inactive
    have other : id ≠ update.clusterId := by
      rintro rfl
      rw [present] at stored
      cases stored
      exact inactive active
    exact ⟨(rep.clusters_other other).trans stored, rep.chunksOf_other other⟩
  · intro id row stored evicted
    by_cases other : id = update.clusterId
    · subst other
      rw [rep.clusters_self] at stored
      cases stored
      rw [show (update.row old).status = old.status from rfl, active] at evicted
      cases evicted
    · exact (rep.clusters_other other).symm.trans stored

theorem isActive_of_mem_activeAmong {ids : List ClusterId} {id : ClusterId}
    (member : id ∈ db.activeAmong ids) : id ∈ ids ∧ db.IsActive id := by
  obtain ⟨cluster, inLoaded, rfl⟩ := List.mem_map.mp member
  obtain ⟨id, -, found⟩ := List.mem_filterMap.mp inLoaded
  split at found
  case h_1 row stored =>
    split_ifs at found with passes
    cases found
    obtain ⟨inIds, active⟩ : id ∈ ids ∧ row.status = .active := by simpa using passes
    exact ⟨inIds, row, stored, active⟩
  case h_2 => cases found

/-- Only active clusters are ended. -/
theorem Ends.keepsClosed {ended : List ClusterId} {change : ClusterRow → ClusterRow}
    (ends : Ends db ended change next) (active : ∀ id ∈ ended, db.IsActive id) :
    KeepsClosed db next := by
  intro id row stored inactive
  have kept : id ∉ ended := by
    intro member
    obtain ⟨other, present, isActive⟩ := active id member
    rw [stored] at present
    cases present
    exact inactive isActive
  constructor
  · rw [ends.clusters, if_neg kept, stored]
  · funext version
    rw [ends.chunksOf, if_neg kept]

theorem Ends.spares {ended : List ClusterId} {change : ClusterRow → ClusterRow}
    (ends : Ends db ended change next) (active : ∀ id ∈ ended, db.IsActive id)
    (unevicted : ∀ row, (change row).status ≠ .evicted) : Spares db next where
  closed := ends.keepsClosed active
  evicted {id row} stored evicted := by
    rw [ends.clusters] at stored
    split_ifs at stored
    · obtain ⟨before, -, rfl⟩ := Option.map_eq_some_iff.mp stored
      exact absurd evicted (unevicted before)
    · exact stored

end Db

/-- No transaction touches a closed cluster, and only an eviction evicts. -/
theorem ClusterTx.spares {db next : Db} {tx : ClusterTx} (unevicting : ¬ tx.Evicts)
    (h : tx.run db = some next) : db.Spares next := by
  cases tx with
  | insert now new =>
    obtain ⟨_, inserted, rfl⟩ := Option.map_eq_some_iff.mp h
    exact Db.spares_insertIn inserted
  | replaceChunks now update =>
    obtain ⟨_, replaced, rfl⟩ := Option.map_eq_some_iff.mp h
    exact Db.spares_replaceChunksIn replaced
  | close closedAt ids closing =>
    cases h
    apply (Db.ends_closeMany ..).spares fun id member => (Db.isActive_of_mem_activeAmong member).2
    intro row
    cases closing with
    | evicted => exact absurd rfl unevicting
    | merged => exact ClusterStatus.noConfusion
  | confirm closedAt ids confirmedAt =>
    cases h
    apply (Db.ends_confirmManyIn ..).spares
    · exact fun id member => (Db.isActive_of_mem_activeAmong member).2
    · exact fun _ => ClusterStatus.noConfusion
  | trimAndConfirm now closedAt updates confirmedAt =>
    obtain ⟨_, trims, rfl⟩ := Option.map_eq_some_iff.mp h
    simp only [Db.trimAndConfirmMany, Option.bind_eq_bind, Option.pure_def] at trims
    obtain ⟨trimmed, folded, done⟩ := Option.bind_eq_some_iff.mp trims
    cases done
    -- trimming replaces chunks cluster by cluster, then all of them are confirmed
    have replaced : db.Spares trimmed := by
      refine foldlM_option_induction ?_ (Db.Spares.refl db) folded
      intro before update _ after kept stepped
      obtain ⟨_, found, rfl⟩ := Option.map_eq_some_iff.mp stepped
      exact kept.trans (Db.spares_replaceChunksIn found)
    apply replaced.trans
    apply (Db.ends_confirmManyIn ..).spares
    · exact fun id member => (Db.isActive_of_mem_activeAmong member).2
    · exact fun _ => ClusterStatus.noConfusion

namespace Commits

variable {db mid next : Db}

theorem refl (db : Db) : Commits db db := ReflTransGen.refl

theorem trans (first : Commits db mid) (second : Commits mid next) : Commits db next :=
  ReflTransGen.trans first second

theorem single (tx : ClusterTx) (unevicting : ¬ tx.Evicts) (h : tx.run db = some next) :
    Commits db next :=
  ReflTransGen.single ⟨tx, unevicting, h⟩

theorem spares (commits : Commits db next) : db.Spares next := by
  induction commits with
  | refl => exact .refl db
  | tail _ step ih =>
    obtain ⟨tx, unevicting, ran⟩ := step
    exact ih.trans (tx.spares unevicting ran)

theorem sameRecords (commits : Commits db next) : db.SameRecords next := by
  induction commits with
  | refl => exact .refl db
  | tail _ step ih =>
    obtain ⟨tx, -, ran⟩ := step
    exact ih.trans (ClusterTx.sameRecords ran)

end Commits

/-! ### The functions of the service -/

namespace ClusterService

variable {α : Type} {env : ClusterEnv} {s mid next : ClusterService} {changes : ClusterDeltaSet}
  {fuel : ℕ}

theorem called_of_alone (alone : env.Alone) (s : ClusterService) :
    (s.called env).mempoolLedger = s.mempoolLedger := by
  rw [called, alone s.calls]
  rfl

/-- Transactions were committed, none of them an eviction, and only the other
producers ran, if there are any. -/
structure Silent (env : ClusterEnv) (s next : ClusterService) : Prop where
  commits : Commits s.db next.db
  asked : next.asked = s.asked
  produced : s.mempoolLedger.Produced next.mempoolLedger
  ledger : env.Alone → next.mempoolLedger = s.mempoolLedger
  calls : s.calls ≤ next.calls

/-- Transactions were committed, none of them an eviction, and producers ran;
but unless the node answered with a group, none adds to a ledger with nobody in
it when no other task runs. -/
structure Moves (env : ClusterEnv) (s next : ClusterService) : Prop where
  commits : Commits s.db next.db
  asked : answeredGroups s.asked <+: answeredGroups next.asked
  produced : s.mempoolLedger.Produced next.mempoolLedger
  ledger : env.Alone → s.mempoolLedger.live = ∅ →
    answeredGroups next.asked = answeredGroups s.asked → next.mempoolLedger = s.mempoolLedger
  calls : s.calls ≤ next.calls

namespace Silent

theorem refl (s : ClusterService) : Silent env s s :=
  ⟨.refl s.db, rfl, .refl _, fun _ => rfl, le_rfl⟩

theorem trans (first : Silent env s mid) (second : Silent env mid next) : Silent env s next :=
  ⟨first.commits.trans second.commits, second.asked.trans first.asked,
    first.produced.trans second.produced,
    fun alone => (second.ledger alone).trans (first.ledger alone),
    first.calls.trans second.calls⟩

theorem moves (silent : Silent env s next) : Moves env s next where
  commits := silent.commits
  asked := by rw [silent.asked]
  produced := silent.produced
  ledger alone _ _ := silent.ledger alone
  calls := silent.calls

end Silent

/-- The log of answers only grows, so with none overall there is none on either half. -/
theorem unanswered_halfway (first : answeredGroups s.asked <+: answeredGroups mid.asked)
    (second : answeredGroups mid.asked <+: answeredGroups next.asked)
    (unanswered : answeredGroups next.asked = answeredGroups s.asked) :
    answeredGroups mid.asked = answeredGroups s.asked := by
  refine (first.eq_of_length_le ?_).symm
  rw [← unanswered]
  exact second.length_le

namespace Moves

theorem refl (s : ClusterService) : Moves env s s := (Silent.refl s).moves

theorem trans (first : Moves env s mid) (second : Moves env mid next) : Moves env s next where
  commits := first.commits.trans second.commits
  asked := first.asked.trans second.asked
  produced := first.produced.trans second.produced
  ledger alone nobody unanswered := by
    have half := unanswered_halfway first.asked second.asked unanswered
    have same := first.ledger alone nobody half
    rw [second.ledger alone (same ▸ nobody) (unanswered.trans half.symm), same]
  calls := first.calls.trans second.calls

/-- An early return. -/
theorem of_eq {result : ClusterDeltaSet} (moves : Moves env s mid)
    (h : some (result, mid) = some (changes, next)) : Moves env s next := by
  obtain rfl : mid = next := congrArg Prod.snd (Option.some.inj h)
  exact moves

end Moves

theorem silent_called (env : ClusterEnv) (s : ClusterService) : Silent env s (s.called env) :=
  ⟨.refl s.db, rfl, .foldl (env.others s.calls) s.mempoolLedger,
    fun alone => called_of_alone alone s, Nat.le_succ _⟩

theorem silent_query (env : ClusterEnv) (read : Db → α) (s : ClusterService) :
    Silent env s (s.query env read).2 := silent_called env s

/-- A transaction that fails leaves nothing behind. -/
theorem silent_transact (env : ClusterEnv) {transaction : Db → Option (α × Db)}
    (commits : ∀ result db, transaction s.db = some (result, db) → Commits s.db db) :
    Silent env s (s.transact env transaction).2 := by
  rcases transact_cases env transaction s with failed | ⟨result, db, committed, done⟩
  · rw [failed]
    exact silent_called env s
  · rw [done]
    exact { silent_called env s with commits := commits result db committed }

theorem silent_findActiveIdsByTxids (env : ClusterEnv) (txids : List Txid) (s : ClusterService) :
    Silent env s (s.findActiveIdsByTxids env txids).2 := by
  unfold findActiveIdsByTxids
  split_ifs
  · exact .refl s
  · exact silent_query ..

theorem commits_insertSlices (fails : ℕ → Bool) (now : Txid → OffsetDateTime) (slice : ℕ)
    (batches : List (List NewCluster)) (db : Db) :
    Commits db (insertSlices fails now slice batches db).2 := by
  induction batches generalizing slice db with
  | nil => exact .refl db
  | cons batch batches ih =>
    rw [insertSlices]
    split_ifs
    · exact .refl db
    split
    case h_1 => exact .refl db
    case h_2 rows after inserted =>
      have first : Commits db after := .single (.insert now batch) id (by
        rw [ClusterTx.run, inserted]
        rfl)
      exact first.trans (ih (slice + 1) after)

theorem silent_insertSingletons (env : ClusterEnv) (queue : CandidateQueue) (s : ClusterService) :
    Silent env s (s.insertSingletons env queue).2 := by
  rw [insertSingletons_snd]
  unfold insertManyWithMembers
  split_ifs
  · exact .refl s
  · exact { silent_called env s with commits := commits_insertSlices .. }

theorem silent_markMerged (env : ClusterEnv) (ids : List ClusterId) (s : ClusterService) :
    Silent env s (s.markMerged env ids).2 := by
  unfold markMerged
  split_ifs
  · exact .refl s
  have closes : Silent env s (s.transact env fun db =>
      some (db.closeMany (env.now s.calls) ids .merged)).2 := by
    apply silent_transact
    intro result db committed
    cases committed
    exact .single (.close (env.now s.calls) ids .merged) ClusterClosing.noConfusion rfl
  split <;> rename_i transacted <;> rw [transacted] at closes <;> exact closes

theorem commits_insertWithMembers {now : Txid → OffsetDateTime} {new : NewCluster} {db after : Db}
    {cluster : Cluster} (h : db.insertWithMembers now new = some (cluster, after)) :
    Commits db after := by
  simp only [Db.insertWithMembers, Option.bind_eq_bind, Option.pure_def] at h
  obtain ⟨⟨rows, _⟩, inserted, h⟩ := Option.bind_eq_some_iff.mp h
  obtain ⟨first, -, h⟩ := Option.bind_eq_some_iff.mp h
  cases h
  exact .single (.insert now [new]) id (by rw [ClusterTx.run, inserted]; rfl)

theorem silent_upsert (env : ClusterEnv) (cluster : GetMempoolClusterModel)
    (existingIds : List ClusterId) (s : ClusterService) :
    Silent env s (s.upsert env cluster existingIds).2 := by
  unfold upsert
  split_ifs
  -- One transaction, committed or not, and nothing else.
  · have inserts : Silent env s (s.transact env fun db => db.insertWithMembers
        (env.call s.calls).now (newCluster (env.now s.calls) cluster)).2 :=
      silent_transact env fun _ _ committed => commits_insertWithMembers committed
    dsimp only
    split <;> rename_i transacted <;> rw [transacted] at inserts <;> exact inserts
  · have loads := silent_called env s
    rcases query_cases env (fun db => db.findByIds existingIds) s with failed | loaded
    -- Looked up, merged, rewritten: each transaction that fails ends the upsert where it is.
    · rw [failed]
      exact loads
    rw [loaded]
    dsimp only
    split
    case h_1 => exact loads
    case h_2 keep chosen =>
      have merges := loads.trans (silent_markMerged env (((s.db.findByIds existingIds).map
        Cluster.id).filter (· ≠ keep.id)) (s.called env))
      split
      case h_1 after merged =>
        rw [merged] at merges
        exact merges
      case h_2 marked after merged =>
        rw [merged] at merges
        have replaces : Silent env after (after.transact env fun db => db.replaceChunksIn
            (env.call after.calls).now ⟨keep.id, cluster.chunks⟩ true).2 := by
          apply silent_transact
          intro result db committed
          exact .single (.replaceChunks (env.call after.calls).now ⟨keep.id, cluster.chunks⟩)
            id (by rw [ClusterTx.run, committed]; rfl)
        have both := merges.trans replaces
        split <;> rename_i transacted <;> rw [transacted] at both <;> exact both

/-- Nobody is taken out of a ledger with nobody in it. -/
theorem assertAbsent_of_nobody {ledger : MempoolLedger} (call : Call) (nobody : ledger.live = ∅)
    (txids : List Txid) : ledger.assertAbsent call txids = ledger := by
  induction txids with
  | nil => rfl
  | cons txid txids ih =>
    rw [MempoolLedger.assertAbsent, List.foldl_cons, if_neg (by simp [nobody])]
    exact ih

theorem moves_assertAbsent (call : Call) (txids : List Txid) (s : ClusterService) :
    Moves env s { s with mempoolLedger := s.mempoolLedger.assertAbsent call txids } where
  commits := .refl s.db
  asked := List.prefix_rfl
  produced := .single (.assertAbsent call txids) s.mempoolLedger
  ledger _ nobody _ := assertAbsent_of_nobody call nobody txids
  calls := le_rfl

/-- Storing an answer touches the ledger only to assert the group present. -/
theorem silent_reportPresent (env : ClusterEnv) (cluster : GetMempoolClusterModel)
    (queue : CandidateQueue) (s : ClusterService) : Silent env { s with
      mempoolLedger := s.mempoolLedger.assertPresent (env.call s.calls) cluster.txids }
      (s.reportPresent env cluster queue).2 := by
  have finds := silent_findActiveIdsByTxids env cluster.txids { s with
    mempoolLedger := s.mempoolLedger.assertPresent (env.call s.calls) cluster.txids }
  unfold reportPresent
  dsimp only
  split <;> rename_i found <;> rw [found] at finds
  · exact finds
  · split_ifs
    · exact finds
    · exact finds.trans (silent_upsert ..)

theorem moves_askedFor (env : ClusterEnv) (txid : Txid) (s : ClusterService) :
    Moves env s (s.askedFor env txid) := by
  refine ⟨.refl s.db, ?_, (silent_called env s).produced,
    fun alone _ _ => called_of_alone alone s, Nat.le_succ _⟩
  rw [askedFor, answeredGroups_append]
  exact List.prefix_append ..

theorem moves_candidate (env : ClusterEnv) (txid : Txid) (queue : CandidateQueue)
    (s : ClusterService) : Moves env s (s.candidate env txid queue).2 := by
  unfold candidate
  split_ifs
  · exact .refl s
  have asks := moves_askedFor env txid s
  dsimp only
  -- An error, an absent transaction and a group each leave their own mark in the log.
  split
  case h_1 => exact asks
  case h_2 => exact asks.trans (moves_assertAbsent ..)
  case h_3 cluster answered =>
    split_ifs with empty
    · exact asks.trans (moves_assertAbsent ..)
    have reports := silent_reportPresent env cluster queue (s.askedFor env txid)
    have groups : answeredGroups (s.askedFor env txid).asked =
        answeredGroups s.asked ++ [cluster.txids] := by
      rw [askedFor, answered, answeredGroups_append, answeredGroup, if_neg empty]
      rfl
    have logged : answeredGroups ((s.askedFor env txid).reportPresent env cluster queue).2.asked =
        answeredGroups s.asked ++ [cluster.txids] :=
      (congrArg answeredGroups reports.asked).trans groups
    have present := MempoolLedger.Produced.single
      (.assertPresent (env.call (s.askedFor env txid).calls) cluster.txids)
      (s.askedFor env txid).mempoolLedger
    refine ⟨reports.commits, ?_, ?_, fun _ _ unanswered => ?_,
      (Nat.le_succ s.calls).trans reports.calls⟩
    · exact logged ▸ List.prefix_append ..
    · exact asks.produced.trans (present.trans reports.produced)
    · -- the group is in the log
      have empty := logged.symm.trans unanswered
      simp at empty

theorem moves_drain {queue last : CandidateQueue}
    (h : s.drain env fuel queue = some (last, next)) : Moves env s next := by
  induction fuel generalizing queue s with
  | zero => simp [drain] at h
  | succ fuel ih =>
    rw [drain] at h
    split at h
    case h_1 =>
      cases h
      exact .refl _
    case h_2 txid pending popped => exact (moves_candidate ..).trans (ih h)

theorem moves_handleCandidatesCovering {candidateTxids : List Txid} {outOfMempool : Finset Txid}
    (h : s.handleCandidatesCovering env fuel candidateTxids outOfMempool = some (changes, next)) :
    Moves env s next := by
  obtain ⟨⟨queue, drained⟩, drains, done⟩ := Option.map_eq_some_iff.mp h
  obtain rfl : (drained.insertSingletons env queue).2 = next := congrArg Prod.snd done
  exact (moves_drain drains).trans (silent_insertSingletons ..).moves

theorem silent_findActiveClustersContaining (env : ClusterEnv) (txids : List Txid)
    (s : ClusterService) : Silent env s (s.findActiveClustersContaining env txids).2 := by
  have found := silent_findActiveIdsByTxids env txids s
  unfold findActiveClustersContaining
  split <;> rename_i finds <;> rw [finds] at found
  · exact found
  · rename_i ids after
    split_ifs
    · exact found
    · have loads := found.trans (silent_query env (fun db => db.findByIds ids) after)
      split <;> rename_i loaded <;> rw [loaded] at loads <;> exact loads

theorem silent_confirmFull (env : ClusterEnv) (confirmedAt : OffsetDateTime)
    (full : List Cluster) (s : ClusterService) :
    Silent env s (s.confirmFull env confirmedAt full).2 := by
  unfold confirmFull
  dsimp only
  split_ifs
  · exact .refl s
  have confirms : Silent env s (s.transact env fun db =>
      some (db.confirmManyIn (env.now s.calls) (full.map Cluster.id) confirmedAt)).2 := by
    apply silent_transact
    intro result db committed
    cases committed
    exact .single (.confirm (env.now s.calls) (full.map Cluster.id) confirmedAt) id rfl
  split <;> rename_i transacted <;> rw [transacted] at confirms <;> exact confirms

theorem silent_trimAndConfirmMany (env : ClusterEnv) (updates : List ClusterVersionUpdate)
    (confirmedAt : OffsetDateTime) (s : ClusterService) :
    Silent env s (s.transact env fun db => db.trimAndConfirmMany (env.call s.calls).now
      (env.now s.calls) updates confirmedAt).2 := by
  apply silent_transact
  intro result db committed
  exact .single (.trimAndConfirm (env.call s.calls).now (env.now s.calls) updates confirmedAt) id
    (by rw [ClusterTx.run, committed]; rfl)

theorem moves_confirmPartial {block : MinedBlock} {partly : List Cluster}
    (h : s.confirmPartial env fuel block partly = some (changes, next)) : Moves env s next := by
  unfold confirmPartial at h
  split_ifs at h
  · exact (Moves.refl s).of_eq h
  have trims := silent_trimAndConfirmMany env ((partly.map fun cluster =>
    MinedTrim.new cluster block).map MinedTrim.asUpdate) block.confirmedAt s
  dsimp only at h
  split at h <;> rename_i transacted <;> rw [transacted] at trims
  · exact trims.moves.of_eq h
  · obtain ⟨⟨synced, last⟩, handled, done⟩ := Option.map_eq_some_iff.mp h
    cases done
    exact trims.moves.trans (moves_handleCandidatesCovering handled)

theorem moves_confirmMinedInner {block : MinedBlock}
    (h : s.confirmMinedInner env fuel block = some (changes, next)) : Moves env s next := by
  obtain ⟨⟨trimmed, last⟩, partly, done⟩ := Option.map_eq_some_iff.mp h
  cases done
  have found := silent_findActiveClustersContaining env block.txids s
  exact (found.trans (silent_confirmFull ..)).moves.trans (moves_confirmPartial partly)

theorem moves_confirmBlocks {blocks : List MinedBlock} {before : ClusterDeltaSet}
    (h : s.confirmBlocks env fuel blocks before = some (changes, next)) : Moves env s next := by
  induction blocks generalizing before s with
  | nil => exact (Moves.refl s).of_eq h
  | cons block blocks ih =>
    simp only [confirmBlocks, Option.bind_eq_bind] at h
    obtain ⟨⟨confirmed, mid⟩, inner, rest⟩ := Option.bind_eq_some_iff.mp h
    exact (moves_confirmMinedInner inner).trans (ih rest)

theorem moves_handleConfirmed {confirmedTxids : List Txid}
    (h : s.handleConfirmed env fuel confirmedTxids = some (changes, next)) : Moves env s next := by
  have found := silent_findActiveIdsByTxids env confirmedTxids s
  unfold handleConfirmed at h
  -- Three reads, none of which changes anything, and then the blocks in their order.
  split at h <;> rename_i after finds <;> rw [finds] at found
  · exact found.moves.of_eq h
  split_ifs at h
  · exact found.moves.of_eq h
  have loads := found.trans (silent_called env after)
  rcases query_cases env (fun db => db.findByIds _) after with failed | loaded
  · rw [failed] at h
    exact loads.moves.of_eq h
  rw [loaded] at h
  dsimp only at h
  have reads := loads.trans (silent_called env (after.called env))
  rcases query_cases env (fun db => db.findMinedByTxids _) (after.called env) with failed | mined
  · rw [failed] at h
    exact reads.moves.of_eq h
  · rw [mined] at h
    exact reads.moves.trans (moves_confirmBlocks h)

end ClusterService

end MempoolObserver
