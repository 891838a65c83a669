import MempoolObserver.Services.CandidateAnswers

/-!
# A round while the node's mempool does not change

The node's groups do not overlap, so what a round stores does not depend on the order in
which it asks: the node's groups that the candidates reach, through groups and through
the clusters stored before, beside the clusters that are not reached.

## Main definitions

* `NodePartition.Reach` — the transactions that the candidates reach

## Main results

* `candidates_synced` — what a round stores while the node's mempool does not change
-/

namespace MempoolObserver

open Relation Collections Regrouping Absorption

/-! ### A mempool that does not change -/

/-- The node's mempool, split into groups: the group of a txid, if the node has it. -/
structure NodePartition where
  group : Txid → Option GetMempoolClusterModel
  mem : ∀ {txid cluster}, group txid = some cluster → txid ∈ cluster.txids
  shared : ∀ {txid cluster}, group txid = some cluster → ∀ other ∈ cluster.txids,
    group other = some cluster

/-- Whatever is asked, the node answers from this partition. -/
def ClusterEnv.Fixed (env : ClusterEnv) (node : NodePartition) : Prop :=
  ∀ call txid, env.getMempoolCluster call txid =
    (node.group txid).elim .txNotFoundInMempool .cluster

namespace NodePartition

variable {node : NodePartition} {env : ClusterEnv} {db : Db} {candidateTxids : List Txid}

/-- What the candidates that the node has reach, through its groups and through the
active clusters stored before. -/
inductive Reach (node : NodePartition) (db : Db) (candidateTxids : List Txid) : Txid → Prop
  | candidate {txid} : txid ∈ candidateTxids → (node.group txid).isSome = true →
      Reach node db candidateTxids txid
  | group {txid cluster other} : Reach node db candidateTxids txid →
      node.group txid = some cluster → other ∈ cluster.txids → Reach node db candidateTxids other
  | cluster {txid other} : Reach node db candidateTxids txid → db.Together txid other →
      Reach node db candidateTxids other

theorem answer_eq (fixed : env.Fixed node) {call : ℕ} {txid : Txid}
    {cluster : GetMempoolClusterModel} :
    env.getMempoolCluster call txid = .cluster cluster ↔ node.group txid = some cluster := by
  rw [fixed call txid]
  cases node.group txid <;> simp

theorem truthful (fixed : env.Fixed node) : env.Truthful where
  answers call txid := by
    rw [fixed call txid]
    cases node.group txid <;> simp
  asked call txid cluster answered := node.mem ((answer_eq fixed).mp answered)
  shared call txid cluster answered other member :=
    (answer_eq fixed).mpr (node.shared ((answer_eq fixed).mp answered) other member)

/-- Groups that share a member are the same. -/
theorem eq_of_mem {txid other member : Txid} {cluster another : GetMempoolClusterModel}
    (first : node.group txid = some cluster) (second : node.group other = some another)
    (inFirst : member ∈ cluster.txids) (inSecond : member ∈ another.txids) : cluster = another :=
  Option.some.inj
    ((node.shared first member inFirst).symm.trans (node.shared second member inSecond))

theorem closed_reach (fixed : env.Fixed node) (s : ClusterService) (candidateTxids : List Txid) :
    ClusterService.Closed env s candidateTxids (Reach node s.db candidateTxids) where
  answer call txid cluster answered from_ other member := by
    have group := (answer_eq fixed).mp answered
    rcases from_ with candidate | reached
    · exact (Reach.candidate candidate (by rw [group]; rfl)).group group member
    · exact reached.group group member
  together txid other reached together := reached.cluster together

section Round

variable {s next : ClusterService} {groups : List GetMempoolClusterModel} {fuel : ℕ}
  {changes : ClusterDeltaSet}

/-- An answered group has the txid, or meets its cluster. -/
def Met (db : Db) (groups : List GetMempoolClusterModel) (txid : Txid) : Prop :=
  ∃ cluster ∈ groups, ∃ met ∈ cluster.txids, txid = met ∨ db.Together txid met

/-- Whoever is reached is answered about, or his cluster is met. -/
theorem Reach.met (fixed : env.Fixed node) (reliable : env.Reliable) (small : env.SmallAnswers)
    (inv : Db.StoreInv [] s.db)
    (h : s.handleCandidates env fuel candidateTxids = some (changes, next))
    (synced : ClusterService.Synced env (Reach node s.db candidateTxids) groups s next)
    {txid : Txid} (reached : Reach node s.db candidateTxids txid) :
    Met s.db groups txid ∧ ∀ cluster, node.group txid = some cluster → cluster ∈ groups := by
  obtain ⟨heard, asked, -, hears⟩ :=
    ClusterService.regroups_handleCandidates (truthful fixed) reliable small inv h
  obtain rfl : groups.map GetMempoolClusterModel.txids = heard :=
    List.append_cancel_left (synced.asked.symm.trans asked)
  -- a txid of the node that concerns the round is in an answered group, which is its own
  have answered {txid : Txid} {cluster : GetMempoolClusterModel}
      (group : node.group txid = some cluster) (concerned : ClusterService.Concerns s.db
        candidateTxids (groups.map GetMempoolClusterModel.txids) txid) : cluster ∈ groups := by
    obtain ⟨txids, listed, member⟩ := hears txid
      (fun call _ _ => ⟨cluster, (answer_eq fixed).mpr group⟩) concerned
    obtain ⟨other, inGroups, rfl⟩ := List.mem_map.mp listed
    obtain ⟨call, asker, replied⟩ := synced.answered other inGroups
    rw [eq_of_mem group ((answer_eq fixed).mp replied) (node.mem group) member]
    exact inGroups
  have ofMet {txid : Txid} (met : Met s.db groups txid) {cluster : GetMempoolClusterModel}
      (group : node.group txid = some cluster) : cluster ∈ groups := by
    apply answered group
    obtain ⟨other, inGroups, member, inOther, rfl | together⟩ := met
    · exact .inr (.inl ⟨_, List.mem_map_of_mem inGroups, inOther⟩)
    · exact .inr (.inr ⟨_, List.mem_map_of_mem inGroups, member, inOther, together⟩)
  induction reached with
  | candidate candidate present =>
    obtain ⟨cluster, group⟩ := Option.isSome_iff_exists.mp present
    have inGroups := answered group (.inl candidate)
    refine ⟨⟨cluster, inGroups, _, node.mem group, .inl rfl⟩, ?_⟩
    intro other same
    obtain rfl : cluster = other := Option.some.inj (group.symm.trans same)
    exact inGroups
  | group reached group member ih =>
    have inGroups := ih.2 _ group
    have met : Met s.db groups _ := ⟨_, inGroups, _, member, .inl rfl⟩
    exact ⟨met, fun cluster => ofMet met⟩
  | @cluster txid other reached together ih =>
    obtain ⟨cluster, inGroups, member, inCluster, met⟩ := ih.1
    have withMember : s.db.Together other member := by
      rcases met with rfl | further
      · exact together.symm
      · exact inv.together_trans together.symm further
    have met : Met s.db groups other := ⟨cluster, inGroups, member, inCluster, .inr withMember⟩
    exact ⟨met, fun cluster => ofMet met⟩

/-- What a round leaves of the store while the node's mempool does not change. -/
structure CandidatesSynced (node : NodePartition) (candidateTxids : List Txid)
    (s next : ClusterService) : Prop where
  /-- A transaction the node has is in one active cluster, which is its group. -/
  present : ∀ txid cluster, Reach node s.db candidateTxids txid → node.group txid = some cluster →
    (∃! id, next.db.IsActive id ∧ txid ∈ next.db.members id) ∧
      ∀ id, next.db.IsActive id → txid ∈ next.db.members id →
        next.db.ActiveChunks id cluster.chunks
  absent : ∀ txid, Reach node s.db candidateTxids txid → node.group txid = none →
    ∀ id, next.db.IsActive id → txid ∉ next.db.members id
  untouched : ∀ id, s.db.IsActive id →
    (∀ txid ∈ s.db.members id, ¬ Reach node s.db candidateTxids txid) → s.db.SameAt next.db id
  /-- Closed clusters are those closed before and those merged by the round. -/
  closed : ∀ id row, s.db.clusters id = some row → row.status ≠ .active → s.db.SameAt next.db id
  merged : ∀ id row, next.db.clusters id = some row → row.status ≠ .active →
    row.status = .merged ∨ s.db.clusters id = some row
  active : ∀ chunks, (∃ id, next.db.ActiveChunks id chunks) ↔
    (∃ txid cluster, Reach node s.db candidateTxids txid ∧ node.group txid = some cluster ∧
        chunks = cluster.chunks) ∨
      ∃ id, s.db.ActiveChunks id chunks ∧
        ∀ txid ∈ s.db.members id, ¬ Reach node s.db candidateTxids txid

/-- No answered group meets a cluster iff none of its members is reached. -/
theorem unmet_iff (fixed : env.Fixed node) (reliable : env.Reliable) (small : env.SmallAnswers)
    (inv : Db.StoreInv [] s.db)
    (h : s.handleCandidates env fuel candidateTxids = some (changes, next))
    (synced : ClusterService.Synced env (Reach node s.db candidateTxids) groups s next)
    {id : ClusterId} {chunks : List ClusterChunk} (active : s.db.ActiveChunks id chunks) :
    (∀ cluster ∈ groups, Disjoint (chunkMembers chunks) (chunkMembers cluster.chunks)) ↔
      ∀ txid ∈ s.db.members id, ¬ Reach node s.db candidateTxids txid := by
  -- A reached member would put a group of the round in the way of the cluster.
  constructor
  · intro unmet txid member reached
    obtain ⟨⟨cluster, inGroups, met, inCluster, same⟩, -⟩ :=
      reached.met fixed reliable small inv h synced
    have inMembers : met ∈ s.db.members id := by
      rcases same with rfl | ⟨other, otherActive, inFirst, inSecond⟩
      · exact member
      · obtain rfl := inv.unique active.isActive otherActive txid member inFirst
        exact inSecond
    have inChunks := (inv.toVersioned.mem_chunkMembers active).mpr inMembers
    exact Set.disjoint_left.mp (unmet cluster inGroups) inChunks inCluster
  · intro unreached cluster inGroups
    apply Set.disjoint_left.mpr
    intro txid inChunks inCluster
    apply unreached txid ((inv.toVersioned.mem_chunkMembers active).mp inChunks)
    exact synced.allReached cluster inGroups txid inCluster

theorem candidatesSynced (fixed : env.Fixed node) (reliable : env.Reliable)
    (small : env.SmallAnswers) (inv : Db.StoreInv [] s.db)
    (h : s.handleCandidates env fuel candidateTxids = some (changes, next)) :
    CandidatesSynced node candidateTxids s next := by
  obtain ⟨groups, synced⟩ := ClusterService.synced_handleCandidates reliable small inv
    (closed_reach fixed s candidateTxids) h
  have nextInv := (ClusterService.keeps_handleCandidatesCovering small inv h).inv
  have groupOf {cluster : GetMempoolClusterModel} (member : cluster ∈ groups) {txid : Txid}
      (inCluster : txid ∈ cluster.txids) : node.group txid = some cluster := by
    obtain ⟨call, asker, answered⟩ := synced.answered cluster member
    exact node.shared ((answer_eq fixed).mp answered) txid inCluster
  -- Two groups answered in the round are equal or share no transaction, since the node is fixed.
  have stored := synced.stored (by
    intro cluster member other inOthers
    by_cases overlap : ∃ txid ∈ cluster.txids, txid ∈ other.txids
    · obtain ⟨txid, inFirst, inSecond⟩ := overlap
      exact .inl (eq_of_mem (groupOf member inFirst) (groupOf inOthers inSecond) inFirst inSecond)
    · refine .inr (Set.disjoint_left.mpr ?_)
      exact fun txid inFirst inSecond => overlap ⟨txid, inFirst, inSecond⟩)
  have unmet {id : ClusterId} {chunks : List ClusterChunk} (active : s.db.ActiveChunks id chunks) :=
    unmet_iff fixed reliable small inv h synced active
  -- Reached and present, reached and absent, unreached, ended, and the clusters there are in the
  -- end.
  constructor
  · intro txid cluster reached group
    have member := (reached.met fixed reliable small inv h synced).2 cluster group
    have inCluster := node.mem group
    obtain ⟨id, active⟩ := stored cluster member
    have inMembers := (nextInv.toVersioned.mem_chunkMembers active).mp inCluster
    refine ⟨⟨id, ⟨active.isActive, inMembers⟩, ?_⟩, ?_⟩
    · rintro other ⟨otherActive, inOther⟩
      exact nextInv.unique otherActive active.isActive txid inOther inMembers
    · intro other otherActive inOther
      obtain rfl := nextInv.unique otherActive active.isActive txid inOther inMembers
      exact active
  · intro txid reached none id active member
    obtain ⟨chunks, isActive⟩ := active.exists_chunks
    have inChunks := (nextInv.toVersioned.mem_chunkMembers isActive).mpr member
    -- A cluster of the round is a group of the node, and an older one that stays is unreached.
    rcases synced.origin isActive with ⟨cluster, inGroups, rfl⟩ | ⟨before, disjoint⟩
    · simp [groupOf inGroups inChunks] at none
    · exact (unmet before).mp disjoint txid ((inv.toVersioned.mem_chunkMembers before).mp inChunks)
        reached
  · intro id active unreached
    obtain ⟨chunks, isActive⟩ := active.exists_chunks
    apply synced.fates.untouched isActive
    intro group member
    obtain ⟨cluster, inGroups, rfl⟩ := List.mem_map.mp member
    exact (unmet isActive).mpr unreached cluster inGroups
  · intro id row present inactive
    exact synced.fates.closed present inactive
  · intro id row present inactive
    exact synced.fates.ended present inactive
  · intro chunks
    constructor
    · rintro ⟨id, active⟩
      rcases synced.origin active with ⟨cluster, inGroups, rfl⟩ | ⟨before, disjoint⟩
      · obtain ⟨call, asker, answered⟩ := synced.answered cluster inGroups
        have inCluster := node.mem ((answer_eq fixed).mp answered)
        exact .inl ⟨asker, cluster, synced.allReached cluster inGroups asker inCluster,
          (answer_eq fixed).mp answered, rfl⟩
      · exact .inr ⟨id, before, (unmet before).mp disjoint⟩
    · rintro (⟨txid, cluster, reached, group, rfl⟩ | ⟨id, active, unreached⟩)
      · exact stored cluster ((reached.met fixed reliable small inv h synced).2 cluster group)
      · refine ⟨id, (synced.fates.untouched active ?_).activeChunks.mpr active⟩
        intro group member
        obtain ⟨cluster, inGroups, rfl⟩ := List.mem_map.mp member
        exact (unmet active).mpr unreached cluster inGroups

/-- Only which txids are candidates matters to whom they reach. -/
theorem Reach.congr {others : List Txid} (subset : candidateTxids ⊆ others) {txid : Txid}
    (reached : Reach node db candidateTxids txid) : Reach node db others txid := by
  induction reached with
  | candidate candidate present => exact .candidate (subset candidate) present
  | group _ group member ih => exact ih.group group member
  | cluster _ together ih => exact ih.cluster together

end Round

end NodePartition

/-- While the node's mempool does not change and no call fails, a round ends, and what it
leaves is what its candidates reach, as the node groups it, beside what they do not; it
depends on the candidates' order and repetition no more than the groups do. -/
theorem candidates_synced {first s : ClusterService} {env : ClusterEnv} {node : NodePartition}
    (empty : first.db = Db.empty) (run : ReflTransGen ClusterStep first s)
    (fixed : env.Fixed node) (reliable : env.Reliable) (small : env.SmallAnswers)
    (candidateTxids : List Txid) :
    (∃ fuel changes next, s.handleCandidates env fuel candidateTxids = some (changes, next)) ∧
      ∀ fuel changes next, s.handleCandidates env fuel candidateTxids = some (changes, next) →
        NodePartition.CandidatesSynced node candidateTxids s next ∧
          ∀ other otherFuel others otherChanges otherNext, other.Fixed node → other.Reliable →
            other.SmallAnswers → (∀ txid, txid ∈ others ↔ txid ∈ candidateTxids) →
            s.handleCandidates other otherFuel others = some (otherChanges, otherNext) →
            ∀ chunks, (∃ id, otherNext.db.ActiveChunks id chunks) ↔
              ∃ id, next.db.ActiveChunks id chunks := by
  have inv := (ClusterStep.run_keeps run (empty ▸ Db.storeInv_empty)).1
  constructor
  · have answers : env.AnswersAsked := fun call txid cluster answered _ =>
      (NodePartition.truthful fixed).asked call txid cluster answered
    obtain ⟨⟨changes, next⟩, ⟨enough, returns⟩, -⟩ :=
      ClusterService.settles_handleCandidatesCovering answers inv.liveInStep candidateTxids ∅
    exact ⟨enough, changes, next, returns enough le_rfl⟩
  · intro fuel changes next handled
    have synced := NodePartition.candidatesSynced fixed reliable small inv handled
    refine ⟨synced, ?_⟩
    intro other otherFuel others otherChanges otherNext otherFixed otherReliable otherSmall same
      otherHandled chunks
    have otherSynced := NodePartition.candidatesSynced otherFixed otherReliable otherSmall inv
      otherHandled
    have reach (txid : Txid) : NodePartition.Reach node s.db others txid ↔
        NodePartition.Reach node s.db candidateTxids txid :=
      ⟨.congr fun txid => (same txid).mp, .congr fun txid => (same txid).mpr⟩
    rw [otherSynced.active, synced.active]
    simp only [reach]

/-- A mempool of one pair. -/
def pairPartition : NodePartition where
  group txid := if txid ∈ ["a", "b"] then some ⟨[⟨["a", "b"], 30, 400⟩]⟩ else none
  mem {txid cluster} group := by
    split_ifs at group with member
    obtain rfl := Option.some.inj group
    exact member
  shared {txid cluster} group other inCluster := by
    split_ifs at group with member
    obtain rfl := Option.some.inj group
    exact if_pos inCluster

/-- The node that has this mempool. -/
def pairPartitionEnv : ClusterEnv where
  getMempoolCluster _ txid := (pairPartition.group txid).elim .txNotFoundInMempool .cluster
  fails _ _ := false
  now call := call
  call _ := ⟨fun _ => 0, .sorted Txid⟩

theorem pair_candidates_synced : ∃ fuel changes next,
    ClusterService.initial.handleCandidates pairPartitionEnv fuel ["b", "z", "a", "b"] =
        some (changes, next) ∧
      NodePartition.CandidatesSynced pairPartition ["b", "z", "a", "b"] .initial next := by
  have fixed : pairPartitionEnv.Fixed pairPartition := fun _ _ => rfl
  have small : pairPartitionEnv.SmallAnswers := by
    intro call txid cluster answered
    have group := (NodePartition.answer_eq fixed).mp answered
    simp only [pairPartition] at group
    split_ifs at group
    obtain rfl := Option.some.inj group
    simp [maxChunks]
  obtain ⟨⟨fuel, changes, next, handled⟩, synced⟩ := candidates_synced
    (show ClusterService.initial.db = Db.empty from rfl) .refl fixed (fun _ _ => rfl) small
    ["b", "z", "a", "b"]
  exact ⟨fuel, changes, next, handled, (synced fuel changes next handled).1⟩

end MempoolObserver
