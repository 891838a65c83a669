import MempoolObserver.Services.CandidateSync
import MempoolObserver.Services.LateConfirmation

/-!
# The clusters of a late confirmation

What a flush that confirms blocks late leaves of the clusters it looked up, while the
node answers from one mempool that has none of the mined transactions. Whatever is
active afterwards was active before, with nobody the blocks mined, or is a group of
the node. So nobody mined is left in an active cluster of those looked up, and a second
run finds nothing to do.

A cluster is split by the lowest block that mined a member of it, unless the node's
groups join what is left of a cluster split before with it: then the re-sync takes it
over, and its mined members stay in its past versions only.

## Main definitions

* `ClusterService.lookedUp` — the clusters of the txids a flush confirms
* `ClusterService.LateConfirmation` — what the flush leaves

## Main results

* `activeChunks_of_confirmBlocks` — where an active cluster comes from
* `late_confirmation` — the flush does what the blocks would have done
-/

namespace MempoolObserver

open Relation Collections

namespace Db

variable {db next : Db} {id : ClusterId} {chunks : List ClusterChunk} {cluster : Cluster}

theorem activeChunks_of_loaded (found : db.loaded id = some cluster)
    (active : cluster.status = .active) :
    db.ActiveChunks id cluster.chunks := by
  obtain ⟨row, stored, rfl⟩ := Option.map_eq_some_iff.mp found
  exact ⟨row, stored, active, rfl⟩

theorem ActiveChunks.loaded (active : db.ActiveChunks id chunks) :
    ∃ cluster, db.loaded id = some cluster ∧ cluster.id = id ∧ cluster.status = .active ∧
      cluster.chunks = chunks := by
  obtain ⟨row, stored, isActive, rfl⟩ := active
  exact ⟨_, by rw [Db.loaded, stored]; rfl, rfl, isActive, rfl⟩

theorem ActiveChunks.chunks_eq (active : db.ActiveChunks id chunks)
    (found : db.loaded id = some cluster) : cluster.chunks = chunks := by
  obtain ⟨row, stored, -, rfl⟩ := active
  obtain ⟨other, stored', rfl⟩ := Option.map_eq_some_iff.mp found
  obtain rfl : row = other := Option.some.inj (stored.symm.trans stored')
  rfl

theorem SameAt.loaded (same : SameAt db next id) : next.loaded id = db.loaded id :=
  loaded_congr same.1 same.2

/-- The active clusters of the txids, in id order. -/
def lookedUp (confirmedTxids : List Txid) (db : Db) : List Cluster :=
  db.findByIds (db.findActiveIdsByTxids confirmedTxids)

/-- The members of the clusters looked up. -/
def lookedUpMembers (confirmedTxids : List Txid) (db : Db) : List Txid :=
  (db.lookedUp confirmedTxids).flatMap Cluster.txids

/-- The members of the clusters looked up that one of the blocks mined something of. -/
def cutOff (confirmedTxids : List Txid) (blocks : List GetBlockModel) (db : Db) : List Txid :=
  ((db.lookedUp confirmedTxids).filter fun cluster =>
    ∃ txid ∈ cluster.txids, ∃ block ∈ blocks, txid ∈ block.txids).flatMap Cluster.txids

end Db

namespace ClusterService

open NodePartition

variable {env : ClusterEnv} {node : NodePartition} {s mid next : ClusterService} {fuel : ℕ}
  {changes before : ClusterDeltaSet} {block : MinedBlock} {blocks : List MinedBlock}
  {hit : List Cluster}
  {id : ClusterId} {chunks : List ClusterChunk}

/-! ### One block -/

theorem BlockSplit.split_of_mem (split : BlockSplit env fuel block hit s mid next)
    {cluster : Cluster}
    (member : cluster ∈ hit) :
    ∃ after, next.db.loaded cluster.id = some after ∧ MinedSplit block cluster after := by
  obtain ⟨afters, splits, -⟩ := split.split
  clear split
  induction splits with
  | nil => cases member
  | cons head _ ih =>
    rcases List.mem_cons.mp member with rfl | later
    · exact ⟨_, head⟩
    · exact ih later

/-- A group of the node, as chunks. -/
def IsGroup (node : NodePartition) (chunks : List ClusterChunk) : Prop :=
  ∃ txid cluster, node.group txid = some cluster ∧ chunks = cluster.chunks

/-- Whom txids reach later they reached before, while active clusters are those of before or
groups of the node. -/
theorem reach_mono {db start : Db} {candidates cutOff : List Txid} {txid : Txid}
    (inv : db.Versioned)
    (startInv : start.Versioned)
    (origin : ∀ {id chunks}, db.ActiveChunks id chunks →
      start.ActiveChunks id chunks ∨ IsGroup node chunks)
    (subset : ∀ txid ∈ candidates, txid ∈ cutOff) (reached : Reach node db candidates txid) :
    Reach node start cutOff txid := by
  -- Induction on how the transaction is reached: each hop over a cluster is a hop from start on.
  induction reached with
  | candidate candidate present => exact .candidate (subset _ candidate) present
  | group _ group member ih => exact ih.group group member
  | cluster _ together ih =>
    obtain ⟨id, isActive, first, second⟩ := together
    obtain ⟨chunks, active⟩ := isActive.exists_chunks
    have inFirst := (inv.mem_chunkMembers active).mpr first
    have inSecond := (inv.mem_chunkMembers active).mpr second
    rcases origin active with before | ⟨asker, cluster, group, rfl⟩
    · exact ih.cluster ⟨id, before.isActive, (startInv.mem_chunkMembers before).mp inFirst,
        (startInv.mem_chunkMembers before).mp inSecond⟩
    · exact ih.group (node.shared group _ inFirst) inSecond

/-- What is active when the re-sync starts, the block does not meet. -/
theorem BlockSplit.activeChunks_mid (fixed : env.Fixed node) (reliable : env.Reliable)
    (small : env.SmallAnswers) (midInv : Db.StoreInv [] mid.db)
    (split : BlockSplit env fuel block hit s mid next) (active : mid.db.ActiveChunks id chunks) :
    s.db.ActiveChunks id chunks ∧ ∀ txid ∈ chunkMembers chunks, txid ∉ block.txids := by
  have apart : id ∉ hit.map Cluster.id := by
    intro listed
    obtain ⟨cluster, member, rfl⟩ := List.mem_map.mp listed
    obtain ⟨after, found, done⟩ := split.split_of_mem member
    obtain ⟨row, stored, rfl⟩ := Option.map_eq_some_iff.mp found
    have confirmed : row.status = .confirmed := done.status
    obtain ⟨old, before, isActive, -⟩ := active
    -- the re-sync closes clusters as merged only
    have same : mid.db.clusters cluster.id = some row := by
      rcases split.resync with ⟨-, rfl⟩ | ⟨synced, handled⟩
      · exact stored
      · obtain ⟨groups, after⟩ := synced_handleCandidates reliable small midInv
          (closed_reach fixed mid _) handled
        have inactive : row.status ≠ .active := by
          rw [confirmed]
          exact ClusterStatus.noConfusion
        refine (after.fates.ended stored inactive).resolve_left ?_
        rw [confirmed]
        exact ClusterStatus.noConfusion
    obtain rfl : old = row := Option.some.inj (before.symm.trans same)
    rw [confirmed] at isActive
    cases isActive
  have before : s.db.ActiveChunks id chunks :=
    (Db.SameAt.activeChunks (split.others id apart)).mp active
  refine ⟨before, fun txid member mined => apart ?_⟩
  obtain ⟨cluster, found, rfl, isActive, rfl⟩ := before.loaded
  exact List.mem_map_of_mem ((split.mem_hit cluster).mpr ⟨found, isActive, txid, member, mined⟩)

/-- What is active after a block was active before, with nobody it mined, or is a group of the
node. -/
theorem activeChunks_of_confirmMinedInner (fixed : env.Fixed node) (reliable : env.Reliable)
    (small : env.SmallAnswers) (inv : Db.StoreInv [] s.db)
    (h : s.confirmMinedInner env fuel block = some (changes, next))
    (active : next.db.ActiveChunks id chunks) :
    (s.db.ActiveChunks id chunks ∧ ∀ txid ∈ chunkMembers chunks, txid ∉ block.txids) ∨
      IsGroup node chunks := by
  obtain ⟨mid, split, midInv⟩ := confirmMinedInner_splits reliable inv h
  rcases split.resync with ⟨-, rfl⟩ | ⟨synced, handled⟩
  · exact .inl (split.activeChunks_mid fixed reliable small midInv active)
  · obtain ⟨groups, after⟩ := synced_handleCandidates reliable small midInv
      (closed_reach fixed mid _) handled
    rcases after.origin active with ⟨cluster, member, rfl⟩ | ⟨before, -⟩
    · obtain ⟨call, txid, answered⟩ := after.answered cluster member
      exact .inr ⟨txid, cluster, (answer_eq fixed).mp answered, rfl⟩
    · exact .inl (split.activeChunks_mid fixed reliable small midInv before)

/-- A cluster that the block does not meet, and whom nobody asked about reaches, stays. -/
theorem sameAt_confirmMinedInner (fixed : env.Fixed node) (reliable : env.Reliable)
    (small : env.SmallAnswers) (inv : Db.StoreInv [] s.db)
    (h : s.confirmMinedInner env fuel block = some (changes, next))
    (active : s.db.ActiveChunks id chunks)
    (unmined : ∀ txid ∈ chunkMembers chunks, txid ∉ block.txids)
    (unreached : ∀ txid ∈ chunkMembers chunks,
      ¬ Reach node s.db (stillPending block (s.minedClusters block)) txid) :
    s.db.SameAt next.db id := by
  obtain ⟨mid, split, midInv⟩ := confirmMinedInner_splits reliable inv h
  have apart : id ∉ (s.minedClusters block).map Cluster.id := by
    intro listed
    obtain ⟨cluster, member, rfl⟩ := List.mem_map.mp listed
    obtain ⟨found, -, txid, inCluster, mined⟩ := (split.mem_hit cluster).mp member
    exact unmined txid (active.chunks_eq found ▸ inCluster) mined
  have toMid : s.db.SameAt mid.db id := split.others id apart
  -- What remains pending of the split clusters is resynced, and reaches no txid of this cluster.
  rcases split.resync with ⟨-, rfl⟩ | ⟨synced, handled⟩
  · exact toMid
  refine toMid.trans ((candidatesSynced fixed reliable small midInv handled).untouched id ?_ ?_)
  · exact (toMid.activeChunks.mpr active).isActive
  · intro txid member reached
    have inChunks :=
      (midInv.toVersioned.mem_chunkMembers (toMid.activeChunks.mpr active)).mpr member
    refine unreached txid inChunks (reach_mono midInv.toVersioned inv.toVersioned ?_
      (fun _ member => member) reached)
    exact fun isChunks => .inl (split.activeChunks_mid fixed reliable small midInv isChunks).1

/-! ### One block after the other -/

theorem activeChunks_of_confirmBlocks (fixed : env.Fixed node) (reliable : env.Reliable)
    (small : env.SmallAnswers) (inv : Db.StoreInv [] s.db)
    (h : s.confirmBlocks env fuel blocks before = some (changes, next))
    (active : next.db.ActiveChunks id chunks) :
    (s.db.ActiveChunks id chunks ∧ ∀ block ∈ blocks, ∀ txid ∈ chunkMembers chunks,
      txid ∉ block.txids) ∨ IsGroup node chunks := by
  -- Induction over the blocks: a cluster active at the end was missed by each of them.
  induction blocks generalizing s before with
  | nil =>
    cases h
    exact .inl ⟨active, by simp⟩
  | cons block blocks ih =>
    simp only [confirmBlocks, Option.bind_eq_bind] at h
    obtain ⟨⟨confirmed, mid⟩, inner, rest⟩ := Option.bind_eq_some_iff.mp h
    rcases ih (keeps_confirmMinedInner small inv inner).inv rest with ⟨half, later⟩ | group
    · rcases activeChunks_of_confirmMinedInner fixed reliable small inv inner half with
        ⟨start, first⟩ | group
      · exact .inl ⟨start, List.forall_mem_cons.mpr ⟨first, later⟩⟩
      · exact .inr group
    · exact .inr group

/-- A cluster that no block meets, and whom nobody cut off meanwhile reaches, stays. -/
theorem sameAt_confirmBlocks {start : ClusterService} {cutOff : List Txid} (fixed : env.Fixed node)
    (reliable : env.Reliable) (small : env.SmallAnswers) (startInv : Db.StoreInv [] start.db)
    (inv : Db.StoreInv [] s.db)
    (origin : ∀ {id chunks}, s.db.ActiveChunks id chunks →
      start.db.ActiveChunks id chunks ∨ IsGroup node chunks)
    (absent : ∀ block ∈ blocks, ∀ txid ∈ block.txids, node.group txid = none)
    (covers : ∀ {id chunks}, start.db.ActiveChunks id chunks →
      (∃ block ∈ blocks, ∃ txid ∈ chunkMembers chunks, txid ∈ block.txids) →
      ∀ txid ∈ chunkMembers chunks, txid ∈ cutOff)
    (h : s.confirmBlocks env fuel blocks before = some (changes, next))
    (active : s.db.ActiveChunks id chunks)
    (unmined : ∀ block ∈ blocks, ∀ txid ∈ chunkMembers chunks, txid ∉ block.txids)
    (unreached : ∀ txid ∈ chunkMembers chunks, ¬ Reach node start.db cutOff txid) :
    s.db.SameAt next.db id := by
  induction blocks generalizing s before with
  | nil =>
    cases h
    exact ⟨rfl, rfl⟩
  | cons block blocks ih =>
    simp only [confirmBlocks, Option.bind_eq_bind] at h
    obtain ⟨⟨confirmed, mid⟩, inner, rest⟩ := Option.bind_eq_some_iff.mp h
    have pending : ∀ txid ∈ stillPending block (s.minedClusters block), txid ∈ cutOff := by
      intro txid left
      obtain ⟨cluster, hit, inCluster⟩ := List.mem_flatMap.mp (List.mem_of_mem_filter left)
      obtain ⟨found, isActive, one, inHit, mined⟩ := (mem_minedClusters inv).mp hit
      rcases origin (Db.activeChunks_of_loaded found isActive) with
        before | ⟨asker, group, known, same⟩
      · exact covers before ⟨block, List.mem_cons_self, one, inHit, mined⟩ txid inCluster
      · have inGroup : one ∈ group.txids := by
          rw [Cluster.txids, same] at inHit
          exact inHit
        have here := node.shared known one inGroup
        rw [absent block List.mem_cons_self one mined] at here
        cases here
    have first : s.db.SameAt mid.db id := by
      refine sameAt_confirmMinedInner fixed reliable small inv inner active
        (unmined block List.mem_cons_self) fun txid member reached => ?_
      exact unreached txid member
        (reach_mono inv.toVersioned startInv.toVersioned origin pending reached)
    refine first.trans (ih (keeps_confirmMinedInner small inv inner).inv ?_ ?_ ?_ rest
      (first.activeChunks.mpr active) ?_)
    · intro id chunks active
      rcases activeChunks_of_confirmMinedInner fixed reliable small inv inner active with
        ⟨before, -⟩ | group
      · exact origin before
      · exact .inr group
    · exact fun other later => absent other (List.mem_cons_of_mem _ later)
    · rintro id chunks active ⟨other, later, met⟩
      exact covers active ⟨other, List.mem_cons_of_mem _ later, met⟩
    · exact fun other later => unmined other (List.mem_cons_of_mem _ later)

theorem confirmBlocks_append (first second : List MinedBlock) (before : ClusterDeltaSet) :
    s.confirmBlocks env fuel (first ++ second) before =
      (s.confirmBlocks env fuel first before).bind fun result =>
        result.2.confirmBlocks env fuel second result.1 := by
  induction first generalizing s before with
  | nil => rfl
  | cons block first ih =>
    rw [List.cons_append, confirmBlocks, confirmBlocks, Option.bind_eq_bind, Option.bind_assoc]
    apply Option.bind_congr
    rintro ⟨confirmed, mid⟩ -
    exact ih _

/-! ### What a flush looks up -/

theorem mem_lookedUp (inv : Db.StoreInv [] s.db) {confirmedTxids : List Txid} {cluster : Cluster} :
    cluster ∈ s.db.lookedUp confirmedTxids ↔ s.db.loaded cluster.id = some cluster ∧
      cluster.status = .active ∧ ∃ txid ∈ cluster.txids, txid ∈ confirmedTxids :=
  @mem_minedClusters _ ⟨confirmedTxids, fun _ => none, fun _ => none, 0⟩ inv _

/-- With no failing call, the flush confirms the blocks that the rows of the members make up. -/
theorem handleConfirmed_of_reliable (reliable : env.Reliable) (inv : Db.StoreInv [] s.db)
    (confirmedTxids : List Txid) :
    ∃ reads : ClusterService, reads.db = s.db ∧ reads.snapshot = s.snapshot ∧
      ∀ fuel, s.handleConfirmed env fuel confirmedTxids = reads.confirmBlocks env fuel
        (MinedBlock.byBlock (s.db.findMinedByTxids (s.db.lookedUpMembers confirmedTxids)))
          .default := by
  have nobody (empty : s.db.findActiveIdsByTxids confirmedTxids = []) :
      MinedBlock.byBlock (s.db.findMinedByTxids (s.db.lookedUpMembers confirmedTxids)) = [] := by
    rw [Db.lookedUpMembers, Db.lookedUp, empty, findByIds_nil inv.toVersioned]
    rfl
  unfold handleConfirmed findActiveIdsByTxids
  by_cases noTxids : confirmedTxids = []
  · have empty : s.db.findActiveIdsByTxids confirmedTxids = [] := by
      apply List.eq_nil_iff_forall_not_mem.mpr
      intro id member
      simpa [noTxids] using (inv.mem_findActiveIdsByTxids.mp member).2
    refine ⟨s, rfl, rfl, fun fuel => ?_⟩
    rw [if_pos noTxids, nobody empty]
    rfl
  rw [if_neg noTxids, query_of_reliable reliable]
  -- The source returns early twice; both times the run over the blocks would be empty.
  by_cases empty : s.db.findActiveIdsByTxids confirmedTxids = []
  · refine ⟨s.called env, rfl, rfl, fun fuel => ?_⟩
    rw [nobody empty]
    exact if_pos empty
  · refine ⟨((s.called env).called env).called env, rfl, rfl, fun fuel => ?_⟩
    dsimp only
    rw [if_neg empty, query_of_reliable reliable]
    dsimp only
    rw [query_of_reliable reliable]
    rfl

/-- Late is as on time: the rows make up the blocks, in whatever order they come. -/
theorem confirmBlocks_byBlock (reliable : env.Reliable) (small : env.SmallAnswers)
    (inv : Db.StoreInv [] s.db) {blocks : List GetBlockModel} (late : s.db.LateBlocks blocks)
    {members : List Txid} (clustered : ∀ txid ∈ members, s.db.Clustered txid)
    {rows : List (Txid × Transaction × Int × OffsetDateTime)}
    (perm : rows.Perm (s.db.findMinedByTxids members)) (before : ClusterDeltaSet) :
    s.confirmBlocks env fuel (MinedBlock.byBlock rows) before =
      s.confirmBlocks env fuel (blocks.map fun block => block.mined.restrict members) before := by
  rw [← confirmBlocks_filter (blocks.map fun block => block.mined.restrict members)]
  exact confirmBlocks_congr reliable small inv
    (MinedBlock.same_byBlock late clustered fun row => perm.mem_iff) before

theorem clustered_lookedUpMembers (inv : Db.StoreInv [] s.db) {confirmedTxids : List Txid}
    {txid : Txid}
    (member : txid ∈ s.db.lookedUpMembers confirmedTxids) : s.db.Clustered txid := by
  obtain ⟨cluster, found, inCluster⟩ := List.mem_flatMap.mp member
  obtain ⟨loaded, isActive, -⟩ := (mem_lookedUp inv).mp found
  have active := Db.activeChunks_of_loaded loaded isActive
  exact ⟨cluster.id, active.isActive, (inv.toVersioned.mem_chunkMembers active).mp inCluster⟩

/-! ### What a flush leaves -/

/-- What the flush leaves of the clusters it looked up, and of the store. -/
structure LateConfirmation (env : ClusterEnv) (node : NodePartition) (blocks : List GetBlockModel)
    (confirmedTxids : List Txid) (db : Db) (next : ClusterService) : Prop where
  /-- A cluster is split by the lowest block that mined a member, unless what lower blocks left
  of other clusters reaches it. -/
  split : ∀ cluster ∈ db.lookedUp confirmedTxids, ∀ lower block higher,
    blocks = lower ++ block :: higher → (∃ txid ∈ cluster.txids, txid ∈ block.txids) →
    (∀ txid ∈ cluster.txids, ∀ earlier ∈ lower, txid ∉ earlier.txids) →
    (∀ txid ∈ cluster.txids, ¬ Reach node db (db.cutOff confirmedTxids lower) txid) →
    ∃ after, next.db.loaded cluster.id = some after ∧ MinedSplit block.mined cluster after
  gone : ∀ cluster ∈ db.lookedUp confirmedTxids, ∀ txid ∈ cluster.txids,
    db.minedBy txid ≠ none → ∀ id, next.db.IsActive id → txid ∉ next.db.members id
  closed : db.KeepsClosed next.db
  again : ∀ fuel, ∃ after, next.handleConfirmed env fuel confirmedTxids = some (.default, after) ∧
    after.db = next.db ∧ after.snapshot = next.snapshot

end ClusterService

/-- Of members, what the block mined of them is all that it mined. -/
theorem ChunkSplit.of_restrict {block : MinedBlock} {members : List Txid} {chunk : ClusterChunk}
    {part : Option ClusterChunk} (inside : ∀ txid ∈ chunk.txids, txid ∈ members)
    (split : ChunkSplit (block.restrict members) chunk part) : ChunkSplit block chunk part := by
  have same (txid : Txid) (member : txid ∈ chunk.txids) :
      txid ∈ (block.restrict members).txids ↔ txid ∈ block.txids := by
    rw [MinedBlock.mem_restrict]
    exact and_iff_left (inside txid member)
  cases split with
  | whole mined => exact .whole fun txid member => (same txid member).mp (mined txid member)
  | part mined some_ pending =>
    obtain ⟨txid, member, left⟩ := pending
    refine .part (mined.trans (List.filter_congr fun txid member => ?_)) some_
      ⟨txid, member, mt (same txid member).mpr left⟩
    rw [decide_eq_decide]
    exact same txid member
  | none pending unmined =>
    obtain ⟨txid, member, left⟩ := pending
    exact .none ⟨txid, member, mt (same txid member).mpr left⟩
      fun txid member => mt (same txid member).mpr (unmined txid member)

theorem MinedSplit.of_restrict {block : MinedBlock} {members : List Txid} {before after : Cluster}
    (inside : ∀ txid ∈ before.txids, txid ∈ members)
    (split : MinedSplit (block.restrict members) before after) : MinedSplit block before after := by
  obtain ⟨status, confirmedAt, ⟨parts, each, joined⟩, txids, nonempty, sums⟩ := split
  refine ⟨status, confirmedAt, ⟨parts, ?_, joined⟩, ?_, nonempty, sums⟩
  · refine List.forall₂_iff_get.mpr ⟨each.length_eq, fun index first second => ?_⟩
    refine ChunkSplit.of_restrict (fun txid member => ?_)
      ((List.forall₂_iff_get.mp each).2 index first second)
    exact inside txid (List.mem_flatMap.mpr ⟨_, List.get_mem .., member⟩)
  · refine txids.trans (List.filter_congr fun txid member => ?_)
    rw [decide_eq_decide, MinedBlock.mem_restrict]
    exact and_iff_left (inside txid member)

namespace ClusterService

section Late

open NodePartition

variable {env : ClusterEnv} {node : NodePartition} {s next : ClusterService} {fuel : ℕ}
  {changes : ClusterDeltaSet} {blocks : List GetBlockModel} {confirmedTxids : List Txid}
  {id : ClusterId}

/-- The blocks as far as the clusters looked up go. -/
def lateBlocks (confirmedTxids : List Txid) (blocks : List GetBlockModel) (db : Db) :
    List MinedBlock :=
  blocks.map fun block => block.mined.restrict (db.lookedUpMembers confirmedTxids)

theorem mem_lookedUpMembers {txid : Txid} : txid ∈ s.db.lookedUpMembers confirmedTxids ↔
    ∃ cluster ∈ s.db.lookedUp confirmedTxids, txid ∈ cluster.txids :=
  List.mem_flatMap

/-- Whom the store says a block mined, one of the late blocks did. -/
theorem exists_late (inv : Db.StoreInv [] s.db) (late : s.db.LateBlocks blocks) {txid : Txid}
    (member : txid ∈ s.db.lookedUpMembers confirmedTxids) (mined : s.db.minedBy txid ≠ none) :
    ∃ block ∈ lateBlocks confirmedTxids blocks s.db, txid ∈ block.txids := by
  obtain ⟨hash, known⟩ := Option.ne_none_iff_exists'.mp mined
  obtain ⟨row, stored, atBlock⟩ := Option.bind_eq_some_iff.mp known
  obtain ⟨block, listed, rfl⟩ :=
    late.others txid (clustered_lookedUpMembers inv member) row hash stored atBlock
  refine ⟨_, List.mem_map_of_mem listed, MinedBlock.mem_restrict.mpr ⟨?_, member⟩⟩
  exact (late.holds block listed).only txid row stored atBlock

theorem minedBy_of_mem (late : s.db.LateBlocks blocks) {block : GetBlockModel}
    (listed : block ∈ blocks)
    {txid : Txid} (mined : txid ∈ block.txids) : s.db.minedBy txid = some block.hash := by
  obtain ⟨row, stored, atBlock, -⟩ := (late.holds block listed).row mined
  exact Db.minedBy_of_row stored atBlock

theorem gone_of_late (fixed : env.Fixed node)
    (unmined : ∀ txid, (node.group txid).isSome = true → s.db.minedBy txid = none)
    (reliable : env.Reliable) (small : env.SmallAnswers) (inv : Db.StoreInv [] s.db)
    (late : s.db.LateBlocks blocks)
    (h : s.confirmBlocks env fuel (lateBlocks confirmedTxids blocks s.db) .default =
      some (changes, next))
    {txid : Txid} (member : txid ∈ s.db.lookedUpMembers confirmedTxids)
    (mined : s.db.minedBy txid ≠ none) (active : next.db.IsActive id) :
    txid ∉ next.db.members id := by
  intro inMembers
  obtain ⟨chunks, isChunks⟩ := active.exists_chunks
  have nextInv := (keeps_confirmBlocks small (.refl env inv rfl (.refl _)) h).inv
  have inChunks := (nextInv.toVersioned.mem_chunkMembers isChunks).mpr inMembers
  -- An active cluster at the end avoids every block, or is a group of txids that are still pending.
  rcases activeChunks_of_confirmBlocks fixed reliable small inv h isChunks with
    ⟨-, clear⟩ | ⟨asker, group, known, rfl⟩
  · obtain ⟨block, listed, inBlock⟩ := exists_late inv late member mined
    exact clear block listed txid inChunks inBlock
  · exact mined (unmined txid (by rw [node.shared known txid inChunks]; rfl))

/-- The second run finds no mined member. -/
theorem again_of_late (fixed : env.Fixed node)
    (unmined : ∀ txid, (node.group txid).isSome = true → s.db.minedBy txid = none)
    (reliable : env.Reliable) (small : env.SmallAnswers) (inv : Db.StoreInv [] s.db)
    (late : s.db.LateBlocks blocks)
    (h : s.confirmBlocks env fuel (lateBlocks confirmedTxids blocks s.db) .default =
      some (changes, next)) (again : ℕ) :
    ∃ after, next.handleConfirmed env again confirmedTxids = some (.default, after) ∧
      after.db = next.db ∧ after.snapshot = next.snapshot := by
  have nextInv := (keeps_confirmBlocks small (.refl env inv rfl (.refl _)) h).inv
  have records := (moves_confirmBlocks h).commits.sameRecords
  obtain ⟨after, db_eq, snapshot_eq, runs⟩ :=
    handleConfirmed_of_reliable reliable nextInv confirmedTxids
  have nobody (txid : Txid) (member : txid ∈ next.db.lookedUpMembers confirmedTxids) :
      next.db.minedBy txid = none := by
    rw [Db.minedBy, records.confirmation]
    by_contra mined
    obtain ⟨cluster, found, inCluster⟩ := mem_lookedUpMembers.mp member
    obtain ⟨loaded, isActive, one, inOne, confirmed⟩ := (mem_lookedUp nextInv).mp found
    have active := Db.activeChunks_of_loaded loaded isActive
    rcases activeChunks_of_confirmBlocks fixed reliable small inv h active with
      ⟨start, -⟩ | ⟨asker, group, known, same⟩
    · -- an active cluster of before was looked up the first time
      obtain ⟨old, foundOld, sameId, oldActive, sameChunks⟩ := start.loaded
      have txids : old.txids = cluster.txids := by rw [Cluster.txids, sameChunks]; rfl
      have lookedUp : old ∈ s.db.lookedUp confirmedTxids := (mem_lookedUp inv).mpr
        ⟨by rw [sameId, foundOld], oldActive, one, txids ▸ inOne, confirmed⟩
      refine gone_of_late fixed unmined reliable small inv late h
        (mem_lookedUpMembers.mpr ⟨old, lookedUp, txids ▸ inCluster⟩) mined active.isActive ?_
      exact (nextInv.toVersioned.mem_chunkMembers active).mp inCluster
    · have inGroup : txid ∈ group.txids := by
        rw [Cluster.txids, same] at inCluster
        exact inCluster
      exact mined (unmined txid (by rw [node.shared known txid inGroup]; rfl))
  have rows : next.db.findMinedByTxids (next.db.lookedUpMembers confirmedTxids) = [] := by
    apply List.eq_nil_iff_forall_not_mem.mpr
    rintro ⟨txid, row, height, minedAt⟩ member
    obtain ⟨inMembers, stored, hash, atBlock, -⟩ := Db.mem_findMinedByTxids.mp member
    have none := nobody txid inMembers
    rw [Db.minedBy_of_row stored atBlock] at none
    cases none
  refine ⟨after, ?_, db_eq, snapshot_eq⟩
  rw [runs, rows]
  rfl

/-- A cluster that is as it was when the turn of its lowest block comes is split by it. -/
theorem split_of_late (fixed : env.Fixed node)
    (unmined : ∀ txid, (node.group txid).isSome = true → s.db.minedBy txid = none)
    (reliable : env.Reliable) (small : env.SmallAnswers) (inv : Db.StoreInv [] s.db)
    {lower higher : List GetBlockModel} {block : GetBlockModel}
    (late : s.db.LateBlocks (lower ++ block :: higher))
    (h : s.confirmBlocks env fuel
      (lateBlocks confirmedTxids (lower ++ block :: higher) s.db) .default =
      some (changes, next)) {cluster : Cluster} (lookedUp : cluster ∈ s.db.lookedUp confirmedTxids)
    (met : ∃ txid ∈ cluster.txids, txid ∈ block.txids)
    (lowest : ∀ txid ∈ cluster.txids, ∀ earlier ∈ lower, txid ∉ earlier.txids)
    (unreached : ∀ txid ∈ cluster.txids,
      ¬ Reach node s.db (s.db.cutOff confirmedTxids lower) txid) :
    ∃ after, next.db.loaded cluster.id = some after ∧ MinedSplit block.mined cluster after := by
  obtain ⟨found, isActive, -⟩ := (mem_lookedUp inv).mp lookedUp
  have active := Db.activeChunks_of_loaded found isActive
  have inside (txid : Txid) (member : txid ∈ cluster.txids) :
      txid ∈ s.db.lookedUpMembers confirmedTxids :=
    mem_lookedUpMembers.mpr ⟨cluster, lookedUp, member⟩
  -- The run is cut at the block: the lower ones leave the cluster as it is, this one splits it.
  rw [lateBlocks, List.map_append, List.map_cons, confirmBlocks_append] at h
  obtain ⟨⟨lowerChanges, mid⟩, lowerRun, h⟩ := Option.bind_eq_some_iff.mp h
  simp only [confirmBlocks, Option.bind_eq_bind] at h
  obtain ⟨⟨confirmed, after⟩, inner, rest⟩ := Option.bind_eq_some_iff.mp h
  have midInv := (keeps_confirmBlocks small (.refl env inv rfl (.refl _)) lowerRun).inv
  have same : s.db.SameAt mid.db cluster.id := by
    refine sameAt_confirmBlocks fixed reliable small inv inv .inl ?_ ?_ lowerRun active ?_ unreached
    · intro restricted listed txid member
      obtain ⟨earlier, inLower, rfl⟩ := List.mem_map.mp listed
      by_contra present
      have none := unmined txid (Option.isSome_iff_ne_none.mpr present)
      rw [minedBy_of_mem late (List.mem_append_left _ inLower)
        (MinedBlock.mem_restrict.mp member).1] at none
      cases none
    · rintro id chunks other ⟨restricted, listed, one, inOne, mined⟩ txid member
      obtain ⟨earlier, inLower, rfl⟩ := List.mem_map.mp listed
      obtain ⟨inBlock, inMembers⟩ := MinedBlock.mem_restrict.mp mined
      obtain ⟨hit, inHits, inHit⟩ := mem_lookedUpMembers.mp inMembers
      obtain ⟨loadedHit, hitActive, -⟩ := (mem_lookedUp inv).mp inHits
      have isHit := Db.activeChunks_of_loaded loadedHit hitActive
      obtain rfl : id = hit.id := inv.unique other.isActive isHit.isActive one
        ((inv.toVersioned.mem_chunkMembers other).mp inOne)
        ((inv.toVersioned.mem_chunkMembers isHit).mp inHit)
      obtain rfl := other.chunks_eq loadedHit
      refine List.mem_flatMap.mpr ⟨hit, List.mem_filter.mpr ⟨inHits, ?_⟩, member⟩
      exact decide_eq_true ⟨one, inHit, earlier, inLower, inBlock⟩
    · intro restricted listed txid member mined
      obtain ⟨earlier, inLower, rfl⟩ := List.mem_map.mp listed
      exact lowest txid member earlier inLower (MinedBlock.mem_restrict.mp mined).1
  obtain ⟨turn, split, -⟩ := confirmMinedInner_splits reliable midInv inner
  obtain ⟨one, inCluster, inBlock⟩ := met
  have hit : cluster ∈ mid.minedClusters
    (block.mined.restrict (s.db.lookedUpMembers confirmedTxids)) :=
    (mem_minedClusters midInv).mpr ⟨same.loaded.trans found, isActive, one, inCluster,
      MinedBlock.mem_restrict.mpr ⟨inBlock, inside one inCluster⟩⟩
  -- What the higher blocks do keeps a closed cluster and its parts.
  obtain ⟨closed, stored, splits⟩ :=
    MinedSplit.carry (moves_confirmBlocks rest).commits.spares.closed
    (split.split_of_mem hit)
  exact ⟨closed, stored, splits.of_restrict inside⟩

end Late

end ClusterService

open ClusterService in
/-- While the node answers from one mempool with nobody mined in it and no call fails, a flush
that confirms blocks late ends, and does what confirming those blocks in height order, as far as
the clusters it looks up go, would have done. -/
theorem late_confirmation {first s : ClusterService} {env : ClusterEnv} {node : NodePartition}
    {blocks : List GetBlockModel} (empty : first.db = Db.empty)
    (run : ReflTransGen ClusterStep first s) (late : s.db.LateBlocks blocks)
    (fixed : env.Fixed node)
    (unmined : ∀ txid, (node.group txid).isSome = true → s.db.minedBy txid = none)
    (reliable : env.Reliable) (small : env.SmallAnswers) (confirmedTxids : List Txid) :
    ∃ reads : ClusterService, reads.db = s.db ∧ reads.snapshot = s.snapshot ∧
      (∀ fuel, s.handleConfirmed env fuel confirmedTxids = reads.confirmBlocks env fuel
        (lateBlocks confirmedTxids blocks s.db) .default) ∧
      (∀ fuel rows, rows.Perm (s.db.findMinedByTxids (s.db.lookedUpMembers confirmedTxids)) →
        reads.confirmBlocks env fuel (MinedBlock.byBlock rows) .default =
          reads.confirmBlocks env fuel (lateBlocks confirmedTxids blocks s.db) .default) ∧
      ∃ changes next,
        Settles (fun fuel => s.handleConfirmed env fuel confirmedTxids) (changes, next) ∧
        LateConfirmation env node blocks confirmedTxids s.db next := by
  have inv := (ClusterStep.run_keeps run (empty ▸ Db.storeInv_empty)).1
  obtain ⟨reads, db_eq, snapshot_eq, runs⟩ :=
    handleConfirmed_of_reliable reliable inv confirmedTxids
  have members (txid : Txid) (member : txid ∈ s.db.lookedUpMembers confirmedTxids) :
      reads.db.Clustered txid := db_eq ▸ clustered_lookedUpMembers inv member
  have onTime (fuel : ℕ) (rows : List (Txid × Transaction × Int × OffsetDateTime))
      (perm : rows.Perm (s.db.findMinedByTxids (s.db.lookedUpMembers confirmedTxids))) :
      reads.confirmBlocks env fuel (MinedBlock.byBlock rows) .default =
        reads.confirmBlocks env fuel (lateBlocks confirmedTxids blocks s.db) .default :=
    confirmBlocks_byBlock reliable small (db_eq ▸ inv) (db_eq ▸ late) members
      (by rw [db_eq]; exact perm) .default
  have same (fuel : ℕ) := (runs fuel).trans (onTime fuel _ (.refl _))
  refine ⟨reads, db_eq, snapshot_eq, same, onTime, ?_⟩
  have answers : env.AnswersAsked := fun call txid cluster answered _ =>
    (NodePartition.truthful fixed).asked call txid cluster answered
  obtain ⟨⟨changes, next⟩, settles⟩ := settles_handleConfirmed small answers inv confirmedTxids
  refine ⟨changes, next, settles, ?_⟩
  obtain ⟨enough, returns⟩ := settles
  have h := (same enough).symm.trans (returns enough le_rfl)
  rw [← db_eq] at h inv late unmined ⊢
  refine ⟨?_, ?_, (moves_confirmBlocks h).commits.spares.closed, ?_⟩
  · rintro cluster lookedUp lower block higher rfl met lowest unreached
    exact split_of_late fixed unmined reliable small inv late h lookedUp met lowest unreached
  · intro cluster lookedUp txid member mined id active
    exact gone_of_late fixed unmined reliable small inv late h
      (mem_lookedUpMembers.mpr ⟨cluster, lookedUp, member⟩) mined active
  · exact again_of_late fixed unmined reliable small inv late h

/-! ### Two clusters, of which the node joins what is left -/

/-- A sync from the candidates alone leaves the records alone. -/
theorem sameRecords_syncClustersFor {env : ClusterEnv} {fuel : ℕ} {s next : ClusterService}
    {candidateTxids : List Txid}
    (h : (ClusterRound.syncClustersFor candidateTxids []).run env fuel s = some next) :
    s.db.SameRecords next.db := by
  simp only [ClusterRound.run, ClusterService.syncClusters, ClusterService.stage, ↓reduceIte,
    Option.bind_eq_bind, Option.bind_some, Option.pure_def] at h
  obtain ⟨⟨candidates, mid⟩, staged, done⟩ := Option.bind_eq_some_iff.mp h
  have synced : s.db.SameRecords mid.db := by
    split_ifs at staged
    · cases staged
      exact .refl _
    · exact (ClusterService.moves_handleCandidatesCovering staged).commits.sameRecords
  split_ifs at done <;> cases done <;> exact synced

/-- A node with the pairs of `a` and `u` and of `v` and `b`. -/
def twoPairsEnv : ClusterEnv where
  getMempoolCluster _ txid :=
    if txid ∈ ["a", "u"] then .cluster ⟨[⟨["a", "u"], 30, 400⟩]⟩
    else if txid ∈ ["v", "b"] then .cluster ⟨[⟨["v", "b"], 30, 400⟩]⟩
    else .txNotFoundInMempool
  fails _ _ := false
  now call := call
  call _ := ⟨fun _ => 0, .sorted Txid⟩

theorem smallAnswers_twoPairsEnv : twoPairsEnv.SmallAnswers := by
  intro call txid cluster answered
  simp only [twoPairsEnv] at answered
  split_ifs at answered <;> cases answered <;> simp [maxChunks]

/-- One of each pair is mined, the later block with the earlier time. -/
def lowBlock : GetBlockModel := ⟨"h1", 1, 20, [⟨"a", 200, 20, []⟩]⟩

def highBlock : GetBlockModel := ⟨"h2", 2, 10, [⟨"b", 200, 20, []⟩]⟩

/-- The node has `u` and `v` left, in one group. -/
def joinedPartition : NodePartition where
  group txid := if txid ∈ ["u", "v"] then some ⟨[⟨["u", "v"], 20, 400⟩]⟩ else none
  mem {txid cluster} group := by
    split_ifs at group with member
    obtain rfl := Option.some.inj group
    exact member
  shared {txid cluster} group other inCluster := by
    split_ifs at group with member
    obtain rfl := Option.some.inj group
    exact if_pos inCluster

def joinedEnv : ClusterEnv where
  getMempoolCluster _ txid := (joinedPartition.group txid).elim .txNotFoundInMempool .cluster
  fails _ _ := false
  now call := call
  call _ := ⟨fun _ => 0, .sorted Txid⟩

theorem smallAnswers_joinedEnv : joinedEnv.SmallAnswers := by
  intro call txid cluster answered
  have group :=
    (NodePartition.answer_eq (show joinedEnv.Fixed joinedPartition from fun _ _ => rfl)).mp
    answered
  simp only [joinedPartition] at group
  split_ifs at group
  cases group
  simp [maxChunks]

/-- Both pairs are stored and both blocks committed. -/
def lateStore : Option ClusterService := do
  let synced ← (ClusterRound.syncClustersFor ["a", "b"] []).run twoPairsEnv 5 .initial
  let low ← synced.db.insertWithTransactions lowBlock.toBlock (lowBlock.newTransactions 30)
  let high ← low.insertWithTransactions highBlock.toBlock (highBlock.newTransactions 40)
  return { synced with db := high }

theorem lateStore_spec {s : ClusterService} (built : lateStore = some s) :
    ReflTransGen ClusterStep .initial s ∧ s.db.LateBlocks [lowBlock, highBlock] ∧
      ∀ txid, (joinedPartition.group txid).isSome = true → s.db.minedBy txid = none := by
  simp only [lateStore, Option.bind_eq_bind, Option.pure_def] at built
  obtain ⟨synced, syncs, built⟩ := Option.bind_eq_some_iff.mp built
  obtain ⟨low, storesLow, built⟩ := Option.bind_eq_some_iff.mp built
  obtain ⟨high, storesHigh, done⟩ := Option.bind_eq_some_iff.mp built
  obtain rfl := Option.some.inj done
  have records := sameRecords_syncClustersFor syncs
  have unmined (txid : Txid) : synced.db.minedBy txid = none := by
    rw [Db.minedBy, records.confirmation]
    rfl
  have minedLow (txid : Txid) : low.minedBy txid = if txid ∈ ["a"] then some "h1" else none := by
    rw [Db.minedBy_insertWithTransactions storesLow, unmined]
    rfl
  have minedHigh (txid : Txid) :
      high.minedBy txid = if txid ∈ ["b"] then some "h2" else low.minedBy txid :=
    Db.minedBy_insertWithTransactions storesHigh txid
  have blocksLow : low.blocks = [lowBlock.toBlock] := by
    rw [Db.blocks_insertWithTransactions storesLow, records.blocks]
    rfl
  have lateLow : low.LateBlocks ([] ++ lowBlock :: []) := by
    refine (Db.lateBlocks_nil fun txid _ => unmined txid).commit (by simp) ?_ ?_ (by decide)
      (by simp) storesLow
    · rw [records.blocks]
      exact List.not_mem_nil
    · simp [unmined]
  have lateHigh : high.LateBlocks ([lowBlock] ++ highBlock :: []) := by
    refine (show low.LateBlocks ([lowBlock] ++ []) from lateLow).commit (by decide) ?_ ?_
      (by decide) (by decide) storesHigh
    · rw [blocksLow]
      decide
    · intro txid
      rw [minedLow]
      split_ifs <;> decide
  refine ⟨?_, lateHigh, fun txid present => ?_⟩
  · have unlinked (seenAt : OffsetDateTime) (block : GetBlockModel) :
        ∀ new ∈ block.newTransactions seenAt, new.row.clusterId = none := by
      simp [GetBlockModel.newTransactions]
    have same := (Db.sameClusters_insertWithTransactions (unlinked _ _) storesLow).trans
      (Db.sameClusters_insertWithTransactions (unlinked _ _) storesHigh)
    exact (ReflTransGen.single (.round _ _ _ smallAnswers_twoPairsEnv syncs)).tail (.others same)
  · have left : txid ∈ ["u", "v"] := by
      by_contra absent
      rw [show joinedPartition.group txid = none from if_neg absent] at present
      cases present
    simp only [List.mem_cons, List.not_mem_nil, or_false] at left
    obtain rfl | rfl := left <;> rw [minedHigh, minedLow] <;> decide

theorem lateStore_confirmation : ∃ (s reads : ClusterService) (changes : ClusterDeltaSet)
    (next : ClusterService), lateStore = some s ∧ reads.db = s.db ∧
    Settles (fun fuel => s.handleConfirmed joinedEnv fuel ["a", "b"]) (changes, next) ∧
    (∀ fuel, s.handleConfirmed joinedEnv fuel ["a", "b"] = reads.confirmBlocks joinedEnv fuel
      (ClusterService.lateBlocks ["a", "b"] [lowBlock, highBlock] s.db) .default) ∧
    ClusterService.LateConfirmation joinedEnv joinedPartition [lowBlock, highBlock] ["a", "b"] s.db
      next := by
  obtain ⟨s, built⟩ := Option.isSome_iff_exists.mp (show lateStore.isSome = true by decide +kernel)
  obtain ⟨run, late, unmined⟩ := lateStore_spec built
  obtain ⟨reads, db_eq, -, onTime, -, changes, next, settles, leaves⟩ := late_confirmation
    (show ClusterService.initial.db = Db.empty from rfl) run late
    (show joinedEnv.Fixed joinedPartition from fun _ _ => rfl) unmined (fun _ _ => rfl)
    smallAnswers_joinedEnv ["a", "b"]
  exact ⟨s, reads, changes, next, built, db_eq, settles, onTime, leaves⟩

/-- The group of `u` and `v` is stored in the place of the pair of `v` and `b`, which is looked up
and never confirmed. -/
theorem joined_cluster_stays_active : ∃ s changes next,
    ReflTransGen ClusterStep .initial s ∧ s.db.LateBlocks [lowBlock, highBlock] ∧
    joinedEnv.Fixed joinedPartition ∧ joinedEnv.Reliable ∧ joinedEnv.SmallAnswers ∧
    (∀ txid, (joinedPartition.group txid).isSome = true → s.db.minedBy txid = none) ∧
    s.handleConfirmed joinedEnv 5 ["a", "b"] = some (changes, next) ∧
    (s.db.lookedUp ["a", "b"]).map (fun cluster => (cluster.id, cluster.txids)) =
      [(1, ["a", "u"]), (2, ["v", "b"])] ∧
    (next.db.loaded 2).map (fun after => (after.status, after.txids)) =
    some (.active, ["u", "v"]) := by
  obtain ⟨s, built⟩ := Option.isSome_iff_exists.mp (show lateStore.isSome = true by decide +kernel)
  obtain ⟨run, late, unmined⟩ := lateStore_spec built
  have flushed : lateStore.map (fun s =>
      ((s.db.lookedUp ["a", "b"]).map (fun cluster => (cluster.id, cluster.txids)),
        (s.handleConfirmed joinedEnv 5 ["a", "b"]).map fun result =>
          (result.2.db.loaded 2).map fun after => (after.status, after.txids))) =
      some ([(1, ["a", "u"]), (2, ["v", "b"])], some (some (.active, ["u", "v"]))) := by
    decide +kernel
  rw [built, Option.map_some, Option.some.injEq, Prod.mk.injEq] at flushed
  obtain ⟨⟨changes, next⟩, confirmed, after⟩ := Option.map_eq_some_iff.mp flushed.2
  exact ⟨s, changes, next, run, late, fun _ _ => rfl, fun _ _ => rfl,
    smallAnswers_joinedEnv, unmined,
    confirmed, flushed.1, after⟩

end MempoolObserver
