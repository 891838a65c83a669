import MempoolObserver.Services.Confirmation

/-!
# What a round leaves of the clusters

While no push is refused, whoever was live is live or has its removal queued: it
is tracked. An answer of the node asserts its group present before it is stored,
so the members of a new cluster are tracked, whatever the other producers do
before it is written; and a cluster no answer meets stays as it was. So a member
that is neither live nor about to be removed can only be in a cluster that was
there before the round.

## Main definitions

* `ClusterService.Tends` — what every stage of a round makes of the clusters
* `ClusterService.Accounted` — whose removal accounts for a member that left

## Main results

* `ClusterService.tends_handleCandidatesCovering` — what becomes of its candidates
* `ClusterService.tends_handleConfirmed`, `ClusterService.tends_handleEvicted` — what
  becomes of the clusters of the txids a flush removed
* `ClusterService.accounted_syncClustersAfterFlush` — a round pays for a flush
-/

namespace MempoolObserver

open Relation Collections Regrouping

namespace ClusterService

variable {env : ClusterEnv} {start s mid next : ClusterService} {queue : CandidateQueue}
  {cluster : GetMempoolClusterModel} {known : Finset Txid} {txid : Txid}
  {changes : ClusterDeltaSet} {fuel : ℕ}

/-- Everyone who shares an active cluster with the txid is tracked. -/
def Covered (s : ClusterService) (txid : Txid) : Prop :=
  AllFit s.mempoolLedger.Tracks s.db.Together txid

/-- Producers ran; and whoever is clustered afterwards is so with tracked txids
only, or with the same ones as before. -/
structure Tends (s next : ClusterService) : Prop where
  produced : s.mempoolLedger.Produced next.mempoolLedger
  renews : next.mempoolLedger.degraded = false →
    Renews next.mempoolLedger.Tracks s.db.Together next.db.Together

namespace Tends

theorem of_db_eq (produced : s.mempoolLedger.Produced next.mempoolLedger) (same : next.db = s.db) :
    Tends s next :=
  ⟨produced, fun _ => same ▸ .refl _ _⟩

theorem refl (s : ClusterService) : Tends s s := .of_db_eq (.refl _) rfl

theorem trans (first : Tends s mid) (second : Tends mid next) : Tends s next where
  produced := first.produced.trans second.produced
  renews sound :=
    (first.renews (second.produced.sound_before sound)).trans (second.renews sound)
      fun _ => second.produced.tracks sound

theorem covered (tends : Tends s next) (sound : next.mempoolLedger.degraded = false)
    (covered : s.Covered txid) : next.Covered txid :=
  (tends.renews sound).allFit next.db.selfGrouped_together
    (fun _ => tends.produced.tracks sound) covered

end Tends

/-! ### The candidate queue -/

/-- What the queue has made of the clusters since `start`. Of the txids it heard
about, the ones that were tracked then have their removal queued, if the node did
not know them, or are in no cluster but a new one. -/
structure Follows (start : ClusterService) (known : Finset Txid) (queue : CandidateQueue)
    (s : ClusterService) : Prop where
  produced : start.mempoolLedger.Produced s.mempoolLedger
  renews : s.mempoolLedger.degraded = false →
    Renews s.mempoolLedger.Tracks start.db.Together (kept queue s)
  heard : s.mempoolLedger.degraded = false → ∀ txid ∈ queue.outOfMempool, txid ∉ known →
    start.mempoolLedger.Tracks txid →
      s.mempoolLedger.Owes txid ∨ AllFit s.mempoolLedger.Tracks (kept queue s) txid

theorem selfGrouped_kept (queue : CandidateQueue) (s : ClusterService) :
    SelfGrouped (kept queue s) := by
  intro txid other together
  rcases together with stored | ⟨rfl, buffered⟩
  · exact .inl (s.db.selfGrouped_together _ _ stored)
  · exact .inr ⟨rfl, buffered⟩

namespace Follows

variable {after : CandidateQueue}

/-- Producers run, and nothing is stored or heard. -/
theorem of_kept_eq (follows : Follows start known queue s)
    (produced : s.mempoolLedger.Produced next.mempoolLedger) (same : kept after next = kept queue s)
    (out : after.outOfMempool = queue.outOfMempool) : Follows start known after next where
  produced := follows.produced.trans produced
  renews sound := by
    rw [same]
    apply (follows.renews (produced.sound_before sound)).trans (.refl _ _)
    exact fun _ => produced.tracks sound
  heard sound txid isOut unknown tracked := by
    rw [same]
    rw [out] at isOut
    apply (follows.heard (produced.sound_before sound) txid isOut unknown tracked).imp
    · exact produced.owes
    · exact fun fits => fits.mono fun _ => produced.tracks sound

/-- The node knows nothing of a txid: if it was tracked, its removal is queued. -/
theorem reportAbsent (follows : Follows start known queue s) (txid : Txid) :
    Follows start known (s.reportAbsent env txid queue).1 (s.reportAbsent env txid queue).2 := by
  have absent : s.mempoolLedger.Produced (s.reportAbsent env txid queue).2.mempoolLedger :=
    .single (.assertAbsent (env.call s.calls) [txid]) s.mempoolLedger
  have asBefore : Follows start known queue (s.reportAbsent env txid queue).2 :=
    follows.of_kept_eq absent rfl rfl
  refine ⟨asBefore.produced, asBefore.renews, fun sound other isOut unknown tracked => ?_⟩
  rcases Finset.mem_insert.mp isOut with rfl | wasOut
  · left
    apply (asBefore.produced.tracks sound tracked).owes
    change _ ∉ (s.mempoolLedger.assertAbsent (env.call s.calls) [other]).live
    simp [MempoolLedger.live_assertAbsent]
  · exact asBefore.heard sound other wasOut unknown tracked

/-- A group that is stored is live when it is, so it is tracked afterwards. -/
theorem reportPresent (follows : Follows start known queue s)
    (present : next.mempoolLedger.degraded = false →
      ∀ txid ∈ cluster.txids, next.mempoolLedger.Tracks txid)
    (produced : s.mempoolLedger.Produced next.mempoolLedger)
    (regroups : kept after next = regroup (kept queue s) cluster.txids)
    (out : after.outOfMempool = queue.outOfMempool ∪ cluster.txids.toFinset) :
    Follows start known after next where
  produced := follows.produced.trans produced
  renews sound := by
    have stored := renews_regroup (selfGrouped_kept queue s) (present sound)
    rw [regroups]
    apply (follows.renews (produced.sound_before sound)).trans stored
    exact fun _ => produced.tracks sound
  heard sound txid isOut unknown tracked := by
    have stored := renews_regroup (selfGrouped_kept queue s) (present sound)
    have closed := (selfGrouped_kept queue s).regroup cluster.txids
    rw [regroups]
    rw [out, Finset.mem_union, List.mem_toFinset] at isOut
    -- A member of the group was asserted just now; anyone else was heard earlier.
    by_cases member : txid ∈ cluster.txids
    · right
      intro other together
      exact present sound other
        ((regroup_of_mem (selfGrouped_kept queue s) member other).mp together)
    · apply (follows.heard (produced.sound_before sound) txid (isOut.resolve_right member) unknown
        tracked).imp
      · exact produced.owes
      · exact stored.allFit closed fun _ => produced.tracks sound

end Follows

/-- An iteration of the queue hears about the txid at its front. -/
theorem follows_candidate (truthful : env.Truthful) (reliable : env.Reliable)
    (small : env.SmallAnswers) (inv : QueueInv env start queue s)
    (follows : Follows start known queue s) (popped : Txid) :
    let after := s.candidate env popped queue
    Follows start known after.1 after.2 ∧ popped ∈ after.1.outOfMempool ∧
      queue.outOfMempool ⊆ after.1.outOfMempool ∧ queue.pending ⊆ after.1.pending := by
  have asks := (moves_askedFor env popped s).produced
  have askedInv : QueueInv env start queue (s.askedFor env popped) :=
    ⟨inv.keeps.to_eq rfl ⟨rfl, Nat.le_succ _⟩, inv.buffered⟩
  have asked : Follows start known queue (s.askedFor env popped) := follows.of_kept_eq asks rfl rfl
  have absent : Follows start known ((s.askedFor env popped).reportAbsent env popped queue).1
      ((s.askedFor env popped).reportAbsent env popped queue).2 := asked.reportAbsent popped
  unfold ClusterService.candidate
  dsimp only
  split_ifs with out
  · exact ⟨follows, out, Finset.Subset.refl _, List.Subset.refl _⟩
  split
  case h_1 answered => exact absurd answered (truthful.answers _ _)
  case h_2 =>
    exact ⟨absent, Finset.mem_insert_self .., Finset.subset_insert .., List.Subset.refl _⟩
  case h_3 cluster answered =>
    have member := truthful.asked _ _ _ answered
    have nonempty := List.ne_nil_of_mem member
    rw [if_neg nonempty]
    have fits := small _ _ _ answered
    have regroups := regroups_reportPresent reliable askedInv nonempty fits
    have reports := reports_reportPresent env cluster askedInv.keeps.inv.liveInStep queue
    have stores := silent_reportPresent env cluster queue (s.askedFor env popped)
    have asserts := MempoolLedger.Produced.single
      (.assertPresent (env.call (s.askedFor env popped).calls) cluster.txids)
      (s.askedFor env popped).mempoolLedger
    refine ⟨asked.reportPresent ?_ (asserts.trans stores.produced) regroups.kept
      reports.outOfMempool, ?_, ?_, ?_⟩
    · intro sound txid inGroup
      -- asserted present before anything is stored
      apply stores.produced.tracks sound
      left
      change txid ∈ (MempoolLedger.assertPresent _ _ _).live
      rw [MempoolLedger.live_assertPresent]
      exact Finset.mem_union_right _ (List.mem_toFinset.mpr inGroup)
    · change popped ∈ ((s.askedFor env popped).reportPresent env cluster queue).1.outOfMempool
      rw [reports.outOfMempool]
      exact Finset.mem_union_right _ (List.mem_toFinset.mpr member)
    · change _ ⊆ ((s.askedFor env popped).reportPresent env cluster queue).1.outOfMempool
      rw [reports.outOfMempool]
      exact Finset.subset_union_left
    · intro txid isPending
      exact (regroups.pending txid).mpr (.inl isPending)

/-- When the queue runs dry, every candidate is heard about. -/
theorem follows_drain (truthful : env.Truthful) (reliable : env.Reliable)
    (small : env.SmallAnswers) {candidateTxids : List Txid} {last : CandidateQueue}
    (inv : QueueInv env start queue s) (follows : Follows start known queue s)
    (awaited : ∀ txid ∈ candidateTxids, txid ∈ queue.pending ∨ txid ∈ queue.outOfMempool)
    (drained : s.drain env fuel queue = some (last, next)) :
    Follows start known last next ∧ ∀ txid ∈ candidateTxids, txid ∈ last.outOfMempool := by
  -- Induction on the fuel: each candidate is still pending or has been heard by now.
  induction fuel generalizing queue s with
  | zero => simp [ClusterService.drain] at drained
  | succ fuel ih =>
    rw [ClusterService.drain] at drained
    split at drained
    case h_1 dry =>
      cases drained
      refine ⟨follows, fun txid member => (awaited txid member).resolve_left ?_⟩
      rw [dry]
      exact List.not_mem_nil
    case h_2 popped pending front =>
      have popInv : QueueInv env start { queue with pending := pending } s :=
        ⟨inv.keeps, inv.buffered⟩
      have popFollows : Follows start known { queue with pending := pending } s :=
        follows.of_kept_eq (.refl _) rfl rfl
      obtain ⟨step, heard, grows, keepsPending⟩ :=
        follows_candidate truthful reliable small popInv popFollows popped
      refine ih (popInv.candidate small popped) step (fun txid member => ?_) drained
      rcases awaited txid member with isPending | out
      · rw [front] at isPending
        rcases List.mem_cons.mp isPending with rfl | later
        · exact .inr heard
        · exact .inl (keepsPending later)
      · exact .inr (grows out)

/-- A candidate that was tracked ends covered, unless its removal is queued. -/
theorem tends_handleCandidatesCovering (truthful : env.Truthful) (reliable : env.Reliable)
    (small : env.SmallAnswers) (inv : Db.StoreInv [] s.db) {candidateTxids : List Txid}
    (h : s.handleCandidatesCovering env fuel candidateTxids known = some (changes, next)) :
    Tends s next ∧ (next.mempoolLedger.degraded = false → ∀ txid ∈ candidateTxids, txid ∉ known →
      s.mempoolLedger.Tracks txid → next.mempoolLedger.Owes txid ∨ next.Covered txid) := by
  obtain ⟨⟨queue, drained⟩, drains, done⟩ := Option.map_eq_some_iff.mp h
  obtain rfl : (drained.insertSingletons env queue).2 = next := congrArg Prod.snd done
  have initialInv : QueueInv env s ⟨candidateTxids, known, [], .default⟩ s :=
    ⟨.refl env inv rfl (.refl _), by simp, by simp, by simp⟩
  -- Nothing is buffered yet, so what is kept is what is stored.
  have initial : Follows s known ⟨candidateTxids, known, [], .default⟩ s := by
    have same : kept ⟨candidateTxids, known, [], .default⟩ s = s.db.Together := by
      funext txid other
      simp [kept]
    refine ⟨.refl _, fun _ => same ▸ .refl _ _, ?_⟩
    intro _ txid out unknown
    exact absurd out unknown
  obtain ⟨follows, heard⟩ := follows_drain truthful reliable small initialInv initial
    (fun txid member => .inl member) drains
  obtain ⟨together, -⟩ := together_insertSingletons reliable (initialInv.drain small drains)
  -- The insert at the end changes the grouping no more than was kept.
  have inserts := (silent_insertSingletons env queue drained).produced
  refine ⟨⟨follows.produced.trans inserts, fun sound => ?_⟩, ?_⟩
  · rw [together]
    apply (follows.renews (inserts.sound_before sound)).trans (.refl _ _)
    exact fun _ => inserts.tracks sound
  · intro sound txid member unknown tracked
    apply (follows.heard (inserts.sound_before sound) txid (heard txid member) unknown tracked).imp
    · exact inserts.owes
    · intro fits
      rw [Covered, together]
      exact fits.mono fun _ => inserts.tracks sound

/-! ### Mined transactions -/

/-- Closing clusters leaves the others as they are. -/
theorem Without.renews {db after : Db} {ids : List ClusterId} (without : Without db ids after)
    (inv : Db.StoreInv [] db) (fit : Txid → Prop) : Renews fit db.Together after.Together := by
  intro txid together
  obtain ⟨id, kept, active, member, -⟩ := without.together.mp together
  right
  intro other
  rw [without.together]
  constructor
  · rintro ⟨id, -, both⟩
    exact ⟨id, both⟩
  · rintro ⟨otherId, otherActive, inFirst, inSecond⟩
    obtain rfl := inv.unique active otherActive txid member inFirst
    exact ⟨id, kept, active, inFirst, inSecond⟩

theorem Tends.of_without (produced : s.mempoolLedger.Produced next.mempoolLedger)
    (inv : Db.StoreInv [] s.db) {ids : List ClusterId} (without : Without s.db ids next.db) :
    Tends s next :=
  ⟨produced, fun _ => without.renews inv _⟩

/-- Nobody a block mined is left in a cluster but a new one. -/
theorem tends_confirmMinedInner (truthful : env.Truthful) (reliable : env.Reliable)
    (small : env.SmallAnswers) (inv : Db.StoreInv [] s.db) {block : MinedBlock}
    (h : s.confirmMinedInner env fuel block = some (changes, next)) :
    Tends s next ∧
      (next.mempoolLedger.degraded = false → ∀ txid ∈ block.txids, next.Covered txid) := by
  obtain ⟨after, silent, afterInv, ⟨ids, without⟩, gone, rest⟩ :=
    confirmMinedInner_of_holds inv h (holds_of_reliable reliable _ _)
  have closes : Tends s after := .of_without silent.produced inv without
  have apart : ∀ txid ∈ block.txids, after.Covered txid :=
    fun txid mined other together => absurd together (gone txid mined other)
  rcases rest with rfl | ⟨pending, synced, handled⟩
  · exact ⟨closes, fun _ => apart⟩
  · obtain ⟨asks, -⟩ := tends_handleCandidatesCovering truthful reliable small afterInv handled
    exact ⟨closes.trans asks, fun sound txid mined => asks.covered sound (apart txid mined)⟩

theorem tends_confirmBlocks (truthful : env.Truthful) (reliable : env.Reliable)
    (small : env.SmallAnswers) (inv : Db.StoreInv [] s.db) {blocks : List MinedBlock}
    {before : ClusterDeltaSet}
    (h : s.confirmBlocks env fuel blocks before = some (changes, next)) :
    Tends s next ∧ (next.mempoolLedger.degraded = false →
      ∀ block ∈ blocks, ∀ txid ∈ block.txids, next.Covered txid) := by
  induction blocks generalizing before s with
  | nil =>
    cases h
    exact ⟨.refl _, by simp⟩
  | cons block blocks ih =>
    simp only [confirmBlocks, Option.bind_eq_bind] at h
    obtain ⟨⟨confirmed, mid⟩, inner, rest⟩ := Option.bind_eq_some_iff.mp h
    obtain ⟨first, covered⟩ := tends_confirmMinedInner truthful reliable small inv inner
    obtain ⟨later, coveredLater⟩ := ih (keeps_confirmMinedInner small inv inner).inv rest
    refine ⟨first.trans later, fun sound other member txid mined => ?_⟩
    rcases List.mem_cons.mp member with rfl | inRest
    · exact later.covered sound (covered (later.produced.sound_before sound) txid mined)
    · exact coveredLater sound other inRest txid mined

/-- A txid that is in no active cluster is covered. -/
theorem covered_of_apart (apart : ¬ s.db.Together txid txid) : s.Covered txid :=
  fun other together => absurd (s.db.selfGrouped_together txid other together) apart

/-- The clusters of mined txids are closed. -/
theorem tends_handleConfirmed (truthful : env.Truthful) (reliable : env.Reliable)
    (small : env.SmallAnswers) (inv : Db.StoreInv [] s.db) (stored : s.db.ConfirmedStored)
    {confirmedTxids : List Txid}
    (confirmed : ∀ txid ∈ confirmedTxids, s.db.isConfirmed txid = true)
    (h : s.handleConfirmed env fuel confirmedTxids = some (changes, next)) :
    Tends s next ∧
      (next.mempoolLedger.degraded = false → ∀ txid ∈ confirmedTxids, next.Covered txid) := by
  unfold handleConfirmed at h
  by_cases nobody : confirmedTxids = []
  · rw [findActiveIdsByTxids, if_pos nobody] at h
    cases h
    exact ⟨.refl _, by simp [nobody]⟩
  obtain ⟨ids, found, meets⟩ := findActiveIdsByTxids_of_reliable reliable inv nobody
  rw [found] at h
  dsimp only at h
  have looks := silent_called env s
  -- whoever is clustered is in one of the clusters found
  have listed {txid : Txid} (member : txid ∈ confirmedTxids) (together : s.db.Together txid txid) :
      ∃ id ∈ ids, s.db.IsActive id ∧ txid ∈ s.db.members id := by
    obtain ⟨id, active, inMembers, -⟩ := together
    exact ⟨id, (meets id).mpr ⟨active, txid, member, inMembers⟩, active, inMembers⟩
  split_ifs at h with none
  · cases h
    refine ⟨.of_db_eq looks.produced rfl, fun _ txid member => covered_of_apart fun together => ?_⟩
    obtain ⟨id, inIds, -⟩ := listed member together
    rw [none] at inIds
    cases inIds
  rw [query_of_reliable reliable] at h
  dsimp only at h
  rw [query_of_reliable reliable] at h
  dsimp only at h
  set reads := ((s.called env).called env).called env
  have toReads : Tends s reads :=
    .of_db_eq ((looks.trans (silent_called env _)).trans (silent_called env _)).produced rfl
  obtain ⟨tends, covered⟩ :=
    tends_confirmBlocks truthful reliable small (show Db.StoreInv [] reads.db from inv) h
  refine ⟨toReads.trans tends, fun sound txid member => ?_⟩
  by_cases together : s.db.Together txid txid
  · obtain ⟨id, inIds, active, inMembers⟩ := listed member together
    obtain ⟨cluster, inLoaded, rfl⟩ :=
      List.mem_map.mp (id_mem_findByIds inv.toVersioned active inIds)
    have inCluster : txid ∈ cluster.txids := by
      rw [(mem_findByIds_of_meets inv meets inLoaded).2]
      exact inMembers
    obtain ⟨block, inBlocks, mined⟩ := MinedBlock.mem_byBlock stored
      (List.mem_flatMap.mpr ⟨cluster, inLoaded, inCluster⟩) (confirmed txid member)
    exact covered sound block inBlocks txid mined
  · exact tends.covered sound (covered_of_apart together)

/-! ### Evicted transactions -/

/-- The txid shares an active cluster with one whose removal is queued. -/
def Due (s : ClusterService) (txid : Txid) : Prop :=
  ∃ owed, s.db.Together txid owed ∧ s.mempoolLedger.Owes owed

theorem markEvicted_of_reliable (reliable : env.Reliable) (inv : Db.StoreInv [] s.db)
    (ids : List ClusterId) :
    s.mempoolLedger.Produced (s.markEvicted env ids).2.mempoolLedger ∧
      Db.StoreInv [] (s.markEvicted env ids).2.db ∧
      Without s.db ids (s.markEvicted env ids).2.db := by
  unfold markEvicted
  split_ifs with none
  · subst none
    exact ⟨.refl _, inv, by simp, fun _ _ => rfl⟩
  · rw [transact_of_reliable reliable rfl]
    exact ⟨(silent_called env s).produced, (inv.closeMany _ ids _).1,
      without_closeMany inv.toVersioned ids _ _⟩

/-- A cluster of an evicted txid that outlives the close of the emptied ones has a survivor. -/
theorem exists_survivor {db mid : Db} (inv : Db.StoreInv [] db) {ids : List ClusterId}
    {evictedTxids : List Txid} (meets : Meets db evictedTxids ids) {live : Finset Txid}
    (without : Without db ((((db.findByIds ids).filter (touched evictedTxids)).filter
      fun cluster => (remaining evictedTxids live cluster).isEmpty).map Cluster.id) mid)
    {txid : Txid} (member : txid ∈ evictedTxids) (together : mid.Together txid txid) :
    ∃ survivor ∈ ((db.findByIds ids).filter (touched evictedTxids)).flatMap
        (remaining evictedTxids live),
      survivor ∉ evictedTxids ∧ survivor ∈ live ∧ mid.Together txid survivor := by
  obtain ⟨id, kept, active, inMembers, -⟩ := without.together.mp together
  have inIds := (meets id).mpr ⟨active, txid, member, inMembers⟩
  obtain ⟨cluster, inLoaded, rfl⟩ :=
    List.mem_map.mp (id_mem_findByIds inv.toVersioned active inIds)
  have txids := (mem_findByIds_of_meets inv meets inLoaded).2
  have isActive : cluster.status = .active := by
    obtain ⟨id, row, present, -, rfl⟩ := inv.toVersioned.mem_findByIds.mp inLoaded
    obtain ⟨other, stored, status⟩ := active
    obtain rfl : row = other := Option.some.inj (present.symm.trans stored)
    exact status
  have isHit : cluster ∈ (db.findByIds ids).filter (touched evictedTxids) := by
    refine List.mem_filter.mpr ⟨inLoaded, ?_⟩
    simp only [touched, isActive, true_and, decide_eq_true_eq]
    exact ⟨txid, txids ▸ inMembers, member⟩
  -- an emptied cluster would have been closed
  have left : remaining evictedTxids live cluster ≠ [] := by
    intro empty
    apply kept
    exact List.mem_map_of_mem (List.mem_filter.mpr ⟨isHit, by rw [empty]; rfl⟩)
  obtain ⟨survivor, inRemaining⟩ := List.exists_mem_of_ne_nil _ left
  obtain ⟨inCluster, unevicted, isLive⟩ :
      survivor ∈ cluster.txids ∧ survivor ∉ evictedTxids ∧ survivor ∈ live := by
    simpa [remaining] using inRemaining
  refine ⟨survivor, List.mem_flatMap.mpr ⟨cluster, isHit, inRemaining⟩, unevicted, isLive, ?_⟩
  exact without.together.mpr ⟨cluster.id, kept, active, inMembers, txids ▸ inCluster⟩

/-- The clusters of evicted txids are closed, or keep a member that is still
tracked and that the node is asked about. -/
theorem tends_handleEvicted (truthful : env.Truthful) (reliable : env.Reliable)
    (small : env.SmallAnswers) (inv : Db.StoreInv [] s.db) {evictedTxids : List Txid}
    (h : s.handleEvicted env fuel evictedTxids = some (changes, next)) :
    Tends s next ∧ (next.mempoolLedger.degraded = false →
      ∀ txid ∈ evictedTxids, next.Covered txid ∨ next.Due txid) := by
  unfold handleEvicted at h
  by_cases nobody : evictedTxids = []
  · rw [if_pos nobody] at h
    cases h
    exact ⟨.refl _, by simp [nobody]⟩
  rw [if_neg nobody] at h
  obtain ⟨ids, found, meets⟩ := findActiveIdsByTxids_of_reliable reliable inv nobody
  rw [found] at h
  dsimp only at h
  have looks := silent_called env s
  split_ifs at h with none
  · cases h
    refine ⟨.of_db_eq looks.produced rfl, fun _ txid member => .inl (covered_of_apart ?_)⟩
    -- Nobody active has the evicted transaction, so nothing stale is left of it.
    rintro ⟨id, active, inMembers, -⟩
    have inIds := (meets id).mpr ⟨active, txid, member, inMembers⟩
    rw [none] at inIds
    cases inIds
  rw [query_of_reliable reliable] at h
  dsimp only at h
  set loaded := (s.called env).called env
  have toLoaded : Tends s loaded := .of_db_eq (looks.trans (silent_called env _)).produced rfl
  have loadedInv : Db.StoreInv [] loaded.db := inv
  obtain ⟨produced, midInv, without⟩ := markEvicted_of_reliable reliable loadedInv
    ((((s.db.findByIds ids).filter (touched evictedTxids)).filter fun cluster =>
      (remaining evictedTxids loaded.mempoolLedger.live cluster).isEmpty).map Cluster.id)
  set mid := (loaded.markEvicted env
    ((((s.db.findByIds ids).filter (touched evictedTxids)).filter fun cluster =>
      (remaining evictedTxids loaded.mempoolLedger.live cluster).isEmpty).map Cluster.id)).2
  set survivors := ((s.db.findByIds ids).filter (touched evictedTxids)).flatMap
    (remaining evictedTxids loaded.mempoolLedger.live)
  -- Closing the emptied clusters only takes transactions out.
  have closes : Tends s mid := toLoaded.trans (.of_without produced loadedInv without)
  change (if survivors = [] then some (_, mid) else Option.map _
    (mid.handleCandidatesCovering env fuel survivors evictedTxids.toFinset)) = _ at h
  split_ifs at h with noSurvivors
  · have done : mid = next := congrArg Prod.snd (Option.some.inj h)
    rw [← done]
    refine ⟨closes, fun _ txid member => .inl (covered_of_apart fun together => ?_)⟩
    -- A cluster left with the evicted transaction would have a survivor in it.
    obtain ⟨survivor, inSurvivors, -⟩ := exists_survivor inv meets without member together
    exact List.ne_nil_of_mem inSurvivors noSurvivors
  · obtain ⟨⟨synced, last⟩, syncs, merged⟩ := Option.map_eq_some_iff.mp h
    cases merged
    obtain ⟨asks, heard⟩ := tends_handleCandidatesCovering truthful reliable small midInv syncs
    have lastInv := (keeps_handleCandidatesCovering small midInv syncs).inv
    refine ⟨closes.trans asks, fun sound txid member => ?_⟩
    -- Either nobody has the transaction any more, or its cluster was asked about again.
    by_cases together : last.db.Together txid txid
    swap
    · exact .inl (covered_of_apart together)
    rcases asks.renews sound txid together with fits | same
    · exact .inl fits
    obtain ⟨survivor, inSurvivors, unevicted, isLive, withSurvivor⟩ :=
      exists_survivor inv meets without member ((same txid).mp together)
    -- The survivor stands for its cluster: covered with it, or owed a write.
    have still : last.db.Together txid survivor := (same survivor).mpr withSurvivor
    have tracked := produced.tracks (asks.produced.sound_before sound) (.inl isLive)
    rcases heard sound survivor inSurvivors (by simpa using unevicted) tracked with owed | covered
    · exact .inr ⟨survivor, still, owed⟩
    · left
      intro other shared
      apply covered other
      exact lastInv.together_trans still.symm shared

/-! ### Rounds -/

/-- A clustered txid that is not live shares its cluster with one whose removal
is queued, or that is among the `debts`. -/
def Accounted (debts : Txid → Prop) (s : ClusterService) : Prop :=
  ∀ txid, s.db.Together txid txid → txid ∈ s.mempoolLedger.live ∨
    ∃ owed, s.db.Together txid owed ∧ (s.mempoolLedger.Owes owed ∨ debts owed)

variable {debts : Txid → Prop}

theorem Accounted.tends (accounted : s.Accounted debts) (tends : Tends s next)
    (sound : next.mempoolLedger.degraded = false) : next.Accounted debts := by
  intro txid together
  have ofTracked (tracked : next.mempoolLedger.Tracks txid) : txid ∈ next.mempoolLedger.live ∨
      ∃ owed, next.db.Together txid owed ∧ (next.mempoolLedger.Owes owed ∨ debts owed) :=
    tracked.imp id fun owes => ⟨txid, together, .inl owes⟩
  rcases tends.renews sound txid together with fits | same
  · exact ofTracked (fits txid together)
  · rcases accounted txid ((same txid).mp together) with live | ⟨owed, shared, redeems⟩
    · exact ofTracked (tends.produced.tracks sound (.inl live))
    · exact .inr ⟨owed, (same owed).mpr shared, redeems.imp tends.produced.owes id⟩

/-- A debt is paid when its cluster is. -/
theorem Accounted.settle (accounted : s.Accounted debts) (inv : Db.StoreInv [] s.db)
    {left : Txid → Prop} (paid : ∀ owed, debts owed → left owed ∨ s.Covered owed ∨ s.Due owed) :
    s.Accounted left := by
  intro txid together
  rcases accounted txid together with live | ⟨owed, shared, owes | owing⟩
  · exact .inl live
  · exact .inr ⟨owed, shared, .inl owes⟩
  · rcases paid owed owing with remains | covered | ⟨other, withOther, owes⟩
    · exact .inr ⟨owed, shared, .inr remains⟩
    · exact (covered txid shared.symm).imp id fun owes => ⟨txid, together, .inl owes⟩
    · exact .inr ⟨other, inv.together_trans shared withOther, .inl owes⟩

theorem tends_publishDelta (changes : ClusterDeltaSet) (s : ClusterService) :
    Tends s (s.publishDelta changes) := .of_db_eq (.refl _) rfl

/-- A round after a flush pays for what the flush removed. -/
theorem accounted_syncClustersAfterFlush (truthful : env.Truthful) (reliable : env.Reliable)
    (small : env.SmallAnswers) (inv : Db.StoreInv [] s.db) (stored : s.db.ConfirmedStored)
    {addedTxids : List Txid} {outcome : FlushOutcome}
    (confirmed : ∀ txid ∈ outcome.confirmed, s.db.isConfirmed txid = true)
    (accounted : s.mempoolLedger.degraded = false →
      s.Accounted fun txid => txid ∈ outcome.confirmed ∨ txid ∈ outcome.evicted)
    (ran : (ClusterRound.syncClustersAfterFlush addedTxids outcome).run env fuel s = some next) :
    s.mempoolLedger.Produced next.mempoolLedger ∧
      (next.mempoolLedger.degraded = false → next.Accounted fun _ => False) := by
  simp only [ClusterRound.run, syncClusters, Option.bind_eq_bind, Option.pure_def] at ran
  obtain ⟨⟨_, first⟩, confirms, ran⟩ := Option.bind_eq_some_iff.mp ran
  obtain ⟨⟨_, second⟩, evicts, ran⟩ := Option.bind_eq_some_iff.mp ran
  obtain ⟨⟨_, third⟩, syncs, ran⟩ := Option.bind_eq_some_iff.mp ran
  -- a skipped stage leaves the service as it is, and has nobody to pay for
  obtain ⟨toFirst, paidFirst⟩ : Tends s first ∧ (first.mempoolLedger.degraded = false →
      ∀ txid ∈ outcome.confirmed, first.Covered txid) := by
    unfold stage at confirms
    split_ifs at confirms with nobody
    · cases confirms
      exact ⟨.refl _, by simp [nobody]⟩
    · exact tends_handleConfirmed truthful reliable small inv stored confirmed confirms
  have firstInv := (keeps_stage inv (keeps_handleConfirmed small inv) confirms).inv
  obtain ⟨toSecond, paidSecond⟩ : Tends first second ∧ (second.mempoolLedger.degraded = false →
      ∀ txid ∈ outcome.evicted, second.Covered txid ∨ second.Due txid) := by
    unfold stage at evicts
    split_ifs at evicts with nobody
    · cases evicts
      exact ⟨.refl _, by simp [nobody]⟩
    · exact tends_handleEvicted truthful reliable small firstInv evicts
  have secondInv := (keeps_stage firstInv (keeps_handleEvicted small firstInv) evicts).inv
  have toThird : Tends second third := by
    unfold stage at syncs
    split_ifs at syncs
    · cases syncs
      exact .refl _
    · exact (tends_handleCandidatesCovering truthful reliable small secondInv syncs).1
  have publishes : Tends third next := by
    rw [← Option.some.inj ran]
    split_ifs
    · exact .refl _
    · exact tends_publishDelta ..
  refine ⟨((toFirst.trans toSecond).trans (toThird.trans publishes)).produced, fun sound => ?_⟩
  have soundSecond := (toThird.trans publishes).produced.sound_before sound
  have soundFirst := toSecond.produced.sound_before soundSecond
  have owingEvicted : first.Accounted (· ∈ outcome.evicted) := by
    have soundStart := toFirst.produced.sound_before soundFirst
    apply ((accounted soundStart).tends toFirst soundFirst).settle firstInv
    rintro txid (mined | evicted)
    · exact .inr (.inl (paidFirst soundFirst txid mined))
    · exact .inl evicted
  have owingNobody : second.Accounted fun _ => False := by
    apply (owingEvicted.tends toSecond soundSecond).settle secondInv
    exact fun txid evicted => .inr (paidSecond soundSecond txid evicted)
  exact owingNobody.tends (toThird.trans publishes) sound

theorem tends_confirmMined (truthful : env.Truthful) (reliable : env.Reliable)
    (small : env.SmallAnswers) (inv : Db.StoreInv [] s.db) {block : MinedBlock}
    (ran : (ClusterRound.confirmMined block).run env fuel s = some next) : Tends s next := by
  obtain ⟨⟨changes, last⟩, inner, rfl⟩ := Option.map_eq_some_iff.mp ran
  exact (tends_confirmMinedInner truthful reliable small inv inner).1.trans (tends_publishDelta ..)

end ClusterService

end MempoolObserver
