import MempoolObserver.Library.Replication
import MempoolObserver.Services.ClusterDelta

/-!
# Streaming cluster changes

`ClusterDeltaService::publish` records a mutation round in the snapshot, one
locked mutation at a time, and puts what really changed on the bus as a single
`ClusterDeltaEvent`. A new subscriber is sent the whole snapshot in frames of a
bounded size. The round is modelled by its individual mutations, since a
subscriber may read the snapshot between any two of them.

Seen by a subscriber, the snapshot is a map from cluster ids to references and an
event is a log of writes to it. `ClusterDeltaService.act_writes` is all that the
rest of the development uses of the loop: whatever an action does to the
snapshot, it adds to the writes that are on the bus or about to be.

## Main results

* `ClusterDeltaService.act_writes` — no change of the snapshot goes unannounced
* `ClusterDeltaService.acts_round` — a round run to its end is the atomic
  `ClusterSnapshot.publish`
* `ClusterSnapshot.writes_getCurrentSnapshot` — the frames of a snapshot, however
  they are cut, are its contents
-/

namespace MempoolObserver

open Replication Collections

/-! ### Events -/

structure ClusterChunkRef where
  txids : List Txid
  fee : Int64
  vsize : Int64
  deriving DecidableEq, Repr

structure ClusterRef where
  id : ClusterId
  chunks : List ClusterChunkRef
  totalVsize : Int64
  totalFee : Int64
  firstSeenAt : OffsetDateTime
  deriving DecidableEq, Repr

structure ClusterDeltaEvent where
  upserted : List ClusterRef
  removed : List ClusterId
  deriving DecidableEq, Repr

/-- BIP141 vsize: the weight in whole virtual bytes, rounded up. -/
def vsizeFromWeight (weight : Int64) : Int64 :=
  let wu := weight.toUInt64
  (wu / 4 + if wu % 4 = 0 then 0 else 1).toInt64

def reference (id : ClusterId) (state : ClusterState) : ClusterRef where
  id := id
  chunks := state.chunks.map fun chunk =>
    ⟨chunk.txids, chunk.feeSats.toInt64, vsizeFromWeight chunk.weight.toInt64⟩
  totalVsize := vsizeFromWeight state.totalWeight
  totalFee := state.totalFee
  firstSeenAt := state.firstSeenAt

namespace ClusterDeltaEvent

def default : ClusterDeltaEvent := ⟨[], []⟩

def isEmpty (event : ClusterDeltaEvent) : Bool := event.upserted.isEmpty && event.removed.isEmpty

/-- What the event does to a map of references: the upserts, then the removals. -/
def writes (event : ClusterDeltaEvent) : List (Write ClusterId ClusterRef) :=
  event.upserted.map (fun cluster => (cluster.id, some cluster)) ++
    event.removed.map fun id => (id, none)

theorem writes_of_isEmpty {event : ClusterDeltaEvent} (empty : event.isEmpty) :
    event.writes = [] := by
  simp only [isEmpty, Bool.and_eq_true, List.isEmpty_iff] at empty
  simp [writes, empty]

end ClusterDeltaEvent

/-- The writes of a sequence of events. -/
def writesOf (events : List ClusterDeltaEvent) : List (Write ClusterId ClusterRef) :=
  events.flatMap ClusterDeltaEvent.writes

@[simp] theorem writesOf_nil : writesOf [] = [] := rfl

@[simp] theorem writesOf_cons (event : ClusterDeltaEvent) (events : List ClusterDeltaEvent) :
    writesOf (event :: events) = event.writes ++ writesOf events := rfl

@[simp] theorem writesOf_append (events more : List ClusterDeltaEvent) :
    writesOf (events ++ more) = writesOf events ++ writesOf more :=
  List.flatMap_append

/-! ### The snapshot as its subscribers see it -/

namespace ClusterSnapshot

/-- What `upsert` returns: the reference of a cluster that is new or changed. -/
def upsertReference (snapshot : ClusterSnapshot) (cluster : ActiveCluster) : Option ClusterRef :=
  if snapshot cluster.id = some cluster.state then none
  else some (reference cluster.id cluster.state)

/-- What `remove` returns: whether the cluster was tracked. -/
def isTracked (snapshot : ClusterSnapshot) (id : ClusterId) : Bool := (snapshot id).isSome

/-- Every tracked cluster with the reference of its current state. -/
def refs (snapshot : ClusterSnapshot) (id : ClusterId) : Option ClusterRef :=
  (snapshot id).map (reference id)

theorem refs_update (snapshot : ClusterSnapshot) (id : ClusterId) (state : Option ClusterState) :
    ClusterSnapshot.refs (Function.update snapshot id state) =
      Function.update snapshot.refs id (state.map (reference id)) := by
  funext other
  by_cases same : other = id
  · subst same
    simp [refs]
  · simp [refs, Function.update_of_ne same]

/-- The upsert and the reference it returns say the same. -/
theorem refs_upsert (snapshot : ClusterSnapshot) (cluster : ActiveCluster) :
    (snapshot.upsert cluster).refs =
      replay ((snapshot.upsertReference cluster).toList.map fun ref => (ref.id, some ref))
        snapshot.refs := by
  unfold upsert upsertReference
  split_ifs
  · rfl
  · exact refs_update ..

theorem refs_remove (snapshot : ClusterSnapshot) (id : ClusterId) :
    (snapshot.remove id).refs =
      replay ((if snapshot.isTracked id then [id] else []).map fun id => (id, none))
        snapshot.refs := by
  have removed : (snapshot.remove id).refs = Function.update snapshot.refs id none :=
    refs_update ..
  rw [removed]
  split_ifs with tracked
  · rfl
  · -- an untracked cluster is not announced, and dropping it changes nothing
    refine Function.update_eq_self_iff.mpr ?_
    rw [isTracked, Option.isSome_iff_ne_none, not_not] at tracked
    rw [refs, tracked, Option.map_none]

/-- An order in which the hash map may be iterated: every tracked cluster once. -/
structure Iterates (snapshot : ClusterSnapshot) (ids : List ClusterId) : Prop where
  nodup : ids.Nodup
  mem_iff : ∀ id, id ∈ ids ↔ (snapshot id).isSome

/-- The full active set as `upserted`-only events, at most `chunkSize` clusters each. -/
def getCurrentChunked (snapshot : ClusterSnapshot) (ids : List ClusterId) (chunkSize : ℕ) :
    List ClusterDeltaEvent :=
  (slices (max chunkSize 1) (ids.filterMap snapshot.refs)).map fun upserted => ⟨upserted, []⟩

/-- The frames for a new subscriber; an empty set still makes one frame. -/
def getCurrentSnapshot (snapshot : ClusterSnapshot) (ids : List ClusterId) (chunkSize : ℕ) :
    List ClusterDeltaEvent :=
  let frames := snapshot.getCurrentChunked ids chunkSize
  if frames.isEmpty then [.default] else frames

private theorem writesOf_upserted (slices : List (List ClusterRef)) :
    writesOf (slices.map fun upserted => ⟨upserted, []⟩) =
      slices.flatten.map fun cluster => (cluster.id, some cluster) := by
  induction slices with
  | nil => rfl
  | cons slice slices ih =>
    rw [List.map_cons, writesOf_cons, ih, List.flatten_cons, List.map_append]
    simp [ClusterDeltaEvent.writes]

private theorem map_filterMap_refs {snapshot : ClusterSnapshot} {ids : List ClusterId}
    (tracked : ∀ id ∈ ids, (snapshot id).isSome) :
    (ids.filterMap snapshot.refs).map (fun cluster => (cluster.id, some cluster)) =
      contents snapshot.refs ids := by
  induction ids with
  | nil => rfl
  | cons id ids ih =>
    obtain ⟨state, stored⟩ := Option.isSome_iff_exists.mp (tracked id List.mem_cons_self)
    have found : snapshot.refs id = some (reference id state) := by rw [refs, stored]; rfl
    rw [List.filterMap_cons_some found, List.map_cons,
      ih fun other member => tracked other (List.mem_cons_of_mem _ member)]
    simp [contents, found, reference]

/-- The frames of a snapshot, however they are cut, write its contents. -/
theorem writes_getCurrentSnapshot {snapshot : ClusterSnapshot} {ids : List ClusterId}
    (iterates : snapshot.Iterates ids) (chunkSize : ℕ) :
    writesOf (snapshot.getCurrentSnapshot ids chunkSize) = contents snapshot.refs ids := by
  have positive : 0 < max chunkSize 1 := by omega
  have chunked : writesOf (snapshot.getCurrentChunked ids chunkSize) =
      contents snapshot.refs ids := by
    rw [getCurrentChunked, writesOf_upserted, slices_flatten positive]
    exact map_filterMap_refs fun id member => (iterates.mem_iff id).mp member
  rw [getCurrentSnapshot]
  split_ifs with empty
  · rw [← chunked, List.isEmpty_iff.mp empty]
    rfl
  · exact chunked

/-- Replaying a snapshot's frames over a map: tracked clusters are as tracked, the
others as they were. -/
theorem replay_getCurrentSnapshot {snapshot : ClusterSnapshot} {ids : List ClusterId}
    (iterates : snapshot.Iterates ids) (chunkSize : ℕ) (map : ClusterId → Option ClusterRef)
    (id : ClusterId) :
    replay (writesOf (snapshot.getCurrentSnapshot ids chunkSize)) map id =
      if (snapshot id).isSome then snapshot.refs id else map id := by
  rw [writes_getCurrentSnapshot iterates, replay_contents]
  simp only [iterates.mem_iff id]

end ClusterSnapshot

/-! ### A publish round, mutation by mutation -/

/-- A call of `publish` in progress: what is left of both loops, and the event. -/
structure Publication where
  upserted : List ActiveCluster
  removed : List ClusterId
  event : ClusterDeltaEvent
  deriving DecidableEq, Repr

structure ClusterDeltaService where
  snapshot : ClusterSnapshot
  publishing : Option Publication

/-- The atomic pieces of `publish`: entering it, one locked mutation, the send. -/
inductive PublishAction where
  | publish (upserted : List ActiveCluster) (removed : List ClusterId)
  | mutate
  | send
  deriving DecidableEq, Repr

namespace ClusterDeltaService

/-- One piece of `publish`, with the event it puts on the bus. Rounds do not overlap. -/
def act (service : ClusterDeltaService) : PublishAction →
    Option (ClusterDeltaService × Option ClusterDeltaEvent)
  | .publish upserted removed =>
    match service.publishing with
    | none => some ({ service with publishing := some ⟨upserted, removed, .default⟩ }, none)
    | some _ => none
  | .mutate =>
    match service.publishing with
    | some ⟨cluster :: upserted, removed, event⟩ =>
      let reported := (service.snapshot.upsertReference cluster).toList
      some (⟨service.snapshot.upsert cluster,
        some ⟨upserted, removed, { event with upserted := event.upserted ++ reported }⟩⟩, none)
    | some ⟨[], id :: removed, event⟩ =>
      -- only tell clients about clusters they actually knew were active
      let reported := if service.snapshot.isTracked id then [id] else []
      some (⟨service.snapshot.remove id,
        some ⟨[], removed, { event with removed := event.removed ++ reported }⟩⟩, none)
    | _ => none
  | .send =>
    match service.publishing with
    | some ⟨[], [], event⟩ =>
      some ({ service with publishing := none }, if event.isEmpty then none else some event)
    | _ => none

/-- Several pieces in a row, with the events they put on the bus. -/
def acts (service : ClusterDeltaService) : List PublishAction →
    Option (ClusterDeltaService × List ClusterDeltaEvent)
  | [] => some (service, [])
  | action :: actions => do
    let (service, event) ← service.act action
    let (service, events) ← service.acts actions
    some (service, event.toList ++ events)

/-- The writes already made to the snapshot that the round in progress will announce. -/
def pending (service : ClusterDeltaService) : List (Write ClusterId ClusterRef) :=
  service.publishing.elim [] fun round => round.event.writes

/-- Removals are collected only after the last upsert, so that the event's two
lists keep the order in which the snapshot was written. -/
def Ordered (service : ClusterDeltaService) : Prop :=
  ∀ round, service.publishing = some round → round.upserted ≠ [] → round.event.removed = []

theorem ordered_of_idle {service : ClusterDeltaService} (idle : service.publishing = none) :
    service.Ordered := by
  intro round publishing
  rw [idle] at publishing
  cases publishing

variable {service next : ClusterDeltaService} {action : PublishAction}
  {event : Option ClusterDeltaEvent}

theorem Ordered.act (ordered : service.Ordered) (h : service.act action = some (next, event)) :
    next.Ordered := by
  intro round publishing left
  cases action with
  | publish upserted removed =>
    simp only [ClusterDeltaService.act] at h
    split at h <;> cases h
    cases publishing
    rfl
  | mutate =>
    simp only [ClusterDeltaService.act] at h
    split at h <;> cases h
    · rename_i was
      cases publishing
      exact (ordered _ was (List.cons_ne_nil _ _) :)
    · cases publishing
      exact absurd rfl left
  | send =>
    simp only [ClusterDeltaService.act] at h
    split at h <;> cases h
    cases publishing

/-- Every change an action makes to the snapshot is on the bus or about to be: the
writes it makes extend, in order, those that were still to be announced. -/
theorem act_writes (ordered : service.Ordered) (h : service.act action = some (next, event)) :
    ∃ new, next.snapshot.refs = replay new service.snapshot.refs ∧
      writesOf event.toList ++ next.pending = service.pending ++ new := by
  cases action with
  | publish upserted removed =>
    simp only [act] at h
    split at h <;> cases h
    refine ⟨[], rfl, ?_⟩
    simp_all [pending, ClusterDeltaEvent.writes, ClusterDeltaEvent.default]
  | mutate =>
    simp only [act] at h
    split at h <;> cases h
    · rename_i cluster upserted removed event publishing
      refine ⟨_, ClusterSnapshot.refs_upsert .., ?_⟩
      have none_removed : event.removed = [] := ordered _ publishing (List.cons_ne_nil _ _)
      simp [pending, publishing, ClusterDeltaEvent.writes, none_removed]
    · rename_i id removed event publishing
      refine ⟨_, ClusterSnapshot.refs_remove .., ?_⟩
      simp [pending, publishing, ClusterDeltaEvent.writes]
  | send =>
    simp only [act] at h
    split at h <;> cases h
    rename_i event publishing
    refine ⟨[], rfl, ?_⟩
    by_cases empty : event.isEmpty
    · simp [pending, publishing, empty, ClusterDeltaEvent.writes_of_isEmpty empty]
    · simp [pending, publishing, empty]

/-- The pieces of one whole call of `publish`. -/
def round (upserted : List ActiveCluster) (removed : List ClusterId) : List PublishAction :=
  .publish upserted removed ::
    (List.replicate (upserted.length + removed.length) .mutate ++ [.send])

private theorem acts_removing (removed : List ClusterId) (snapshot : ClusterSnapshot)
    (event : ClusterDeltaEvent) :
    ∃ events, acts ⟨snapshot, some ⟨[], removed, event⟩⟩
        (List.replicate removed.length .mutate ++ [.send]) =
      some (⟨removed.foldl ClusterSnapshot.remove snapshot, none⟩, events) := by
  induction removed generalizing snapshot event with
  | nil => exact ⟨_, rfl⟩
  | cons id removed ih =>
    obtain ⟨events, ran⟩ := ih (snapshot.remove id)
      { event with removed := event.removed ++ if snapshot.isTracked id then [id] else [] }
    refine ⟨events, ?_⟩
    rw [List.length_cons, List.replicate_succ, List.cons_append, acts, act]
    simp [ran]

private theorem acts_upserting (upserted : List ActiveCluster) (removed : List ClusterId)
    (snapshot : ClusterSnapshot) (event : ClusterDeltaEvent) :
    ∃ events, acts ⟨snapshot, some ⟨upserted, removed, event⟩⟩
        (List.replicate (upserted.length + removed.length) .mutate ++ [.send]) =
      some (⟨removed.foldl ClusterSnapshot.remove (upserted.foldl ClusterSnapshot.upsert snapshot),
        none⟩, events) := by
  induction upserted generalizing snapshot event with
  | nil => simpa using acts_removing removed snapshot event
  | cons cluster upserted ih =>
    obtain ⟨events, ran⟩ := ih (snapshot.upsert cluster)
      { event with upserted := event.upserted ++ (snapshot.upsertReference cluster).toList }
    refine ⟨events, ?_⟩
    rw [List.length_cons, Nat.add_right_comm, List.replicate_succ, List.cons_append, acts, act]
    simp [ran]

/-- A round run to its end leaves the snapshot that publishing its change set at
once leaves. -/
theorem acts_round (snapshot : ClusterSnapshot) (changes : ClusterDeltaSet) :
    ∃ events, acts ⟨snapshot, none⟩ (round changes.upserted.reverse changes.removed) =
      some (⟨snapshot.publish changes, none⟩, events) := by
  obtain ⟨events, ran⟩ :=
    acts_upserting changes.upserted.reverse changes.removed snapshot .default
  refine ⟨events, ?_⟩
  rw [round, acts, act]
  simpa [ClusterSnapshot.publish] using ran

end ClusterDeltaService

end MempoolObserver
