import MempoolObserver.Services.ClusterStream

/-!
# The cluster list of a page

`useClusterDeltaSocket` folds the `cluster.delta` events it is handed into a map
from cluster ids to references. This module models its reducer, and one client
that subscribes to the bus, reads the snapshot some time later and is then handed
every event published since it subscribed.

The snapshot may be read in the middle of a publish round, so an event may repeat
writes that the snapshot already has, or carry writes older than it. The events
the client is still owed are absorbed by the snapshot at every moment, which is
the invariant that makes both harmless.

## Main results

* `live_applyDelta` — the reducer replays the writes of an event
* `StreamInv` — what a client and the events it is owed have in common with the
  snapshot, in every reachable state
* `live_eq_refs_of_drained` — a client that has processed everything holds the
  snapshot
-/

namespace MempoolObserver

open Replication

/-! ### The reducer -/

inductive ClusterUpdateKind where
  | new
  | changed
  deriving DecidableEq, Repr

structure ClusterUpdate where
  /-- How many upserts this cluster has had since it entered the set. -/
  revision : ℕ
  kind : ClusterUpdateKind
  deriving DecidableEq, Repr

/-- Ids are JSON numbers, exact up to `2 ^ 53`. -/
abbrev ClusterMap := ClusterId → Option ClusterRef

abbrev ClusterUpdateMap := ClusterId → Option ClusterUpdate

/-- What callers see while paused. -/
structure Frozen where
  clusters : ClusterMap
  updates : ClusterUpdateMap

structure PageState where
  live : ClusterMap
  liveUpdates : ClusterUpdateMap
  frozen : Option Frozen

def PageState.initialState : PageState := ⟨fun _ => none, fun _ => none, none⟩

namespace PageState

def upsertCluster (state : PageState) (cluster : ClusterRef) : PageState :=
  let known := (state.live cluster.id).isSome
  let revision := ((state.liveUpdates cluster.id).map ClusterUpdate.revision).getD 0 + 1
  { state with
    live := Function.update state.live cluster.id (some cluster)
    liveUpdates := Function.update state.liveUpdates cluster.id
      (some ⟨revision, if known then .changed else .new⟩) }

def deleteCluster (state : PageState) (id : ClusterId) : PageState :=
  { state with
    live := Function.update state.live id none
    liveUpdates := Function.update state.liveUpdates id none }

def applyDelta (state : PageState) (delta : ClusterDeltaEvent) : PageState :=
  delta.removed.foldl deleteCluster (delta.upserted.foldl upsertCluster state)

inductive Action where
  | delta (delta : ClusterDeltaEvent)
  | togglePause
  deriving DecidableEq, Repr

def reduce (state : PageState) : Action → PageState
  | .delta delta => state.applyDelta delta
  | .togglePause =>
    { state with
      frozen := match state.frozen with
        | none => some ⟨state.live, state.liveUpdates⟩
        | some _ => none }

/-- The reducer does to the map what the event's writes say. -/
@[simp] theorem live_applyDelta (state : PageState) (delta : ClusterDeltaEvent) :
    (state.applyDelta delta).live = replay delta.writes state.live := by
  have upserts (clusters : List ClusterRef) (state : PageState) :
      (clusters.foldl upsertCluster state).live =
        replay (clusters.map fun cluster => (cluster.id, some cluster)) state.live := by
    induction clusters generalizing state with
    | nil => rfl
    | cons cluster clusters ih => exact ih _
  have deletes (ids : List ClusterId) (state : PageState) :
      (ids.foldl deleteCluster state).live = replay (ids.map fun id => (id, none)) state.live := by
    induction ids generalizing state with
    | nil => rfl
    | cons id ids ih => exact ih _
  rw [applyDelta, deletes, upserts, ClusterDeltaEvent.writes, replay_append]

@[simp] theorem live_reduce_togglePause (state : PageState) :
    (state.reduce .togglePause).live = state.live := rfl

end PageState

/-! ### One client of the stream -/

/-- A client of the bus: not yet subscribed, subscribed with the snapshot still to
be read, or reading its frames. -/
inductive Subscription where
  | idle
  | waiting (events : List ClusterDeltaEvent)
  | streaming (frames : List ClusterDeltaEvent)

/-- The bus hands an event to whoever is subscribed. -/
def Subscription.deliver (event : Option ClusterDeltaEvent) : Subscription → Subscription
  | idle => idle
  | waiting events => waiting (events ++ event.toList)
  | streaming frames => streaming (frames ++ event.toList)

structure StreamWorld where
  service : ClusterDeltaService
  subscription : Subscription
  page : PageState

namespace StreamWorld

/-- One step of the server or of the client. -/
inductive Step : StreamWorld → StreamWorld → Prop
  | publish {w : StreamWorld} (action : PublishAction) {service : ClusterDeltaService}
      {event : Option ClusterDeltaEvent} :
      w.service.act action = some (service, event) →
      Step w { w with service := service, subscription := w.subscription.deliver event }
  | subscribe {w : StreamWorld} :
      w.subscription = .idle → Step w { w with subscription := .waiting [] }
  | read {w : StreamWorld} {events : List ClusterDeltaEvent} {ids : List ClusterId}
      (chunkSize : ℕ) :
      w.subscription = .waiting events → w.service.snapshot.Iterates ids →
      Step w ⟨w.service,
        .streaming (w.service.snapshot.getCurrentSnapshot ids chunkSize ++ events), w.page⟩
  | receive {w : StreamWorld} {frame : ClusterDeltaEvent} {frames : List ClusterDeltaEvent} :
      w.subscription = .streaming (frame :: frames) →
      Step w { w with subscription := .streaming frames, page := w.page.applyDelta frame }

/-- Nobody subscribed and no round in progress; the snapshot is whatever was seeded. -/
def initial (snapshot : ClusterSnapshot) : StreamWorld :=
  ⟨⟨snapshot, none⟩, .idle, .initialState⟩

/-- The states of a run from a seeded snapshot. -/
def Reachable (w : StreamWorld) : Prop :=
  ∃ snapshot, Relation.ReflTransGen Step (initial snapshot) w

/-- What the client is owed, by subscription state. Before the snapshot is read the
map is empty and the events are absorbed by the snapshot; from then on replaying
what is left gives the snapshot. -/
def Owed (w : StreamWorld) : Prop :=
  match w.subscription with
  | .idle => w.page.live = PageState.initialState.live ∧
      Absorbed w.service.pending w.service.snapshot.refs
  | .waiting events => w.page.live = PageState.initialState.live ∧
      Absorbed (writesOf events ++ w.service.pending) w.service.snapshot.refs
  | .streaming frames =>
      replay (writesOf frames ++ w.service.pending) w.page.live = w.service.snapshot.refs

structure StreamInv (w : StreamWorld) : Prop where
  ordered : w.service.Ordered
  owed : w.Owed

theorem streamInv_initial (snapshot : ClusterSnapshot) : (initial snapshot).StreamInv where
  ordered := ClusterDeltaService.ordered_of_idle rfl
  owed := ⟨rfl, absorbed_nil _⟩

/-- A publish action keeps the events owed in step with the snapshot. -/
theorem StreamInv.publish {w : StreamWorld} (inv : w.StreamInv) {action : PublishAction}
    {service : ClusterDeltaService} {event : Option ClusterDeltaEvent}
    (h : w.service.act action = some (service, event)) :
    StreamInv { w with service := service, subscription := w.subscription.deliver event } := by
  refine ⟨inv.ordered.act h, ?_⟩
  obtain ⟨new, refs, announced⟩ := ClusterDeltaService.act_writes inv.ordered h
  have owed := inv.owed
  unfold Owed at owed ⊢
  cases subscription : w.subscription with
  | idle =>
    -- nobody listens, so only the round in progress counts
    simp only [subscription, Subscription.deliver] at owed ⊢
    refine ⟨owed.1, ?_⟩
    rw [refs]
    have grown := owed.2.append new
    rw [← announced] at grown
    exact grown.of_append
  | waiting events =>
    simp only [subscription, Subscription.deliver] at owed ⊢
    refine ⟨owed.1, ?_⟩
    have grown := owed.2.append new
    rw [refs, writesOf_append, List.append_assoc, announced, ← List.append_assoc]
    exact grown
  | streaming frames =>
    simp only [subscription, Subscription.deliver] at owed ⊢
    rw [refs, writesOf_append, List.append_assoc, announced, ← List.append_assoc, replay_append,
      owed]

theorem StreamInv.step {w next : StreamWorld} (inv : w.StreamInv) (h : Step w next) :
    next.StreamInv := by
  have owed := inv.owed
  unfold Owed at owed
  cases h with
  | publish _ h => exact inv.publish h
  | subscribe idle =>
    rw [idle] at owed
    exact ⟨inv.ordered, owed⟩
  | @read events ids chunkSize waiting iterates =>
    rw [waiting] at owed
    obtain ⟨empty, absorbed⟩ := owed
    refine ⟨inv.ordered, ?_⟩
    change replay _ w.page.live = _
    rw [writesOf_append, List.append_assoc, replay_append, absorbed.replay_eq_iff]
    intro id _
    rw [ClusterSnapshot.replay_getCurrentSnapshot iterates, empty]
    split_ifs with tracked
    · rfl
    · simp_all [ClusterSnapshot.refs, PageState.initialState]
  | receive streaming =>
    rw [streaming] at owed
    refine ⟨inv.ordered, ?_⟩
    change replay _ (PageState.live _) = _
    rw [PageState.live_applyDelta, ← replay_append, ← List.append_assoc]
    exact owed

theorem StreamInv.of_reachable {w : StreamWorld} (reachable : w.Reachable) : w.StreamInv := by
  obtain ⟨snapshot, run⟩ := reachable
  induction run with
  | refl => exact streamInv_initial snapshot
  | tail _ step ih => exact ih.step step

/-- Once the rounds are over and a subscribed client has processed every frame, its
map is the snapshot: the same ids, each with the reference of its current state. -/
theorem live_eq_refs_of_drained {w : StreamWorld} (reachable : w.Reachable)
    (idle : w.service.publishing = none) (drained : w.subscription = .streaming []) :
    w.page.live = w.service.snapshot.refs := by
  have owed := (StreamInv.of_reachable reachable).owed
  unfold Owed at owed
  rw [drained] at owed
  simpa [ClusterDeltaService.pending, idle] using owed

/-- A client that subscribes before the round's only mutation and reads the snapshot
before its event: the cluster reaches it twice. -/
theorem live_eq_refs_of_subscribed_mid_round :
    ∃ w : StreamWorld, w.Reachable ∧ w.page.live 1 = some (reference 1 ⟨[], 400, 7, 0⟩) ∧
      (w.page.liveUpdates 1).map ClusterUpdate.revision = some 2 ∧
      w.page.live = w.service.snapshot.refs := by
  have iterates : ClusterSnapshot.Iterates
      (ClusterSnapshot.upsert (fun _ => none) ⟨1, [], 400, 7, 0⟩) [1] := by
    refine ⟨List.nodup_singleton 1, fun id => ?_⟩
    rw [ClusterSnapshot.upsert_eq, Function.update_apply]
    split_ifs with same <;> simp_all
  have run := Relation.ReflTransGen.refl (r := Step) (a := initial fun _ => none)
    |>.tail (.publish (.publish [⟨1, [], 400, 7, 0⟩] []) rfl)
    |>.tail (.subscribe rfl)
    |>.tail (.publish .mutate rfl)
    |>.tail (.read 1000 rfl iterates)
    |>.tail (.publish .send rfl)
    |>.tail (.receive rfl)
    |>.tail (.receive rfl)
  exact ⟨_, ⟨_, run⟩, rfl, rfl, live_eq_refs_of_drained ⟨_, run⟩ rfl rfl⟩

end StreamWorld

end MempoolObserver
