import MempoolObserver.Services.WsConnection

/-!
# The tasks of a connection

## Main results

* `frames_in_order` — no task's frames are lost, repeated or reordered on an open connection
* `live_tasks_eq_subscriptions` — the tasks follow the client's frames
-/

namespace MempoolObserver

open Runs

namespace WsConnection

/-! ### The tasks that live -/

/-- The subscription map names the tasks that are not aborted, and none lives without the
loop. -/
structure TaskInv (w : WsConnection) : Prop where
  registered : w.looping = true → ∀ subject id, w.subscriptions subject = some id →
    ∃ task, w.tasks id = some task ∧ task.subject = subject ∧ task.aborted = false
  live : ∀ id task, w.tasks id = some task → task.aborted = false →
    w.looping = true ∧ w.subscriptions task.subject = some id
  unspawned : ∀ id, w.spawned ≤ id → w.tasks id = none

section TaskSteps

variable {w next : WsConnection} {id : TaskId} {task : WsTask} {action : WsAction}

theorem taskInv_fresh : fresh.TaskInv where
  registered _ _ _ named := by cases named
  live _ _ spawned := by cases spawned
  unspawned _ _ := rfl

/-- A task that goes on with its frames keeps its subject and whether it is aborted. -/
theorem TaskInv.setTask (inv : w.TaskInv) (held : w.tasks id = some task) {after : WsTask}
    (subject : after.subject = task.subject) (aborted : after.aborted = task.aborted) :
    (w.setTask id after).TaskInv where
  registered looping other owner named := by
    obtain ⟨found, listed, same, alive⟩ := inv.registered looping other owner named
    by_cases here : owner = id
    · subst here
      obtain rfl : task = found := Option.some.inj (held.symm.trans listed)
      exact ⟨after, by simp [WsConnection.setTask], subject.trans same, aborted.trans alive⟩
    · exact ⟨found, by simpa [WsConnection.setTask, Function.update_of_ne here] using listed,
        same, alive⟩
  live other found listed alive := by
    by_cases here : other = id
    · subst here
      obtain rfl : after = found := by simpa [WsConnection.setTask] using listed
      rw [subject]
      exact inv.live other task held (aborted ▸ alive)
    · exact inv.live other found
        (by simpa [WsConnection.setTask, Function.update_of_ne here] using listed) alive
  unspawned other late := by
    have differs : other ≠ id := by
      rintro rfl
      rw [inv.unspawned other late] at held
      cases held
    simpa [WsConnection.setTask, Function.update_of_ne differs] using inv.unspawned other late

theorem TaskInv.enqueue (inv : w.TaskInv) (frame : OutFrame) : (w.enqueue frame).TaskInv :=
  ⟨inv.registered, inv.live, inv.unspawned⟩

theorem TaskInv.push (inv : w.TaskInv) (held : w.tasks id = some task) {after : WsTask}
    (text : String) (subject : after.subject = task.subject)
    (aborted : after.aborted = task.aborted) : (w.push id after text).TaskInv := by
  unfold WsConnection.push
  split_ifs
  · apply TaskInv.enqueue
    exact inv.setTask held subject aborted
  · exact inv.setTask held subject aborted

theorem TaskInv.spawnSubscription (inv : w.TaskInv) (looping : w.looping = true)
    {subject : WsSubject} (absent : w.subscriptions subject = none) :
    (w.spawnSubscription subject).TaskInv where
  registered _ other owner named := by
    by_cases here : other = subject
    · subst here
      obtain rfl : w.spawned = owner := by
        simpa [WsConnection.spawnSubscription] using named
      exact ⟨⟨other, [], none, false, false⟩, by simp [WsConnection.spawnSubscription], rfl, rfl⟩
    · have before : w.subscriptions other = some owner := by
        simpa [WsConnection.spawnSubscription, Function.update_of_ne here] using named
      obtain ⟨task, listed, rest⟩ := inv.registered looping other owner before
      have old : owner ≠ w.spawned := by
        rintro rfl
        rw [inv.unspawned w.spawned le_rfl] at listed
        cases listed
      exact ⟨task, by simpa [WsConnection.spawnSubscription, Function.update_of_ne old]
        using listed, rest⟩
  live other task listed alive := by
    by_cases here : other = w.spawned
    · subst here
      obtain rfl : ⟨subject, [], none, false, false⟩ = task := by
        simpa [WsConnection.spawnSubscription] using listed
      exact ⟨looping, by simp [WsConnection.spawnSubscription]⟩
    · have before : w.tasks other = some task := by
        simpa [WsConnection.spawnSubscription, Function.update_of_ne here] using listed
      obtain ⟨-, named⟩ := inv.live other task before alive
      have differs : task.subject ≠ subject := by
        intro same
        rw [same, absent] at named
        cases named
      exact ⟨looping, by
        simpa [WsConnection.spawnSubscription, Function.update_of_ne differs] using named⟩
  unspawned other late := by
    have differs : other ≠ w.spawned := (Nat.lt_of_succ_le late).ne'
    simpa [WsConnection.spawnSubscription, Function.update_of_ne differs] using
      inv.unspawned other (Nat.le_of_succ_le late)

theorem TaskInv.unsubscribe (inv : w.TaskInv) (looping : w.looping = true) {subject : WsSubject}
    (named : w.subscriptions subject = some id) :
    TaskInv { w.abort id with
      subscriptions := Function.update w.subscriptions subject none } where
  registered _ other owner kept := by
    have here : other ≠ subject := by
      rintro rfl
      simp at kept
    have before : w.subscriptions other = some owner := by
      simpa [Function.update_of_ne here] using kept
    obtain ⟨task, listed, same, alive⟩ := inv.registered looping other owner before
    have differs : owner ≠ id := by
      rintro rfl
      obtain ⟨mine, found, owned, -⟩ := inv.registered looping subject owner named
      obtain rfl : task = mine := Option.some.inj (listed.symm.trans found)
      exact here (same.symm.trans owned)
    exact ⟨task, by simpa [abort, Function.update_of_ne differs] using listed, same, alive⟩
  live other task listed alive := by
    have differs : other ≠ id := by
      rintro rfl
      simp only [abort, Function.update_self, Option.map_eq_some_iff] at listed
      obtain ⟨before, -, rfl⟩ := listed
      cases alive
    have before : w.tasks other = some task := by
      simpa [abort, Function.update_of_ne differs] using listed
    obtain ⟨-, owned⟩ := inv.live other task before alive
    refine ⟨looping, ?_⟩
    have apart : task.subject ≠ subject := by
      intro same
      rw [same, named] at owned
      exact differs (Option.some.inj owned).symm
    simpa [Function.update_of_ne apart] using owned
  unspawned other late := by
    by_cases here : other = id
    · subst here
      simp [abort, inv.unspawned other late]
    · simpa [abort, Function.update_of_ne here] using inv.unspawned other late

theorem TaskInv.handleClientFrame (inv : w.TaskInv) (looping : w.looping = true)
    (frame : Except String ClientFrame) : (w.handleClientFrame frame).TaskInv := by
  unfold WsConnection.handleClientFrame
  split
  · unfold sendEvent
    split_ifs
    · exact inv.enqueue _
    · exact inv
  · split
    · exact inv
    · next absent => exact inv.spawnSubscription looping absent
  · split
    · next named => exact inv.unsubscribe looping named
    · exact inv

/-- The end of the loop aborts every task that was not aborted before. -/
theorem TaskInv.endLoop (inv : w.TaskInv) : w.endLoop.TaskInv where
  registered looping := by cases looping
  live id task listed alive := by
    obtain ⟨before, held, same⟩ := Option.map_eq_some_iff.mp listed
    split_ifs at same with owned
    · subst same
      cases alive
    · subst same
      exact absurd (inv.live id before held alive).2 owned
  unspawned id late := by
    simp [WsConnection.endLoop, inv.unspawned id late]

theorem TaskInv.step (inv : w.TaskInv) (stepped : w.step action = some next) : next.TaskInv := by
  cases action with
  | inbound frame =>
    simp only [WsConnection.step] at stepped
    split_ifs at stepped with looping
    obtain rfl := Option.some.inj stepped
    exact inv.handleClientFrame looping frame
  | send accepted =>
    simp only [WsConnection.step] at stepped
    split at stepped
    · split_ifs at stepped
      · obtain rfl := Option.some.inj stepped
        exact ⟨inv.registered, inv.live, inv.unspawned⟩
      · obtain rfl := Option.some.inj stepped
        exact inv.endLoop
    · cases stepped
  | hangUp =>
    simp only [WsConnection.step] at stepped
    split_ifs at stepped
    obtain rfl := Option.some.inj stepped
    exact inv.endLoop
  | produce id text =>
    simp only [WsConnection.step] at stepped
    split at stepped
    · next task held =>
      split_ifs at stepped
      · obtain rfl := Option.some.inj stepped
        exact inv.setTask held rfl rfl
      · obtain rfl := Option.some.inj stepped
        exact inv.push held text rfl rfl
    · cases stepped
  | unpark id =>
    simp only [WsConnection.step] at stepped
    split at stepped
    · next task held =>
      split at stepped
      · next text _ =>
        split_ifs at stepped
        obtain rfl := Option.some.inj stepped
        exact inv.push held text rfl rfl
      · cases stepped
    · cases stepped
  | finish id =>
    simp only [WsConnection.step] at stepped
    split at stepped
    · next task held =>
      split_ifs at stepped
      obtain rfl := Option.some.inj stepped
      exact inv.setTask held rfl rfl
    · cases stepped
  | cancel id =>
    simp only [WsConnection.step] at stepped
    split at stepped
    · next task held =>
      split_ifs at stepped
      obtain rfl := Option.some.inj stepped
      exact inv.setTask held rfl rfl
    · cases stepped

/-- While the loop runs, the keys of the subscription map. -/
def Subscribed (w : WsConnection) (subjects : Finset WsSubject) : Prop :=
  w.looping = true → ∀ subject, (w.subscriptions subject).isSome = true ↔ subject ∈ subjects

/-- What an action does to the keys of the subscription map. -/
def subscribedAfter (subjects : Finset WsSubject) (action : WsAction) : Finset WsSubject :=
  match action.clientFrame with
  | some frame => MempoolObserver.handleClientFrame subjects frame
  | none => subjects

theorem Subscribed.handleClientFrame {subjects : Finset WsSubject}
    (subscribed : w.Subscribed subjects) (looping : w.looping = true)
    (frame : Except String ClientFrame) :
    (w.handleClientFrame frame).Subscribed (subscribedAfter subjects (.inbound frame)) := by
  have keys := subscribed looping
  intro _ other
  match frame with
  | .error e =>
    simp only [WsConnection.handleClientFrame, sendEvent, subscribedAfter, WsAction.clientFrame]
    split_ifs <;> exact keys other
  | .ok (.subscribe subject) =>
    simp only [WsConnection.handleClientFrame, subscribedAfter, WsAction.clientFrame,
      MempoolObserver.handleClientFrame, Finset.mem_insert]
    split
    · next named =>
      -- a second `subscribe` changes nothing
      rw [keys other, iff_or_self]
      rintro rfl
      rw [← keys other, named]
      rfl
    · by_cases here : other = subject
      · simp [WsConnection.spawnSubscription, here]
      · simp [WsConnection.spawnSubscription, here, keys other]
  | .ok (.unsubscribe subject) =>
    simp only [WsConnection.handleClientFrame, subscribedAfter, WsAction.clientFrame,
      MempoolObserver.handleClientFrame, Finset.mem_erase]
    split
    · by_cases here : other = subject
      · simp [here]
      · simp [here, keys other]
    · next absent =>
      rw [keys other]
      constructor
      · intro member
        refine ⟨?_, member⟩
        rintro rfl
        rw [← keys other, absent] at member
        cases member
      · exact And.right

theorem Subscribed.step {subjects : Finset WsSubject} (subscribed : w.Subscribed subjects)
    (stepped : w.step action = some next) : next.Subscribed (subscribedAfter subjects action) := by
  cases action with
  | inbound frame =>
    simp only [WsConnection.step] at stepped
    split_ifs at stepped with looping
    obtain rfl := Option.some.inj stepped
    exact subscribed.handleClientFrame looping frame
  | send accepted =>
    simp only [WsConnection.step] at stepped
    split at stepped
    · split_ifs at stepped
      · obtain rfl := Option.some.inj stepped
        exact subscribed
      · obtain rfl := Option.some.inj stepped
        exact fun looping => by cases looping
    · cases stepped
  | hangUp =>
    simp only [WsConnection.step] at stepped
    split_ifs at stepped
    obtain rfl := Option.some.inj stepped
    exact fun looping => by cases looping
  | produce id text =>
    simp only [WsConnection.step] at stepped
    split at stepped
    · split_ifs at stepped
      · obtain rfl := Option.some.inj stepped
        exact subscribed
      · obtain rfl := Option.some.inj stepped
        simp only [WsConnection.push]
        split_ifs <;> exact subscribed
    · cases stepped
  | unpark id =>
    simp only [WsConnection.step] at stepped
    split at stepped
    · split at stepped
      · split_ifs at stepped
        obtain rfl := Option.some.inj stepped
        simp only [WsConnection.push]
        split_ifs <;> exact subscribed
      · cases stepped
    · cases stepped
  | finish id =>
    simp only [WsConnection.step] at stepped
    split at stepped
    · split_ifs at stepped
      obtain rfl := Option.some.inj stepped
      exact subscribed
    · cases stepped
  | cancel id =>
    simp only [WsConnection.step] at stepped
    split at stepped
    · split_ifs at stepped
      obtain rfl := Option.some.inj stepped
      exact subscribed
    · cases stepped

end TaskSteps

/-- A task of the subject that is not aborted. -/
def Lives (w : WsConnection) (subject : WsSubject) (id : TaskId) : Prop :=
  ∃ task, w.tasks id = some task ∧ task.subject = subject ∧ task.aborted = false

end WsConnection

/-! ### Runs -/

section Results

open WsConnection

variable {actions : List WsAction} {w : WsConnection}

/-- The queue never holds more than its capacity, and dies with the loop. Of each task the socket
has been given a first part of what its stream produced, in order. While the loop runs, what a
running task has not got through is in the queue or waits for room, and a task that has stopped
loses one frame at most. -/
theorem frames_in_order (ran : run step WsConnection.fresh actions = some w) :
    w.outbound.length ≤ outboundChannelCapacity ∧ (w.looping = false → w.outbound = []) ∧
      ∀ id task, w.tasks id = some task →
        sentBy id w.delivered <+: task.produced ∧
        (w.looping = true →
          (task.stopped = false →
            sentBy id w.delivered ++ sentBy id w.outbound ++ task.parked.toList =
              task.produced) ∧
          task.produced.length ≤
            (sentBy id w.delivered ++ sentBy id w.outbound ++ task.parked.toList).length + 1) := by
  have inv : w.FrameInv :=
    run_induction (fun _ _ _ held stepped => held.step stepped) frameInv_fresh ran
  refine ⟨inv.fits, inv.dropped, fun id task held => ?_⟩
  have accounted := inv.accounted id task held
  refine ⟨accounted.given, fun looping => ?_⟩
  obtain ⟨lost, frames, short, kept⟩ := accounted.frames looping
  rw [pushed, sentBy_append] at frames
  refine ⟨fun running => ?_, ?_⟩
  · rw [← frames, kept running, List.append_nil]
  · rw [← frames, List.length_append]
    exact Nat.add_le_add_left short _

/-- While the connection loop runs, exactly the subjects that the client's frames leave
subscribed have a task that is not aborted, each of them one; after it, none has. -/
theorem live_tasks_eq_subscriptions (ran : run step WsConnection.fresh actions = some w) :
    (∀ subject id other, w.Lives subject id → w.Lives subject other → id = other) ∧
      (w.looping = true → ∀ subject, (∃ id, w.Lives subject id) ↔
        subject ∈ (actions.filterMap WsAction.clientFrame).foldl handleClientFrame ∅) ∧
      (w.looping = false → ∀ subject id, ¬ w.Lives subject id) := by
  have inv : w.TaskInv :=
    run_induction (fun _ _ _ held stepped => held.step stepped) taskInv_fresh ran
  have start : WsConnection.fresh.Subscribed ∅ := by
    intro _ subject
    simp [WsConnection.fresh]
  have keys : w.Subscribed (actions.foldl subscribedAfter ∅) :=
    run_foldl (fun _ _ _ _ held stepped => held.step stepped) start ran
  refine ⟨?_, fun looping subject => ?_, fun ended subject id lives => ?_⟩
  · rintro subject id other ⟨task, held, rfl, alive⟩ ⟨another, listed, same, living⟩
    have owner := (inv.live id task held alive).2
    rw [← same, (inv.live other another listed living).2] at owner
    exact (Option.some.inj owner).symm
  · have followed : (actions.filterMap WsAction.clientFrame).foldl handleClientFrame ∅ =
        actions.foldl subscribedAfter ∅ := by
      rw [List.foldl_filterMap]
      congr 1
      funext subjects action
      unfold subscribedAfter
      cases action.clientFrame <;> rfl
    rw [followed, ← keys looping subject, Option.isSome_iff_exists]
    constructor
    · rintro ⟨id, task, held, rfl, alive⟩
      exact ⟨id, (inv.live id task held alive).2⟩
    · rintro ⟨id, named⟩
      exact ⟨id, inv.registered looping subject id named⟩
  · obtain ⟨task, held, -, alive⟩ := lives
    rw [(inv.live id task held alive).1] at ended
    cases ended

end Results

/-- A client subscribes twice, gets a frame and unsubscribes while the next one is queued. -/
def subscribeActions : List WsAction :=
  [.inbound (.ok (.subscribe .chainTip)), .inbound (.ok (.subscribe .chainTip)),
    .produce 0 "a", .send true, .produce 0 "b", .inbound (.ok (.unsubscribe .chainTip)),
    .inbound (.ok (.subscribe .mempoolStats)), .inbound (.error "eof"), .cancel 0]

theorem subscribeActions_run : ∃ w, run WsConnection.step .fresh subscribeActions = some w ∧
    w.tasks 0 = some ⟨.chainTip, ["a", "b"], none, true, true⟩ ∧ w.looping = true := by
  have ends : ((run WsConnection.step .fresh subscribeActions).map fun w =>
      (w.tasks 0, w.looping)) =
        some (some ⟨.chainTip, ["a", "b"], none, true, true⟩, true) := by
    decide +kernel
  obtain ⟨w, ran, state⟩ := Option.map_eq_some_iff.mp ends
  obtain ⟨task, looping⟩ := Prod.mk.inj state
  exact ⟨w, ran, task, looping⟩

theorem frames_in_order_subscribeActions :
    ∃ w, run WsConnection.step .fresh subscribeActions = some w ∧
      sentBy 0 w.delivered <+: ["a", "b"] ∧
        2 ≤ (sentBy 0 w.delivered ++ sentBy 0 w.outbound).length + 1 := by
  obtain ⟨w, ran, task, looping⟩ := subscribeActions_run
  obtain ⟨given, frames⟩ := (frames_in_order ran).2.2 0 _ task
  exact ⟨w, ran, given, by simpa using (frames looping).2⟩

theorem live_tasks_subscribeActions :
    ∃ w, run WsConnection.step .fresh subscribeActions = some w ∧
      ((∃ id, w.Lives .mempoolStats id) ∧ ¬ ∃ id, w.Lives .chainTip id) := by
  obtain ⟨w, ran, -, looping⟩ := subscribeActions_run
  have live := (live_tasks_eq_subscriptions ran).2.1 looping
  refine ⟨w, ran, (live .mempoolStats).mpr (by decide), ?_⟩
  rw [live .chainTip]
  decide

end MempoolObserver
