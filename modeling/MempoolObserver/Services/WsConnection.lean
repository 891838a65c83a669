import MempoolObserver.Library.Runs
import MempoolObserver.Web.WsProvider

/-!
# The server's end of the websocket

One loop reads the client's frames and feeds the socket. Each subscription is a task of
its own that pushes its frames into the one bounded queue the loop drains; a task that
finds the queue full waits with its frame. Unsubscribing, and the end of the loop, abort
tasks, but a task that is just running may still push before it stops. The queue dies with
the loop, with all that is in it.

A frame stands for its serialized text, and carries here the task that pushed it, which is
not on the wire.

## Main definitions

* `WsConnection.step` — the loop, the tasks and the client in any order
* `sentBy` — the frames of one task among others

## Main results

* `WsConnection.FrameInv.step` — what was pushed, sent and lost of each task
-/

namespace MempoolObserver

open Runs

/-- How many frames may sit in the outbound queue before producers have to wait. -/
def outboundChannelCapacity : ℕ := 256

abbrev TaskId := ℕ

/-- A frame in the outbound queue; an error frame comes from the loop itself. -/
structure OutFrame where
  origin : Option TaskId
  text : String
  deriving DecidableEq, Repr

/-- The task of a subscription. -/
structure WsTask where
  subject : WsSubject
  /-- The frames its stream has given it so far. -/
  produced : List String
  /-- The frame that waits for room in the queue. -/
  parked : Option String
  aborted : Bool
  stopped : Bool
  deriving DecidableEq, Repr

structure WsConnection where
  /-- The loop runs. -/
  looping : Bool
  outbound : List OutFrame
  /-- What the socket has been given. -/
  delivered : List OutFrame
  tasks : TaskId → Option WsTask
  spawned : ℕ
  subscriptions : WsSubject → Option TaskId

inductive WsAction where
  /-- A text frame of the client, or why it is none. -/
  | inbound (frame : Except String ClientFrame)
  /-- The loop takes a frame from the queue; the socket may refuse it. -/
  | send (accepted : Bool)
  /-- The client closes, goes away, or does not take a ping. -/
  | hangUp
  /-- The stream of a task yields an event. -/
  | produce (id : TaskId) (text : String)
  /-- There is room for a frame that waits. -/
  | unpark (id : TaskId)
  /-- The stream of a task ends. -/
  | finish (id : TaskId)
  /-- An aborted task stops. -/
  | cancel (id : TaskId)

/-- The frame that an action brings from the client. -/
def WsAction.clientFrame : WsAction → Option ClientFrame
  | .inbound (.ok frame) => some frame
  | _ => none

namespace WsConnection

/-- A connection that has just been upgraded. -/
def fresh : WsConnection where
  looping := true
  outbound := []
  delivered := []
  tasks := fun _ => none
  spawned := 0
  subscriptions := fun _ => none

def setTask (w : WsConnection) (id : TaskId) (task : WsTask) : WsConnection :=
  { w with tasks := Function.update w.tasks id (some task) }

def enqueue (w : WsConnection) (frame : OutFrame) : WsConnection :=
  { w with outbound := w.outbound ++ [frame] }

def hasRoom (w : WsConnection) : Bool := w.outbound.length < outboundChannelCapacity

/-- Queues an error frame, or drops it when the queue is full. -/
def sendEvent (w : WsConnection) (text : String) : WsConnection :=
  if w.hasRoom then w.enqueue ⟨none, text⟩ else w

def spawnSubscription (w : WsConnection) (subject : WsSubject) : WsConnection :=
  { w with
    tasks := Function.update w.tasks w.spawned (some ⟨subject, [], none, false, false⟩)
    spawned := w.spawned + 1
    subscriptions := Function.update w.subscriptions subject (some w.spawned) }

def abort (w : WsConnection) (id : TaskId) : WsConnection :=
  { w with
    tasks := Function.update w.tasks id
      ((w.tasks id).map fun task => { task with aborted := true }) }

/-- Applies one client frame, or reports it back without closing the connection. -/
def handleClientFrame (w : WsConnection) : Except String ClientFrame → WsConnection
  | .error e => w.sendEvent ("invalid frame: " ++ e)
  | .ok (.subscribe subject) =>
    match w.subscriptions subject with
    | some _ => w
    | none => w.spawnSubscription subject
  | .ok (.unsubscribe subject) =>
    match w.subscriptions subject with
    | some id =>
      { w.abort id with subscriptions := Function.update w.subscriptions subject none }
    | none => w

/-- The loop ends: every subscription is aborted, and the queue is dropped with its frames. -/
def endLoop (w : WsConnection) : WsConnection :=
  { w with
    looping := false
    outbound := []
    tasks := fun id => (w.tasks id).map fun task =>
      if w.subscriptions task.subject = some id then { task with aborted := true } else task }

/-- A task pushes a frame that waits for nothing: into the queue, or nowhere when the
connection loop is gone. -/
def push (w : WsConnection) (id : TaskId) (task : WsTask) (text : String) : WsConnection :=
  if w.looping then (w.setTask id { task with parked := none }).enqueue ⟨some id, text⟩
  else w.setTask id { task with parked := none, stopped := true }

def step (w : WsConnection) : WsAction → Option WsConnection
  | .inbound frame => if w.looping then some (w.handleClientFrame frame) else none
  | .send accepted =>
    match w.looping, w.outbound with
    | true, frame :: outbound =>
      if accepted then some { w with outbound, delivered := w.delivered ++ [frame] }
      else some w.endLoop
    | _, _ => none
  | .hangUp => if w.looping then some w.endLoop else none
  | .produce id text =>
    match w.tasks id with
    | some task =>
      if task.stopped || task.parked.isSome then none
      else
        let task := { task with produced := task.produced ++ [text] }
        if w.looping && !w.hasRoom then some (w.setTask id { task with parked := some text })
        else some (w.push id task text)
    | none => none
  | .unpark id =>
    match w.tasks id with
    | some task =>
      match task.parked with
      | some text => if w.looping && !w.hasRoom then none else some (w.push id task text)
      | none => none
    | none => none
  | .finish id =>
    match w.tasks id with
    | some task =>
      if task.stopped || task.parked.isSome then none
      else some (w.setTask id { task with stopped := true })
    | none => none
  | .cancel id =>
    match w.tasks id with
    | some task =>
      if task.aborted && !task.stopped then
        some (w.setTask id { task with parked := none, stopped := true })
      else none
    | none => none

end WsConnection

/-! ### The frames of a task -/

/-- The frames a task has pushed, among those of all tasks. -/
def sentBy (id : TaskId) (frames : List OutFrame) : List String :=
  frames.filterMap fun frame => if frame.origin = some id then some frame.text else none

section Frames

variable {id other : TaskId} {frames : List OutFrame} {frame : OutFrame}

theorem sentBy_append (first second : List OutFrame) :
    sentBy id (first ++ second) = sentBy id first ++ sentBy id second :=
  List.filterMap_append

theorem sentBy_of_ne (other : frame.origin ≠ some id) : sentBy id [frame] = [] := by
  simp [sentBy, other]

theorem sentBy_self (text : String) : sentBy id [⟨some id, text⟩] = [text] := by
  simp [sentBy]

theorem sentBy_eq_nil (absent : ∀ frame ∈ frames, frame.origin ≠ some id) :
    sentBy id frames = [] := by
  apply List.filterMap_eq_nil_iff.mpr
  intro frame member
  exact if_neg (absent frame member)

end Frames

namespace WsConnection

/-- All that the tasks have pushed, in the order of the queue. -/
def pushed (w : WsConnection) : List OutFrame := w.delivered ++ w.outbound

/-- What a task has pushed and what waits is what its stream gave it, as long as the loop runs;
only a task that has stopped may have lost its last frame. -/
structure Accounted (w : WsConnection) (id : TaskId) (task : WsTask) : Prop where
  given : sentBy id w.delivered <+: task.produced
  frames : w.looping = true → ∃ lost : List String,
    sentBy id w.pushed ++ task.parked.toList ++ lost = task.produced ∧
      lost.length ≤ 1 ∧ (task.stopped = false → lost = [])
  idle : task.stopped = true → task.parked = none

structure FrameInv (w : WsConnection) : Prop where
  fits : w.outbound.length ≤ outboundChannelCapacity
  dropped : w.looping = false → w.outbound = []
  accounted : ∀ id task, w.tasks id = some task → w.Accounted id task
  origins : ∀ frame ∈ w.pushed, ∀ id, frame.origin = some id → id < w.spawned
  unspawned : ∀ id, w.spawned ≤ id → w.tasks id = none

section FrameSteps

variable {w next : WsConnection} {id : TaskId} {task : WsTask} {action : WsAction}

theorem frameInv_fresh : fresh.FrameInv where
  fits := Nat.zero_le _
  dropped _ := rfl
  accounted _ _ spawned := by cases spawned
  origins _ listed := by cases listed
  unspawned _ _ := rfl

/-- The accounting of a task depends on its own frames only. -/
theorem Accounted.congr (accounted : w.Accounted id task) (kept : next.delivered = w.delivered)
    (loops : next.looping = w.looping)
    (same : sentBy id next.pushed = sentBy id w.pushed) : next.Accounted id task where
  given := by
    rw [kept]
    exact accounted.given
  frames := by
    rw [same, loops]
    exact accounted.frames
  idle := accounted.idle

/-- Aborting changes nothing about the frames. -/
theorem Accounted.abort (accounted : w.Accounted id task) :
    w.Accounted id { task with aborted := true } :=
  ⟨accounted.given, accounted.frames, accounted.idle⟩

/-- Once the loop is gone, nothing more is given to the socket. -/
theorem Accounted.ended (accounted : w.Accounted id task) : w.endLoop.Accounted id task where
  given := accounted.given
  frames looping := by cases looping
  idle := accounted.idle

theorem FrameInv.lt_spawned (inv : w.FrameInv) (held : w.tasks id = some task) :
    id < w.spawned := by
  by_contra late
  rw [inv.unspawned id (not_lt.mp late)] at held
  cases held

/-- Another state of a task, with the same frames pushed. -/
theorem FrameInv.setTask (inv : w.FrameInv) (held : w.tasks id = some task) {after : WsTask}
    (accounted : w.Accounted id after) : (w.setTask id after).FrameInv where
  fits := inv.fits
  dropped := inv.dropped
  accounted other task found := by
    by_cases same : other = id
    · subst same
      obtain rfl : after = task := by simpa [WsConnection.setTask] using found
      exact ⟨accounted.given, accounted.frames, accounted.idle⟩
    · have before : w.tasks other = some task := by
        simpa [WsConnection.setTask, Function.update_of_ne same] using found
      exact (inv.accounted other task before).congr rfl rfl rfl
  origins := inv.origins
  unspawned other late := by
    have differs : other ≠ id := (lt_of_lt_of_le (inv.lt_spawned held) late).ne'
    simpa [WsConnection.setTask, Function.update_of_ne differs] using inv.unspawned other late

theorem pushed_enqueue (frame : OutFrame) : (w.enqueue frame).pushed = w.pushed ++ [frame] := by
  simp [pushed, enqueue]

/-- A frame that belongs to no task. -/
theorem FrameInv.sendEvent (inv : w.FrameInv) (looping : w.looping = true) (text : String) :
    (w.sendEvent text).FrameInv := by
  unfold WsConnection.sendEvent
  split_ifs with room
  · have fits : w.outbound.length < outboundChannelCapacity := by simpa [hasRoom] using room
    refine ⟨?_, fun ended => ?_, fun id task held => ?_, ?_, inv.unspawned⟩
    · rw [enqueue, List.length_append, List.length_singleton]
      exact fits
    · cases looping.symm.trans ended
    · refine (inv.accounted id task held).congr rfl rfl ?_
      rw [pushed_enqueue, sentBy_append, sentBy_of_ne (by simp), List.append_nil]
    · rw [pushed_enqueue]
      intro frame listed id origin
      rcases List.mem_append.mp listed with before | last
      · exact inv.origins frame before id origin
      · obtain rfl := List.mem_singleton.mp last
        cases origin
  · exact inv

/-- A frame of a task enters the queue, or is lost with the connection. -/
theorem FrameInv.push (inv : w.FrameInv) (held : w.tasks id = some task) {after : WsTask}
    {text : String} (given : sentBy id w.delivered <+: after.produced)
    (produced : w.looping = true → sentBy id w.pushed ++ [text] = after.produced)
    (room : w.looping = true → w.hasRoom = true) :
    (w.push id after text).FrameInv := by
  unfold WsConnection.push
  split_ifs with looping
  · have fits : w.outbound.length < outboundChannelCapacity := by
      simpa [hasRoom] using room looping
    have within := inv.lt_spawned held
    refine ⟨?_, fun ended => ?_, fun other task found => ?_, ?_, fun other late => ?_⟩
    · rw [enqueue, List.length_append, List.length_singleton]
      exact fits
    · cases looping.symm.trans ended
    · by_cases same : other = id
      · subst same
        obtain rfl : { after with parked := none } = task := by
          simpa [enqueue, WsConnection.setTask] using found
        refine ⟨given, fun _ => ⟨[], ?_, Nat.zero_le _, fun _ => rfl⟩, fun _ => rfl⟩
        rw [pushed_enqueue, sentBy_append, sentBy_self]
        simpa [pushed, WsConnection.setTask] using produced looping
      · have before : w.tasks other = some task := by
          simpa [enqueue, WsConnection.setTask, Function.update_of_ne same] using found
        refine (inv.accounted other task before).congr rfl rfl ?_
        rw [pushed_enqueue, sentBy_append, sentBy_of_ne, List.append_nil]
        · rfl
        · simpa using Ne.symm same
    · rw [pushed_enqueue]
      intro frame listed other origin
      rcases List.mem_append.mp listed with before | last
      · exact inv.origins frame before other origin
      · obtain rfl := List.mem_singleton.mp last
        obtain rfl := Option.some.inj origin
        exact within
    · have differs : other ≠ id := (lt_of_lt_of_le within late).ne'
      simpa [enqueue, WsConnection.setTask, Function.update_of_ne differs] using
        inv.unspawned other late
  · -- the connection loop is gone, and the task stops with its frame
    apply inv.setTask held
    exact ⟨given, fun looping => absurd looping ‹_›, fun _ => rfl⟩

theorem FrameInv.spawnSubscription (inv : w.FrameInv) (subject : WsSubject) :
    (w.spawnSubscription subject).FrameInv where
  fits := inv.fits
  dropped := inv.dropped
  accounted id task found := by
    by_cases same : id = w.spawned
    · subst same
      obtain rfl : ⟨subject, [], none, false, false⟩ = task := by
        simpa [WsConnection.spawnSubscription] using found
      -- no frame can come from a task that does not exist yet
      have silent : sentBy w.spawned w.pushed = [] :=
        sentBy_eq_nil fun frame listed origin =>
          absurd (inv.origins frame listed w.spawned origin) (lt_irrefl _)
      have unheard : sentBy w.spawned w.delivered = [] := by
        rw [pushed, sentBy_append] at silent
        exact (List.append_eq_nil_iff.mp silent).1
      refine ⟨?_, fun _ => ⟨[], ?_, Nat.zero_le _, fun _ => rfl⟩, fun _ => rfl⟩
      · exact unheard ▸ List.nil_prefix
      · simpa [pushed, WsConnection.spawnSubscription] using silent
    · have before : w.tasks id = some task := by
        simpa [WsConnection.spawnSubscription, Function.update_of_ne same] using found
      exact (inv.accounted id task before).congr rfl rfl rfl
  origins frame listed id origin := Nat.lt_succ_of_lt (inv.origins frame listed id origin)
  unspawned id late := by
    have differs : id ≠ w.spawned := (Nat.lt_of_succ_le late).ne'
    simpa [WsConnection.spawnSubscription, Function.update_of_ne differs] using
      inv.unspawned id (Nat.le_of_succ_le late)

/-- Tasks that differ in being aborted only. -/
theorem FrameInv.aborting (inv : w.FrameInv) {tasks : TaskId → Option WsTask}
    {subscriptions : WsSubject → Option TaskId}
    (same : ∀ id, tasks id = w.tasks id ∨
      tasks id = (w.tasks id).map fun task => { task with aborted := true }) :
    FrameInv { w with tasks, subscriptions } where
  fits := inv.fits
  dropped := inv.dropped
  accounted id task found := by
    rcases same id with kept | aborted
    · exact (inv.accounted id task (kept.symm.trans found)).congr rfl rfl rfl
    · obtain ⟨before, held, rfl⟩ := Option.map_eq_some_iff.mp (aborted.symm.trans found)
      exact (inv.accounted id before held).abort.congr rfl rfl rfl
  origins := inv.origins
  unspawned id late := by
    rcases same id with kept | aborted
    · exact kept.trans (inv.unspawned id late)
    · exact aborted.trans (by rw [inv.unspawned id late]; rfl)

theorem FrameInv.handleClientFrame (inv : w.FrameInv) (looping : w.looping = true)
    (frame : Except String ClientFrame) : (w.handleClientFrame frame).FrameInv := by
  unfold WsConnection.handleClientFrame
  split
  · exact inv.sendEvent looping _
  · split
    · exact inv
    · exact inv.spawnSubscription _
  · split
    · next id _ =>
      apply inv.aborting
      intro other
      by_cases same : other = id
      · subst same
        exact .inr (Function.update_self ..)
      · exact .inl (Function.update_of_ne same ..)
    · exact inv

theorem FrameInv.endLoop (inv : w.FrameInv) : w.endLoop.FrameInv where
  fits := Nat.zero_le _
  dropped _ := rfl
  accounted id task found := by
    obtain ⟨before, held, same⟩ := Option.map_eq_some_iff.mp found
    have accounted := inv.accounted id before held
    split_ifs at same
    · exact same ▸ accounted.abort.ended
    · exact same ▸ accounted.ended
  origins frame listed := by
    have given : frame ∈ w.delivered := by simpa [pushed, WsConnection.endLoop] using listed
    exact inv.origins frame (List.mem_append_left _ given)
  unspawned id late := by
    simp [WsConnection.endLoop, inv.unspawned id late]

theorem FrameInv.step (inv : w.FrameInv) (stepped : w.step action = some next) :
    next.FrameInv := by
  cases action with
  | inbound frame =>
    simp only [WsConnection.step] at stepped
    split_ifs at stepped with looping
    obtain rfl := Option.some.inj stepped
    exact inv.handleClientFrame looping frame
  | send accepted =>
    simp only [WsConnection.step] at stepped
    split at stepped
    · next frame outbound looping queued =>
      split_ifs at stepped
      · obtain rfl := Option.some.inj stepped
        -- the frame moves from the queue to the socket
        have same : w.delivered ++ [frame] ++ outbound = w.pushed := by
          rw [pushed, queued, List.append_assoc, List.singleton_append]
        refine ⟨?_, fun ended => ?_, fun id task held => ?_, ?_, inv.unspawned⟩
        · have fits := inv.fits
          rw [queued] at fits
          exact (Nat.le_succ _).trans fits
        · cases looping.symm.trans ended
        · have accounted := inv.accounted id task held
          obtain ⟨lost, frames, short, kept⟩ := accounted.frames looping
          rw [← same, sentBy_append, List.append_assoc, List.append_assoc] at frames
          refine ⟨?_, fun _ => ⟨lost, ?_, short, kept⟩, accounted.idle⟩
          · exact frames ▸ List.prefix_append _ _
          · rw [pushed, sentBy_append, List.append_assoc, List.append_assoc]
            exact frames
        · intro other listed
          exact inv.origins other (same ▸ listed)
      · obtain rfl := Option.some.inj stepped
        exact inv.endLoop
    · cases stepped
  | hangUp =>
    simp only [WsConnection.step] at stepped
    split_ifs at stepped
    obtain rfl := Option.some.inj stepped
    exact inv.endLoop
  | produce id text =>
    simp only [WsConnection.step] at stepped
    split at stepped
    · next task held =>
      obtain ⟨given, frames, idle⟩ := inv.accounted id task held
      have longer : sentBy id w.delivered <+: task.produced ++ [text] :=
        given.trans (List.prefix_append _ _)
      split_ifs at stepped with busy full
      · obtain rfl := Option.some.inj stepped
        simp only [Bool.or_eq_true, Option.isSome_iff_ne_none, not_or, Bool.not_eq_true,
          not_not] at busy
        obtain ⟨running, free⟩ := busy
        apply inv.setTask held
        refine ⟨longer, fun looping => ⟨[], ?_, Nat.zero_le _, fun _ => rfl⟩, fun stopped => ?_⟩
        · obtain ⟨lost, same, -, kept⟩ := frames looping
          rw [← same, kept running, free]
          simp
        · rw [running] at stopped
          cases stopped
      · obtain rfl := Option.some.inj stepped
        simp only [Bool.or_eq_true, Option.isSome_iff_ne_none, not_or, Bool.not_eq_true,
          not_not] at busy
        obtain ⟨running, free⟩ := busy
        apply inv.push held longer
        · intro looping
          obtain ⟨lost, same, -, kept⟩ := frames looping
          rw [← same, kept running, free]
          simp
        · intro looping
          simpa [looping] using full
    · cases stepped
  | unpark id =>
    simp only [WsConnection.step] at stepped
    split at stepped
    · next task held =>
      obtain ⟨given, frames, idle⟩ := inv.accounted id task held
      split at stepped
      · next text waits =>
        have running : task.stopped = false := by
          rw [← Bool.not_eq_true]
          intro stopped
          rw [idle stopped] at waits
          cases waits
        split_ifs at stepped with full
        obtain rfl := Option.some.inj stepped
        apply inv.push held given
        · intro looping
          obtain ⟨lost, same, -, kept⟩ := frames looping
          rw [← same, kept running, waits]
          simp
        · intro looping
          simpa [looping] using full
      · cases stepped
    · cases stepped
  | finish id =>
    simp only [WsConnection.step] at stepped
    split at stepped
    · next task held =>
      split_ifs at stepped with busy
      obtain rfl := Option.some.inj stepped
      simp only [Bool.or_eq_true, Option.isSome_iff_ne_none, not_or, Bool.not_eq_true,
        not_not] at busy
      obtain ⟨given, frames, -⟩ := inv.accounted id task held
      apply inv.setTask held
      refine ⟨given, fun looping => ?_, fun _ => busy.2⟩
      obtain ⟨lost, same, short, -⟩ := frames looping
      exact ⟨lost, same, short, by simp⟩
    · cases stepped
  | cancel id =>
    simp only [WsConnection.step] at stepped
    split at stepped
    · next task held =>
      split_ifs at stepped with runs
      obtain rfl := Option.some.inj stepped
      have running : task.stopped = false := by
        simpa using (Bool.and_eq_true_iff.mp runs).2
      obtain ⟨given, frames, -⟩ := inv.accounted id task held
      apply inv.setTask held
      -- the frame that waits is lost
      refine ⟨given, fun looping => ⟨task.parked.toList, ?_, ?_, by simp⟩, fun _ => rfl⟩
      · obtain ⟨lost, same, -, kept⟩ := frames looping
        rw [kept running] at same
        simpa using same
      · cases task.parked <;> simp
    · cases stepped

end FrameSteps

end WsConnection

end MempoolObserver
