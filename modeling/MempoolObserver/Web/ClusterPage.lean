import MempoolObserver.Web.ClusterDeltaSocket
import MempoolObserver.Web.WsProvider

/-!
# A cluster page across reconnects

A page that uses `useClusterDeltaSocket`, its socket, and the server's task that
streams `cluster.delta` over it. The reducer's state survives a reconnect, and the
frames of an earlier subscription stay queued on the connection in front of those
of the next.

Snapshot frames only upsert. What the page still holds from an earlier subscription
is therefore corrected by the events alone, and a cluster that was removed while
nobody was subscribed is in none of them: `Retained` says that there is no such
cluster when a subscription reads the snapshot. The two other ways for the page to
go wrong are a bus that overtakes a slow subscriber and a page that joins a stream
whose beginning it has missed.

## Main results

* `PageInv` — what the frames in flight owe the page
* `live_eq_refs_of_settled` — in runs without these three events a subscribed page
  that has processed everything holds the server's clusters
-/

namespace MempoolObserver

open Replication Runs

/-- Messages the bus holds for a subscriber before it drops the oldest. -/
def channelCapacity : ℕ := 1024

/-- The bus hands over an event, dropping the oldest when the subscriber lags. -/
def enqueue (unread : List ClusterDeltaEvent) : Option ClusterDeltaEvent → List ClusterDeltaEvent
  | none => unread
  | some event => (unread ++ [event]).drop (unread.length + 1 - channelCapacity)

/-- The task that serves one subscription to `cluster.delta`: not yet on the bus, on
the bus with the snapshot still to be read, or sending its frames and then events. -/
inductive StreamTask where
  | spawned
  | waiting (unread : List ClusterDeltaEvent)
  | streaming (frames unread : List ClusterDeltaEvent)

namespace StreamTask

def deliver (event : Option ClusterDeltaEvent) : StreamTask → StreamTask
  | spawned => spawned
  | waiting unread => waiting (enqueue unread event)
  | streaming frames unread => streaming frames (enqueue unread event)

def backlog : StreamTask → ℕ
  | spawned => 0
  | waiting unread => unread.length
  | streaming _ unread => unread.length

end StreamTask

/-- What handling a client frame does to the task of `cluster.delta`. -/
def handleTask (subscriptions : Finset WsSubject) (task : Option StreamTask) :
    ClientFrame → Option StreamTask
  | .subscribe .clusterDelta => if .clusterDelta ∈ subscriptions then task else some .spawned
  | .unsubscribe .clusterDelta => none
  | _ => task

structure PageWorld where
  service : ClusterDeltaService
  link : WsLink
  task : Option StreamTask
  /-- Frames of `cluster.delta` sent over the socket and not yet processed. -/
  outbound : List ClusterDeltaEvent
  page : PageState

inductive PageAction where
  | publish (action : PublishAction)
  | link (action : LinkAction)
  /-- The page comes up, with a new reducer unless only its effects run again. -/
  | mount (handler : Handler) (keep : ClientFrame → Bool) (fresh : Bool)
  | subscribeTask
  | readTask (ids : List ClusterId) (chunkSize : ℕ)
  | forward
  | receive
  | togglePause

namespace PageWorld

/-- The page has its handler registered. -/
def Mounted (w : PageWorld) : Prop := (w.link.registry.handlers .clusterDelta).Nonempty

instance (w : PageWorld) : Decidable w.Mounted := inferInstanceAs (Decidable (Finset.Nonempty _))

/-- An `unsubscribe` of the page is on its way to the server. -/
def Unsubscribing (w : PageWorld) : Prop :=
  ∃ connection, w.link.connection = some connection ∧
    .unsubscribe .clusterDelta ∈ connection.inbound

/-- What a step of the link does to the server's task and to the frames in flight. -/
def afterLink (w : PageWorld) (action : LinkAction) (link : WsLink) : PageWorld :=
  match action, w.link.connection with
  | .lose, _ => { w with link := link, task := none, outbound := [] }
  | .serve, some ⟨frame :: _, subscriptions, _⟩ =>
    { w with link := link, task := handleTask subscriptions w.task frame }
  | _, _ => { w with link := link }

/-- One step of the server, of the socket or of the page; a second handler for the
subject is not mounted. -/
def step (w : PageWorld) : PageAction → Option PageWorld
  | .publish action =>
    (w.service.act action).map fun (service, event) =>
      { w with service := service, task := w.task.map (StreamTask.deliver event) }
  | .link (.mount .clusterDelta _ _) => none
  | .link action => (w.link.step action).map (w.afterLink action)
  | .mount handler keep fresh =>
    if w.Mounted then none
    else some { w with
      link := w.link.subscribe .clusterDelta handler keep
      page := if fresh then .initialState else w.page }
  | .subscribeTask =>
    match w.task with
    | some .spawned => some { w with task := some (.waiting []) }
    | _ => none
  | .readTask ids chunkSize =>
    match w.task with
    | some (.waiting unread) =>
      let frames := w.service.snapshot.getCurrentSnapshot ids chunkSize
      some { w with task := some (.streaming frames unread) }
    | _ => none
  | .forward =>
    match w.task with
    | some (.streaming (frame :: frames) unread) =>
      some { w with task := some (.streaming frames unread), outbound := w.outbound ++ [frame] }
    | some (.streaming [] (event :: unread)) =>
      some { w with task := some (.streaming [] unread), outbound := w.outbound ++ [event] }
    | _ => none
  | .receive =>
    match w.outbound with
    | frame :: outbound =>
      -- frames are routed by subject alone, to whoever has a handler
      let page := if w.Mounted then w.page.reduce (.delta frame) else w.page
      some { w with outbound := outbound, page := page }
    | [] => none
  | .togglePause => some { w with page := w.page.reduce .togglePause }

def initial (snapshot : ClusterSnapshot) : PageWorld :=
  ⟨⟨snapshot, none⟩, .initial, none, [], .initialState⟩

/-- The snapshot is read in an order in which its map may be iterated. -/
def Iterated (w : PageWorld) : PageAction → Prop
  | .readTask ids _ => w.service.snapshot.Iterates ids
  | _ => True

/-! ### What must not happen -/

/-- The writes the page's subscription is still owed by the bus. -/
def owed (w : PageWorld) (unread : List ClusterDeltaEvent) : List (Write ClusterId ClusterRef) :=
  writesOf unread ++ w.service.pending

/-- The map the page will have once the frames in flight are processed. -/
def upcoming (w : PageWorld) : ClusterMap := replay (writesOf w.outbound) w.page.live

/-- Every cluster the page is left with is active, or its removal is still to come. -/
def Retained (w : PageWorld) (unread : List ClusterDeltaEvent) : Prop :=
  ∀ id, (w.upcoming id).isSome → (w.service.snapshot id).isSome ∨ Writes (w.owed unread) id

/-- The three conditions on a step: the bus does not overtake the subscriber, the page
does not join a stream it has missed the beginning of, and no cluster the page holds was
removed unheard when the snapshot is read. -/
def Sound (w : PageWorld) : PageAction → Prop
  | .publish .send => ∀ task, w.task = some task → task.backlog < channelCapacity
  | .mount _ _ _ => ∀ frames unread, w.task = some (.streaming frames unread) → w.Unsubscribing
  | .readTask _ _ => ∀ unread, w.task = some (.waiting unread) → w.Mounted → ¬ w.Unsubscribing →
      w.Retained unread
  | _ => True

/-! ### The invariant -/

/-- What a task owes the page, by its state. -/
def Owes (w : PageWorld) : Option StreamTask → Prop
  | some (.waiting unread) => Absorbed (w.owed unread) w.service.snapshot.refs
  | some (.streaming frames unread) => w.Mounted → ¬ w.Unsubscribing →
      replay (writesOf frames ++ w.owed unread) w.upcoming = w.service.snapshot.refs
  | _ => True

structure PageInv (w : PageWorld) : Prop where
  ordered : w.service.Ordered
  announced : Absorbed w.service.pending w.service.snapshot.refs
  served : w.task.isSome → ∃ connection, w.link.connection = some connection ∧
    .clusterDelta ∈ connection.subscriptions
  owes : w.Owes w.task

theorem pageInv_initial (snapshot : ClusterSnapshot) : (initial snapshot).PageInv where
  ordered := ClusterDeltaService.ordered_of_idle rfl
  announced := absorbed_nil _
  served h := by cases h
  owes := trivial

/-! ### Steps of the link -/

/-- The connection stays, with its subscriptions, and the client only sends more. -/
def Keeps (link next : WsLink) : Prop :=
  ∀ connection, link.connection = some connection → ∃ later, next.connection = some later ∧
    later.subscriptions = connection.subscriptions ∧ connection.inbound ⊆ later.inbound

theorem keeps_of_eq {link next : WsLink} (same : next.connection = link.connection) :
    Keeps link next := by
  intro connection opened
  exact ⟨connection, same.trans opened, rfl, List.Subset.refl _⟩

theorem keeps_sendJsonMessages (link sender : WsLink)
    (same : sender.connection = link.connection) (frames : List ClientFrame)
    (keep : ClientFrame → Bool) : Keeps link (sender.sendJsonMessages frames keep) := by
  intro connection opened
  refine ⟨connection.send frames, ?_, rfl, List.subset_append_left _ _⟩
  rw [WsLink.sendJsonMessages, same.trans opened]

theorem keeps_subscribe (link : WsLink) (subject : WsSubject) (handler : Handler)
    (keep : ClientFrame → Bool) : Keeps link (link.subscribe subject handler keep) := by
  unfold WsLink.subscribe
  refine keeps_sendJsonMessages link _ ?_ _ _
  rfl

theorem keeps_runEffect (link : WsLink) (keep : ClientFrame → Bool) :
    Keeps link (link.runEffect keep) := by
  unfold WsLink.runEffect
  dsimp only
  split_ifs
  · intro connection opened
    obtain ⟨later, sent, subscriptions, grown⟩ := keeps_sendJsonMessages link
      { link with isFirstRender := false, effectDue := false } rfl
      (link.registry.keys.reverse.map .subscribe) keep connection opened
    exact ⟨{ later with resubscribed := true }, by rw [sent]; rfl, subscriptions, grown⟩
  · exact keeps_of_eq rfl

/-- Everything the page's socket does, apart from handling a frame and being lost. -/
theorem keeps_step {link next : WsLink} {action : LinkAction}
    (stepped : link.step action = some next) (serves : action ≠ .serve) (loses : action ≠ .lose) :
    Keeps link next := by
  -- Serving reads a frame and losing ends the connection; every other action only adds frames.
  cases WsLink.step_cases stepped with
  | mount subject handler keep => exact keeps_subscribe link subject handler keep
  | cleanup =>
    unfold WsLink.unsubscribe
    refine keeps_sendJsonMessages link _ ?_ _ _
    rfl
  | render | notify => exact keeps_of_eq rfl
  | effect keep => exact keeps_runEffect link keep
  | openSocket closed =>
    intro connection opened
    rw [opened] at closed
    cases closed
  | @flush connection opened =>
    intro other same
    obtain rfl : connection = other := Option.some.inj (opened.symm.trans same)
    exact ⟨_, rfl, rfl, List.subset_append_left _ _⟩
  | lose => exact absurd rfl loses
  | serve => exact absurd rfl serves

/-- No step of the link but the page's own mount gives the page a handler. -/
theorem handlers_step {link next : WsLink} {action : LinkAction}
    (stepped : link.step action = some next)
    (mounts : ∀ handler keep, action ≠ .mount .clusterDelta handler keep)
    (mounted : (next.registry.handlers .clusterDelta).Nonempty) :
    (link.registry.handlers .clusterDelta).Nonempty := by
  cases WsLink.step_cases stepped with
  | mount subject handler keep =>
    have other : WsSubject.clusterDelta ≠ subject := fun same => mounts handler keep (same ▸ rfl)
    rw [WsLink.subscribe, WsLink.registry_sendJsonMessages] at mounted
    rwa [← Registry.handlers_register_of_ne other]
  | cleanup =>
    rw [WsLink.unsubscribe, WsLink.registry_sendJsonMessages] at mounted
    exact mounted.mono Registry.handlers_unregister_subset
  | effect =>
    unfold WsLink.runEffect at mounted
    dsimp only at mounted
    split_ifs at mounted
    · rwa [WsLink.registry_sendJsonMessages] at mounted
    · exact mounted
  | render | openSocket | flush | lose | notify | serve => exact mounted

variable {w next : PageWorld}

theorem Owes.of_link {task : Option StreamTask} (owes : w.Owes task) {link : WsLink}
    (same : PageWorld.Mounted { w with link := link } →
      ¬ PageWorld.Unsubscribing { w with link := link } → w.Mounted ∧ ¬ w.Unsubscribing) :
    PageWorld.Owes { w with link := link } task := by
  match task with
  | none => trivial
  | some .spawned => trivial
  | some (.waiting _) => exact owes
  | some (.streaming _ _) =>
    intro mounted listening
    exact owes (same mounted listening).1 (same mounted listening).2

/-- A step of the link that keeps the connection and mounts no page keeps the invariant. -/
theorem PageInv.link (inv : w.PageInv) {link : WsLink} (keeps : Keeps w.link link)
    (mounts : (link.registry.handlers .clusterDelta).Nonempty → w.Mounted) :
    PageInv { w with link := link } := by
  refine ⟨inv.ordered, inv.announced, fun running => ?_, ?_⟩
  · obtain ⟨connection, opened, member⟩ := inv.served running
    obtain ⟨later, opened, subscriptions, -⟩ := keeps connection opened
    exact ⟨later, opened, subscriptions ▸ member⟩
  · refine inv.owes.of_link fun mounted listening => ⟨mounts mounted, ?_⟩
    rintro ⟨connection, opened, member⟩
    obtain ⟨later, opened, -, grown⟩ := keeps connection opened
    exact listening ⟨later, opened, grown member⟩

/-- Losing the socket ends the subscription. -/
theorem PageInv.lose (inv : w.PageInv) (link : WsLink) :
    PageInv { w with link := link, task := none, outbound := [] } :=
  ⟨inv.ordered, inv.announced, fun running => (by cases running), trivial⟩

/-- Handling a frame: an `unsubscribe` ends the task, which is what the page that sent it
was waiting for. -/
theorem PageInv.serve (inv : w.PageInv) {link : WsLink} {frame : ClientFrame}
    {inbound : List ClientFrame} {subscriptions : Finset WsSubject} {resubscribed : Bool}
    (opened : w.link.connection = some ⟨frame :: inbound, subscriptions, resubscribed⟩)
    (handled : link.connection =
      some ⟨inbound, handleClientFrame subscriptions frame, resubscribed⟩)
    (registry : link.registry = w.link.registry) :
    PageInv { w with link := link, task := handleTask subscriptions w.task frame } := by
  have served (running : w.task.isSome) : .clusterDelta ∈ subscriptions := by
    obtain ⟨connection, same, member⟩ := inv.served running
    rw [opened] at same
    cases same
    exact member
  -- a frame that leaves the task alone is not the one the page waits for
  have unchanged (other : frame ≠ .unsubscribe .clusterDelta)
      (member : w.task.isSome → .clusterDelta ∈ handleClientFrame subscriptions frame) :
      PageInv { w with link := link } := by
    refine ⟨inv.ordered, inv.announced, fun running => ⟨_, handled, member running⟩, ?_⟩
    refine inv.owes.of_link fun mounted listening => ⟨by rwa [Mounted, ← registry], ?_⟩
    rintro ⟨connection, same, sent⟩
    rw [opened] at same
    cases same
    rcases List.mem_cons.mp sent with rfl | sent
    · exact other rfl
    · exact listening ⟨_, handled, sent⟩
  cases frame with
  | subscribe subject =>
    have kept := unchanged (by simp) fun running => Finset.mem_insert_of_mem (served running)
    cases subject with
    | clusterDelta =>
      simp only [handleTask]
      split_ifs with known
      · exact kept
      · exact ⟨inv.ordered, inv.announced,
          fun _ => ⟨_, handled, Finset.mem_insert_self _ _⟩, trivial⟩
    | mempoolDelta => exact kept
    | mempoolStats => exact kept
    | chainTip => exact kept
  | unsubscribe subject =>
    by_cases same : subject = .clusterDelta
    · subst same
      exact ⟨inv.ordered, inv.announced, fun running => (by cases running), trivial⟩
    · have kept := unchanged (by simpa using same) fun running =>
        Finset.mem_erase.mpr ⟨Ne.symm same, served running⟩
      cases subject with
      | clusterDelta => exact absurd rfl same
      | mempoolDelta => exact kept
      | mempoolStats => exact kept
      | chainTip => exact kept

/-- Only a send puts an event on the bus, and a task that keeps up misses none. -/
theorem enqueue_of_sound {action : PublishAction} {service : ClusterDeltaService}
    {event : Option ClusterDeltaEvent} (h : w.service.act action = some (service, event))
    (sound : w.Sound (.publish action)) {task : StreamTask} (running : w.task = some task)
    {unread : List ClusterDeltaEvent} (backlog : task.backlog = unread.length) :
    enqueue unread event = unread ++ event.toList := by
  cases event with
  | none => simp [enqueue]
  | some event =>
    cases action with
    | publish upserted removed =>
      simp only [ClusterDeltaService.act] at h
      split at h <;> cases h
    | mutate =>
      simp only [ClusterDeltaService.act] at h
      split at h <;> cases h
    | send =>
      have fits : unread.length < channelCapacity := backlog ▸ sound task running
      have short : unread.length + 1 - channelCapacity = 0 := by omega
      rw [enqueue, short, List.drop_zero, Option.toList_some]

/-- A publish action keeps what the task owes in step with the snapshot. -/
theorem PageInv.publish (inv : w.PageInv) {action : PublishAction} {service : ClusterDeltaService}
    {event : Option ClusterDeltaEvent} (h : w.service.act action = some (service, event))
    (sound : w.Sound (.publish action)) :
    PageInv { w with service := service, task := w.task.map (StreamTask.deliver event) } := by
  obtain ⟨new, refs, announced⟩ := ClusterDeltaService.act_writes inv.ordered h
  -- The new frames are owed on top of what was owed before.
  have grown (unread : List ClusterDeltaEvent)
      (same : enqueue unread event = unread ++ event.toList) :
      owed { w with service := service } (enqueue unread event) = w.owed unread ++ new := by
    simp only [owed, same, writesOf_append, List.append_assoc, announced]
  refine ⟨inv.ordered.act h, ?_, fun running => inv.served (by simpa using running), ?_⟩
  · have later := inv.announced.append new
    rw [← announced, ← refs] at later
    exact later.of_append
  -- A task not yet subscribed is owed nothing; a waiting one keeps the frames unread.
  · have owes := inv.owes
    cases running : w.task with
    | none => trivial
    | some task =>
      rw [running] at owes
      cases task with
      | spawned => trivial
      | waiting unread =>
        have same := enqueue_of_sound h sound running rfl
        change Absorbed (owed { w with service := service } (enqueue unread event)) _
        rw [grown unread same, refs]
        exact owes.append new
      | streaming frames unread =>
        have same := enqueue_of_sound h sound running rfl
        intro mounted listening
        change replay (writesOf frames ++ owed { w with service := service } _) w.upcoming = _
        rw [grown unread same, ← List.append_assoc, replay_append, owes mounted listening, refs]

/-- Reading the snapshot: what the page holds on top of it is corrected by the events
still to come, since every cluster it retains is active or in one of them. -/
theorem PageInv.readTask (inv : w.PageInv) {unread : List ClusterDeltaEvent}
    (waiting : w.task = some (.waiting unread)) {ids : List ClusterId}
    (iterates : w.service.snapshot.Iterates ids) (chunkSize : ℕ)
    (retained : w.Mounted → ¬ w.Unsubscribing → w.Retained unread) :
    let frames := w.service.snapshot.getCurrentSnapshot ids chunkSize
    PageInv { w with task := some (.streaming frames unread) } := by
  intro frames
  refine ⟨inv.ordered, inv.announced, fun _ => inv.served (by simp [waiting]), ?_⟩
  -- While waiting, what is owed is already in the snapshot the task now reads.
  have absorbed : Absorbed (w.owed unread) w.service.snapshot.refs := by
    have owes := inv.owes
    rwa [waiting] at owes
  intro mounted listening
  change replay (_ ++ w.owed unread) w.upcoming = _
  rw [replay_append, absorbed.replay_eq_iff]
  -- The snapshot restores what it tracks; anything else must be about to be told.
  intro id untouched
  rw [ClusterSnapshot.replay_getCurrentSnapshot iterates]
  split_ifs with tracked
  · rfl
  · have absent : ¬ (w.upcoming id).isSome := fun held =>
      (retained mounted listening id held).elim tracked untouched
    rw [Option.not_isSome_iff_eq_none] at absent tracked
    rw [absent, ClusterSnapshot.refs, tracked, Option.map_none]

/-- A page that comes up while a stream of its predecessor is being torn down owes
nothing to it. -/
theorem PageInv.mount (inv : w.PageInv) {link : WsLink} (keeps : Keeps w.link link)
    (page : PageState)
    (sound : ∀ frames unread, w.task = some (.streaming frames unread) → w.Unsubscribing) :
    PageInv { w with link := link, page := page } := by
  refine ⟨inv.ordered, inv.announced, fun running => ?_, ?_⟩
  · obtain ⟨connection, opened, member⟩ := inv.served running
    obtain ⟨later, opened, subscriptions, -⟩ := keeps connection opened
    exact ⟨later, opened, subscriptions ▸ member⟩
  · have owes := inv.owes
    cases running : w.task with
    | none => trivial
    | some task =>
      -- What is owed is the same after the mount; a task already streaming sits behind an
      -- unsubscribe.
      rw [running] at owes
      cases task with
      | spawned => trivial
      | waiting unread => exact owes
      | streaming frames unread =>
        intro _ listening
        obtain ⟨connection, opened, member⟩ := sound frames unread running
        obtain ⟨later, opened, -, grown⟩ := keeps connection opened
        exact absurd ⟨later, opened, grown member⟩ listening

theorem PageInv.afterLink (inv : w.PageInv) {action : LinkAction} {link : WsLink}
    (mounts : ∀ handler keep, action ≠ .mount .clusterDelta handler keep)
    (linked : w.link.step action = some link) : (w.afterLink action link).PageInv := by
  by_cases loses : action = .lose
  · subst loses
    exact inv.lose link
  · by_cases serves : action = .serve
    · subst serves
      cases WsLink.step_cases linked with
      | serve opened =>
        simp only [PageWorld.afterLink, opened]
        exact inv.serve opened rfl rfl
    · have same : w.afterLink action link = { w with link := link } := by
        unfold PageWorld.afterLink
        split
        · exact absurd rfl loses
        · exact absurd rfl serves
        · rfl
      rw [same]
      exact inv.link (keeps_step linked serves loses) (handlers_step linked mounts)

theorem PageInv.step (inv : w.PageInv) {action : PageAction} (iterated : w.Iterated action)
    (sound : w.Sound action) (stepped : w.step action = some next) : next.PageInv := by
  -- Each action either tells the page something or moves what is on its way to it.
  cases action with
  | publish action =>
    simp only [PageWorld.step, Option.map_eq_some_iff] at stepped
    obtain ⟨⟨service, event⟩, acted, rfl⟩ := stepped
    exact inv.publish acted sound
  | link action =>
    have moved : (∀ handler keep, action ≠ .mount .clusterDelta handler keep) ∧
        ∃ link, w.link.step action = some link ∧ w.afterLink action link = next := by
      unfold PageWorld.step at stepped
      split at stepped <;> simp_all
    obtain ⟨mounts, link, linked, rfl⟩ := moved
    exact inv.afterLink mounts linked
  | mount handler keep fresh =>
    simp only [PageWorld.step] at stepped
    split_ifs at stepped
    all_goals
      cases stepped
      exact inv.mount (keeps_subscribe _ _ _ _) _ sound
  | subscribeTask =>
    simp only [PageWorld.step] at stepped
    split at stepped <;> cases stepped
    rename_i spawned
    exact ⟨inv.ordered, inv.announced, fun _ => inv.served (by simp [spawned]), inv.announced⟩
  | readTask ids chunkSize =>
    simp only [PageWorld.step] at stepped
    split at stepped <;> cases stepped
    rename_i unread waiting
    exact inv.readTask waiting iterated chunkSize (sound unread waiting)
  | forward =>
    -- A frame moves from the task to the wire, with nothing lost on the way.
    have owes := inv.owes
    simp only [PageWorld.step] at stepped
    split at stepped <;> cases stepped
    · rename_i frame frames unread streaming
      rw [streaming] at owes
      refine ⟨inv.ordered, inv.announced, fun _ => inv.served (by simp [streaming]), ?_⟩
      intro mounted listening
      have caughtUp := owes mounted listening
      change replay _ (replay (writesOf (w.outbound ++ [frame])) _) = _
      rw [← caughtUp]
      simp [upcoming, replay_append, owed]
    · rename_i event unread streaming
      rw [streaming] at owes
      refine ⟨inv.ordered, inv.announced, fun _ => inv.served (by simp [streaming]), ?_⟩
      intro mounted listening
      have caughtUp := owes mounted listening
      change replay _ (replay (writesOf (w.outbound ++ [event])) _) = _
      rw [← caughtUp]
      simp [upcoming, replay_append, owed]
  | receive =>
    -- The frame read off the wire is applied to the page if it is mounted.
    have owes := inv.owes
    simp only [PageWorld.step] at stepped
    split at stepped <;> cases stepped
    rename_i frame outbound inFlight
    refine ⟨inv.ordered, inv.announced, inv.served, ?_⟩
    cases running : w.task with
    | none => trivial
    | some task =>
      rw [running] at owes
      cases task with
      | spawned => trivial
      | waiting unread => exact owes
      | streaming frames unread =>
        intro mounted listening
        have caughtUp := owes mounted listening
        have here : w.Mounted := mounted
        rw [upcoming, if_pos here]
        change replay _ (replay _ (PageState.applyDelta _ _).live) = _
        rw [PageState.live_applyDelta, ← replay_append (ClusterDeltaEvent.writes frame),
          ← writesOf_cons, ← inFlight]
        exact caughtUp
  | togglePause =>
    cases stepped
    exact ⟨inv.ordered, inv.announced, inv.served, inv.owes⟩

/-- In every run in which the bus overtakes no subscriber, no page joins a stream it has
missed the beginning of, and no cluster a page holds was removed unheard when its next
subscription reads the snapshot: a page that is mounted, connected and subscribed and has
processed all frames holds exactly the server's active clusters. -/
theorem live_eq_refs_of_settled {snapshot : ClusterSnapshot} {actions : List PageAction}
    (ran : run step (initial snapshot) actions = some w)
    (iterated : Along step Iterated (initial snapshot) actions)
    (sound : Along step Sound (initial snapshot) actions) (mounted : w.Mounted)
    {connection : Connection} (opened : w.link.connection = some connection)
    (handled : connection.inbound = []) (streaming : w.task = some (.streaming [] []))
    (received : w.outbound = []) (idle : w.service.publishing = none) :
    w.page.live = w.service.snapshot.refs := by
  have inv : w.PageInv := run_induction_along
    (fun _ _ _ inv met => PageInv.step inv met.1 met.2) (pageInv_initial snapshot)
    (iterated.and sound) ran
  -- No unsubscribe is under way: the connection has handled all it was sent.
  have listening : ¬ w.Unsubscribing := by
    rintro ⟨other, same, member⟩
    rw [opened] at same
    cases same
    rw [handled] at member
    exact List.not_mem_nil member
  have owes := inv.owes
  rw [streaming] at owes
  have caughtUp := owes mounted listening
  simpa [owed, upcoming, received, ClusterDeltaService.pending, idle] using caughtUp

/-- A snapshot with one cluster. -/
def oneCluster : ClusterSnapshot := fun id => if id = 1 then some ⟨[], 400, 7, 0⟩ else none

theorem iterates_oneCluster : oneCluster.Iterates [1] := by
  refine ⟨List.nodup_singleton 1, fun id => ?_⟩
  by_cases same : id = 1 <;> simp [oneCluster, same]

/-- The page is up and subscribed, and its socket has just opened. -/
def firstVisit (ids : List ClusterId) : List PageAction :=
  [.link (.effect fun _ => false), .link .openSocket, .link .render, .link (.effect fun _ => false),
    .mount 0 (fun _ => false) true, .link .serve, .subscribeTask, .readTask ids 1000, .forward,
    .receive]

/-- The socket is lost and comes back. -/
def reconnect (ids : List ClusterId) : List PageAction :=
  [.link (.notify .closed), .link .render, .link (.effect fun _ => false), .link .openSocket,
    .link .render, .link (.effect fun _ => false), .link .serve, .subscribeTask,
    .readTask ids 1000, .forward, .receive]

/-- A page that reconnects to a server whose only cluster is the one it holds. -/
theorem live_eq_refs_of_reconnect :
    ∃ w, run step (initial oneCluster) (firstVisit [1] ++ .link .lose :: reconnect [1]) = some w ∧
      w.page.live 1 = some (reference 1 ⟨[], 400, 7, 0⟩) ∧
      w.page.live = w.service.snapshot.refs := by
  have iterated : Along step Iterated (initial oneCluster)
      (firstVisit [1] ++ .link .lose :: reconnect [1]) := by
    iterate 7 refine .cons rfl trivial ?_
    refine .cons rfl iterates_oneCluster ?_
    iterate 11 refine .cons rfl trivial ?_
    refine .cons rfl iterates_oneCluster ?_
    iterate 2 refine .cons rfl trivial ?_
    trivial
  have sound : Along step Sound (initial oneCluster)
      (firstVisit [1] ++ .link .lose :: reconnect [1]) := by
    iterate 4 refine .cons rfl trivial ?_
    refine .cons rfl (fun _ _ running => by cases running) ?_
    iterate 2 refine .cons rfl trivial ?_
    refine .cons rfl (fun unread waiting _ _ id held => by cases held) ?_
    iterate 11 refine .cons rfl trivial ?_
    refine .cons rfl (fun unread waiting _ _ id held => Or.inl ?_) ?_
    · change Option.isSome (Function.update (fun _ => none) 1 (some _) id) at held
      change Option.isSome (oneCluster id)
      rw [Function.update_apply] at held
      split_ifs at held with same
      · rw [oneCluster, if_pos same]
        rfl
      · cases held
    iterate 2 refine .cons rfl trivial ?_
    trivial
  exact ⟨_, rfl, rfl, live_eq_refs_of_settled rfl iterated sound (by decide) rfl rfl rfl rfl rfl⟩

/-- A cluster removed while the socket is lost stays on the page. -/
theorem not_live_eq_refs_of_removed :
    ¬ ∀ (snapshot : ClusterSnapshot) (actions : List PageAction) (w : PageWorld)
      (connection : Connection), run step (initial snapshot) actions = some w →
      Along step Iterated (initial snapshot) actions → w.Mounted →
      w.link.connection = some connection → connection.inbound = [] →
      w.task = some (.streaming [] []) → w.outbound = [] → w.service.publishing = none →
      w.page.live = w.service.snapshot.refs := by
  -- The cluster removed while the page was away is never told of again.
  intro converges
  have stale := converges oneCluster (firstVisit [1] ++ .link .lose ::
    .publish (.publish [] [1]) :: .publish .mutate :: .publish .send :: reconnect []) _ _
    rfl ?_ (by decide) rfl rfl rfl rfl rfl
  · exact absurd (congrFun stale 1) (by decide)
  · iterate 7 refine .cons rfl trivial ?_
    refine .cons rfl iterates_oneCluster ?_
    iterate 14 refine .cons rfl trivial ?_
    refine .cons rfl ⟨List.nodup_nil, fun id => ?_⟩ ?_
    · change id ∈ [] ↔ (oneCluster.remove 1 id).isSome
      by_cases same : id = 1 <;>
        simp [ClusterSnapshot.remove, oneCluster, same]
    iterate 2 refine .cons rfl trivial ?_
    trivial

end PageWorld

end MempoolObserver
