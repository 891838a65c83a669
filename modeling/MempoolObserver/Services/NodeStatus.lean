import MempoolObserver.Infra.Readiness
import MempoolObserver.Library.Channel
import MempoolObserver.Library.Runs

/-!
# The node's status, from the node to the log

At startup the api polls the node until it is synced and its mempool loaded. Then
bootstrap runs, and towards its end a watcher starts to poll the node: it publishes each
change on the bus, and a consumer reports what it receives to the health service. The
process may stop at any point, and the next one starts on the rows it left.

The watcher and the consumer run on their own, so the bus may hold several changes, and
loses the oldest when it is full.

## Main definitions

* `waitPoll` — one round of `wait_until_ready`
* `watch`, `consume` — the watcher and the consumer
* `NodeWorld.step` — one process after the other

## Main results

* `connection_rows_alternate` — the log of a process follows the node
* `drained_bus_agrees` — the health service catches up with the watcher
* `version_rows_linked` — the versions of the log form a chain, across restarts
* `ready_after_loaded_poll` — when data routes are served, and what `/health` reports
-/

namespace MempoolObserver

open Channel Runs

/-- Messages the bus holds for a subscriber before it drops the oldest. -/
def PubSub.channelCapacity : ℕ := 1024

/-! ### The parts -/

inductive NodeStatusEvent where
  | reachable (blocks headers : Int64) (verificationProgress : ℚ) (initialBlockDownload : Bool)
  | unreachable (error : String)

/-- What `getblockchaininfo` answers, or the text of its error. -/
abbrev ChainAnswer := Except String GetBlockchainInfoModel

/-- What the node answers in one round of polling. -/
structure PollAnswer where
  chain : ChainAnswer
  network : Option GetNetworkInfoModel
  /-- Whether the mempool is loaded, asked of a synced node only. -/
  mempool : Except String Bool

/-- One round of `wait_until_ready`: what it leaves, and whether it was the last. -/
def waitPoll (readiness : Readiness) (health : NodeHealth) (queries : HealthQueries)
    (answer : PollAnswer) : Readiness × NodeHealth × Bool :=
  match answer.chain with
  | .ok info =>
    let recorded := readiness.recordNode info
    let observed := health.observeReachable queries info answer.network
    if info.initialBlockDownload then (recorded, observed, false)
    else
      match answer.mempool with
      | .ok loaded => (recorded.recordMempoolLoaded loaded, observed, loaded)
      | .error _ => (recorded, observed, false)
  | .error error =>
    (readiness.recordNodeError error, health.observeUnreachable queries error, false)

/-- The status an answer shows, and the event for it. -/
def statusOf : ChainAnswer → Bool × NodeStatusEvent
  | .ok info =>
    (true, .reachable info.blocks info.headers info.verificationProgress
      info.initialBlockDownload)
  | .error error => (false, .unreachable error)

/-- One poll of the watcher: the event, if the node's status is another. -/
def watch (lastReachable : Option Bool) (answer : ChainAnswer) :
    Option Bool × Option NodeStatusEvent :=
  if lastReachable = some (statusOf answer).1 then (lastReachable, none)
  else (some (statusOf answer).1, some (statusOf answer).2)

/-- What the consumer does with an event. -/
def consume (health : NodeHealth) (queries : HealthQueries)
    (network : Option GetNetworkInfoModel) : NodeStatusEvent → NodeHealth
  | .reachable blocks headers verificationProgress initialBlockDownload =>
    health.observeReachable queries ⟨blocks, headers, verificationProgress, initialBlockDownload⟩
      network
  | .unreachable error => health.observeUnreachable queries error

/-! ### The system -/

/-- Where the startup task is. -/
inductive Startup where
  /-- In the loop of `wait_until_ready`. -/
  | waiting
  /-- Behind the loop. -/
  | waited
  | bootstrapping
  /-- In bootstrap, with the consumer subscribed and the watcher running. -/
  | watching
  | serving
  deriving DecidableEq, Repr

def Startup.phase : Startup → Phase
  | waiting | waited => .waitingForNode
  | bootstrapping | watching => .bootstrapping
  | serving => .ready

structure NodeWorld where
  startup : Startup
  readiness : Readiness
  health : NodeHealth
  /-- The watcher's memory. -/
  lastReachable : Option Bool
  /-- What the consumer has still to receive. -/
  pending : List NodeStatusEvent

inductive NodeAction where
  | poll (answer : PollAnswer) (queries : HealthQueries)
  | beginBootstrap
  | spawnWatchers
  | finishBootstrap
  | watch (answer : ChainAnswer)
  | consume (network : Option GetNetworkInfoModel) (queries : HealthQueries)
  /-- Another service writes a row of its own kind. -/
  | record (event : NewSystemEvent) (stored : Bool)
  /-- The process ends, and another one starts. -/
  | restart

namespace NodeWorld

/-- The kinds of rows that only the health service writes. -/
def healthKinds : List SystemEventKind := [.nodeConnected, .nodeDisconnected, .nodeVersionChanged]

/-- A process that starts on the rows of a log. -/
def start (log : EventLog) : NodeWorld where
  startup := .waiting
  readiness := .new
  health := .new log
  lastReachable := none
  pending := []

/-- The watcher runs. -/
def watches (w : NodeWorld) : Bool := w.startup = .watching ∨ w.startup = .serving

def step (w : NodeWorld) : NodeAction → Option NodeWorld
  | .poll answer queries =>
    if w.startup = .waiting then
      let (readiness, health, done) := waitPoll w.readiness w.health queries answer
      some { w with readiness, health, startup := if done then .waited else .waiting }
    else none
  | .beginBootstrap =>
    if w.startup = .waited then
      some { w with
        readiness := w.readiness.setPhase .bootstrapping, startup := .bootstrapping }
    else none
  | .spawnWatchers =>
    if w.startup = .bootstrapping then some { w with startup := .watching } else none
  | .finishBootstrap =>
    if w.startup = .watching then
      some { w with readiness := w.readiness.setPhase .ready, startup := .serving }
    else none
  | .watch answer =>
    if w.watches then
      match MempoolObserver.watch w.lastReachable answer with
      | (lastReachable, some event) =>
        some { w with lastReachable, pending := send PubSub.channelCapacity w.pending event }
      | (lastReachable, none) => some { w with lastReachable }
    else none
  | .consume network queries =>
    match w.pending with
    | event :: pending =>
      some { w with health := MempoolObserver.consume w.health queries network event, pending }
    | [] => none
  | .record event stored =>
    if event.kind ∈ healthKinds then none
    else some { w with health.log := w.health.log.record stored event }
  | .restart => some (start w.health.log)

end NodeWorld

/-! ### What the parts do -/

namespace Reachability

def ofBool (reachable : Bool) : Reachability := if reachable then .reachable else .unreachable

theorem ofBool_ne {first second : Bool} (differs : first ≠ second) :
    ofBool first ≠ ofBool second := by
  cases first <;> cases second <;> simp_all [ofBool]

end Reachability

/-- What an event tells of the node. -/
def NodeStatusEvent.status : NodeStatusEvent → Reachability
  | reachable .. => .reachable
  | unreachable _ => .unreachable

theorem last_consume (health : NodeHealth) (queries : HealthQueries)
    (network : Option GetNetworkInfoModel) (event : NodeStatusEvent) :
    (consume health queries network event).last = event.status := by
  cases event with
  | reachable => exact NodeHealth.last_observeReachable
  | unreachable error => exact NodeHealth.last_observeUnreachable error

theorem status_statusOf (answer : ChainAnswer) :
    (statusOf answer).2.status = .ofBool (statusOf answer).1 := by
  cases answer <;> rfl

/-- The watcher remembers what it saw. -/
theorem watch_fst (lastReachable : Option Bool) (answer : ChainAnswer) :
    (watch lastReachable answer).1 = some (statusOf answer).1 := by
  unfold watch
  split_ifs with same
  · exact same
  · rfl

/-- What a round of polling does to the health service. -/
theorem waitPoll_health (readiness : Readiness) (health : NodeHealth) (queries : HealthQueries)
    (answer : PollAnswer) :
    (∃ info network, (waitPoll readiness health queries answer).2.1 =
        health.observeReachable queries info network) ∨
      ∃ error, (waitPoll readiness health queries answer).2.1 =
        health.observeUnreachable queries error := by
  unfold waitPoll
  split
  · next info _ =>
    refine .inl ⟨info, answer.network, ?_⟩
    simp only
    split_ifs
    · rfl
    · split <;> rfl
  · next error _ => exact .inr ⟨error, rfl⟩

/-- What a round of polling leaves in the report: it is the last one only when the node is
synced and its mempool loaded. -/
theorem waitPoll_readiness (readiness : Readiness) (health : NodeHealth)
    (queries : HealthQueries) (answer : PollAnswer) :
    (waitPoll readiness health queries answer).1.phase = readiness.phase ∧
      (waitPoll readiness health queries answer).1.node.Heard ∧
      ((waitPoll readiness health queries answer).2.2 = true →
        ∃ info, answer.chain = .ok info ∧ answer.mempool = .ok true ∧
          info.initialBlockDownload = false ∧
          (waitPoll readiness health queries answer).1.node =
            { NodeReport.ofInfo info with mempoolLoaded := some true }) := by
  unfold waitPoll
  split
  · next info answered =>
    simp only
    split_ifs with syncing
    · exact ⟨rfl, .info info, nofun⟩
    · have synced : info.initialBlockDownload = false := Bool.eq_false_iff.mpr syncing
      split
      · next loaded told =>
        refine ⟨rfl, .mempool info loaded synced, ?_⟩
        rintro rfl
        exact ⟨info, answered, told, synced, rfl⟩
      · exact ⟨rfl, .info info, nofun⟩
  · next error _ => exact ⟨rfl, .error error, nofun⟩

/-! ### What a step does to the health service -/

/-- The queries of an action that observes the node. -/
def NodeAction.queries : NodeAction → Option HealthQueries
  | poll _ queries => some queries
  | consume _ queries => some queries
  | _ => none

section Steps

variable {w next : NodeWorld} {action : NodeAction}

theorem health_of_step (stepped : w.step action = some next) :
    next.health = w.health ∨
      (∃ queries, action.queries = some queries ∧
        ((∃ info network, next.health = w.health.observeReachable queries info network) ∨
          ∃ error, next.health = w.health.observeUnreachable queries error)) ∨
      (∃ event stored, event.kind ∉ NodeWorld.healthKinds ∧
        next.health = { w.health with log := w.health.log.record stored event }) ∨
      (action = .restart ∧ next.health = .new w.health.log) := by
  cases action with
  | poll answer queries =>
    simp only [NodeWorld.step] at stepped
    split_ifs at stepped
    all_goals
      obtain rfl := Option.some.inj stepped
      exact .inr (.inl ⟨queries, rfl, waitPoll_health w.readiness w.health queries answer⟩)
  | beginBootstrap =>
    simp only [NodeWorld.step] at stepped
    split_ifs at stepped
    obtain rfl := Option.some.inj stepped
    exact .inl rfl
  | spawnWatchers =>
    simp only [NodeWorld.step] at stepped
    split_ifs at stepped
    obtain rfl := Option.some.inj stepped
    exact .inl rfl
  | finishBootstrap =>
    simp only [NodeWorld.step] at stepped
    split_ifs at stepped
    obtain rfl := Option.some.inj stepped
    exact .inl rfl
  | watch answer =>
    simp only [NodeWorld.step] at stepped
    split_ifs at stepped
    split at stepped
    · obtain rfl := Option.some.inj stepped
      exact .inl rfl
    · obtain rfl := Option.some.inj stepped
      exact .inl rfl
  | consume network queries =>
    simp only [NodeWorld.step] at stepped
    split at stepped
    · next event pending held =>
      obtain rfl := Option.some.inj stepped
      refine .inr (.inl ⟨queries, rfl, ?_⟩)
      cases event with
      | reachable blocks headers progress download => exact .inl ⟨_, network, rfl⟩
      | unreachable error => exact .inr ⟨error, rfl⟩
    · cases stepped
  | record event stored =>
    simp only [NodeWorld.step] at stepped
    split_ifs at stepped with kind
    obtain rfl := Option.some.inj stepped
    exact .inr (.inr (.inl ⟨event, stored, kind, rfl⟩))
  | restart =>
    obtain rfl := Option.some.inj stepped
    exact .inr (.inr (.inr ⟨rfl, rfl⟩))

/-! ### What every state satisfies -/

/-- The bus holds changes, and ends with what the watcher saw last. -/
structure StatusInv (w : NodeWorld) : Prop where
  alternates : w.pending.IsChain fun first second => first.status ≠ second.status
  settles : ∀ reachable, w.lastReachable = some reachable →
    (w.pending.map NodeStatusEvent.status).getLast?.getD w.health.last = .ofBool reachable
  quiet : w.lastReachable = none → w.pending = []
  early : w.watches = false → w.lastReachable = none
  fits : w.pending.length ≤ PubSub.channelCapacity

theorem statusInv_start (log : EventLog) : StatusInv (.start log) where
  alternates := List.isChain_nil
  settles := nofun
  quiet _ := rfl
  early _ := rfl
  fits := Nat.zero_le _

/-- Before the watcher runs there is nothing to say about the bus. -/
theorem StatusInv.of_early {w next : NodeWorld} (inv : StatusInv w) (early : w.watches = false)
    (pending : next.pending = w.pending) (lastReachable : next.lastReachable = w.lastReachable) :
    StatusInv next := by
  have none : next.lastReachable = none := lastReachable.trans (inv.early early)
  have empty : next.pending = [] := pending.trans (inv.quiet (inv.early early))
  refine ⟨?_, ?_, fun _ => empty, fun _ => none, ?_⟩
  · rw [empty]
    exact List.isChain_nil
  · rw [none]
    nofun
  · rw [empty]
    exact Nat.zero_le _

theorem StatusInv.watch (inv : StatusInv w) (runs : w.watches = true) (answer : ChainAnswer)
    (stepped : w.step (.watch answer) = some next) : StatusInv next := by
  simp only [NodeWorld.step, runs, if_true] at stepped
  have seen := watch_fst w.lastReachable answer
  unfold MempoolObserver.watch at seen stepped
  split_ifs at seen stepped with same
  · obtain rfl := Option.some.inj stepped
    exact { inv with }
  · obtain rfl := Option.some.inj stepped
    have told := status_statusOf answer
    have room : 0 < PubSub.channelCapacity := by decide
    constructor
    · -- the new status differs from the last one on the bus
      apply isChain_send
      refine inv.alternates.append (List.isChain_singleton _) fun before member now only => ?_
      obtain rfl := Option.some.inj only
      cases noted : w.lastReachable with
      | none =>
        rw [inv.quiet noted] at member
        cases member
      | some reachable =>
        have settled := inv.settles reachable noted
        rw [List.getLast?_map, Option.mem_def.mp member] at settled
        rw [told, show before.status = _ from settled]
        apply Reachability.ofBool_ne
        rintro rfl
        exact same noted
    · intro reachable noted
      obtain rfl : (statusOf answer).1 = reachable := Option.some.inj noted
      rw [List.getLast?_map, getLast?_send room]
      exact told
    · nofun
    · intro idle
      exact absurd runs (Bool.eq_false_iff.mp idle)
    · dsimp only
      exact length_send_le PubSub.channelCapacity w.pending (statusOf answer).2

theorem StatusInv.step (inv : StatusInv w) (stepped : w.step action = some next) :
    StatusInv next := by
  cases action with
  | poll answer queries =>
    simp only [NodeWorld.step] at stepped
    split_ifs at stepped with waiting
    all_goals
      obtain rfl := Option.some.inj stepped
      exact inv.of_early (by simp [NodeWorld.watches, waiting]) rfl rfl
  | beginBootstrap =>
    simp only [NodeWorld.step] at stepped
    split_ifs at stepped with waited
    obtain rfl := Option.some.inj stepped
    exact inv.of_early (by simp [NodeWorld.watches, waited]) rfl rfl
  | spawnWatchers =>
    simp only [NodeWorld.step] at stepped
    split_ifs at stepped with bootstrapping
    obtain rfl := Option.some.inj stepped
    exact inv.of_early (by simp [NodeWorld.watches, bootstrapping]) rfl rfl
  | finishBootstrap =>
    simp only [NodeWorld.step] at stepped
    split_ifs at stepped with watching
    obtain rfl := Option.some.inj stepped
    refine ⟨inv.alternates, inv.settles, inv.quiet, ?_, inv.fits⟩
    simp [NodeWorld.watches]
  | watch answer =>
    have runs : w.watches = true := by
      simp only [NodeWorld.step] at stepped
      split_ifs at stepped with runs
      exact runs
    exact inv.watch runs answer stepped
  | consume network queries =>
    simp only [NodeWorld.step] at stepped
    split at stepped
    · next event pending held =>
      obtain rfl := Option.some.inj stepped
      have chain := inv.alternates
      have fits := inv.fits
      rw [held] at chain fits
      refine ⟨chain.tail, fun reachable noted => ?_, fun none => ?_, inv.early,
        (Nat.le_succ _).trans fits⟩
      · -- the event becomes the last-known status, and the rest of the bus follows it
        rw [last_consume, ← inv.settles reachable noted, held, List.map_cons, List.getLast?_cons]
        rfl
      · have empty := inv.quiet none
        rw [held] at empty
        cases empty
    · cases stepped
  | record event stored =>
    simp only [NodeWorld.step] at stepped
    split_ifs at stepped
    obtain rfl := Option.some.inj stepped
    exact ⟨inv.alternates, inv.settles, inv.quiet, inv.early, inv.fits⟩
  | restart =>
    obtain rfl := Option.some.inj stepped
    exact statusInv_start w.health.log

/-- What an observation or another service's row adds is kept by what both keep. -/
theorem health_induction {motive : NodeHealth → Prop} (held : motive w.health)
    (stepped : w.step action = some next)
    (reachable : ∀ queries info network, action.queries = some queries →
      motive (w.health.observeReachable queries info network))
    (unreachable : ∀ queries error, action.queries = some queries →
      motive (w.health.observeUnreachable queries error))
    (record : ∀ event stored, event.kind ∉ NodeWorld.healthKinds →
      motive { w.health with log := w.health.log.record stored event })
    (restart : action = .restart → motive (.new w.health.log)) : motive next.health := by
  rcases health_of_step stepped with
    same | ⟨queries, asks, ⟨info, network, same⟩ | ⟨error, same⟩⟩ |
      ⟨event, stored, kind, same⟩ | ⟨ends, same⟩
  · rwa [same]
  · rw [same]
    exact reachable queries info network asks
  · rw [same]
    exact unreachable queries error asks
  · rw [same]
    exact record event stored kind
  · rw [same]
    exact restart ends

/-- The process goes on, and its connection rows are written. -/
def StoresConnections (_ : NodeWorld) (action : NodeAction) : Prop :=
  action ≠ .restart ∧ ∀ queries, action.queries = some queries → queries.connectionStored = true

/-- The last version row is read whenever it is asked for. -/
def ReadsVersions (_ : NodeWorld) (action : NodeAction) : Prop :=
  ∀ queries, action.queries = some queries → queries.latestRead = true

theorem alternates_step {start : EventLog} (alternates : w.health.Alternates start)
    (stores : StoresConnections w action) (stepped : w.step action = some next) :
    next.health.Alternates start := by
  refine health_induction alternates stepped ?_ ?_ ?_ ?_
  · exact fun queries info network asks =>
      NodeHealth.alternates_reachable alternates (stores.2 queries asks)
  · exact fun queries error asks =>
      NodeHealth.alternates_unreachable alternates (stores.2 queries asks) error
  · intro event stored kind
    unfold EventLog.record
    split_ifs
    · apply alternates.append
      have silent : event.connection = none := by
        unfold NewSystemEvent.connection
        revert kind
        cases event.kind <;> decide
      simp [EventLog.connections, silent]
    · exact alternates
  · exact fun ends => absurd ends stores.1

theorem versionLog_step (versions : VersionLog w.health.log) (reads : ReadsVersions w action)
    (stepped : w.step action = some next) : VersionLog next.health.log := by
  refine health_induction (motive := fun health => VersionLog health.log) versions stepped
    ?_ ?_ ?_ ?_
  · exact fun queries info network asks =>
      NodeHealth.versionLog_observeReachable versions (reads queries asks) info network
  · exact fun queries error _ => NodeHealth.versionLog_observeUnreachable versions error
  · intro event stored kind
    apply versions.record
    intro same
    rw [same] at kind
    exact absurd kind (by decide)
  · exact fun _ => versions

/-- The phase is that of the startup task, and behind the loop the report is that of a round
which found the node synced and its mempool loaded. -/
structure ReadyInv (polled : GetBlockchainInfoModel → Prop) (w : NodeWorld) : Prop where
  phase : w.readiness.phase = w.startup.phase
  heard : w.readiness.node.Heard
  loaded : w.startup ≠ .waiting → ∃ info, polled info ∧ info.initialBlockDownload = false ∧
    w.readiness.node = { NodeReport.ofInfo info with mempoolLoaded := some true }

theorem readyInv_start (polled : GetBlockchainInfoModel → Prop) (log : EventLog) :
    ReadyInv polled (.start log) :=
  ⟨rfl, .nothing, fun behind => absurd rfl behind⟩

/-- A round of polling that could have been the last one. -/
def NodeAction.LoadedPoll (info : GetBlockchainInfoModel) (action : NodeAction) : Prop :=
  ∃ network queries, action = .poll ⟨.ok info, network, .ok true⟩ queries

theorem ReadyInv.step {polled : GetBlockchainInfoModel → Prop} (inv : ReadyInv polled w)
    (polls : ∀ info, action.LoadedPoll info → polled info)
    (stepped : w.step action = some next) : ReadyInv polled next := by
  cases action with
  | poll answer queries =>
    simp only [NodeWorld.step] at stepped
    obtain ⟨phase, heard, last⟩ := waitPoll_readiness w.readiness w.health queries answer
    split_ifs at stepped with waiting done
    · obtain rfl := Option.some.inj stepped
      obtain ⟨info, answered, loaded, synced, node⟩ := last done
      refine ⟨phase.trans (inv.phase.trans (by rw [waiting]; rfl)), heard, fun _ => ?_⟩
      refine ⟨info, polls info ⟨answer.network, queries, ?_⟩, synced, node⟩
      rw [← answered, ← loaded]
    · obtain rfl := Option.some.inj stepped
      refine ⟨phase.trans (inv.phase.trans (by rw [waiting])), heard, fun behind => ?_⟩
      exact absurd rfl behind
  | beginBootstrap =>
    simp only [NodeWorld.step] at stepped
    split_ifs at stepped with waited
    obtain rfl := Option.some.inj stepped
    exact ⟨rfl, inv.heard, fun _ => inv.loaded (by rw [waited]; decide)⟩
  | spawnWatchers =>
    simp only [NodeWorld.step] at stepped
    split_ifs at stepped with bootstrapping
    obtain rfl := Option.some.inj stepped
    refine ⟨inv.phase.trans (by rw [bootstrapping]; rfl), inv.heard, fun _ => ?_⟩
    exact inv.loaded (by rw [bootstrapping]; decide)
  | finishBootstrap =>
    simp only [NodeWorld.step] at stepped
    split_ifs at stepped with watching
    obtain rfl := Option.some.inj stepped
    exact ⟨rfl, inv.heard, fun _ => inv.loaded (by rw [watching]; decide)⟩
  | watch answer =>
    simp only [NodeWorld.step] at stepped
    split_ifs at stepped
    split at stepped
    all_goals
      obtain rfl := Option.some.inj stepped
      exact ⟨inv.phase, inv.heard, inv.loaded⟩
  | consume network queries =>
    simp only [NodeWorld.step] at stepped
    split at stepped
    · obtain rfl := Option.some.inj stepped
      exact ⟨inv.phase, inv.heard, inv.loaded⟩
    · cases stepped
  | record event stored =>
    simp only [NodeWorld.step] at stepped
    split_ifs at stepped
    obtain rfl := Option.some.inj stepped
    exact ⟨inv.phase, inv.heard, inv.loaded⟩
  | restart =>
    obtain rfl := Option.some.inj stepped
    exact readyInv_start polled w.health.log

end Steps

/-! ### Runs -/

section Results

variable {log : EventLog} {actions : List NodeAction} {w : NodeWorld}

theorem statusInv_run (ran : run NodeWorld.step (.start log) actions = some w) : StatusInv w :=
  run_induction (fun _ _ _ inv stepped => inv.step stepped) (statusInv_start log) ran

/-- A process that can write its connection rows writes one for each change and no other. Once
the bus is drained, the last of them says what the watcher saw last. -/
theorem connection_rows_alternate
    (stores : Along NodeWorld.step StoresConnections (.start log) actions)
    (ran : run NodeWorld.step (.start log) actions = some w) :
    ∃ added, w.health.log = log ++ added ∧ (EventLog.connections added).IsChain (· ≠ ·) ∧
      (w.pending = [] → ∀ reachable, w.lastReachable = some reachable →
        (EventLog.connections added).getLast? = some (.ofBool reachable)) := by
  have alternates : w.health.Alternates log :=
    run_induction_along (motive := fun w => w.health.Alternates log)
      (fun _ _ _ held fine stepped => alternates_step held fine stepped)
      (NodeHealth.alternates_new log) stores ran
  obtain ⟨added, same, chain, last⟩ := alternates.appends
  refine ⟨added, same, chain, fun drained reachable noted => ?_⟩
  have settled := (statusInv_run ran).settles reachable noted
  rw [drained] at settled
  have known : (EventLog.connections added).getLast?.getD .unknown = .ofBool reachable :=
    last.trans settled
  cases rows : (EventLog.connections added).getLast? with
  | none =>
    rw [rows] at known
    cases reachable <;> cases known
  | some shown =>
    rw [rows] at known
    exact congrArg some known

/-- Whatever rows are lost and however far the consumer falls behind, the bus holds changes only,
and once it is drained the health service believes what the watcher saw last. -/
theorem drained_bus_agrees (ran : run NodeWorld.step (.start log) actions = some w) :
    w.pending.length ≤ PubSub.channelCapacity ∧
      (w.pending.IsChain fun first second => first.status ≠ second.status) ∧
      (w.pending = [] → ∀ reachable, w.lastReachable = some reachable →
        w.health.last = .ofBool reachable) := by
  have inv := statusInv_run ran
  refine ⟨inv.fits, inv.alternates, fun drained reachable noted => ?_⟩
  have settled := inv.settles reachable noted
  rw [drained] at settled
  exact settled

/-- Across restarts, and whichever rows are lost, each version row starts from the version of
the one before and names another. -/
theorem version_rows_linked (versions : VersionLog log)
    (reads : Along NodeWorld.step ReadsVersions (.start log) actions)
    (ran : run NodeWorld.step (.start log) actions = some w) : VersionLog w.health.log :=
  run_induction_along (motive := fun w => VersionLog w.health.log)
    (fun _ _ _ held fine stepped => versionLog_step held fine stepped) versions reads ran

/-- Data routes are served when bootstrap has ended and refused with the report before. Startup
leaves the loop only after a round that found the node synced and its mempool loaded, and that
round is what `/health` reports from then on. -/
theorem ready_after_loaded_poll (ran : run NodeWorld.step (.start log) actions = some w) :
    w.readiness.node.Heard ∧
      w.readiness.requireReady = (if w.startup = .serving then .next
        else .serviceUnavailable "10" ⟨false, w.startup.phase, w.readiness.node⟩) ∧
      (w.startup ≠ .waiting → ∃ info, (∃ action ∈ actions, action.LoadedPoll info) ∧
        info.initialBlockDownload = false ∧
        w.readiness.node = { NodeReport.ofInfo info with mempoolLoaded := some true }) := by
  have listed : Along NodeWorld.step (fun _ action => action ∈ actions) (.start log) actions :=
    along_of_forall_mem fun action member _ => member
  have inv : ReadyInv (fun info => ∃ action ∈ actions, action.LoadedPoll info) w :=
    run_induction_along
      (fun _ action _ held member stepped =>
        held.step (fun info loaded => ⟨action, member, loaded⟩) stepped)
      (readyInv_start _ log) listed ran
  refine ⟨inv.heard, ?_, inv.loaded⟩
  have phase := inv.phase
  split_ifs with serving
  · rw [serving] at phase
    exact Readiness.requireReady_eq_next_iff.mpr phase
  · have early : w.startup.phase ≠ .ready := by
      revert serving
      cases w.startup <;> decide
    simp [Readiness.requireReady, Readiness.isReady, Readiness.report, early, phase]

end Results

/-! ### An outage -/

/-- A synced node. -/
def syncedInfo : GetBlockchainInfoModel := ⟨100, 100, 1, false⟩

/-- Startup finds the node synced and loaded; the watcher sees it, and then sees it gone. -/
def outageActions : List NodeAction :=
  [.poll ⟨.ok syncedInfo, some ⟨280000, "/Satoshi:28.0.0/"⟩, .ok true⟩ ⟨true, true, true⟩,
    .beginBootstrap, .spawnWatchers, .finishBootstrap, .watch (.ok syncedInfo),
    .watch (.error "down"), .consume none ⟨true, true, true⟩, .consume none ⟨true, true, true⟩]

theorem outageActions_run : ∃ w, run NodeWorld.step (.start []) outageActions = some w ∧
    w.pending = [] ∧ w.lastReachable = some false := by
  have ends : ((run NodeWorld.step (.start []) outageActions).map fun w =>
      (w.pending.isEmpty, w.lastReachable)) = some (true, some false) := by
    decide +kernel
  obtain ⟨w, ran, state⟩ := Option.map_eq_some_iff.mp ends
  obtain ⟨drained, noted⟩ := Prod.mk.inj state
  exact ⟨w, ran, List.isEmpty_iff.mp drained, noted⟩

theorem outage_connection_rows : ∃ w, run NodeWorld.step (.start []) outageActions = some w ∧
    (EventLog.connections w.health.log).getLast? = some .unreachable := by
  obtain ⟨w, ran, drained, noted⟩ := outageActions_run
  have stores : Along NodeWorld.step StoresConnections (.start []) outageActions := by
    apply along_of_forall_mem
    intro action listed _
    simp only [outageActions, List.mem_cons, List.not_mem_nil, or_false] at listed
    obtain rfl | rfl | rfl | rfl | rfl | rfl | rfl | rfl := listed <;>
      simp [StoresConnections, NodeAction.queries]
  obtain ⟨added, same, -, last⟩ := connection_rows_alternate stores ran
  rw [List.nil_append] at same
  exact ⟨w, ran, same ▸ last drained false noted⟩

theorem outage_drained_bus : ∃ w, run NodeWorld.step (.start []) outageActions = some w ∧
    w.health.last = .unreachable := by
  obtain ⟨w, ran, drained, noted⟩ := outageActions_run
  exact ⟨w, ran, (drained_bus_agrees ran).2.2 drained false noted⟩

/-- The node comes back, and the process starts again on a later version. -/
def upgradeActions : List NodeAction :=
  outageActions ++ [.watch (.ok syncedInfo),
    .consume (some ⟨280000, "/Satoshi:28.0.0/"⟩) ⟨true, true, true⟩, .restart,
    .poll ⟨.ok syncedInfo, some ⟨290000, "/Satoshi:29.0.0/"⟩, .ok true⟩ ⟨true, true, true⟩]

theorem upgrade_version_rows : ∃ w, run NodeWorld.step (.start []) upgradeActions = some w ∧
    (w.health.log.ofKind .nodeVersionChanged).map (fun row => (row.details.field "to").asStr) =
      [some "/Satoshi:28.0.0/", some "/Satoshi:29.0.0/"] ∧ VersionLog w.health.log := by
  have ends : (run NodeWorld.step (.start []) upgradeActions).map (fun w =>
      (w.health.log.ofKind .nodeVersionChanged).map fun row => (row.details.field "to").asStr) =
      some [some "/Satoshi:28.0.0/", some "/Satoshi:29.0.0/"] := by
    decide +kernel
  obtain ⟨w, ran, rows⟩ := Option.map_eq_some_iff.mp ends
  have reads : Along NodeWorld.step ReadsVersions (.start []) upgradeActions := by
    apply along_of_forall_mem
    intro action listed _
    simp only [upgradeActions, outageActions, List.mem_append, List.mem_cons, List.not_mem_nil,
      or_false] at listed
    obtain (rfl | rfl | rfl | rfl | rfl | rfl | rfl | rfl) | rfl | rfl | rfl | rfl := listed <;>
      simp [ReadsVersions, NodeAction.queries]
  exact ⟨w, ran, rows, version_rows_linked versionLog_nil reads ran⟩

/-- The report of the round that ended the wait stands through the outage. -/
theorem outage_still_ready : ∃ w, run NodeWorld.step (.start []) outageActions = some w ∧
    w.readiness.requireReady = .next ∧
    ∃ info, (∃ action ∈ outageActions, action.LoadedPoll info) ∧
      w.readiness.node = { NodeReport.ofInfo info with mempoolLoaded := some true } := by
  have ends : (run NodeWorld.step (.start []) outageActions).map NodeWorld.startup =
      some .serving := by decide +kernel
  obtain ⟨w, ran, serving⟩ := Option.map_eq_some_iff.mp ends
  obtain ⟨-, ready, loaded⟩ := ready_after_loaded_poll ran
  rw [if_pos serving] at ready
  obtain ⟨info, polled, -, told⟩ := loaded (by rw [serving]; nofun)
  exact ⟨w, ran, ready, info, polled, told⟩

end MempoolObserver
