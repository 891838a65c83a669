import Mathlib.Data.List.Chain
import MempoolObserver.Web.Downtime

/-!
# The health of the node in the event log

The service remembers whether the node was last seen reachable, and writes a row to the
event log when an observation differs from that. A node that comes back is asked for its
version, and a version other than the last one in the log is another row.

A row that cannot be written is lost: the state has changed by then. A version that cannot
be read counts as none.

## Main definitions

* `EventLog` — the rows of `system_events`, oldest first
* `NodeHealth.observeReachable`, `NodeHealth.observeUnreachable`
* `Linked` — each version row starts from the version of the one before

## Main results

* `NodeHealth.alternates_reachable`, `NodeHealth.alternates_unreachable` — what an
  observation adds to the connection rows
* `VersionLog.checkVersion` — what it adds to the version rows
-/

namespace MempoolObserver

/-! ### The log -/

inductive Json where
  | null
  | bool (b : Bool)
  | num (n : ℤ)
  | str (s : String)
  | obj (fields : List (String × Json))

namespace Json

/-- The value of a field, or `null`. -/
def field (key : String) : Json → Json
  | obj fields => ((fields.find? fun entry => entry.1 = key).map Prod.snd).getD null
  | _ => null

def asStr : Json → Option String
  | str s => some s
  | _ => none

def ofOption : Option String → Json
  | some s => str s
  | none => null

end Json

structure NewSystemEvent where
  kind : SystemEventKind
  details : Json

/-- The rows of `system_events` in the order of their ids. -/
abbrev EventLog := List NewSystemEvent

namespace EventLog

/-- Failures are logged and swallowed, never propagated. -/
def record (log : EventLog) (stored : Bool) (event : NewSystemEvent) : EventLog :=
  if stored then log ++ [event] else log

def ofKind (log : EventLog) (kind : SystemEventKind) : EventLog :=
  log.filter fun event => event.kind = kind

/-- Most recent row of `kind`, if any. -/
def latestOfKind (log : EventLog) (kind : SystemEventKind) : Option NewSystemEvent :=
  (log.ofKind kind).getLast?

end EventLog

/-! ### The service -/

structure GetBlockchainInfoModel where
  blocks : Int64
  headers : Int64
  /-- Fraction between 0 and 1; it is passed on and never computed with. -/
  verificationProgress : ℚ
  initialBlockDownload : Bool
  deriving DecidableEq

structure GetNetworkInfoModel where
  version : ℕ
  subversion : String

inductive Reachability where
  | unknown
  | reachable
  | unreachable
  deriving DecidableEq, Repr

/-- Which queries of an observation go through. -/
structure HealthQueries where
  connectionStored : Bool
  latestRead : Bool
  versionStored : Bool

structure NodeHealth where
  last : Reachability
  log : EventLog

def connectedEvent (info : GetBlockchainInfoModel) (subversion : Option String) :
    NewSystemEvent where
  kind := .nodeConnected
  details := .obj [("blocks", .num info.blocks.toInt), ("headers", .num info.headers.toInt),
    ("subversion", .ofOption subversion)]

def disconnectedEvent (error : String) : NewSystemEvent where
  kind := .nodeDisconnected
  details := .obj [("error", .str error)]

def versionChangedEvent (fromSubversion : Option String) (network : GetNetworkInfoModel) :
    NewSystemEvent where
  kind := .nodeVersionChanged
  details := .obj [("from", .ofOption fromSubversion), ("to", .str network.subversion),
    ("version", .num network.version)]

/-- The subversion that the log says the node has; a failed read says nothing. -/
def fromSubversion (log : EventLog) (queries : HealthQueries) : Option String :=
  let previous := if queries.latestRead then log.latestOfKind .nodeVersionChanged else none
  previous.bind fun event => (event.details.field "to").asStr

/-- Emits a `node_version_changed` row when the subversion is a different one. -/
def checkVersion (log : EventLog) (queries : HealthQueries) (network : GetNetworkInfoModel) :
    EventLog :=
  if fromSubversion log queries = some network.subversion then log
  else log.record queries.versionStored
    (versionChangedEvent (fromSubversion log queries) network)

namespace NodeHealth

/-- The service of a process that has just started, on a database with these rows. -/
def new (log : EventLog) : NodeHealth := ⟨.unknown, log⟩

/-- Flips the last-known state, if the observation changes it. -/
def transition (health : NodeHealth) (observed : Reachability) : Option NodeHealth :=
  if health.last = observed then none else some { health with last := observed }

/-- A successful `getblockchaininfo`. The node is reachable whatever it is syncing; `network` is
what it then says of its version. -/
def observeReachable (health : NodeHealth) (queries : HealthQueries)
    (info : GetBlockchainInfoModel) (network : Option GetNetworkInfoModel) : NodeHealth :=
  match health.transition .reachable with
  | none => health
  | some health =>
    let log := health.log.record queries.connectionStored
      (connectedEvent info (network.map GetNetworkInfoModel.subversion))
    match network with
    | some network => { health with log := checkVersion log queries network }
    | none => { health with log }

/-- A call that did not reach the node. -/
def observeUnreachable (health : NodeHealth) (queries : HealthQueries) (error : String) :
    NodeHealth :=
  match health.transition .unreachable with
  | none => health
  | some health =>
    { health with log := health.log.record queries.connectionStored (disconnectedEvent error) }

end NodeHealth

/-! ### Connection rows -/

/-- What a connection row says of the node. -/
def NewSystemEvent.connection (event : NewSystemEvent) : Option Reachability :=
  match event.kind with
  | .nodeConnected => some .reachable
  | .nodeDisconnected => some .unreachable
  | _ => none

/-- The connection rows, as what they say. -/
def EventLog.connections (log : EventLog) : List Reachability :=
  log.filterMap NewSystemEvent.connection

/-- From a log on, the connection rows of the service alternate, and the last of them is the
last-known state. -/
structure NodeHealth.Alternates (start : EventLog) (health : NodeHealth) : Prop where
  appends : ∃ added, health.log = start ++ added ∧ (EventLog.connections added).IsChain (· ≠ ·) ∧
    (EventLog.connections added).getLast?.getD .unknown = health.last

section Connections

variable {start log : EventLog} {health : NodeHealth} {queries : HealthQueries}
  {info : GetBlockchainInfoModel} {network : Option GetNetworkInfoModel}

theorem EventLog.connections_append (first second : EventLog) :
    EventLog.connections (first ++ second) =
      EventLog.connections first ++ EventLog.connections second :=
  List.filterMap_append

/-- The version check writes no connection row. -/
theorem checkVersion_appends (log : EventLog) (queries : HealthQueries)
    (network : GetNetworkInfoModel) :
    ∃ added, checkVersion log queries network = log ++ added ∧
      EventLog.connections added = [] := by
  unfold checkVersion EventLog.record
  split_ifs
  · exact ⟨[], (List.append_nil log).symm, rfl⟩
  · exact ⟨_, rfl, rfl⟩
  · exact ⟨[], (List.append_nil log).symm, rfl⟩

namespace NodeHealth

theorem last_observeReachable : (health.observeReachable queries info network).last = .reachable := by
  unfold observeReachable transition
  split_ifs with same
  · exact same
  · cases network <;> rfl

theorem last_observeUnreachable (error : String) :
    (health.observeUnreachable queries error).last = .unreachable := by
  unfold observeUnreachable transition
  split_ifs with same
  · exact same
  · rfl

theorem alternates_new (start : EventLog) : Alternates start (new start) :=
  ⟨[], (List.append_nil start).symm, List.isChain_nil, rfl⟩

/-- A row that says something new keeps the alternation. -/
theorem Alternates.concat (alternates : Alternates start health) (event : NewSystemEvent)
    {observed : Reachability} (tells : event.connection = some observed)
    (differs : health.last ≠ observed) :
    Alternates start ⟨observed, health.log ++ [event]⟩ := by
  obtain ⟨added, same, chain, last⟩ := alternates.appends
  have one : EventLog.connections [event] = [observed] := by
    simp [EventLog.connections, tells]
  refine ⟨added ++ [event], by rw [same, List.append_assoc], ?_, ?_⟩
  · rw [EventLog.connections_append, one]
    refine chain.append (List.isChain_singleton observed) fun before member next only => ?_
    obtain rfl : observed = next := Option.some.inj only
    rintro rfl
    apply differs
    rw [← last, Option.mem_def.mp member]
    rfl
  · rw [EventLog.connections_append, one, List.getLast?_concat]
    rfl

theorem Alternates.append (alternates : Alternates start health) {more : EventLog}
    (silent : EventLog.connections more = []) :
    Alternates start { health with log := health.log ++ more } := by
  obtain ⟨added, same, chain, last⟩ := alternates.appends
  refine ⟨added ++ more, by rw [same, List.append_assoc], ?_, ?_⟩
  · rwa [EventLog.connections_append, silent, List.append_nil]
  · rwa [EventLog.connections_append, silent, List.append_nil]

theorem alternates_reachable (alternates : Alternates start health)
    (stored : queries.connectionStored = true) :
    Alternates start (health.observeReachable queries info network) := by
  unfold observeReachable transition
  split_ifs with same
  · exact alternates
  · simp only [EventLog.record, stored, if_true]
    have connected := alternates.concat
      (connectedEvent info (network.map GetNetworkInfoModel.subversion)) rfl same
    cases network with
    | none => exact connected
    | some network =>
      obtain ⟨more, checked, silent⟩ := checkVersion_appends
        (health.log ++ [connectedEvent info (some network.subversion)]) queries network
      simp only [Option.map_some, checked]
      exact connected.append silent

theorem alternates_unreachable (alternates : Alternates start health)
    (stored : queries.connectionStored = true) (error : String) :
    Alternates start (health.observeUnreachable queries error) := by
  unfold observeUnreachable transition
  split_ifs with same
  · exact alternates
  · simp only [EventLog.record, stored, if_true]
    exact alternates.concat (disconnectedEvent error) rfl same

end NodeHealth

end Connections

/-! ### Version rows -/

/-- A change of the node's version. -/
structure VersionChange where
  fromSubversion : Option String
  network : GetNetworkInfoModel

namespace VersionChange

def event (change : VersionChange) : NewSystemEvent :=
  versionChangedEvent change.fromSubversion change.network

/-- The second change starts where the first one ended, and ends somewhere else. -/
def Follows (first second : VersionChange) : Prop :=
  second.fromSubversion = some first.network.subversion ∧
    second.network.subversion ≠ first.network.subversion

end VersionChange

/-- Every version row starts from the version of the one before, the first one from none. -/
structure Linked (changes : List VersionChange) : Prop where
  first : ∀ change ∈ changes.head?, change.fromSubversion = none
  follows : changes.IsChain VersionChange.Follows

/-- The version rows of the log are linked changes. -/
structure VersionLog (log : EventLog) : Prop where
  linked : ∃ changes, log.ofKind .nodeVersionChanged = changes.map VersionChange.event ∧
    Linked changes

section Versions

variable {log more : EventLog} {queries : HealthQueries} {changes : List VersionChange}
  {health : NodeHealth}

theorem EventLog.ofKind_append (first second : EventLog) (kind : SystemEventKind) :
    EventLog.ofKind (first ++ second) kind = first.ofKind kind ++ second.ofKind kind :=
  List.filter_append _ _

theorem versionLog_nil : VersionLog [] where
  linked := ⟨[], rfl, ⟨by simp, List.isChain_nil⟩⟩

theorem VersionLog.append (versions : VersionLog log)
    (silent : EventLog.ofKind more .nodeVersionChanged = []) : VersionLog (log ++ more) := by
  obtain ⟨changes, rows, linked⟩ := versions.linked
  refine ⟨changes, ?_, linked⟩
  rw [EventLog.ofKind_append, silent, List.append_nil, rows]

theorem VersionLog.record (versions : VersionLog log) (stored : Bool) (event : NewSystemEvent)
    (other : event.kind ≠ .nodeVersionChanged) : VersionLog (log.record stored event) := by
  unfold EventLog.record
  split_ifs
  · apply versions.append
    simp [EventLog.ofKind, other]
  · exact versions

/-- What the last change of a log without failed reads says. -/
theorem fromSubversion_eq (rows : log.ofKind .nodeVersionChanged = changes.map VersionChange.event)
    (read : queries.latestRead = true) :
    fromSubversion log queries = changes.getLast?.map fun change => change.network.subversion := by
  rw [fromSubversion, EventLog.latestOfKind, rows, List.getLast?_map, read]
  cases changes.getLast? <;> rfl

theorem Linked.concat (linked : Linked changes) {network : GetNetworkInfoModel}
    (differs : (changes.getLast?.map fun change => change.network.subversion) ≠
      some network.subversion) :
    Linked (changes ++
      [⟨changes.getLast?.map fun change => change.network.subversion, network⟩]) := by
  constructor
  · intro change head
    cases changes with
    | nil =>
      obtain rfl := Option.some.inj head
      rfl
    | cons first rest => exact linked.first change head
  · refine linked.follows.append (List.isChain_singleton _) fun before last next only => ?_
    obtain rfl := Option.some.inj only
    rw [Option.mem_def.mp last] at differs ⊢
    exact ⟨rfl, fun same => differs (congrArg some same.symm)⟩

/-- The check keeps the version rows linked, whether or not its row is stored. -/
theorem VersionLog.checkVersion (versions : VersionLog log) (read : queries.latestRead = true)
    (network : GetNetworkInfoModel) : VersionLog (checkVersion log queries network) := by
  obtain ⟨changes, rows, linked⟩ := versions.linked
  unfold MempoolObserver.checkVersion EventLog.record
  rw [fromSubversion_eq rows read]
  split_ifs with same stored
  · exact versions
  · refine ⟨changes ++ [⟨_, network⟩], ?_, linked.concat same⟩
    rw [EventLog.ofKind_append, rows, List.map_append]
    rfl
  · exact versions

theorem NodeHealth.versionLog_observeReachable (versions : VersionLog health.log)
    (read : queries.latestRead = true) (info : GetBlockchainInfoModel)
    (network : Option GetNetworkInfoModel) :
    VersionLog (health.observeReachable queries info network).log := by
  unfold observeReachable transition
  split_ifs
  · exact versions
  · have recorded := versions.record queries.connectionStored
      (connectedEvent info (network.map GetNetworkInfoModel.subversion)) nofun
    cases network with
    | none => exact recorded
    | some network => exact recorded.checkVersion read network

theorem NodeHealth.versionLog_observeUnreachable (versions : VersionLog health.log)
    (error : String) : VersionLog (health.observeUnreachable queries error).log := by
  unfold observeUnreachable transition
  split_ifs
  · exact versions
  · exact versions.record queries.connectionStored (disconnectedEvent error) nofun

end Versions

end MempoolObserver
