import Mathlib.Data.List.AList
import Mathlib.Data.Finset.Card
import MempoolObserver.Library.Runs

/-!
# Subscriptions over one socket

`WsProvider` keeps one websocket for the whole app. Components register handlers
for subjects; the first handler of a subject sends a `subscribe` frame and the
last one to go sends an `unsubscribe`, both only while the mirrored ready state is
open, and an effect resubscribes every registered subject when the rendered ready
state turns open. On the server each connection starts with an empty subscription
map.

The three views of the connection are kept apart: the socket itself, the
`readyState` the websocket hook holds, which follows the socket's events, and the
mirror, which follows the renders. A frame sent while the socket is not open is
dropped or kept by the hook, and a kept frame goes out on the next open before the
provider's effect.

A kept `subscribe` frame outlives its handler when the handler is gone by the time
the socket opens again: the cleanup saw a closed mirror and sent nothing. That is
the only way the two sets can part, and `Covered` says that it has not happened.

## Main results

* `LinkInv` — the invariant of runs in which the effect finds every subject that
  is about to be subscribed registered
* `subscriptions_eq_registered` — both sets agree in such runs, once everything
  sent is processed
* `covered_of_dropped` — dropping frames instead of keeping them is enough
-/

namespace MempoolObserver

open Runs

/-! ### Frames and the registry -/

inductive WsSubject where
  | mempoolDelta
  | mempoolStats
  | chainTip
  | clusterDelta
  deriving DecidableEq, Repr

/-- Client to server frames. -/
inductive ClientFrame where
  | subscribe (subject : WsSubject)
  | unsubscribe (subject : WsSubject)
  deriving DecidableEq, Repr

inductive ReadyState where
  | uninstantiated
  | connecting
  | opened
  | closing
  | closed
  deriving DecidableEq, Repr

/-- The identity of a handler. -/
abbrev Handler := ℕ

/-- The handlers of each subject; the subject that was set last comes first. -/
abbrev Registry := AList fun _ : WsSubject => Finset Handler

namespace Registry

def handlers (registry : Registry) (subject : WsSubject) : Finset Handler :=
  (registry.lookup subject).getD ∅

/-- A subject that is there keeps its place. -/
def set (registry : Registry) (subject : WsSubject) (handlers : Finset Handler) : Registry :=
  if subject ∈ registry then AList.replace subject handlers registry
  else AList.insert subject handlers registry

/-- Adds a handler; also tells whether it is its subject's only one. -/
def register (registry : Registry) (subject : WsSubject) (handler : Handler) : Registry × Bool :=
  let handlers := insert handler (registry.handlers subject)
  (registry.set subject handlers, handlers.card = 1)

/-- Deletes a handler, and the subject with its last one; also tells whether the
subject went. -/
def unregister (registry : Registry) (subject : WsSubject) (handler : Handler) : Registry × Bool :=
  match registry.lookup subject with
  | none => (registry, false)
  | some current =>
    let current := current.erase handler
    if current.card = 0 then (registry.erase subject, true)
    else (registry.set subject current, false)

/-- No subject is left without handlers. -/
def Inhabited (registry : Registry) : Prop :=
  ∀ subject handlers, registry.lookup subject = some handlers → handlers.Nonempty

variable {registry : Registry} {subject other : WsSubject} {handler : Handler}

theorem Inhabited.nonempty_iff (inhabited : registry.Inhabited) :
    (registry.handlers subject).Nonempty ↔ subject ∈ registry := by
  rw [← AList.lookup_isSome, handlers]
  cases found : registry.lookup subject with
  | none => simp
  | some current => simpa using inhabited subject current found

theorem dlookup_kreplace {handlers : Finset Handler}
    (entries : List (Sigma fun _ : WsSubject => Finset Handler)) :
    (entries.kreplace subject handlers).dlookup other =
      if other = subject ∧ subject ∈ entries.keys then some handlers
      else entries.dlookup other := by
  induction entries with
  | nil => simp [List.kreplace]
  | cons entry rest ih =>
    obtain ⟨key, current⟩ := entry
    by_cases found : subject = key
    · subst found
      rw [List.kreplace, List.lookmap_cons_some _ _ (dif_pos rfl)]
      by_cases same : other = subject
      · subst same
        simp
      · rw [List.dlookup_cons_ne _ _ same, if_neg fun both => same both.1,
          List.dlookup_cons_ne _ _ same]
    · rw [List.kreplace, List.lookmap_cons_none _ _ (dif_neg found), ← List.kreplace]
      by_cases same : other = key
      · subst same
        simp [Ne.symm found]
      · rw [List.dlookup_cons_ne _ _ same, ih, List.dlookup_cons_ne _ _ same]
        simp [found]

theorem lookup_set {handlers : Finset Handler} : (registry.set subject handlers).lookup other =
    if other = subject then some handlers else registry.lookup other := by
  unfold set
  split_ifs with present same same
  · exact (dlookup_kreplace registry.entries).trans (if_pos ⟨same, AList.mem_keys.mp present⟩)
  · exact (dlookup_kreplace registry.entries).trans (if_neg fun both => same both.1)
  · subst same
    exact AList.lookup_insert registry
  · exact AList.lookup_insert_ne same

@[simp] theorem mem_set {handlers : Finset Handler} :
    other ∈ registry.set subject handlers ↔ other = subject ∨ other ∈ registry := by
  unfold set
  split_ifs with present
  · rw [AList.mem_replace]
    exact ⟨.inr, fun either => either.elim (fun same => same ▸ present) id⟩
  · exact AList.mem_insert registry

theorem inhabited_set {current : Finset Handler} (inhabited : registry.Inhabited)
    (nonempty : current.Nonempty) : Inhabited (registry.set subject current) := by
  intro key found lookup
  rw [lookup_set] at lookup
  split_ifs at lookup with same
  · cases lookup
    exact nonempty
  · exact inhabited key found lookup

theorem Inhabited.register (inhabited : registry.Inhabited) :
    (registry.register subject handler).1.Inhabited :=
  inhabited_set inhabited ⟨handler, Finset.mem_insert_self _ _⟩

theorem Inhabited.unregister (inhabited : registry.Inhabited) :
    (registry.unregister subject handler).1.Inhabited := by
  unfold Registry.unregister
  split
  · exact inhabited
  · rename_i current found
    dsimp only
    split_ifs with emptied
    · intro key handlers lookup
      have other : key ≠ subject := by
        rintro rfl
        rw [AList.lookup_erase] at lookup
        cases lookup
      rw [AList.lookup_erase_ne other] at lookup
      exact inhabited key handlers lookup
    · exact inhabited_set inhabited (Finset.card_ne_zero.mp emptied)

theorem mem_register :
    other ∈ (registry.register subject handler).1 ↔ other = subject ∨ other ∈ registry :=
  mem_set

/-- A subject is new to the registry only with its first handler. -/
theorem register_of_not_first (h : (registry.register subject handler).2 = false) :
    subject ∈ registry := by
  rw [← AList.lookup_isSome]
  cases found : registry.lookup subject with
  | none => simp [Registry.register, handlers, found] at h
  | some current => rfl

theorem handlers_register_of_ne (differ : other ≠ subject) :
    (registry.register subject handler).1.handlers other = registry.handlers other := by
  rw [handlers, Registry.register, lookup_set, if_neg differ, ← handlers]

theorem handlers_unregister_subset :
    (registry.unregister subject handler).1.handlers other ⊆ registry.handlers other := by
  unfold Registry.unregister
  split
  · exact Finset.Subset.refl _
  · rename_i current found
    dsimp only
    by_cases same : other = subject
    · subst same
      split_ifs
      · simp [handlers]
      · simpa [handlers, found, lookup_set] using Finset.erase_subset handler current
    · split_ifs
      · simp [handlers, AList.lookup_erase_ne same]
      · simp [handlers, lookup_set, same]

theorem mem_unregister :
    other ∈ (registry.unregister subject handler).1 ↔
      other ∈ registry ∧ ((registry.unregister subject handler).2 = true → other ≠ subject) := by
  unfold Registry.unregister
  split
  · simp
  · rename_i current found
    dsimp only
    have member : subject ∈ registry := by
      rw [← AList.lookup_isSome, found]
      rfl
    split_ifs with emptied
    · simp [AList.mem_erase, and_comm]
    · simp only [mem_set]
      aesop

end Registry

/-! ### The connection -/

/-- What the server's handler does with a frame, as far as the keys of its
subscription map go; a second `subscribe` is ignored. -/
def handleClientFrame (subscriptions : Finset WsSubject) : ClientFrame → Finset WsSubject
  | .subscribe subject => insert subject subscriptions
  | .unsubscribe subject => subscriptions.erase subject

/-- An open socket, from the client's queue to the server's subscription map. -/
structure Connection where
  /-- Frames sent and not yet handled. -/
  inbound : List ClientFrame
  subscriptions : Finset WsSubject
  /-- Whether the provider's effect has run on this connection. -/
  resubscribed : Bool

namespace Connection

def fresh : Connection := ⟨[], ∅, false⟩

/-- The subscription map once everything sent is handled. -/
def settled (connection : Connection) : Finset WsSubject :=
  connection.inbound.foldl handleClientFrame connection.subscriptions

def send (connection : Connection) (frames : List ClientFrame) : Connection :=
  { connection with inbound := connection.inbound ++ frames }

theorem settled_send (connection : Connection) (frames : List ClientFrame) :
    (connection.send frames).settled = frames.foldl handleClientFrame connection.settled :=
  List.foldl_append

end Connection

theorem foldl_subscribe (subjects : List WsSubject) (subscriptions : Finset WsSubject) :
    (subjects.map ClientFrame.subscribe).foldl handleClientFrame subscriptions =
      subscriptions ∪ subjects.toFinset := by
  induction subjects generalizing subscriptions with
  | nil => simp
  | cons subject subjects ih =>
    rw [List.map_cons, List.foldl_cons, ih]
    ext other
    simp only [handleClientFrame, Finset.mem_union, Finset.mem_insert, List.mem_toFinset,
      List.mem_cons]
    tauto

/-! ### The provider -/

structure WsLink where
  registry : Registry
  /-- The ready state at the last render. -/
  readyStateRef : ReadyState
  /-- The ready state the websocket hook holds. -/
  readyState : ReadyState
  isFirstRender : Bool
  /-- A render has changed the ready state and its effect has not run yet. -/
  effectDue : Bool
  /-- Frames the hook kept for the next open. -/
  messageQueue : List ClientFrame
  /-- The socket, while it is open. -/
  connection : Option Connection

/-- What happens to the page and its socket. A step that sends frames says which of
them the hook keeps in case the socket is not open. -/
inductive LinkAction where
  | mount (subject : WsSubject) (handler : Handler) (keep : ClientFrame → Bool)
  | cleanup (subject : WsSubject) (handler : Handler) (keep : ClientFrame → Bool)
  | render
  | effect (keep : ClientFrame → Bool)
  | openSocket
  | flush
  | lose
  | notify (state : ReadyState)
  | serve

namespace WsLink

/-- The provider as first rendered: its effects are due, the socket is not open. -/
def initial : WsLink where
  registry := ∅
  readyStateRef := .uninstantiated
  readyState := .uninstantiated
  isFirstRender := true
  effectDue := true
  messageQueue := []
  connection := none

/-- `sendJsonMessage`, for several frames. -/
def sendJsonMessages (link : WsLink) (frames : List ClientFrame) (keep : ClientFrame → Bool) :
    WsLink :=
  match link.connection with
  | some connection => { link with connection := some (connection.send frames) }
  | none => { link with messageQueue := link.messageQueue ++ frames.filter keep }

@[simp] theorem registry_sendJsonMessages (link : WsLink) (frames : List ClientFrame)
    (keep : ClientFrame → Bool) : (link.sendJsonMessages frames keep).registry = link.registry := by
  unfold sendJsonMessages
  split <;> rfl

/-- `subscribe`: the first handler of a subject sends a frame. -/
def subscribe (link : WsLink) (subject : WsSubject) (handler : Handler)
    (keep : ClientFrame → Bool) : WsLink :=
  let registered := link.registry.register subject handler
  let first := registered.2 ∧ link.readyStateRef = .opened
  { link with registry := registered.1 }.sendJsonMessages
    (if first then [.subscribe subject] else []) keep

/-- The function `subscribe` returns: the last handler of a subject sends a frame. -/
def unsubscribe (link : WsLink) (subject : WsSubject) (handler : Handler)
    (keep : ClientFrame → Bool) : WsLink :=
  let unregistered := link.registry.unregister subject handler
  let last := unregistered.2 ∧ link.readyStateRef = .opened
  { link with registry := unregistered.1 }.sendJsonMessages
    (if last then [.unsubscribe subject] else []) keep

/-- Whether the effect is about to resubscribe. -/
def Resubscribes (link : WsLink) : Prop :=
  link.isFirstRender = false ∧ link.readyStateRef = .opened

instance (link : WsLink) : Decidable link.Resubscribes := inferInstanceAs (Decidable (_ ∧ _))

/-- The provider's effect: every registered subject is subscribed once the rendered
ready state is open, except on the first render. -/
def runEffect (link : WsLink) (keep : ClientFrame → Bool) : WsLink :=
  let done := { link with isFirstRender := false, effectDue := false }
  if link.Resubscribes then
    let sent := done.sendJsonMessages (link.registry.keys.reverse.map .subscribe) keep
    { sent with connection := sent.connection.map ({ · with resubscribed := true }) }
  else done

/-- One step of the page, the socket or the server; `none` when it is not possible. -/
def step (link : WsLink) : LinkAction → Option WsLink
  | .mount subject handler keep => some (link.subscribe subject handler keep)
  | .cleanup subject handler keep => some (link.unsubscribe subject handler keep)
  | .render =>
    -- effects of the last render run before the next one
    if link.effectDue then none
    else some { link with
      readyStateRef := link.readyState, effectDue := link.readyState ≠ link.readyStateRef }
  | .effect keep =>
    -- the hook's own effect, which flushes its queue, runs first
    if link.effectDue ∧ (link.Resubscribes → link.connection.isSome → link.messageQueue = []) then
      some (link.runEffect keep)
    else none
  | .openSocket =>
    -- the hook reconnects from its close handler, so it has seen the last socket close
    if link.connection.isNone ∧ link.readyState ≠ .opened then
      some { link with connection := some .fresh, readyState := .opened }
    else none
  | .flush =>
    link.connection.map fun connection =>
      { link with connection := some (connection.send link.messageQueue), messageQueue := [] }
  | .lose => link.connection.map fun _ => { link with connection := none }
  | .notify state =>
    if link.connection.isNone ∧ state ≠ .opened then some { link with readyState := state }
    else none
  | .serve =>
    match link.connection with
    | some ⟨frame :: inbound, subscriptions, resubscribed⟩ =>
      let handled := ⟨inbound, handleClientFrame subscriptions frame, resubscribed⟩
      some { link with connection := some handled }
    | _ => none

/-- The ways an action can go, each from where it can and with what it leaves. -/
inductive Goes (link : WsLink) : LinkAction → WsLink → Prop
  | mount (subject : WsSubject) (handler : Handler) (keep : ClientFrame → Bool) :
      Goes link (.mount subject handler keep) (link.subscribe subject handler keep)
  | cleanup (subject : WsSubject) (handler : Handler) (keep : ClientFrame → Bool) :
      Goes link (.cleanup subject handler keep) (link.unsubscribe subject handler keep)
  | render : Goes link .render
      { link with
        readyStateRef := link.readyState, effectDue := link.readyState ≠ link.readyStateRef }
  | effect (keep : ClientFrame → Bool)
      (flushed : link.Resubscribes → link.connection.isSome → link.messageQueue = []) :
      Goes link (.effect keep) (link.runEffect keep)
  | openSocket (closed : link.connection = none) :
      Goes link .openSocket { link with connection := some .fresh, readyState := .opened }
  | flush {connection : Connection} (opened : link.connection = some connection) :
      Goes link .flush
        { link with connection := some (connection.send link.messageQueue), messageQueue := [] }
  | lose {connection : Connection} (opened : link.connection = some connection) :
      Goes link .lose { link with connection := none }
  | notify {state : ReadyState} (closed : link.connection = none) :
      Goes link (.notify state) { link with readyState := state }
  | serve {frame : ClientFrame} {inbound : List ClientFrame} {subscriptions : Finset WsSubject}
      {resubscribed : Bool}
      (opened : link.connection = some ⟨frame :: inbound, subscriptions, resubscribed⟩) :
      Goes link .serve
        { link with
          connection := some ⟨inbound, handleClientFrame subscriptions frame, resubscribed⟩ }

theorem step_cases {link next : WsLink} {action : LinkAction}
    (stepped : link.step action = some next) : Goes link action next := by
  cases action with
  | mount subject handler keep =>
    cases stepped
    exact .mount subject handler keep
  | cleanup subject handler keep =>
    cases stepped
    exact .cleanup subject handler keep
  | render =>
    simp only [step] at stepped
    split_ifs at stepped
    cases stepped
    exact .render
  | effect keep =>
    simp only [step] at stepped
    split_ifs at stepped with due
    cases stepped
    exact .effect keep due.2
  | openSocket =>
    simp only [step] at stepped
    split_ifs at stepped with closed
    cases stepped
    exact .openSocket (Option.isNone_iff_eq_none.mp closed.1)
  | flush =>
    simp only [step, Option.map_eq_some_iff] at stepped
    obtain ⟨connection, opened, rfl⟩ := stepped
    exact .flush opened
  | lose =>
    simp only [step, Option.map_eq_some_iff] at stepped
    obtain ⟨connection, opened, rfl⟩ := stepped
    exact .lose opened
  | notify state =>
    simp only [step] at stepped
    split_ifs at stepped with closed
    cases stepped
    exact .notify (Option.isNone_iff_eq_none.mp closed.1)
  | serve =>
    simp only [step] at stepped
    split at stepped <;> cases stepped
    exact .serve ‹_›

/-! ### Agreement of both sides -/

/-- Every subject that the frames sent on this connection leave subscribed has a
handler. -/
def Covered (link : WsLink) : Prop :=
  ∀ connection, link.connection = some connection →
    ∀ subject ∈ connection.settled, subject ∈ link.registry

/-- An effect that resubscribes finds every subject covered. -/
def FindsCovered (link : WsLink) : LinkAction → Prop
  | .effect _ => link.Resubscribes → link.Covered
  | _ => True

/-- What holds of an open socket: the hook has seen it open, and once the provider's
effect has run on it both sides agree up to the frames in flight. -/
structure Agrees (link : WsLink) (connection : Connection) : Prop where
  seen : link.readyState = .opened
  mirrored : connection.resubscribed → link.readyStateRef = .opened
  flushed : connection.resubscribed → link.messageQueue = []
  agree : connection.resubscribed →
    ∀ subject, subject ∈ connection.settled ↔ subject ∈ link.registry

structure LinkInv (link : WsLink) : Prop where
  inhabited : link.registry.Inhabited
  agrees : ∀ connection, link.connection = some connection → link.Agrees connection

theorem linkInv_initial : initial.LinkInv where
  inhabited subject handlers found := by simp [initial] at found
  agrees connection opened := by simp [initial] at opened

variable {link next : WsLink} {subject : WsSubject} {handler : Handler} {keep : ClientFrame → Bool}

/-- Changing the registry together with the frame that announces the change. -/
theorem LinkInv.register {registry : Registry} {frames : List ClientFrame} (inv : link.LinkInv)
    (inhabited : registry.Inhabited)
    (announced : link.readyStateRef = .opened → ∀ settled : Finset WsSubject,
      (∀ subject, subject ∈ settled ↔ subject ∈ link.registry) →
      ∀ subject, subject ∈ frames.foldl handleClientFrame settled ↔ subject ∈ registry) :
    ({ link with registry := registry }.sendJsonMessages frames keep).LinkInv := by
  unfold sendJsonMessages
  cases opened : link.connection with
  | none => exact ⟨inhabited, fun connection h => by simp at h⟩
  | some connection =>
    refine ⟨inhabited, fun sent h => ?_⟩
    obtain rfl : connection.send frames = sent := by simpa using h
    obtain ⟨seen, mirrored, flushed, agree⟩ := inv.agrees connection opened
    refine ⟨seen, mirrored, flushed, fun ran => ?_⟩
    intro subject
    rw [Connection.settled_send]
    exact announced (mirrored ran) connection.settled (agree ran) subject

theorem LinkInv.subscribe (inv : link.LinkInv) : (link.subscribe subject handler keep).LinkInv := by
  refine inv.register inv.inhabited.register ?_
  intro opened settled agree other
  rw [Registry.mem_register]
  by_cases first : (link.registry.register subject handler).2 = true
  · simp [first, opened, handleClientFrame, agree]
  · have known := Registry.register_of_not_first (Bool.eq_false_iff.mpr first)
    simp only [first, false_and, Bool.false_eq_true, if_false, List.foldl_nil, agree]
    constructor
    · exact Or.inr
    · rintro (rfl | member)
      · exact known
      · exact member

theorem LinkInv.unsubscribe (inv : link.LinkInv) :
    (link.unsubscribe subject handler keep).LinkInv := by
  refine inv.register inv.inhabited.unregister ?_
  intro opened settled agree other
  rw [Registry.mem_unregister]
  by_cases emptied : (link.registry.unregister subject handler).2 = true
  · simp [emptied, opened, handleClientFrame, agree, and_comm]
  · simp [emptied, agree]

/-- Resubscribing every registered subject makes both sides agree, provided that no
other subject was about to be subscribed. -/
theorem LinkInv.runEffect (inv : link.LinkInv) (covered : link.Resubscribes → link.Covered)
    (flushed : link.Resubscribes → link.connection.isSome → link.messageQueue = []) :
    (link.runEffect keep).LinkInv := by
  unfold WsLink.runEffect
  dsimp only
  -- The effect subscribes to the whole registry; outside of an opening it does nothing.
  split_ifs with resubscribes
  · unfold sendJsonMessages
    cases opened : link.connection with
    | none => exact ⟨inv.inhabited, fun connection h => by simp at h⟩
    | some connection =>
      refine ⟨inv.inhabited, fun sent h => ?_⟩
      simp only [Option.map_some, Option.some.injEq] at h
      subst h
      have same := inv.agrees connection opened
      -- Everything in the registry is asked for, and nothing was settled that is not in it.
      refine ⟨same.seen, fun _ => resubscribes.2, fun _ => ?_, fun _ subject => ?_⟩
      · exact flushed resubscribes (by simp [opened])
      · have settled : Connection.settled { connection.send
            (link.registry.keys.reverse.map .subscribe) with resubscribed := true } =
            connection.settled ∪ link.registry.keys.reverse.toFinset :=
          (connection.settled_send _).trans (foldl_subscribe _ _)
        rw [settled, Finset.mem_union, List.mem_toFinset, List.mem_reverse, ← AList.mem_keys]
        constructor
        · rintro (member | member)
          · exact covered resubscribes connection opened subject member
          · exact member
        · exact Or.inr
  · exact ⟨inv.inhabited, fun connection opened =>
      ⟨(inv.agrees connection opened).seen, (inv.agrees connection opened).mirrored,
        (inv.agrees connection opened).flushed, (inv.agrees connection opened).agree⟩⟩

theorem LinkInv.step (inv : link.LinkInv) {action : LinkAction}
    (covered : link.FindsCovered action) (stepped : link.step action = some next) :
    next.LinkInv := by
  -- One case per action; only mounting, cleaning up and the effect send anything.
  cases step_cases stepped with
  | mount => exact inv.subscribe
  | cleanup => exact inv.unsubscribe
  | render =>
    refine ⟨inv.inhabited, fun connection opened => ?_⟩
    obtain ⟨seen, mirrored, flushed, agree⟩ := inv.agrees connection opened
    exact ⟨seen, fun _ => seen, flushed, agree⟩
  | effect keep flushed => exact inv.runEffect covered flushed
  | openSocket =>
    refine ⟨inv.inhabited, fun connection opened => ?_⟩
    cases opened
    have before : Connection.fresh.resubscribed = false := rfl
    refine ⟨rfl, ?_, ?_, ?_⟩ <;> simp [before]
  | flush opened =>
    refine ⟨inv.inhabited, fun sent h => ?_⟩
    cases h
    -- The queue was empty once the effect has run, so flushing it settles nothing new.
    obtain ⟨seen, mirrored, flushed, agree⟩ := inv.agrees _ opened
    refine ⟨seen, mirrored, fun _ => rfl, fun ran subject => ?_⟩
    have nothing := flushed ran
    rw [nothing, Connection.settled_send]
    exact agree ran subject
  | lose => exact ⟨inv.inhabited, fun connection h => by cases h⟩
  | notify closed =>
    refine ⟨inv.inhabited, fun connection opened => ?_⟩
    rw [show link.connection = some connection from opened] at closed
    cases closed
  | serve opened =>
    refine ⟨inv.inhabited, fun connection h => ?_⟩
    cases h
    obtain ⟨seen, mirrored, flushed, agree⟩ := inv.agrees _ opened
    exact ⟨seen, mirrored, flushed, agree⟩

/-! ### Dropping instead of keeping -/

/-- The hook drops whatever this action sends while the socket is not open. -/
def Drops (_ : WsLink) : LinkAction → Prop
  | .mount _ _ keep => ∀ frame, keep frame = false
  | .cleanup _ _ keep => ∀ frame, keep frame = false
  | .effect keep => ∀ frame, keep frame = false
  | _ => True

/-- What holds when nothing is ever kept: whatever was sent on the connection was sent
under an open mirror, together with its change of the registry. -/
structure DroppedInv (link : WsLink) : Prop where
  empty : link.messageQueue = []
  seen : link.connection.isSome → link.readyState = .opened
  covered : link.Covered
  silent : link.readyStateRef ≠ .opened → ∀ connection, link.connection = some connection →
    connection.settled = ∅

theorem DroppedInv.register {registry : Registry} {frames : List ClientFrame}
    (inv : link.DroppedInv) (drops : ∀ frame, keep frame = false)
    (announced : ∀ settled : Finset WsSubject,
      (∀ subject ∈ settled, subject ∈ link.registry) →
      (link.readyStateRef ≠ .opened → settled = ∅) →
      (∀ subject ∈ frames.foldl handleClientFrame settled, subject ∈ registry) ∧
        (link.readyStateRef ≠ .opened → frames.foldl handleClientFrame settled = ∅)) :
    ({ link with registry := registry }.sendJsonMessages frames keep).DroppedInv := by
  unfold sendJsonMessages
  -- With no connection the frames are dropped, and with one they are sent at once.
  cases opened : link.connection with
  | none =>
    refine ⟨by simp [inv.empty, drops], by simp, fun connection h => by simp at h, ?_⟩
    intro _ connection h
    simp at h
  | some connection =>
    have sent := announced connection.settled (inv.covered connection opened)
      fun closed => inv.silent closed connection opened
    rw [← connection.settled_send] at sent
    refine ⟨inv.empty, fun _ => inv.seen (by simp [opened]), ?_, ?_⟩
    · intro other h
      cases h
      exact sent.1
    · intro closed other h
      cases h
      exact sent.2 closed

theorem DroppedInv.subscribe (inv : link.DroppedInv) (drops : ∀ frame, keep frame = false) :
    (link.subscribe subject handler keep).DroppedInv := by
  refine inv.register drops ?_
  intro settled covered silent
  simp only [Registry.mem_register]
  split_ifs with first
  · refine ⟨?_, fun closed => absurd first.2 closed⟩
    intro other member
    rcases Finset.mem_insert.mp member with rfl | member
    · exact Or.inl rfl
    · exact Or.inr (covered other member)
  · exact ⟨fun other member => Or.inr (covered other member), silent⟩

theorem DroppedInv.unsubscribe (inv : link.DroppedInv) (drops : ∀ frame, keep frame = false) :
    (link.unsubscribe subject handler keep).DroppedInv := by
  refine inv.register drops ?_
  intro settled covered silent
  simp only [Registry.mem_unregister]
  split_ifs with last
  · refine ⟨?_, fun closed => absurd last.2 closed⟩
    intro other member
    obtain ⟨differ, member⟩ := Finset.mem_erase.mp member
    exact ⟨covered other member, fun _ => differ⟩
  · refine ⟨fun other member => ⟨covered other member, fun emptied => ?_⟩, silent⟩
    -- the subject went without a frame, so the mirror was not open and nothing was sent
    have closed : link.readyStateRef ≠ .opened := fun opened => last ⟨emptied, opened⟩
    rw [List.foldl_nil, silent closed] at member
    exact absurd member (Finset.notMem_empty other)

theorem DroppedInv.runEffect (inv : link.DroppedInv) (drops : ∀ frame, keep frame = false) :
    (link.runEffect keep).DroppedInv := by
  unfold WsLink.runEffect
  dsimp only
  split_ifs with resubscribes
  · unfold sendJsonMessages
    cases opened : link.connection with
    | none =>
      refine ⟨by simp [inv.empty, drops], by simp, ?_, ?_⟩
      · intro connection h
        simp at h
      · intro _ connection h
        simp at h
    -- What the effect adds is in the registry, like what was settled before.
    | some connection =>
      refine ⟨inv.empty, fun _ => inv.seen (by simp [opened]), ?_, ?_⟩
      · intro sent h subject member
        simp only [Option.map_some, Option.some.injEq] at h
        subst h
        have settled : subject ∈ connection.settled ∪ link.registry.keys.reverse.toFinset := by
          rwa [← foldl_subscribe, ← Connection.settled_send]
        rw [Finset.mem_union, List.mem_toFinset, List.mem_reverse, ← AList.mem_keys] at settled
        exact settled.elim (inv.covered connection opened subject) id
      · intro closed
        exact absurd resubscribes.2 closed
  · exact ⟨inv.empty, inv.seen, inv.covered, inv.silent⟩

theorem DroppedInv.step (inv : link.DroppedInv) {action : LinkAction} (drops : link.Drops action)
    (stepped : link.step action = some next) : next.DroppedInv := by
  cases step_cases stepped with
  | mount => exact inv.subscribe drops
  | cleanup => exact inv.unsubscribe drops
  | render =>
    -- A connection means the provider has seen it open.
    refine ⟨inv.empty, inv.seen, inv.covered, fun closed connection opened => ?_⟩
    exact absurd (inv.seen (by simp [show link.connection = some connection from opened])) closed
  | effect => exact inv.runEffect drops
  | openSocket =>
    refine ⟨inv.empty, fun _ => rfl, fun connection h => ?_, fun _ connection h => ?_⟩
    · cases h
      simp [Connection.settled, Connection.fresh]
    · cases h
      rfl
  | @flush connection opened =>
    -- The queue is empty throughout, as every frame without a connection is dropped.
    have same : (connection.send link.messageQueue).settled = connection.settled := by
      rw [inv.empty, Connection.settled_send, List.foldl_nil]
    refine ⟨rfl, fun _ => inv.seen (by simp [opened]), fun sent h => ?_, fun closed sent h => ?_⟩
    · cases h
      rw [same]
      exact inv.covered connection opened
    · cases h
      rw [same]
      exact inv.silent closed connection opened
  | lose => refine ⟨inv.empty, by simp, fun _ h => ?_, fun _ _ h => ?_⟩ <;> cases h
  | notify closed =>
    refine ⟨inv.empty, fun opened => ?_, inv.covered, inv.silent⟩
    simp [closed] at opened
  | serve opened =>
    refine ⟨inv.empty, fun _ => inv.seen (by simp [opened]), fun connection h => ?_,
      fun closed connection h => ?_⟩
    · cases h
      exact (inv.covered _ opened :)
    · cases h
      exact (inv.silent closed _ opened :)

/-- In a run in which the hook drops frames every effect finds its subjects covered. -/
theorem covered_of_dropped {actions : List LinkAction} (drops : Along step Drops initial actions) :
    Along step FindsCovered initial actions := by
  refine drops.strengthen (fun _ _ _ inv => DroppedInv.step inv) ?_ ⟨rfl, ?_, ?_, ?_⟩
  · intro link action inv _
    cases action <;> first | exact fun _ => inv.covered | trivial
  · simp [initial]
  · intro connection opened
    simp [initial] at opened
  · intro _ connection opened
    simp [initial] at opened

/-! ### Agreement -/

/-- In every run in which the effect finds each subject that is about to be
subscribed registered: once the effect for an open socket has run and the frames sent
are handled, the server is subscribed to exactly the subjects with a handler. -/
theorem subscriptions_eq_registered {actions : List LinkAction}
    (ran : run step initial actions = some link)
    (covered : Along step FindsCovered initial actions)
    {connection : Connection} (opened : link.connection = some connection)
    (resubscribed : connection.resubscribed) (drained : connection.inbound = [])
    (subject : WsSubject) :
    subject ∈ connection.subscriptions ↔ (link.registry.handlers subject).Nonempty := by
  have inv : link.LinkInv :=
    run_induction_along (fun _ _ _ inv => inv.step) linkInv_initial covered ran
  have agree := (inv.agrees connection opened).agree resubscribed subject
  rw [Connection.settled, drained, List.foldl_nil] at agree
  rw [agree, inv.inhabited.nonempty_iff]

/-- A handler mounted before the socket first opens. -/
def startup : List LinkAction :=
  [.mount .chainTip 0 fun _ => false, .effect fun _ => false, .openSocket, .render,
    .effect fun _ => false, .serve]

/-- A handler mounted before the socket first opens is subscribed by the effect. -/
theorem subscriptions_eq_registered_of_startup :
    ∃ link connection, run step initial startup = some link ∧
      link.connection = some connection ∧ WsSubject.chainTip ∈ connection.subscriptions ∧
      ∀ subject, subject ∈ connection.subscriptions ↔
        (link.registry.handlers subject).Nonempty := by
  refine ⟨_, _, rfl, rfl, by decide, ?_⟩
  have drops : Along step Drops initial startup :=
    along_of_forall_mem (by simp [startup, Drops])
  exact subscriptions_eq_registered rfl (covered_of_dropped drops) rfl rfl rfl

/-- A handler is mounted after the socket is lost and before the next render, so that
its frame is kept; it is gone when the socket opens again, and its frame goes out. -/
theorem not_subscriptions_eq_registered :
    ¬ ∀ (actions : List LinkAction) (link : WsLink) (connection : Connection),
      run step initial actions = some link → link.connection = some connection →
      connection.resubscribed → connection.inbound = [] →
      ∀ subject, subject ∈ connection.subscriptions ↔
        (link.registry.handlers subject).Nonempty := by
  intro agree
  have kept := (agree [.effect fun _ => true, .openSocket, .render, .effect fun _ => true, .lose,
    .mount .mempoolStats 0 fun _ => true, .notify .closed, .render, .effect fun _ => true,
    .cleanup .mempoolStats 0 fun _ => true, .openSocket, .flush, .render, .effect fun _ => true,
    .serve] _ _ rfl rfl rfl rfl .mempoolStats).mp (by decide)
  exact absurd kept (by decide)

end WsLink

end MempoolObserver
