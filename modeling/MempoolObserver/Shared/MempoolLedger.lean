import MempoolObserver.Library.Collections
import MempoolObserver.Shared.Models

/-!
# The mempool ledger

The single owner of "what is in our mempool right now": the live set, the
journal of transitions not yet flushed, and whether the journal ever refused
one. Producers diff against `live` and append; the one consumer reads the whole
journal and drops it from the front once it is stored.

Everything a producer does has one shape, `Appends`: it queues a list of entries
each of which really changes `live`, of which the journal keeps the ones that
fit. The flush results are proved from that shape alone.
-/

namespace MempoolObserver

open SetLog Collections

/-- Cap on unflushed journal entries. -/
def journalCap : ℕ := 250000

structure JournalEntry where
  txid : Txid
  direction : DeltaDirection
  observedAt : OffsetDateTime
  deriving DecidableEq, Repr

/-- The set edit an entry stands for. -/
def JournalEntry.edit (entry : JournalEntry) : Edit Txid := entry.direction.edit entry.txid

/-- The set edits a run of entries stands for. -/
def edits (entries : List JournalEntry) : List (Edit Txid) := entries.map JournalEntry.edit

@[simp] theorem edits_nil : edits [] = [] := rfl

@[simp] theorem edits_cons (entry : JournalEntry) (entries : List JournalEntry) :
    edits (entry :: entries) = entry.edit :: edits entries := rfl

@[simp] theorem edits_append (first second : List JournalEntry) :
    edits (first ++ second) = edits first ++ edits second := List.map_append ..

/-- What one call on the ledger does not decide itself: the clock it reads when
it queues a txid, which it does at most once per txid, and the order in which
the hash sets it builds are iterated. -/
structure Call where
  now : Txid → OffsetDateTime
  order : Enumeration Txid

/-- The entry a call queues for `txid`. -/
def Call.entry (call : Call) (direction : DeltaDirection) (txid : Txid) : JournalEntry :=
  ⟨txid, direction, call.now txid⟩

@[simp] theorem Call.edit_entry (call : Call) (direction : DeltaDirection) (txid : Txid) :
    (call.entry direction txid).edit = direction.edit txid := rfl

@[simp] theorem Call.edits_map_entry (call : Call) (direction : DeltaDirection)
    (txids : List Txid) :
    edits (txids.map (call.entry direction)) = txids.map direction.edit := by
  simp [edits, Function.comp_def]

/-- The first and the last direction of each txid of a batch. -/
def firstLast (entries : List JournalEntry) : Txid → Option (DeltaDirection × DeltaDirection) :=
  entries.foldl (fun firstLast entry =>
    Function.update firstLast entry.txid <|
      match firstLast entry.txid with
      | some (first, _) => some (first, entry.direction)
      | none => some (entry.direction, entry.direction)) fun _ => none

/-- The txids a batch adds and those it removes in the end, in the order of a hash map. -/
def residencyDelta (order : Enumeration Txid) (entries : List JournalEntry) :
    List Txid × List Txid :=
  let txids := order.toList (entries.map JournalEntry.txid).toFinset
  (txids.filter fun txid => firstLast entries txid = some (.add, .add),
    txids.filter fun txid => firstLast entries txid = some (.remove, .remove))

structure MempoolLedger where
  live : Finset Txid
  journal : List JournalEntry
  degraded : Bool

namespace MempoolLedger

/-- A ledger nothing happened to yet. -/
def default : MempoolLedger := ⟨∅, [], false⟩

/-- Queues one entry and says whether it was accepted. -/
def push (ledger : MempoolLedger) (entry : JournalEntry) : MempoolLedger × Bool :=
  if journalCap ≤ ledger.journal.length then
    ({ ledger with degraded := true }, false)
  else
    ({ ledger with journal := ledger.journal ++ [entry] }, true)

/-- Queues the entries one by one and says whether all of them were accepted;
a refused entry does not stop the ones after it. -/
def pushAll : MempoolLedger → List JournalEntry → MempoolLedger × Bool
  | ledger, [] => (ledger, true)
  | ledger, entry :: entries =>
    let pushed := ledger.push entry
    let rest := pushed.1.pushAll entries
    (rest.1, pushed.2 && rest.2)

/-- Replaces `live` and touches nothing else: no journal entry. -/
def seed (ledger : MempoolLedger) (txids : Finset Txid) : MempoolLedger :=
  { ledger with live := txids }

/-- Diffs the full `getrawmempool` result against `live` and swaps it in. -/
def submitAuthoritative (call : Call) (ledger : MempoolLedger) (txids : Finset Txid) :
    MempoolLedger :=
  let toAdd := call.order.toList (txids \ ledger.live)
  let toRemove := call.order.toList (ledger.live \ txids)
  let added := (ledger.pushAll (toAdd.map (call.entry .add))).1
  let removed := (added.pushAll (toRemove.map (call.entry .remove))).1
  { removed with live := txids }

/-- Marks txids as present. Only txids `live` did not already hold produce an `add`. -/
def assertPresent (call : Call) (ledger : MempoolLedger) (txids : List Txid) : MempoolLedger :=
  txids.foldl (fun ledger txid =>
    if txid ∈ ledger.live then ledger
    else ({ ledger with live := insert txid ledger.live }.push (call.entry .add txid)).1) ledger

/-- Marks txids as absent. Only txids `live` actually held produce a `remove`. -/
def assertAbsent (call : Call) (ledger : MempoolLedger) (txids : List Txid) : MempoolLedger :=
  txids.foldl (fun ledger txid =>
    if txid ∈ ledger.live then
      ({ ledger with live := ledger.live.erase txid }.push (call.entry .remove txid)).1
    else ledger) ledger

/-- The whole journal, in order and without shrinking it; `none` when it is empty. -/
def beginFlush (ledger : MempoolLedger) : Option (List JournalEntry) :=
  if ledger.journal = [] then none else some ledger.journal

/-- Drops the batch from the front of the journal. -/
def commit (ledger : MempoolLedger) (batch : List JournalEntry) : MempoolLedger :=
  { ledger with journal := ledger.journal.drop batch.length }

/-- The residency the database will hold once the journal drains. -/
def eventual (ledger : MempoolLedger) (dbImage : Finset Txid) : Finset Txid :=
  ledger.journal.foldl (fun eventual entry =>
    match entry.direction with
    | .add => insert entry.txid eventual
    | .remove => eventual.erase entry.txid) dbImage

/-- Repairs the journal after the database was unreachable: queues the gap
between `live` and what the database will eventually hold, and clears `degraded`
only when the whole gap fit. -/
def reconcileAgainst (call : Call) (ledger : MempoolLedger) (dbImage : Finset Txid) :
    MempoolLedger :=
  let eventual := ledger.eventual dbImage
  let toAdd := call.order.toList (ledger.live \ eventual)
  let toRemove := call.order.toList (eventual \ ledger.live)
  let added := ledger.pushAll (toAdd.map (call.entry .add))
  let removed := added.1.pushAll (toRemove.map (call.entry .remove))
  if added.2 && removed.2 then { removed.1 with degraded := false } else removed.1

/-! ### Producers -/

end MempoolLedger

/-- A call that appends to the journal. -/
inductive Producer where
  | submitAuthoritative (call : Call) (txids : Finset Txid)
  | assertPresent (call : Call) (txids : List Txid)
  | assertAbsent (call : Call) (txids : List Txid)

def Producer.apply (ledger : MempoolLedger) : Producer → MempoolLedger
  | submitAuthoritative call txids => ledger.submitAuthoritative call txids
  | assertPresent call txids => ledger.assertPresent call txids
  | assertAbsent call txids => ledger.assertAbsent call txids

namespace MempoolLedger

/-! ### What a run of pushes leaves behind -/

@[simp] theorem push_live (ledger : MempoolLedger) (entry : JournalEntry) :
    (ledger.push entry).1.live = ledger.live := by
  unfold push
  split <;> rfl

/-- Free places in the journal. -/
def room (ledger : MempoolLedger) : ℕ := journalCap - ledger.journal.length

theorem pushAll_append (ledger : MempoolLedger) (first second : List JournalEntry) :
    ledger.pushAll (first ++ second) =
      (((ledger.pushAll first).1.pushAll second).1,
        (ledger.pushAll first).2 && ((ledger.pushAll first).1.pushAll second).2) := by
  induction first generalizing ledger with
  | nil => simp [pushAll]
  | cons entry first ih => simp [pushAll, ih, Bool.and_assoc]

/-- The journal keeps the entries that fit, in order, and remembers a refusal. -/
theorem pushAll_eq (ledger : MempoolLedger) (entries : List JournalEntry) :
    ledger.pushAll entries =
      ({ ledger with
          journal := ledger.journal ++ entries.take ledger.room
          degraded := ledger.degraded || decide (ledger.room < entries.length) },
        decide (entries.length ≤ ledger.room)) := by
  induction entries generalizing ledger with
  | nil => simp [pushAll]
  | cons entry entries ih =>
    rw [pushAll, ih]
    by_cases full : journalCap ≤ ledger.journal.length
    · have none : ledger.room = 0 := Nat.sub_eq_zero_of_le full
      have noneAfter : { ledger with degraded := true }.room = 0 := none
      simp [push, full, none, noneAfter]
    · have some : ledger.room =
          { ledger with journal := ledger.journal ++ [entry] }.room + 1 := by
        simp only [room, List.length_append, List.length_singleton]
        omega
      simp [push, full, some]

/-- The journal does not look at `live`. -/
theorem pushAll_with_live (ledger : MempoolLedger) (live : Finset Txid)
    (entries : List JournalEntry) :
    ({ ledger with live := live }.pushAll entries).1 =
      { (ledger.pushAll entries).1 with live := live } := by
  rw [pushAll_eq, pushAll_eq]
  rfl

/-! ### The shape of a producer -/

/-- One producer call: it queues `entries`, each of which changes `live`, and
moves `live` by all of them, whether or not the journal kept them. -/
structure Appends (ledger : MempoolLedger) (entries : List JournalEntry) (after : MempoolLedger) :
    Prop where
  effective : Effective ledger.live (edits entries)
  eq : after = { (ledger.pushAll entries).1 with live := replay ledger.live (edits entries) }

namespace Appends

variable {ledger after : MempoolLedger} {entries : List JournalEntry}

theorem live_eq (h : ledger.Appends entries after) :
    after.live = replay ledger.live (edits entries) := by
  rw [h.eq]

theorem journal_eq (h : ledger.Appends entries after) :
    after.journal = ledger.journal ++ entries.take ledger.room := by
  rw [h.eq, pushAll_eq]

theorem degraded_eq (h : ledger.Appends entries after) :
    after.degraded = (ledger.degraded || decide (ledger.room < entries.length)) := by
  rw [h.eq, pushAll_eq]

/-- Nothing was refused when the ledger is not degraded afterwards. -/
theorem journal_eq_of_sound (h : ledger.Appends entries after) (sound : after.degraded = false) :
    after.journal = ledger.journal ++ entries := by
  rw [h.degraded_eq, Bool.or_eq_false_iff, decide_eq_false_iff_not, not_lt] at sound
  rw [h.journal_eq, List.take_of_length_le sound.2]

theorem sound_before (h : ledger.Appends entries after) (sound : after.degraded = false) :
    ledger.degraded = false := by
  rw [h.degraded_eq, Bool.or_eq_false_iff] at sound
  exact sound.1

/-- A queued entry followed by a producer is a producer. -/
theorem cons {entry : JournalEntry} (changes : entry.edit.EffectiveOn ledger.live)
    (rest : ({ ledger with live := entry.edit.apply ledger.live }.push entry).1.Appends
      entries after) :
    ledger.Appends (entry :: entries) after := by
  have pushed : ({ ledger with live := entry.edit.apply ledger.live }.push entry).1 =
      { (ledger.push entry).1 with live := entry.edit.apply ledger.live } := by
    unfold push; split <;> rfl
  rw [pushed] at rest
  refine ⟨⟨changes, rest.effective⟩, ?_⟩
  rw [rest.eq, pushAll_with_live]
  rfl

end Appends

/-- The entries the difference between two residencies amounts to. -/
def gapEntries (call : Call) (base target : Finset Txid) : List JournalEntry :=
  (call.order.toList (target \ base)).map (call.entry .add) ++
    (call.order.toList (base \ target)).map (call.entry .remove)

theorem edits_gapEntries (call : Call) (base target : Finset Txid) :
    edits (gapEntries call base target) =
      (call.order.toList (target \ base)).map .insert ++
        (call.order.toList (base \ target)).map .erase := by
  rw [gapEntries, edits_append, Call.edits_map_entry, Call.edits_map_entry]
  rfl

theorem replay_gapEntries (call : Call) (base target : Finset Txid) :
    replay base (edits (gapEntries call base target)) = target := by
  rw [edits_gapEntries]
  exact replay_difference (fun _ => call.order.mem_toList) (fun _ => call.order.mem_toList)

theorem effective_gapEntries (call : Call) (base target : Finset Txid) :
    Effective base (edits (gapEntries call base target)) := by
  rw [edits_gapEntries]
  exact effective_difference (call.order.nodup _) (call.order.nodup _)
    (fun _ => call.order.mem_toList) (fun _ => call.order.mem_toList)

theorem submitAuthoritative_appends (call : Call) (ledger : MempoolLedger) (txids : Finset Txid) :
    ledger.Appends (gapEntries call ledger.live txids) (ledger.submitAuthoritative call txids) where
  effective := effective_gapEntries call ledger.live txids
  eq := by rw [replay_gapEntries, gapEntries, pushAll_append]; rfl

/-- The txids of a list that are not in the set when their turn comes. -/
def newcomers : Finset Txid → List Txid → List Txid
  | _, [] => []
  | live, txid :: txids =>
    if txid ∈ live then newcomers live txids else txid :: newcomers (insert txid live) txids

/-- The txids of a list that are in the set when their turn comes. -/
def leavers : Finset Txid → List Txid → List Txid
  | _, [] => []
  | live, txid :: txids =>
    if txid ∈ live then txid :: leavers (live.erase txid) txids else leavers live txids

theorem assertPresent_appends (call : Call) (ledger : MempoolLedger) (txids : List Txid) :
    ledger.Appends ((newcomers ledger.live txids).map (call.entry .add))
      (ledger.assertPresent call txids) := by
  induction txids generalizing ledger with
  | nil => exact ⟨trivial, rfl⟩
  | cons txid txids ih =>
    rw [assertPresent, List.foldl_cons, ← assertPresent, newcomers]
    by_cases present : txid ∈ ledger.live
    · rw [if_pos present, if_pos present]
      exact ih ledger
    · rw [if_neg present, if_neg present]
      refine .cons (by simp [Edit.EffectiveOn, DeltaDirection.edit, present]) ?_
      have rest := ih ({ ledger with live := insert txid ledger.live }.push
        (call.entry .add txid)).1
      rwa [push_live] at rest

theorem assertAbsent_appends (call : Call) (ledger : MempoolLedger) (txids : List Txid) :
    ledger.Appends ((leavers ledger.live txids).map (call.entry .remove))
      (ledger.assertAbsent call txids) := by
  induction txids generalizing ledger with
  | nil => exact ⟨trivial, rfl⟩
  | cons txid txids ih =>
    rw [assertAbsent, List.foldl_cons, ← assertAbsent, leavers]
    by_cases present : txid ∈ ledger.live
    · rw [if_pos present, if_pos present]
      refine .cons (by simp [Edit.EffectiveOn, DeltaDirection.edit, present]) ?_
      have rest := ih ({ ledger with live := ledger.live.erase txid }.push
        (call.entry .remove txid)).1
      rwa [push_live] at rest
    · rw [if_neg present, if_neg present]
      exact ih ledger

/-! ### Flush and repair -/

/-- The repair folds the pending journal exactly as a replay does. -/
theorem eventual_eq_replay (ledger : MempoolLedger) (dbImage : Finset Txid) :
    ledger.eventual dbImage = replay dbImage (edits ledger.journal) := by
  rw [eventual, replay, edits, List.foldl_map]
  congr 1
  funext eventual entry
  cases direction : entry.direction <;> simp [JournalEntry.edit, DeltaDirection.edit, direction,
    Edit.apply]

/-- A repair queues the gap to `live` and leaves `live` alone. -/
theorem reconcileAgainst_eq (call : Call) (ledger : MempoolLedger) (dbImage : Finset Txid) :
    ledger.reconcileAgainst call dbImage =
      let pushed := ledger.pushAll (gapEntries call (ledger.eventual dbImage) ledger.live)
      if pushed.2 then { pushed.1 with degraded := false } else pushed.1 := by
  rw [reconcileAgainst, gapEntries, pushAll_append]

@[simp] theorem live_commit (ledger : MempoolLedger) (batch : List JournalEntry) :
    (ledger.commit batch).live = ledger.live := rfl

/-- A commit adds nothing to the journal. -/
@[simp] theorem drop_journal_commit (ledger : MempoolLedger) (batch : List JournalEntry) :
    (ledger.commit batch).journal.drop ledger.journal.length = [] :=
  List.drop_eq_nil_of_le (by simp [commit])

theorem beginFlush_eq_some {ledger : MempoolLedger} {batch : List JournalEntry} :
    ledger.beginFlush = some batch ↔ batch = ledger.journal ∧ batch ≠ [] := by
  unfold beginFlush
  split_ifs with empty
  · simp [empty]
  · simp only [Option.some.injEq]
    constructor
    · rintro rfl
      exact ⟨rfl, empty⟩
    · rintro ⟨rfl, -⟩
      rfl

end MempoolLedger

/-! ### What a batch amounts to -/

theorem firstLast_append_singleton (entries : List JournalEntry) (entry : JournalEntry) :
    firstLast (entries ++ [entry]) = Function.update (firstLast entries) entry.txid
      (match firstLast entries entry.txid with
      | some (first, _) => some (first, entry.direction)
      | none => some (entry.direction, entry.direction)) := by
  rw [firstLast, List.foldl_append]
  rfl

/-- The pair holds the two ends of the directions in which the batch moves the txid. -/
theorem firstLast_eq_some_iff {entries : List JournalEntry} {txid : Txid}
    {first last : DeltaDirection} :
    firstLast entries txid = some (first, last) ↔
      (signs txid (edits entries)).head? = some (first.edit txid).sign ∧
        (signs txid (edits entries)).getLast? = some (last.edit txid).sign := by
  have sign_inj {one other : DeltaDirection} :
      (one.edit txid).sign = (other.edit txid).sign ↔ one = other := by
    cases one <;> cases other <;> simp [DeltaDirection.edit]
  have ofSign (sign : Bool) : ∃ direction : DeltaDirection, sign = (direction.edit txid).sign := by
    cases sign
    · exact ⟨.remove, rfl⟩
    · exact ⟨.add, rfl⟩
  -- Induction from the back, since each entry may move the last sign and never the first.
  induction entries using List.reverseRecOn generalizing first last with
  | nil => simp [firstLast]
  | append_singleton entries entry ih =>
    rw [firstLast_append_singleton, edits_append, signs_append, edits_cons, edits_nil, signs_cons,
      signs_nil]
    by_cases same : entry.edit.key = txid
    · obtain rfl : entry.txid = txid := by simpa [JournalEntry.edit] using same
      rw [if_pos same, Function.update_self]
      have lastSign : entry.edit.sign = (entry.direction.edit entry.txid).sign := rfl
      cases known : firstLast entries entry.txid with
      | none =>
        -- No pair known means no sign so far: two signs would make up a pair.
        have nothing : signs entry.txid (edits entries) = [] := by
          by_contra moved
          obtain ⟨first, opening⟩ := ofSign ((signs entry.txid (edits entries)).head moved)
          obtain ⟨last, closing⟩ := ofSign ((signs entry.txid (edits entries)).getLast moved)
          have both := ih.mpr ⟨(List.head?_eq_some_head moved).trans (congrArg some opening),
            (List.getLast?_eq_some_getLast moved).trans (congrArg some closing)⟩
          rw [known] at both
          cases both
        simp [nothing, lastSign, sign_inj]
      | some pair =>
        obtain ⟨opening, -⟩ := ih.mp known
        simp [opening, lastSign, sign_inj]
    · have other : entry.txid ≠ txid := by simpa [JournalEntry.edit] using same
      rw [if_neg same, Function.update_of_ne other.symm, List.append_nil]
      exact ih

/-- The two halves of the residency delta of a batch that changes the set it meets with
every entry. -/
theorem mem_residencyDelta {residents : Finset Txid} {entries : List JournalEntry}
    (effective : Effective residents (edits entries)) (order : Enumeration Txid) (txid : Txid) :
    (txid ∈ (residencyDelta order entries).1 ↔
      txid ∈ replay residents (edits entries) \ residents) ∧
    (txid ∈ (residencyDelta order entries).2 ↔
      txid ∈ residents \ replay residents (edits entries)) := by
  -- Whoever moved is listed among the batch's transactions, in whatever order.
  have listed {ends : DeltaDirection × DeltaDirection}
    (known : firstLast entries txid = some ends) :
      txid ∈ order.toList (entries.map JournalEntry.txid).toFinset := by
    obtain ⟨opening, -⟩ := firstLast_eq_some_iff.mp known
    have moved : signs txid (edits entries) ≠ [] := by
      intro nothing
      rw [nothing] at opening
      cases opening
    obtain ⟨edit, inBatch, key⟩ : ∃ edit ∈ edits entries, edit.key = txid := by
      simpa [signs] using moved
    obtain ⟨entry, member, rfl⟩ := List.mem_map.mp inBatch
    rw [order.mem_toList, List.mem_toFinset, ← key]
    exact List.mem_map.mpr ⟨entry, member, (DeltaDirection.key_edit ..).symm⟩
  have halves {direction : DeltaDirection} :
      (txid ∈ order.toList (entries.map JournalEntry.txid).toFinset ∧
        firstLast entries txid = some (direction, direction)) ↔
      (signs txid (edits entries)).head? = some (direction.edit txid).sign ∧
        (signs txid (edits entries)).getLast? = some (direction.edit txid).sign := by
    rw [← firstLast_eq_some_iff]
    exact ⟨fun both => both.2, fun known => ⟨listed known, known⟩⟩
  simp only [residencyDelta, List.mem_filter, decide_eq_true_eq, halves, Finset.mem_sdiff]
  exact ⟨(added_iff effective txid).trans and_comm, removed_iff effective txid⟩

end MempoolObserver
