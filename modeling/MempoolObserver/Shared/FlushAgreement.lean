import Mathlib.Logic.Relation
import MempoolObserver.Shared.MempoolLedger

/-!
# The ledger and the database agree

The ledger's producers, its single consumer and the stored delta rows as one
transition system. The consumer takes the whole journal, and then either stores
the batch and drops it from the journal, or drops the batch with nothing
written. Between the two halves of a stored flush the batch is in both places,
so the database residency has two views: with the batch and without it.

The log is what is stored followed by what is not. `FlushState.log_step` says
that it only ever grows, by what the journal gained; `FlushInv` that replaying it
gives `live`, unless the ledger knows it lost an entry. That the whole journal
gives `live` from either view is a consequence: the batch is replayed twice,
which is harmless.
-/

namespace MempoolObserver

open SetLog Relation

/-- Where the consumer stands with its batch. -/
inductive Flight where
  | idle
  /-- `begin_flush` handed the batch out and nothing of it is stored. -/
  | taken (batch : List JournalEntry)
  /-- The batch is stored and still in the journal. -/
  | written (batch : List JournalEntry)
  deriving DecidableEq

/-- The residency that stored delta rows, in id order, amount to. -/
def residency (rows : List JournalEntry) : Finset Txid := replay ∅ (edits rows)

@[simp] theorem residency_append (rows batch : List JournalEntry) :
    residency (rows ++ batch) = replay (residency rows) (edits batch) := by
  simp [residency]

structure FlushState where
  ledger : MempoolLedger
  /-- The stored delta rows, in id order. -/
  persisted : List JournalEntry
  flight : Flight

inductive FlushOp where
  | submitAuthoritative (call : Call) (txids : Finset Txid)
  | assertPresent (call : Call) (txids : List Txid)
  | assertAbsent (call : Call) (txids : List Txid)
  | reconcileAgainst (call : Call) (dbImage : Finset Txid)
  | beginFlush
  | write
  | commit
  | drop

namespace FlushState

/-- A batch stored and not yet dropped from the journal. -/
def overlap (s : FlushState) : List JournalEntry :=
  match s.flight with
  | .written batch => batch
  | _ => []

/-- The stored rows before such a batch. -/
def settled (s : FlushState) : List JournalEntry :=
  s.persisted.take (s.persisted.length - s.overlap.length)

/-- The residencies the database may be read to hold. -/
def views (s : FlushState) : List (Finset Txid) := [residency s.persisted, residency s.settled]

/-- The journal entries that are not stored yet. -/
def unwritten (s : FlushState) : List JournalEntry := s.ledger.journal.drop s.overlap.length

/-- One step, `none` when the operation is not possible. A repair is handed a
residency the database was read to hold, before or after the write in flight. -/
def step (s : FlushState) : FlushOp → Option FlushState
  | .submitAuthoritative call txids =>
    some { s with ledger := s.ledger.submitAuthoritative call txids }
  | .assertPresent call txids => some { s with ledger := s.ledger.assertPresent call txids }
  | .assertAbsent call txids => some { s with ledger := s.ledger.assertAbsent call txids }
  | .reconcileAgainst call dbImage =>
    if dbImage ∈ s.views then some { s with ledger := s.ledger.reconcileAgainst call dbImage }
    else none
  | .beginFlush =>
    match s.flight, s.ledger.beginFlush with
    | .idle, some batch => some { s with flight := .taken batch }
    | .idle, none => some s
    | _, _ => none
  -- The transaction stores the batch, and the journal drops it afterwards.
  | .write =>
    match s.flight with
    | .taken batch => some { s with persisted := s.persisted ++ batch, flight := .written batch }
    | _ => none
  | .commit =>
    match s.flight with
    | .written batch => some { s with ledger := s.ledger.commit batch, flight := .idle }
    | _ => none
  -- The write failed, and the batch stays in the journal.
  | .drop =>
    match s.flight with
    | .taken _ => some { s with flight := .idle }
    | _ => none

/-- The ledger seeded with what the database holds. -/
def seeded (ledger : MempoolLedger) (rows : List JournalEntry) : FlushState :=
  ⟨ledger.seed (residency rows), rows, .idle⟩

def Step (s next : FlushState) : Prop := ∃ op, s.step op = some next

end FlushState

namespace FlushOp

/-- The entries the operation tries to queue. -/
def queued (s : FlushState) : FlushOp → List JournalEntry
  | submitAuthoritative call txids => MempoolLedger.gapEntries call s.ledger.live txids
  | assertPresent call txids =>
    (MempoolLedger.newcomers s.ledger.live txids).map (call.entry .add)
  | assertAbsent call txids =>
    (MempoolLedger.leavers s.ledger.live txids).map (call.entry .remove)
  | reconcileAgainst call dbImage =>
    MempoolLedger.gapEntries call (s.ledger.eventual dbImage) s.ledger.live
  | _ => []

/-- Some push of the operation meets a journal at its cap. -/
def Refused (op : FlushOp) (s : FlushState) : Prop := s.ledger.room < (op.queued s).length

instance (op : FlushOp) (s : FlushState) : Decidable (op.Refused s) :=
  inferInstanceAs (Decidable (_ < _))

/-- A repair whose own pushes all fit. -/
def Repairs (op : FlushOp) (s : FlushState) : Prop :=
  (∃ call dbImage, op = .reconcileAgainst call dbImage) ∧ ¬ op.Refused s

end FlushOp

/-- What an operation can do. The producers and the repair are the two ways the
journal grows; the rest is the consumer. -/
theorem FlushState.step_cases {s next : FlushState} {op : FlushOp} (h : s.step op = some next) :
    (∃ after, s.ledger.Appends (op.queued s) after ∧ next = { s with ledger := after }) ∨
    (∃ call dbImage, op = .reconcileAgainst call dbImage ∧ dbImage ∈ s.views ∧
      next = { s with ledger := s.ledger.reconcileAgainst call dbImage }) ∨
    (next = s ∧ op.queued s = []) ∨
    (s.flight = .idle ∧ op.queued s = [] ∧ next = { s with flight := .taken s.ledger.journal }) ∨
    (∃ batch, s.flight = .taken batch ∧ op.queued s = [] ∧
      (next = { s with persisted := s.persisted ++ batch, flight := .written batch } ∨
        next = { s with flight := .idle })) ∨
    (∃ batch, s.flight = .written batch ∧ op.queued s = [] ∧
      next = { s with ledger := s.ledger.commit batch, flight := .idle }) := by
  cases op with
  | submitAuthoritative call txids =>
    exact .inl ⟨_, MempoolLedger.submitAuthoritative_appends .., by simpa [step] using h.symm⟩
  | assertPresent call txids =>
    exact .inl ⟨_, MempoolLedger.assertPresent_appends .., by simpa [step] using h.symm⟩
  | assertAbsent call txids =>
    exact .inl ⟨_, MempoolLedger.assertAbsent_appends .., by simpa [step] using h.symm⟩
  | reconcileAgainst call dbImage =>
    simp only [step] at h
    split_ifs at h with known
    exact .inr (.inl ⟨call, dbImage, rfl, known, by simpa using h.symm⟩)
  | beginFlush =>
    simp only [step] at h
    split at h
    · rename_i batch idle taken
      obtain ⟨rfl, -⟩ := MempoolLedger.beginFlush_eq_some.mp taken
      exact .inr (.inr (.inr (.inl ⟨idle, rfl, by simpa using h.symm⟩)))
    · exact .inr (.inr (.inl ⟨by simpa using h.symm, rfl⟩))
    · cases h
  | write =>
    simp only [step] at h
    split at h
    · rename_i batch taken
      exact .inr (.inr (.inr (.inr (.inl ⟨batch, taken, rfl, .inl (by simpa using h.symm)⟩))))
    · cases h
  | commit =>
    simp only [step] at h
    split at h
    · rename_i batch written
      exact .inr (.inr (.inr (.inr (.inr ⟨batch, written, rfl, by simpa using h.symm⟩))))
    · cases h
  | drop =>
    simp only [step] at h
    split at h
    · rename_i batch taken
      exact .inr (.inr (.inr (.inr (.inl ⟨batch, taken, rfl, .inr (by simpa using h.symm)⟩))))
    · cases h

/-- Up to a commit, an operation with no push refused appends entries to the journal that
move `live` one by one. -/
theorem FlushState.grows_step {s next : FlushState} {op : FlushOp} (h : s.step op = some next)
    (accepted : ¬ op.Refused s) (noCommit : op ≠ .commit)
    (noRepair : ∀ call dbImage, op ≠ .reconcileAgainst call dbImage) :
    ∃ entries, next.ledger.journal = s.ledger.journal ++ entries ∧
      Effective s.ledger.live (edits entries) ∧
      next.ledger.live = replay s.ledger.live (edits entries) := by
  -- Nothing was refused, so all that was queued is in the journal.
  have produced {after : MempoolLedger} (appends : s.ledger.Appends (op.queued s) after) :
      ∃ entries, after.journal = s.ledger.journal ++ entries ∧
        Effective s.ledger.live (edits entries) ∧
        after.live = replay s.ledger.live (edits entries) := by
    refine ⟨op.queued s, ?_, appends.effective, appends.live_eq⟩
    rw [appends.journal_eq, List.take_of_length_le (not_lt.mp accepted)]
  have unchanged (same : next.ledger = s.ledger) :
      ∃ entries, next.ledger.journal = s.ledger.journal ++ entries ∧
        Effective s.ledger.live (edits entries) ∧
        next.ledger.live = replay s.ledger.live (edits entries) :=
    ⟨[], by simp [same], trivial, by simp [same]⟩
  cases op with
  | submitAuthoritative call txids =>
    cases h
    exact produced (MempoolLedger.submitAuthoritative_appends ..)
  | assertPresent call txids =>
    cases h
    exact produced (MempoolLedger.assertPresent_appends ..)
  | assertAbsent call txids =>
    cases h
    exact produced (MempoolLedger.assertAbsent_appends ..)
  | reconcileAgainst call dbImage => exact absurd rfl (noRepair call dbImage)
  | commit => exact absurd rfl noCommit
  | beginFlush | write | drop =>
    simp only [step] at h
    split at h <;> cases h
    all_goals exact unchanged rfl

/-! ### The invariant -/

/-- The batch in flight is the front of the journal and, once written, the end
of the stored rows. -/
def FlushState.BatchInPlace (s : FlushState) : Prop :=
  match s.flight with
  | .idle => True
  | .taken batch => batch <+: s.ledger.journal
  | .written batch => batch <+: s.ledger.journal ∧ batch <:+ s.persisted

/-- Everything queued so far that the journal kept, in order: the stored rows,
then what is not stored. -/
def FlushState.log (s : FlushState) : List JournalEntry := s.persisted ++ s.unwritten

structure FlushInv (s : FlushState) : Prop where
  batch : s.BatchInPlace
  agree : s.ledger.degraded = false → residency s.log = s.ledger.live

/-- Replaying the whole journal onto either view of the database is replaying
the log. -/
theorem FlushState.replay_view {s : FlushState} (inPlace : s.BatchInPlace)
    {view : Finset Txid} (isView : view ∈ s.views) :
    replay view (edits s.ledger.journal) = residency s.log := by
  obtain ⟨ledger, persisted, flight⟩ := s
  cases flight with
  | idle => simp_all [views, settled, log, unwritten, overlap]
  | taken batch => simp_all [views, settled, log, unwritten, overlap]
  | written batch =>
    obtain ⟨⟨rest, journal⟩, before, stored⟩ := inPlace
    simp only at journal stored
    have views : view = replay (residency before) (edits batch) ∨ view = residency before := by
      simpa [FlushState.views, settled, overlap, ← stored] using isView
    simp only [log, unwritten, overlap, ← journal, ← stored, List.drop_left, residency_append,
      edits_append]
    rcases views with rfl | rfl
    · rw [replay_front_twice, replay_append]
    · rw [replay_append]

/-- Appending to the journal keeps a batch in flight in place. -/
theorem FlushState.BatchInPlace.append {s : FlushState} (inPlace : s.BatchInPlace)
    (after : MempoolLedger) {tail : List JournalEntry}
    (grown : after.journal = s.ledger.journal ++ tail) :
    { s with ledger := after }.BatchInPlace ∧
      { s with ledger := after }.log = s.log ++ tail := by
  obtain ⟨ledger, persisted, flight⟩ := s
  simp only at grown
  cases flight with
  | idle => simp [BatchInPlace, log, unwritten, overlap, grown]
  | taken batch =>
    refine ⟨?_, by simp [log, unwritten, overlap, grown]⟩
    simpa [BatchInPlace, grown] using inPlace.trans (List.prefix_append ..)
  | written batch =>
    obtain ⟨inJournal, inRows⟩ := inPlace
    refine ⟨⟨by simpa [grown] using inJournal.trans (List.prefix_append ..), inRows⟩, ?_⟩
    simp only [log, unwritten, overlap, grown, List.append_assoc]
    rw [List.drop_append_of_le_length inJournal.length_le]

/-- The journal a repair leaves. -/
theorem MempoolLedger.journal_reconcileAgainst (call : Call) (ledger : MempoolLedger)
    (dbImage : Finset Txid) :
    (ledger.reconcileAgainst call dbImage).journal = ledger.journal ++
      (gapEntries call (ledger.eventual dbImage) ledger.live).take ledger.room := by
  rw [reconcileAgainst_eq, pushAll_eq]
  simp only
  split_ifs <;> rfl

/-- Stored rows are settled, up to a batch that is still in the journal. -/
theorem FlushState.BatchInPlace.settled_append_overlap {s : FlushState} (inPlace : s.BatchInPlace) :
    s.settled ++ s.overlap = s.persisted := by
  obtain ⟨ledger, persisted, flight⟩ := s
  cases flight with
  | idle => simp [settled, overlap]
  | taken batch => simp [settled, overlap]
  | written batch =>
    obtain ⟨-, before, stored⟩ := inPlace
    simp only at stored
    simp [settled, overlap, ← stored]

/-- A batch stored and not yet dropped is the front of the journal. -/
theorem FlushState.BatchInPlace.overlap_append_unwritten {s : FlushState}
    (inPlace : s.BatchInPlace) : s.overlap ++ s.unwritten = s.ledger.journal := by
  obtain ⟨ledger, persisted, flight⟩ := s
  cases flight with
  | idle => simp [unwritten, overlap]
  | taken batch => simp [unwritten, overlap]
  | written batch =>
    obtain ⟨⟨rest, journal⟩, -⟩ := inPlace
    simp only at journal
    simp [unwritten, overlap, ← journal]

/-- A step keeps the batch in place, and the log gains exactly what the journal
gained: a write only moves entries to the rows, a commit only forgets the copy. -/
theorem FlushState.log_step {s next : FlushState} {op : FlushOp} (inPlace : s.BatchInPlace)
    (h : s.step op = some next) :
    next.BatchInPlace ∧ s.settled <+: next.settled ∧
      next.log = s.log ++ next.ledger.journal.drop s.ledger.journal.length := by
  obtain ⟨after, appends, rfl⟩ | ⟨call, dbImage, rfl, isView, rfl⟩ | ⟨rfl, -⟩ | ⟨idle, -, rfl⟩ |
    ⟨batch, taken, -, rfl | rfl⟩ | ⟨batch, written, -, rfl⟩ := FlushState.step_cases h
  -- The journal grows behind the batch in flight, and the log with it.
  · obtain ⟨kept, log⟩ := inPlace.append after appends.journal_eq
    exact ⟨kept, List.prefix_rfl, by simpa [appends.journal_eq] using log⟩
  · have grown := s.ledger.journal_reconcileAgainst call dbImage
    obtain ⟨kept, log⟩ := inPlace.append _ grown
    exact ⟨kept, List.prefix_rfl, by simpa [grown] using log⟩
  · exact ⟨inPlace, List.prefix_rfl, by simp⟩
  · refine ⟨List.prefix_rfl, ?_, by simp [log, unwritten, overlap, idle]⟩
    simp [settled, overlap, idle]
  -- The batch is a prefix of the journal, so storing it leaves the log as it is.
  · rw [BatchInPlace, taken] at inPlace
    refine ⟨⟨inPlace, List.suffix_append ..⟩, by simp [settled, overlap, taken], ?_⟩
    obtain ⟨rest, journal⟩ := inPlace
    simp [log, unwritten, overlap, taken, ← journal]
  · refine ⟨trivial, by simp [settled, overlap, taken], ?_⟩
    simp [log, unwritten, overlap, taken]
  · refine ⟨trivial, by simp [settled, overlap, written, List.take_prefix], ?_⟩
    rw [MempoolLedger.drop_journal_commit]
    simp [log, unwritten, overlap, written, MempoolLedger.commit]

theorem FlushInv.step {s next : FlushState} {op : FlushOp} (inv : FlushInv s)
    (h : s.step op = some next) : FlushInv next := by
  obtain ⟨inPlace, -, log⟩ := FlushState.log_step inv.batch h
  refine ⟨inPlace, fun sound => ?_⟩
  -- The residency the log leads to is the live set, as long as nothing was refused.
  rw [log, residency_append]
  obtain ⟨after, appends, rfl⟩ | ⟨call, dbImage, rfl, isView, rfl⟩ | ⟨rfl, -⟩ | ⟨-, -, rfl⟩ |
    ⟨batch, -, -, rfl | rfl⟩ | ⟨batch, -, -, rfl⟩ := FlushState.step_cases h
  · rw [inv.agree (appends.sound_before sound), appends.journal_eq_of_sound sound,
      List.drop_left]
    exact appends.live_eq.symm
  · -- a repair that is sound afterwards queued the whole gap to `live`
    have image : s.ledger.eventual dbImage = residency s.log := by
      rw [MempoolLedger.eventual_eq_replay, FlushState.replay_view inv.batch isView]
    rw [MempoolLedger.reconcileAgainst_eq, MempoolLedger.pushAll_eq] at sound ⊢
    simp only [decide_eq_true_eq] at sound ⊢
    split_ifs at sound ⊢ with complete
    · rw [List.take_of_length_le complete, List.drop_left, ← image,
        MempoolLedger.replay_gapEntries]
    · simp only [Bool.or_eq_false_iff, decide_eq_false_iff_not] at sound
      exact absurd (not_lt.mp sound.2) complete
  all_goals simpa using inv.agree sound

/-! ### Runs -/

theorem FlushInv.seeded {ledger : MempoolLedger} (empty : ledger.journal = [])
    (rows : List JournalEntry) : FlushInv (.seeded ledger rows) :=
  ⟨trivial, fun _ => by 
    simp [FlushState.seeded, FlushState.log, FlushState.unwritten, FlushState.overlap,
      MempoolLedger.seed, empty]⟩

theorem FlushInv.run {s last : FlushState} (inv : FlushInv s)
    (run : ReflTransGen FlushState.Step s last) : FlushInv last := by
  induction run with
  | refl => exact inv
  | tail _ step ih =>
    obtain ⟨op, step⟩ := step
    exact ih.step step

/-- Only a repair whose own pushes fit clears `degraded`, and a refused push
sets it. -/
theorem FlushState.degraded_step {s next : FlushState} {op : FlushOp}
    (h : s.step op = some next) (kept : ¬ op.Repairs s)
    (lost : s.ledger.degraded = true ∨ op.Refused s) : next.ledger.degraded = true := by
  have unrefused (nothing : op.queued s = []) : ¬ op.Refused s := by
    simp [FlushOp.Refused, nothing]
  obtain ⟨after, appends, rfl⟩ | ⟨call, dbImage, rfl, -, rfl⟩ | ⟨rfl, nothing⟩ |
    ⟨-, nothing, rfl⟩ | ⟨batch, -, nothing, rfl | rfl⟩ | ⟨batch, -, nothing, rfl⟩ :=
    FlushState.step_cases h
  · rw [appends.degraded_eq]
    simpa [FlushOp.Refused] using lost
  · have refused : FlushOp.Refused (.reconcileAgainst call dbImage) s := by
      by_contra fits
      exact kept ⟨⟨call, dbImage, rfl⟩, fits⟩
    have incomplete : ¬ (MempoolLedger.gapEntries call (s.ledger.eventual dbImage)
        s.ledger.live).length ≤ s.ledger.room := not_le.mpr refused
    rw [MempoolLedger.reconcileAgainst_eq, MempoolLedger.pushAll_eq]
    simp only [decide_eq_true_eq]
    rw [if_neg incomplete]
    simp [not_le.mp incomplete]
  all_goals exact lost.resolve_right (unrefused nothing)

/-- A step other than a repair whose own pushes all fit. -/
def FlushState.UnrepairedStep (s next : FlushState) : Prop :=
  ∃ op, s.step op = some next ∧ ¬ op.Repairs s

/-- **Ledger and database agree.** In every state reached from a seeded ledger
with an empty journal, unless the ledger is degraded, replaying the whole
pending journal onto any view of the database residency gives exactly `live`. A
refused push leaves the ledger degraded until a repair whose own pushes fit. -/
theorem live_eq_replay_journal {ledger : MempoolLedger} {rows : List JournalEntry}
    {s : FlushState} (empty : ledger.journal = [])
    (run : ReflTransGen FlushState.Step (.seeded ledger rows) s) :
    (s.ledger.degraded = false →
      ∀ view ∈ s.views, replay view (edits s.ledger.journal) = s.ledger.live) ∧
    ∀ op next later, s.step op = some next → op.Refused s →
      ReflTransGen FlushState.UnrepairedStep next later → later.ledger.degraded = true := by
  have inv := (FlushInv.seeded empty rows).run run
  refine ⟨fun sound view isView => ?_, fun op next later first refused rest => ?_⟩
  · rw [FlushState.replay_view inv.batch isView]
    exact inv.agree sound
  · induction rest with
    | refl => exact FlushState.degraded_step first (fun repairs => repairs.2 refused) (.inr refused)
    | tail _ step ih =>
      obtain ⟨op, step, kept⟩ := step
      exact FlushState.degraded_step step kept (.inl ih)

/-- A flush between its write and its commit, with `a` stored beforehand, `b`
in the batch and `a` leaving since: both views replay to `live`. -/
def midFlush : FlushState where
  ledger := ⟨{"b"}, [⟨"b", .add, 1⟩, ⟨"a", .remove, 2⟩], false⟩
  persisted := [⟨"a", .add, 0⟩, ⟨"b", .add, 1⟩]
  flight := .written [⟨"b", .add, 1⟩]

theorem midFlush_live_eq_replay :
    midFlush.views = [{"a", "b"}, {"a"}] ∧
      ∀ view ∈ midFlush.views, replay view (edits midFlush.ledger.journal) = {"b"} := by
  have run : ReflTransGen FlushState.Step (.seeded .default [⟨"a", .add, 0⟩]) midFlush :=
    .tail (.tail (.tail (.single ⟨.assertPresent ⟨fun _ => 1, .sorted _⟩ ["b"], rfl⟩)
      ⟨.beginFlush, rfl⟩) ⟨.write, rfl⟩) ⟨.assertAbsent ⟨fun _ => 2, .sorted _⟩ ["a"], rfl⟩
  exact ⟨by decide, (live_eq_replay_journal rfl run).1 rfl⟩

end MempoolObserver
