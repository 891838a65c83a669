import MempoolObserver.Services.TxBackfill

/-!
# What the backfill fills

A request ends without a retry when its write fails, and when the write finds
nothing to fill. As long as neither happens to the last request that is at the
stage a row still lacks, every row is filled.

## Main results

* `BackfillInv.step` — what is owed stays provided for
* `backfill_completes`
-/

namespace MempoolObserver

open Collections

/-! ### What the writes do to what a row lacks -/

/-- `after` lacks what `row` lacks, or nothing. -/
def Transaction.LacksLess (row after : Transaction) : Prop :=
  after.fill.backfillStage = none ∨ after.fill.backfillStage = row.fill.backfillStage

theorem Transaction.backfillStage_fee (row : Transaction) (fee : Int64) :
    row.LacksLess { row with fee := some fee } := by
  by_cases raw : row.inputTxids.isNone = true ∨ row.weight = 0 <;>
    simp_all [LacksLess, fill, StoredTxFill.backfillStage]

theorem Transaction.lacksLess_fillFee (row new : Transaction) :
    row.LacksLess (row.fillFee new) := by
  rcases row.fillFee_cases new with ⟨-, same⟩ | ⟨supplied, filled⟩
  · rw [same]
    exact .inr rfl
  · obtain ⟨fee, supplied⟩ := Option.isSome_iff_exists.mp supplied
    rw [filled, supplied]
    exact row.backfillStage_fee fee

theorem Db.Provided.of_lacksLess {requests : List (Txid × BackfillStage)} {txid : Txid}
    {db next : Db} (provided : db.Provided requests txid)
    (rows : ∀ row, db.transactions txid = some row →
      ∃ after, next.transactions txid = some after ∧ row.LacksLess after)
    (stored : (db.transactions txid).isSome = true) : next.Provided requests txid := by
  intro after found stage lacks
  obtain ⟨row, stored⟩ := Option.isSome_iff_exists.mp stored
  obtain ⟨same, also, less⟩ := rows row stored
  obtain rfl : same = after := Option.some.inj (also.symm.trans found)
  rcases less with complete | same
  · simp [complete] at lacks
  · exact provided row stored stage (same ▸ lacks)

/-- The other writers only take away from what a row lacks. -/
theorem RowOp.lacksLess {op : RowOp} {db : Db} (weighs : (BackfillOp.rows op).Weighs)
    (others : ∀ txid inputTxids weight fee, op ≠ .backfillRaw txid inputTxids weight ∧
      op ≠ .backfillFee txid fee) {txid : Txid} {row : Transaction}
    (stored : db.transactions txid = some row) :
    ∃ after, (op.apply db).transactions txid = some after ∧ row.LacksLess after := by
  -- A write made elsewhere may complete a row, and never takes anything from it.
  cases op with
  | insertHollow rows =>
    refine ⟨row, ?_, .inr rfl⟩
    simp [apply, Db.insertOrIgnore, stored]
  | insertMany txs =>
    simp only [apply]
    cases inserted : db.insertMany txs with
    | none => exact ⟨row, stored, .inr rfl⟩
    | some next =>
      refine Db.upsertMany_keeps inserted (fun new _ between less => ?_) stored (.inr rfl)
      rcases between.lacksLess_fillFee new.row with complete | same
      · exact .inl complete
      · exact less.imp same.trans same.trans
  | insertOrConfirmMany txs =>
    simp only [apply]
    cases inserted : db.insertOrConfirmMany txs with
    | none => exact ⟨row, stored, .inr rfl⟩
    | some next =>
      refine Db.upsertMany_keeps inserted (fun new listed _ _ => .inl ?_) stored (.inr rfl)
      exact weighs new listed
  | backfillRaw txid inputTxids weight => exact absurd rfl (others txid inputTxids weight 0).1
  | backfillFee txid fee => exact absurd rfl (others txid [] 0 fee).2

theorem Db.transactions_backfillRaw_of_ne {txid other : Txid} (different : other ≠ txid)
    (inputTxids : List Txid) (weight : Int64) (db : Db) :
    (db.backfillRaw txid inputTxids weight).transactions other = db.transactions other := by
  cases stored : db.transactions other <;>
    simp [backfillRaw, updateTransactions, stored, different]

theorem Db.transactions_backfillFee_of_ne {txid other : Txid} (different : other ≠ txid)
    (fee : Int64) (db : Db) :
    (db.backfillFee txid fee).transactions other = db.transactions other := by
  cases stored : db.transactions other <;>
    simp [backfillFee, updateTransactions, stored, different]

/-- A row that is found without parents or weight is filled, and lacks at most the
fee; any other row stays as it is. -/
theorem Db.backfilledRaw_cases {txid : Txid} {db : Db} {row : Transaction}
    (stored : db.transactions txid = some row) (inputTxids : List Txid) {weight : Int64}
    (weighs : weight ≠ 0) :
    (∃ after, (db.backfillRaw txid inputTxids weight).transactions txid = some after ∧
      db.backfilledRaw txid inputTxids weight = some after.fill ∧
      after.fill.backfillStage ≠ some .raw) ∨
    row.fill.backfillStage ≠ some .raw ∧
      (db.backfillRaw txid inputTxids weight).transactions txid = some row ∧
      db.backfilledRaw txid inputTxids weight = none := by
  -- Missing data is filled in; with nothing missing the row is not touched.
  by_cases lacks : row.inputTxids.isNone = true ∨ row.weight = 0
  · left
    have filled : (db.backfillRaw txid inputTxids weight).transactions txid =
        some { row with inputTxids := some inputTxids, weight := weight } := by
      simp only [backfillRaw, updateTransactions, stored, Option.map_some, lacks, and_self, if_true]
    refine ⟨_, filled, by simp only [backfilledRaw, stored, Option.bind_some, lacks, if_true,
      filled, Option.map_some], ?_⟩
    cases row.fee <;> simp [Transaction.fill, StoredTxFill.backfillStage, weighs]
  · right
    refine ⟨?_, ?_, ?_⟩
    · obtain ⟨parents, weighs⟩ := not_or.mp lacks
      cases fee : row.fee <;>
        simp_all [Transaction.fill, StoredTxFill.backfillStage]
    · simp only [backfillRaw, updateTransactions, stored, Option.map_some, lacks, and_false,
        if_false]
    · simp only [backfilledRaw, stored, Option.bind_some, lacks, if_false]

/-- What every step keeps. -/
structure BackfillInv (s : TxBackfill) : Prop where
  stored : ∀ txid ∈ s.owed, (s.db.transactions txid).isSome = true
  live : ∀ txid ∈ s.owed, txid ∈ s.mempoolLedger.live
  weighs : ∀ request tx, (request, .writeRaw tx) ∈ s.running → tx.weight.toInt64 ≠ 0
  /-- What an owed row lacks, some request is at. -/
  provided : s.dropped = false → ∀ txid ∈ s.owed, txid ∉ s.answered →
    s.db.Provided s.outstanding txid

namespace BackfillInv

variable {s : TxBackfill} {index : ℕ} {request : BackfillRequest} {pc next : BackfillPc}

theorem initial (capacity : ℕ) (db : Db) (ledger : MempoolLedger) :
    BackfillInv (.initial capacity db ledger) where
  stored txid owed := by simp [TxBackfill.initial] at owed
  live txid owed := by simp [TxBackfill.initial] at owed
  weighs request tx running := by cases running
  provided _ txid owed := by simp [TxBackfill.initial] at owed

theorem continueAt (inv : BackfillInv s) (located : s.running[index]? = some (request, pc))
    (same : next.stage = pc.stage)
    (weighs : ∀ tx, next = .writeRaw tx → tx.weight.toInt64 ≠ 0) :
    BackfillInv (s.continueAt index request next) where
  stored := inv.stored
  live := inv.live
  weighs other tx running := by
    rcases List.mem_or_eq_of_mem_set running with kept | written
    · exact inv.weighs other tx kept
    · exact weighs tx (congrArg Prod.snd written).symm
  provided kept txid owed asks := (inv.provided kept txid owed asks).mono
    fun _ => TxBackfill.outstanding_continueAt located same

/-- A request may end if its transaction is provided for without it, or is not owed a row. -/
theorem endAt (inv : BackfillInv s) (located : s.running[index]? = some (request, pc))
    (without : request.txid ∈ s.owed → request.txid ∉ s.answered →
      s.db.Provided (s.endAt index).outstanding request.txid) :
    BackfillInv (s.endAt index) where
  stored := inv.stored
  live := inv.live
  weighs other tx running := inv.weighs other tx (List.mem_of_mem_eraseIdx running)
  provided kept txid owed asks := by
    by_cases named : request.txid = txid
    · subst named
      exact without owed asks
    · apply (inv.provided kept txid owed asks).mono
      intro stage waits
      exact (TxBackfill.outstanding_endAt located waits).resolve_right fun same => named same.1

/-- Writes to rows, as far as they take away from what an owed row lacks. -/
theorem withDb (inv : BackfillInv s) {db : Db}
    (rows : ∀ txid ∈ s.owed, ∀ row, s.db.transactions txid = some row →
      ∃ after, db.transactions txid = some after ∧ row.LacksLess after) :
    BackfillInv { s with db := db } where
  stored txid owed := by
    obtain ⟨row, stored⟩ := Option.isSome_iff_exists.mp (inv.stored txid owed)
    obtain ⟨after, found, -⟩ := rows txid owed row stored
    rw [found]
    rfl
  live := inv.live
  weighs := inv.weighs
  provided kept txid owed asks :=
    (inv.provided kept txid owed asks).of_lacksLess (rows txid owed) (inv.stored txid owed)

/-- Requests that move on without changing their stages. -/
theorem moved {next : TxBackfill} (inv : BackfillInv s) (db : next.db = s.db)
    (ledger : next.mempoolLedger = s.mempoolLedger) (owed : next.owed = s.owed)
    (answered : next.answered = s.answered)
    (running : ∀ request tx, (request, BackfillPc.writeRaw tx) ∈ next.running →
      (request, BackfillPc.writeRaw tx) ∈ s.running)
    (waits : next.dropped = false → s.dropped = false ∧
      ∀ txid stage, (txid, stage) ∈ s.outstanding → (txid, stage) ∈ next.outstanding) :
    BackfillInv next where
  stored := by
    rw [owed, db]
    exact inv.stored
  live := by
    rw [owed, ledger]
    exact inv.live
  weighs request tx member := inv.weighs request tx (running request tx member)
  provided kept txid owes asks := by
    -- What is provided is read off the outstanding requests, and these have only grown.
    obtain ⟨before, waits⟩ := waits kept
    rw [owed] at owes
    rw [answered] at asks
    rw [db]
    exact (inv.provided before txid owes asks).mono (waits txid)

theorem send (inv : BackfillInv s) (request : BackfillRequest) : BackfillInv (s.send request) := by
  refine inv.moved ?_ ?_ ?_ ?_ (fun other tx => ?_) fun kept => ?_ <;> try simp
  obtain ⟨before, waits⟩ := TxBackfill.outstanding_send kept
  exact ⟨before, fun txid stage member => (waits txid stage).mpr (.inl member)⟩

/-- A request that was backing off is queued again, unless there is no room. -/
theorem wake (inv : BackfillInv s) {request : BackfillRequest}
    (located : s.backingOff[index]? = some request) :
    BackfillInv ({ s with backingOff := s.backingOff.eraseIdx index }.send request) := by
  refine inv.moved ?_ ?_ ?_ ?_ (fun other tx => ?_) fun kept => ?_ <;> try simp
  obtain ⟨before, waits⟩ := TxBackfill.outstanding_send kept
  refine ⟨before, fun txid stage member => (waits txid stage).mpr ?_⟩
  rcases TxBackfill.mem_outstanding.mp member with
    ⟨other, queued | received | backing, named⟩ | runs
  · exact .inl (TxBackfill.mem_outstanding.mpr (.inl ⟨other, .inl queued, named⟩))
  · exact .inl (TxBackfill.mem_outstanding.mpr (.inl ⟨other, .inr (.inl received), named⟩))
  · rcases mem_eraseIdx_or_eq backing located with still | rfl
    · exact .inl (TxBackfill.mem_outstanding.mpr (.inl ⟨other, .inr (.inr still), named⟩))
    · exact .inr named
  · exact .inl (TxBackfill.mem_outstanding.mpr (.inr runs))

theorem enqueue (inv : BackfillInv s) {txid : Txid} {stage : BackfillStage}
    (provided : (BackfillOp.enqueue txid stage).Provided s) :
    BackfillInv (s.enqueue txid stage) := by
  obtain ⟨stored, provided⟩ := provided
  have sent := inv.send (.new txid stage)
  unfold TxBackfill.enqueue
  simp only
  split_ifs with live
  -- The request is only owed while its transaction is live and its row is stored.
  · refine ⟨fun other owed => ?_, fun other owed => ?_, sent.weighs, fun kept other owed asks => ?_⟩
    · rcases Finset.mem_insert.mp owed with rfl | before
      · simpa using stored
      · exact sent.stored other (by simpa using before)
    · rcases Finset.mem_insert.mp owed with rfl | before
      · simpa using live.2
      · exact sent.live other (by simpa using before)
    · rcases Finset.mem_insert.mp owed with rfl | before
      -- A newly owed transaction lacks what it asks for now, and that request is in the queue.
      · intro row found at_ lacks
        apply ((TxBackfill.outstanding_send kept).2 other at_).mpr
        rcases List.mem_cons.mp (provided row (by simpa using found) at_ lacks) with same | waits
        · cases same
          exact .inr ⟨rfl, rfl⟩
        · exact .inl waits
      · exact sent.provided kept other (by simpa using before) asks
  · exact sent

theorem fetchFailed (inv : BackfillInv s) (located : s.running[index]? = some (request, pc))
    (error : ObserverError) : BackfillInv (s.fetchFailed index request pc.stage error) := by
  unfold TxBackfill.fetchFailed
  split_ifs
  · refine ⟨inv.stored, inv.live, fun other tx running =>
      inv.weighs other tx (List.mem_of_mem_eraseIdx running), fun kept txid owed asks => ?_⟩
    obtain ⟨different, before⟩ := not_or.mp (mt Finset.mem_insert.mpr asks)
    apply (inv.provided kept txid owed before).mono
    intro stage waits
    exact (TxBackfill.outstanding_endAt located waits).resolve_right
      fun same => different same.1.symm
  · exact inv.continueAt located rfl nofun

/-- A step of the request at the index that writes to its row and no other. -/
theorem wrote (inv : BackfillInv s) (request : BackfillRequest) {db : Db}
    {running : List (BackfillRequest × BackfillPc)}
    (stored : ∀ txid, (db.transactions txid).isSome = (s.db.transactions txid).isSome)
    (apart : ∀ txid, txid ≠ request.txid → db.transactions txid = s.db.transactions txid)
    (others : ∀ run ∈ s.running, run.1 = request ∨ run ∈ running)
    (fresh : ∀ run ∈ running, run ∈ s.running ∨ ∀ tx, run.2 ≠ .writeRaw tx)
    (own : request.txid ∈ s.owed → s.db.Provided s.outstanding request.txid →
      db.Provided { s with running := running }.outstanding request.txid) :
    BackfillInv { s with db := db, running := running } where
  stored txid owed := by
    rw [stored]
    exact inv.stored txid owed
  live := inv.live
  weighs other tx member := by
    -- A request still running was running before, or has just left the writing stage.
    rcases fresh _ member with before | different
    · exact inv.weighs other tx before
    · exact absurd rfl (different tx)
  provided kept txid owed asks := by
    have before := inv.provided kept txid owed asks
    by_cases named : txid = request.txid
    -- The write settles its own transaction; the others keep the request they wait for.
    · subst named
      exact own owed before
    · intro row found stage lacks
      rw [apart txid named] at found
      have waits := before row found stage lacks
      apply TxBackfill.mem_outstanding.mpr
      apply (TxBackfill.mem_outstanding.mp waits).imp id
      rintro ⟨run, inRunning, rfl, rfl⟩
      refine ⟨run, (others run inRunning).resolve_left ?_, rfl, rfl⟩
      rintro rfl
      exact named rfl

/-- The raw stage: the row is filled and the request goes on to the fee, or some
other request is at what the row lacks. -/
theorem writeRaw (inv : BackfillInv s) {tx : GetRawTransactionModel}
    (located : s.running[index]? = some (request, .writeRaw tx)) :
    BackfillInv (s.writeRaw index request tx) := by
  have weighs := inv.weighs request tx (List.mem_of_getElem? located)
  have stored (txid : Txid) : ((s.db.backfillRaw request.txid tx.inputTxids
      tx.weight.toInt64).transactions txid).isSome = (s.db.transactions txid).isSome := by
    simp [Db.backfillRaw, Db.updateTransactions]
  have apart (txid : Txid) (different : txid ≠ request.txid) :=
    Db.transactions_backfillRaw_of_ne different tx.inputTxids tx.weight.toInt64 s.db
  unfold TxBackfill.writeRaw
  simp only
  split_ifs with goesOn
  -- The request goes on to the fee, or it ends here.
  · refine inv.wrote request stored apart ?_ ?_ fun owed before => ?_
    · intro run inRunning
      exact (mem_set_or_eq _ inRunning located).symm.imp (congrArg Prod.fst) id
    · intro run member
      rcases List.mem_or_eq_of_mem_set member with kept | rfl
      · exact .inl kept
      · right
        intro tx same
        cases same
    · obtain ⟨row, found⟩ := Option.isSome_iff_exists.mp (inv.stored _ owed)
      obtain ⟨after, filled, -, notRaw⟩ | ⟨-, -, unfilled⟩ :=
        Db.backfilledRaw_cases found tx.inputTxids weighs
      · intro same also stage lacks
        -- After the raw write only the fee can be missing, and the request goes on to fetch it.
        obtain rfl : after = same := Option.some.inj (filled.symm.trans also)
        obtain rfl : stage = .entry := by
          cases stage with
          | raw => exact absurd lacks notRaw
          | entry => rfl
        apply TxBackfill.mem_outstanding.mpr
        exact .inr ⟨_, mem_set_self (request, .fetchEntry) located, rfl, rfl⟩
      · rw [unfilled] at goesOn
        cases goesOn
  · refine inv.wrote request stored apart ?_ ?_ fun owed before => ?_
    -- The request ends, so what the row still lacks must be asked by another one.
    · intro run inRunning
      exact (mem_eraseIdx_or_eq inRunning located).symm.imp (congrArg Prod.fst) id
    · exact fun run member => .inl (List.mem_of_mem_eraseIdx member)
    · obtain ⟨row, found⟩ := Option.isSome_iff_exists.mp (inv.stored _ owed)
      obtain ⟨after, filled, reported, notRaw⟩ | ⟨notRaw, same, -⟩ :=
        Db.backfilledRaw_cases found tx.inputTxids weighs
      · -- the row is complete, or the request would have gone on
        intro other also stage lacks
        obtain rfl : after = other := Option.some.inj (filled.symm.trans also)
        rw [reported] at goesOn
        cases stage with
        | raw => exact absurd lacks notRaw
        | entry => exact absurd lacks goesOn
      · intro other also stage lacks
        obtain rfl : row = other := Option.some.inj (same.symm.trans also)
        have waits := before row found stage lacks
        apply (TxBackfill.outstanding_endAt located waits).resolve_right
        rintro ⟨-, rfl⟩
        exact notRaw lacks

/-- The entry stage: the row has its fee, and lacks nothing or what some other
request is at. -/
theorem writeFee (inv : BackfillInv s) {fee : UInt64}
    (located : s.running[index]? = some (request, .writeFee fee)) :
    BackfillInv (s.writeFee index request fee) := by
  unfold TxBackfill.writeFee
  refine inv.wrote request ?_ ?_ ?_ ?_ fun owed before => ?_
  · intro txid
    simp [Db.backfillFee, Db.updateTransactions]
  · exact fun txid different => Db.transactions_backfillFee_of_ne different fee.toInt64 s.db
  · intro run inRunning
    exact (mem_eraseIdx_or_eq inRunning located).symm.imp (congrArg Prod.fst) id
  · exact fun run member => .inl (List.mem_of_mem_eraseIdx member)
  · obtain ⟨row, found⟩ := Option.isSome_iff_exists.mp (inv.stored _ owed)
    intro after also stage lacks
    have filled : after.fee.isSome = true ∧ row.LacksLess after := by
      simp only [Db.backfillFee, Db.updateTransactions, found, Option.map_some, true_and,
        Option.some.injEq] at also
      subst also
      split_ifs with none
      · exact ⟨rfl, row.backfillStage_fee fee.toInt64⟩
      · exact ⟨by simpa [Option.isSome_iff_ne_none] using none, .inr rfl⟩
    obtain ⟨hasFee, less⟩ := filled
    obtain rfl : stage = .raw := by
      -- With the fee there, only the raw data can be missing.
      cases stage with
      | raw => rfl
      | entry =>
        simp only [StoredTxFill.backfillStage, Transaction.fill, hasFee, Bool.not_true,
          Bool.false_eq_true, if_false] at lacks
        split_ifs at lacks
        cases lacks
    have waits : (request.txid, BackfillStage.raw) ∈ s.outstanding := by
      -- It was missing before too, so another request is waiting for it.
      rcases less with complete | same
      · rw [complete] at lacks
        cases lacks
      · exact before row found .raw (same ▸ lacks)
    apply (TxBackfill.outstanding_endAt located waits).resolve_right
    rintro ⟨-, same⟩
    cases same

/-- A request is given up on only once its transaction left the ledger. -/
theorem retry (inv : BackfillInv s) {stage : BackfillStage}
    (located : s.running[index]? = some (request, .failed stage)) :
    BackfillInv (s.retry index request stage) := by
  unfold TxBackfill.retry
  simp only
  split_ifs with again
  · refine inv.moved rfl rfl rfl rfl (fun _ _ => List.mem_of_mem_eraseIdx) fun kept =>
      ⟨kept, fun txid at_ waits => ?_⟩
    apply TxBackfill.mem_outstanding.mpr
    rcases TxBackfill.outstanding_endAt located waits with others | ⟨rfl, rfl⟩
    · apply (TxBackfill.mem_outstanding.mp others).imp ?_ id
      rintro ⟨other, queued | received | backing, named⟩
      · exact ⟨other, .inl queued, named⟩
      · exact ⟨other, .inr (.inl received), named⟩
      · exact ⟨other, .inr (.inr (List.mem_append_left _ backing)), named⟩
    · exact .inl ⟨_, .inr (.inr (List.mem_append_right _ List.mem_cons_self)), rfl, rfl⟩
  · apply inv.endAt located
    intro owed
    exact absurd (by simp [shouldRetry, inv.live _ owed]) again

/-- A producer's call, after which only the txids that are still live are owed a row. -/
theorem produce (inv : BackfillInv s) (producer : Producer) :
    BackfillInv { s with
      mempoolLedger := producer.apply s.mempoolLedger
      owed := s.owed.filter (· ∈ (producer.apply s.mempoolLedger).live) } where
  stored txid owed := inv.stored txid (Finset.mem_filter.mp owed).1
  live _ owed := (Finset.mem_filter.mp owed).2
  weighs := inv.weighs
  provided kept txid owed asks := inv.provided kept txid (Finset.mem_filter.mp owed).1 asks

/-- A request is taken off the queue once the one before it is running. -/
theorem receive (inv : BackfillInv s) {queue : List BackfillRequest} (idle : s.received = none)
    (head : s.queue = request :: queue) :
    BackfillInv { s with received := some request, queue := queue } := by
  refine inv.moved rfl rfl rfl rfl (fun _ _ => id) fun kept => ⟨kept, fun txid stage waits => ?_⟩
  simp only [TxBackfill.outstanding, idle, head, Option.toList_none, Option.toList_some,
    List.append_nil, List.cons_append, List.append_assoc, List.map_cons, List.map_append,
    List.mem_cons, List.mem_append, List.nil_append] at waits ⊢
  tauto

theorem spawn (inv : BackfillInv s) (received : s.received = some request) :
    BackfillInv { s with
      received := none
      running := s.running ++ [(request, .start request.stage)] } := by
  refine inv.moved rfl rfl rfl rfl (fun other tx member => ?_) fun kept =>
    ⟨kept, fun txid stage waits => ?_⟩
  · apply (List.mem_append.mp member).resolve_right
    intro fresh
    cases stage : request.stage <;> simp [BackfillPc.start, stage] at fresh
  · simp only [TxBackfill.outstanding, received, Option.toList_none, Option.toList_some,
      List.append_nil, List.map_append, List.map_cons, List.map_nil, List.mem_append,
      List.mem_singleton, BackfillPc.stage_start] at waits ⊢
    tauto

/-- A write that fails ends the request, which the step's condition makes up for. -/
theorem writeFailed (inv : BackfillInv s) (located : s.running[index]? = some (request, pc))
    (provided : (BackfillOp.written index true).Provided s) : BackfillInv (s.endAt index) :=
  inv.endAt located fun owed _ => provided _ located owed

theorem step {s next : TxBackfill} {op : BackfillOp} (inv : BackfillInv s) (weighs : op.Weighs)
    (provided : op.Provided s) (stepped : s.step op = some next) : BackfillInv next := by
  cases op with
  -- One lemma per action; the guards of the step tell where its request was found.
  | rows op =>
    have others (txid : Txid) (inputTxids : List Txid) (weight fee : Int64) :
        op ≠ .backfillRaw txid inputTxids weight ∧ op ≠ .backfillFee txid fee := by
      constructor <;>
      · rintro rfl
        cases stepped
    have applied : next = { s with db := op.apply s.db } := by
      cases op <;> cases stepped <;> rfl
    rw [applied]
    exact inv.withDb fun txid _ row stored => RowOp.lacksLess weighs others stored
  | produce producer =>
    obtain rfl := Option.some.inj stepped
    exact inv.produce producer
  | enqueue txid stage =>
    obtain rfl := Option.some.inj stepped
    exact inv.enqueue provided
  | receive =>
    simp only [TxBackfill.step] at stepped
    split at stepped
    · next request queue idle head =>
      obtain rfl := Option.some.inj stepped
      exact inv.receive idle head
    · cases stepped
  | spawn =>
    simp only [TxBackfill.step] at stepped
    split at stepped
    · next request received =>
      split_ifs at stepped
      obtain rfl := Option.some.inj stepped
      exact inv.spawn received
    · cases stepped
  | rawFetched index answer =>
    simp only [TxBackfill.step] at stepped
    split at stepped
    · next request tx located =>
      obtain rfl := Option.some.inj stepped
      have fetched (other : GetRawTransactionModel)
          (same : BackfillPc.writeRaw tx = .writeRaw other) : other.weight.toInt64 ≠ 0 := by
        cases same
        exact weighs
      exact inv.continueAt located rfl fetched
    · next request error located =>
      obtain rfl := Option.some.inj stepped
      exact inv.fetchFailed located error
    · cases stepped
  | entryFetched index answer =>
    simp only [TxBackfill.step] at stepped
    split at stepped
    · next request fee located =>
      obtain rfl := Option.some.inj stepped
      exact inv.continueAt located rfl nofun
    · next request error located =>
      obtain rfl := Option.some.inj stepped
      exact inv.fetchFailed located error
    · cases stepped
  | written index fails =>
    simp only [TxBackfill.step] at stepped
    split at stepped
    · next request tx located =>
      obtain rfl := Option.some.inj stepped
      cases fails with
      | true => exact inv.writeFailed located provided
      | false => exact inv.writeRaw located
    · next request fee located =>
      obtain rfl := Option.some.inj stepped
      cases fails with
      | true => exact inv.writeFailed located provided
      | false => exact inv.writeFee located
    · cases stepped
  | retried index =>
    simp only [TxBackfill.step] at stepped
    split at stepped
    · next request stage located =>
      obtain rfl := Option.some.inj stepped
      exact inv.retry located
    · cases stepped
  | wake index =>
    simp only [TxBackfill.step] at stepped
    split at stepped
    · next request located =>
      obtain rfl := Option.some.inj stepped
      exact inv.wake located
    · cases stepped
  | shutdown =>
    obtain rfl := Option.some.inj stepped
    exact inv.moved rfl rfl rfl rfl (fun _ _ => id) fun kept => ⟨kept, fun _ _ => id⟩

end BackfillInv

/-- Once no request is left and none was dropped, whatever was accepted is filled,
unless its transaction left the ledger or the node gave a terminal answer. -/
theorem backfill_completes {capacity : ℕ} {db : Db} {ledger : MempoolLedger}
    {ops : List BackfillOp} {last : TxBackfill}
    (weighs : ∀ op ∈ ops, op.Weighs)
    (provided : Runs.Along TxBackfill.step (fun s op => op.Provided s)
      (.initial capacity db ledger) ops)
    (ran : Runs.run TxBackfill.step (.initial capacity db ledger) ops = some last)
    (drained : last.outstanding = []) (kept : last.dropped = false) :
    ∀ txid ∈ last.owed, txid ∉ last.answered →
      ∃ row, last.db.transactions txid = some row ∧ row.fill.backfillStage = none := by
  have along : Runs.Along TxBackfill.step (fun s op => op.Weighs ∧ op.Provided s)
      (.initial capacity db ledger) ops :=
    -- Weights and provisions hold along the run, so the invariant holds at its end.
    (Runs.along_of_forall_mem fun op member _ => weighs op member).and provided
  have inv : BackfillInv last := Runs.run_induction_along
    (fun _ _ _ inv meets stepped => inv.step meets.1 meets.2 stepped)
    (BackfillInv.initial capacity db ledger) along ran
  intro txid owed asks
  obtain ⟨row, found⟩ := Option.isSome_iff_exists.mp (inv.stored txid owed)
  refine ⟨row, found, ?_⟩
  cases lacks : row.fill.backfillStage with
  -- Something missing would be outstanding, and the queue is drained.
  | none => rfl
  | some stage =>
    have waits := inv.provided kept txid owed asks row found stage lacks
    rw [drained] at waits
    cases waits

/-! ### Runs of one request -/

/-- `a` is live and has a hollow row, and its request is running. -/
def hollowRequest : List BackfillOp :=
  [.rows (.insertHollow [("a", 5)]), .produce (.assertPresent ⟨fun _ => 5, .sorted _⟩ ["a"]),
    .enqueue "a" .raw, .receive, .spawn, .rawFetched 0 (.ok ⟨400, ["p"]⟩)]

def idle : TxBackfill := .initial 8 .empty .default

def filledRequest : List BackfillOp :=
  hollowRequest ++ [.written 0 false, .entryFetched 0 (.ok 10), .written 0 false]

/-- The write of the raw stage fails. -/
def failedRequest : List BackfillOp := hollowRequest ++ [.written 0 true]

theorem request_fills_row : ∃ last, Runs.run TxBackfill.step idle filledRequest = some last ∧
    "a" ∈ last.owed ∧ ∃ row, last.db.transactions "a" = some row ∧
      row.fill.backfillStage = none := by
  have weighs : ∀ op ∈ filledRequest, op.Weighs := by
    intro op listed
    simp only [filledRequest, hollowRequest, List.cons_append, List.nil_append, List.mem_cons,
      List.not_mem_nil, or_false] at listed
    rcases listed with rfl | rfl | rfl | rfl | rfl | rfl | rfl | rfl | rfl <;>
      simp [BackfillOp.Weighs]
  have provided : Runs.Along TxBackfill.step (fun s op => op.Provided s) idle filledRequest := by
    decide +kernel
  have ran : (Runs.run TxBackfill.step idle filledRequest).isSome = true := by decide +kernel
  obtain ⟨last, ran⟩ := Option.isSome_iff_exists.mp ran
  have ends : ((Runs.run TxBackfill.step idle filledRequest).all fun last =>
      last.outstanding = [] ∧ last.dropped = false ∧ "a" ∈ last.owed ∧ "a" ∉ last.answered) =
        true := by
    decide +kernel
  rw [ran] at ends
  obtain ⟨drained, kept, owed, asks⟩ := of_decide_eq_true ends
  exact ⟨last, ran, owed, backfill_completes weighs provided ran drained kept "a" owed asks⟩

/-- A row stays hollow after its write failed once, though its transaction is live and
nothing is left to be done. -/
theorem failed_write_leaves_row_hollow :
    (∀ op ∈ failedRequest, op.Weighs) ∧
    ((Runs.run TxBackfill.step idle failedRequest).any fun last =>
      last.outstanding = [] ∧ last.dropped = false ∧ "a" ∈ last.owed ∧ "a" ∉ last.answered ∧
        "a" ∈ last.mempoolLedger.live ∧
        ((last.db.transactions "a").map fun row => row.fill.backfillStage) =
          some (some .raw)) = true := by
  refine ⟨fun op listed => ?_, by decide +kernel⟩
  simp only [failedRequest, hollowRequest, List.cons_append, List.nil_append, List.mem_cons,
    List.not_mem_nil, or_false] at listed
  rcases listed with rfl | rfl | rfl | rfl | rfl | rfl | rfl <;> simp [BackfillOp.Weighs]

end MempoolObserver
