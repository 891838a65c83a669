import MempoolObserver.Db.Transactions

/-!
# Transaction rows only gain information

Hollow inserts, the upsert at start-up, the two backfills and the block path
write the same rows in any order. Every column that only the node can supply goes
from unknown to the node's value, and stays there; the time a row was first seen
is never written again; a confirmation is set once and moves only to a later
block with the transaction.

## Main definitions

* `NodeTx` — what the node says of a transaction
* `RowOp` — the writers of transaction rows
* `Transaction.Gains` — what a row can become

## Main results

* `upsertInSlices_eq` — an upsert is the same in any order and any slices
* `RowOp.learns_run` — a run of writers only adds information
* `transactions_gain_until_complete`
-/

namespace MempoolObserver

open Collections

/-- What the node says of a transaction. -/
structure NodeTx where
  fee : Int64
  weight : Int64
  inputTxids : List Txid
  weighs : 0 < weight

/-! ### What a row can become -/

namespace Transaction

/-- The `confirmed_at` and `confirmed_at_block` of the row. -/
def confirmation (row : Transaction) : Option OffsetDateTime × Option String :=
  (row.confirmedAt, row.confirmedAtBlock)

/-- The row says nothing else than the node. -/
structure Agrees (tx : NodeTx) (row : Transaction) : Prop where
  fee : row.fee = none ∨ row.fee = some tx.fee
  weight : row.weight = 0 ∨ row.weight = tx.weight
  inputTxids : row.inputTxids = none ∨ row.inputTxids = some tx.inputTxids

/-- `after` has what `row` has, confirmed the same way or as `mined` says. -/
structure Gains (mined : Option OffsetDateTime × Option String → Prop)
    (row after : Transaction) : Prop where
  fee : row.fee.isSome = true → after.fee = row.fee
  weight : row.weight ≠ 0 → after.weight = row.weight
  inputTxids : row.inputTxids.isSome = true → after.inputTxids = row.inputTxids
  firstSeenAt : after.firstSeenAt = row.firstSeenAt
  confirmedAt : row.confirmedAt.isSome = true → after.confirmedAt.isSome = true
  confirmedAtBlock : row.confirmedAtBlock.isSome = true → after.confirmedAtBlock.isSome = true
  confirmation : after.confirmation = row.confirmation ∨ mined after.confirmation

/-- The row has the parents and the weight. -/
def HasRaw (tx : NodeTx) (row : Transaction) : Prop :=
  row.inputTxids = some tx.inputTxids ∧ row.weight = tx.weight

def HasFee (tx : NodeTx) (row : Transaction) : Prop := row.fee = some tx.fee

variable {tx : NodeTx} {row mid after : Transaction}
  {mined more : Option OffsetDateTime × Option String → Prop}

namespace Gains

theorem refl (mined : Option OffsetDateTime × Option String → Prop) (row : Transaction) :
    Gains mined row row :=
  ⟨fun _ => rfl, fun _ => rfl, fun _ => rfl, rfl, id, id, .inl rfl⟩

theorem mono (weaker : ∀ confirmation, mined confirmation → more confirmation)
    (gains : Gains mined row after) : Gains more row after :=
  { gains with confirmation := gains.confirmation.imp id (weaker _) }

theorem trans (first : Gains mined row mid) (second : Gains mined mid after) :
    Gains mined row after where
  fee known := by
    have kept := first.fee known
    rw [second.fee (kept ▸ known), kept]
  weight known := by
    have kept := first.weight known
    rw [second.weight (kept ▸ known), kept]
  inputTxids known := by
    have kept := first.inputTxids known
    rw [second.inputTxids (kept ▸ known), kept]
  firstSeenAt := second.firstSeenAt.trans first.firstSeenAt
  confirmedAt known := second.confirmedAt (first.confirmedAt known)
  confirmedAtBlock known := second.confirmedAtBlock (first.confirmedAtBlock known)
  confirmation := by
    rcases second.confirmation with same | moved
    · rw [same]
      exact first.confirmation
    · exact .inr moved

theorem hasRaw (gains : Gains mined row after) (has : row.HasRaw tx) : after.HasRaw tx := by
  obtain ⟨inputs, weight⟩ := has
  have weighs : row.weight ≠ 0 := by
    rw [weight]
    exact (Int64.ne_of_lt tx.weighs).symm
  constructor
  · rw [gains.inputTxids (by rw [inputs]; rfl), inputs]
  · rw [gains.weight weighs, weight]

theorem hasFee (gains : Gains mined row after) (has : row.HasFee tx) : after.HasFee tx :=
  (gains.fee (by rw [has]; rfl)).trans has

end Gains

/-- With all the node says, a row needs no backfill. -/
theorem backfillStage_of_has (raw : row.HasRaw tx) (fee : row.HasFee tx) :
    row.fill.backfillStage = none := by
  apply backfillStage_fill_eq_none.mpr
  rw [raw.1, raw.2, fee]
  exact ⟨rfl, (Int64.ne_of_lt tx.weighs).symm, rfl⟩

end Transaction

namespace Db

/-! ### Upserts, row by row -/

/-- The rows upserted as they come, so many at a time. -/
def upsertInSlices (size : ℕ) (update : Transaction → Transaction → Transaction)
    (rows : List NewTransaction) (db : Db) : Option Db :=
  (slices size rows).foldlM (fun db slice => db.upsertSlice update slice) db

/-- What one more new row makes of the row of the txid. -/
def touch (update : Transaction → Transaction → Transaction) (txid : Txid)
    (stored : Option Transaction) (new : NewTransaction) : Option Transaction :=
  if new.txid = txid then some (stored.elim new.row fun row => update row new.row) else stored

variable {update : Transaction → Transaction → Transaction} {rows : List NewTransaction}
  {db next : Db} {size : ℕ}

theorem foldl_touch_of_absent {txid : Txid} (absent : txid ∉ rows.map NewTransaction.txid)
    (stored : Option Transaction) : rows.foldl (touch update txid) stored = stored := by
  induction rows generalizing stored with
  | nil => rfl
  | cons new rows ih =>
    simp only [List.map_cons, List.mem_cons, not_or] at absent
    rw [List.foldl_cons, touch, if_neg (Ne.symm absent.1)]
    exact ih absent.2 stored

/-- In a slice without a repeated txid every row is touched at most once. -/
theorem upsertSlice_eq (update : Transaction → Transaction → Transaction)
    (distinct : (rows.map NewTransaction.txid).Nodup) (db : Db) :
    db.upsertSlice update rows = some { db with
      transactions := fun txid => rows.foldl (touch update txid) (db.transactions txid) } := by
  rw [upsertSlice, if_pos distinct]
  congr 2
  funext txid
  induction rows with
  | nil => rfl
  | cons new rows ih =>
    obtain ⟨fresh, distinct⟩ := List.nodup_cons.mp distinct
    by_cases named : new.txid = txid
    · subst named
      rw [List.foldl_cons, foldl_touch_of_absent fresh, touch, if_pos rfl,
        List.find?_cons_of_pos (by simp)]
      cases db.transactions new.txid <;> rfl
    · rw [List.foldl_cons, touch, if_neg named, List.find?_cons_of_neg (by simpa using named)]
      exact ih distinct

/-- An upsert that goes through touches the rows in the order it gets them. -/
theorem transactions_upsertInSlices (positive : 0 < size)
    (h : db.upsertInSlices size update rows = some next) :
    next = { db with
      transactions := fun txid => rows.foldl (touch update txid) (db.transactions txid) } := by
  -- Induction over the slices: a slice that names a txid twice is refused, and with it the batch.
  have sliced : ∀ parts : List (List NewTransaction), ∀ before : Db,
      parts.foldlM (fun db slice => db.upsertSlice update slice) before = some next →
      next = { before with transactions := fun txid =>
        parts.flatten.foldl (touch update txid) (before.transactions txid) } := by
    intro parts
    induction parts with
    | nil =>
      intro before folded
      exact (Option.some.inj folded).symm
    | cons slice parts ih =>
      intro before folded
      rw [List.foldlM_cons, Option.bind_eq_bind] at folded
      obtain ⟨mid, stepped, folded⟩ := Option.bind_eq_some_iff.mp folded
      by_cases distinct : (slice.map NewTransaction.txid).Nodup
      · rw [upsertSlice_eq update distinct] at stepped
        cases stepped
        simpa only [List.flatten_cons, List.foldl_append] using ih _ folded
      · rw [upsertSlice, if_neg distinct] at stepped
        cases stepped
  have done := sliced _ db h
  rwa [slices_flatten positive] at done

/-- Rows without a repeated txid are upserted whatever the slices. -/
theorem upsertInSlices_isSome (positive : 0 < size)
    (distinct : (rows.map NewTransaction.txid).Nodup) (db : Db) :
    (db.upsertInSlices size update rows).isSome = true := by
  apply foldlM_option_isSome (motive := fun _ => True) (fun _ _ _ _ _ _ => trivial) ?_ trivial
  intro before slice listed _
  rw [upsertSlice, if_pos]
  · rfl
  · apply List.Nodup.sublist ?_ distinct
    apply List.Sublist.map
    rw [← slices_flatten positive rows]
    exact List.sublist_flatten_of_mem listed

theorem foldl_touch_perm {txs : List NewTransaction} (perm : rows.Perm txs)
    (distinct : (txs.map NewTransaction.txid).Nodup) (txid : Txid) (stored : Option Transaction) :
    rows.foldl (touch update txid) stored = txs.foldl (touch update txid) stored := by
  have listed {new : NewTransaction} (member : new ∈ rows) : new ∈ txs := perm.mem_iff.mp member
  apply perm.foldl_eq'
  intro first inFirst second inSecond stored
  by_cases same : first.txid = second.txid
  · rw [List.inj_on_of_nodup_map distinct (listed inFirst) (listed inSecond) same]
  · -- at most one of the two touches the row
    by_cases named : first.txid = txid
    · have other : second.txid ≠ txid := fun also => same (named.trans also.symm)
      simp [touch, named, other]
    · simp [touch, named]

/-- What the updates of a batch keep of a row, the batch keeps. -/
theorem upsertMany_keeps {txs : List NewTransaction} (h : db.upsertMany update txs = some next)
    {keep : Transaction → Prop}
    (keeps : ∀ new ∈ txs, ∀ row : Transaction, keep row → keep (update row new.row)) {txid : Txid}
    {row : Transaction} (stored : db.transactions txid = some row) (base : keep row) :
    ∃ after, next.transactions txid = some after ∧ keep after := by
  have done := transactions_upsertInSlices transactionInsertChunkSize_pos h
  subst done
  have folded : ∀ rows : List NewTransaction, (∀ new ∈ rows, new ∈ txs) → ∀ row, keep row →
      ∃ after, rows.foldl (touch update txid) (some row) = some after ∧ keep after := by
    intro rows
    induction rows with
    | nil => exact fun _ row base => ⟨row, rfl, base⟩
    | cons new rows ih =>
      intro listed row base
      have rest := ih fun new later => listed new (List.mem_cons_of_mem _ later)
      rw [List.foldl_cons, touch]
      split_ifs
      · exact rest _ (keeps new (listed new List.mem_cons_self) row base)
      · exact rest row base
  simp only [stored]
  exact folded _ (fun new => NewTransaction.mem_sortedByTxid.mp) row base

/-- **Neither the order of a batch nor its slices matter**, as long as it names no
transaction twice. -/
theorem upsertInSlices_eq (positive : 0 < size) {txs : List NewTransaction}
    (perm : rows.Perm txs) (distinct : (txs.map NewTransaction.txid).Nodup) (db : Db) :
    db.upsertInSlices size update rows = db.upsertMany update txs := by
  have sorted : (NewTransaction.sortedByTxid txs).Perm txs := List.perm_insertionSort _ txs
  have here : (db.upsertInSlices size update rows).isSome = true :=
    upsertInSlices_isSome positive ((perm.map NewTransaction.txid).nodup_iff.mpr distinct) db
  have there : (db.upsertMany update txs).isSome = true :=
    upsertInSlices_isSome transactionInsertChunkSize_pos
      ((sorted.map NewTransaction.txid).nodup_iff.mpr distinct) db
  obtain ⟨next, first⟩ := Option.isSome_iff_exists.mp here
  obtain ⟨other, second⟩ := Option.isSome_iff_exists.mp there
  rw [first, show db.upsertMany update txs = some other from second,
    transactions_upsertInSlices positive first,
    transactions_upsertInSlices transactionInsertChunkSize_pos second]
  congr 2
  funext txid
  rw [foldl_touch_perm perm distinct, foldl_touch_perm sorted distinct]

/-- The rows of an ignored conflict can be inserted in any slices. -/
theorem foldl_insertOrIgnore (positive : 0 < size) (rows : List NewTransaction) (db : Db) :
    (slices size rows).foldl (fun db slice => db.insertOrIgnore slice) db =
      db.insertOrIgnore rows := by
  have sliced : ∀ parts : List (List NewTransaction), ∀ before : Db,
      parts.foldl (fun db slice => db.insertOrIgnore slice) before =
        before.insertOrIgnore parts.flatten := by
    intro parts
    induction parts with
    | nil =>
      intro before
      obtain ⟨deltas, transactions, blocks, clusters, seq, chunks⟩ := before
      -- Nothing to insert leaves every stored row, and every gap, as it is.
      simp only [List.foldl_nil, List.flatten_nil, insertOrIgnore, List.find?_nil, Option.map_none]
      congr 1
      funext txid
      cases transactions txid <;> rfl
    | cons slice parts ih =>
      intro before
      rw [List.foldl_cons, ih, List.flatten_cons]
      simp only [insertOrIgnore, List.find?_append]
      -- The first mention of a txid wins, whichever slice it is in.
      congr 1
      funext txid
      cases before.transactions txid with
      | some row => rfl
      | none =>
        cases slice.find? fun new => new.txid = txid <;> rfl
  rw [sliced, slices_flatten positive]

/-- And in any order, if the rows of one txid are the same. -/
theorem insertOrIgnore_perm {txs : List NewTransaction} (perm : rows.Perm txs)
    (same : ∀ first ∈ txs, ∀ second ∈ txs, first.txid = second.txid → first = second) (db : Db) :
    db.insertOrIgnore rows = db.insertOrIgnore txs := by
  have found (txid : Txid) : rows.find? (fun new => new.txid = txid) =
      txs.find? (fun new => new.txid = txid) := by
    cases first : rows.find? (fun new => new.txid = txid) with
    | none =>
      symm
      simp only [List.find?_eq_none] at first ⊢
      exact fun new listed => first new (perm.mem_iff.mpr listed)
    | some new =>
      have listed := perm.mem_iff.mp (List.mem_of_find?_eq_some first)
      have named : new.txid = txid := by simpa using List.find?_some first
      obtain ⟨other, second⟩ := Option.isSome_iff_exists.mp (show
        (txs.find? fun new => new.txid = txid).isSome = true from
          List.find?_isSome.mpr ⟨new, listed, by simpa using named⟩)
      have otherNamed : other.txid = txid := by simpa using List.find?_some second
      rw [second, same new listed other (List.mem_of_find?_eq_some second)]
      rw [named, otherNamed]
  simp only [insertOrIgnore, found]

/-- Every stored row says what the node says. -/
def AgreesWith (node : Txid → NodeTx) (db : Db) : Prop :=
  ∀ txid row, db.transactions txid = some row → row.Agrees (node txid)

/-- From `db` to `next` the rows only gained information. -/
structure Learns (node : Txid → NodeTx)
    (mined : Txid → Option OffsetDateTime × Option String → Prop) (db next : Db) : Prop where
  agrees : next.AgreesWith node
  gains : ∀ txid row, db.transactions txid = some row →
    ∃ after, next.transactions txid = some after ∧ row.Gains (mined txid) after

variable {node : Txid → NodeTx} {mined more : Txid → Option OffsetDateTime × Option String → Prop}
  {mid : Db}

theorem Learns.refl (agrees : db.AgreesWith node) : Learns node mined db db :=
  ⟨agrees, fun _ row stored => ⟨row, stored, .refl _ row⟩⟩

theorem Learns.trans (first : Learns node mined db mid) (second : Learns node mined mid next) :
    Learns node mined db next where
  agrees := second.agrees
  gains txid row stored := by
    obtain ⟨between, inMid, toMid⟩ := first.gains txid row stored
    obtain ⟨after, inNext, toNext⟩ := second.gains txid between inMid
    exact ⟨after, inNext, toMid.trans toNext⟩

theorem Learns.mono (weaker : ∀ txid confirmation, mined txid confirmation → more txid confirmation)
    (learns : Learns node mined db next) : Learns node more db next where
  agrees := learns.agrees
  gains txid row stored := by
    obtain ⟨after, inNext, gains⟩ := learns.gains txid row stored
    exact ⟨after, inNext, gains.mono (weaker txid)⟩

/-- One row at a time is enough. -/
theorem learns_of_rows
    (gains : ∀ txid row, db.transactions txid = some row →
      ∃ after, next.transactions txid = some after ∧ after.Agrees (node txid) ∧
        row.Gains (mined txid) after)
    (inserts : ∀ txid after, db.transactions txid = none → next.transactions txid = some after →
      after.Agrees (node txid)) : Learns node mined db next where
  agrees txid after inNext := by
    cases stored : db.transactions txid with
    | none => exact inserts txid after stored inNext
    | some row =>
      obtain ⟨same, found, agrees, -⟩ := gains txid row stored
      obtain rfl : same = after := Option.some.inj (found.symm.trans inNext)
      exact agrees
  gains txid row stored := by
    obtain ⟨after, inNext, -, gains⟩ := gains txid row stored
    exact ⟨after, inNext, gains⟩

end Db

/-! ### The writers -/

/-- A writer of transaction rows. -/
inductive RowOp where
  /-- The hollow rows of a flush or of a cluster's members. -/
  | insertHollow (rows : List (Txid × OffsetDateTime))
  | insertMany (txs : List NewTransaction)
  | backfillRaw (txid : Txid) (inputTxids : List Txid) (weight : Int64)
  | backfillFee (txid : Txid) (fee : Int64)
  | insertOrConfirmMany (txs : List NewTransaction)

/-- A new row of the block path: the transaction as the node has it, confirmed. -/
structure NewTransaction.Mined (node : Txid → NodeTx) (new : NewTransaction) : Prop where
  raw : new.row.HasRaw (node new.txid)
  fee : new.row.HasFee (node new.txid)
  confirmedAt : new.row.confirmedAt.isSome = true
  confirmedAtBlock : new.row.confirmedAtBlock.isSome = true

namespace RowOp

/-- The database after the operation; one that fails is rolled back. -/
def apply (db : Db) : RowOp → Db
  | insertHollow rows => db.insertOrIgnore (rows.map fun (txid, now) => .hollow now txid)
  | insertMany txs => (db.insertMany txs).getD db
  | backfillRaw txid inputTxids weight => db.backfillRaw txid inputTxids weight
  | backfillFee txid fee => db.backfillFee txid fee
  | insertOrConfirmMany txs => (db.insertOrConfirmMany txs).getD db

/-- What the operation supplies is what the node says. -/
def Agrees (node : Txid → NodeTx) : RowOp → Prop
  | insertHollow _ => True
  | insertMany txs => ∀ new ∈ txs, new.row.Agrees (node new.txid)
  | backfillRaw txid inputTxids weight =>
    inputTxids = (node txid).inputTxids ∧ weight = (node txid).weight
  | backfillFee txid fee => fee = (node txid).fee
  | insertOrConfirmMany txs => ∀ new ∈ txs, new.Mined node

/-- The operation stores a block that confirms the txid so. -/
def Mines (op : RowOp) (txid : Txid)
    (confirmation : Option OffsetDateTime × Option String) : Prop :=
  match op with
  | insertOrConfirmMany txs => ∃ new ∈ txs, new.txid = txid ∧ new.row.confirmation = confirmation
  | _ => False

end RowOp

namespace Db

variable {update : Transaction → Transaction → Transaction} {rows : List NewTransaction}
  {db next : Db} {node : Txid → NodeTx}
  {mined : Txid → Option OffsetDateTime × Option String → Prop}

/-- An upsert that agrees with the node and loses nothing of a row it updates. -/
structure Enriches (node : Txid → NodeTx)
    (mined : Txid → Option OffsetDateTime × Option String → Prop)
    (update : Transaction → Transaction → Transaction) (new : NewTransaction) : Prop where
  fresh : new.row.Agrees (node new.txid)
  agrees : ∀ row : Transaction, row.Agrees (node new.txid) →
    (update row new.row).Agrees (node new.txid)
  gains : ∀ row : Transaction, row.Agrees (node new.txid) →
    row.Gains (mined new.txid) (update row new.row)

theorem touch_cases {txid : Txid} {new : NewTransaction} (enriches : Enriches node mined update new)
    {stored : Option Transaction} (agrees : ∀ row ∈ stored, row.Agrees (node txid)) :
    (∀ row ∈ touch update txid stored new, row.Agrees (node txid)) ∧
      ∀ row ∈ stored, ∃ after ∈ touch update txid stored new, row.Gains (mined txid) after := by
  unfold touch
  split_ifs with named
  · subst named
    cases stored with
    | none => simpa using enriches.fresh
    | some row =>
      have known := agrees row rfl
      simpa using ⟨enriches.agrees row known, enriches.gains row known⟩
  · exact ⟨agrees, fun row present => ⟨row, present, .refl _ row⟩⟩

theorem foldl_touch_gains (txid : Txid) (enrich : ∀ new ∈ rows, Enriches node mined update new)
    {stored : Option Transaction} (agrees : ∀ row ∈ stored, row.Agrees (node txid)) :
    (∀ row ∈ rows.foldl (touch update txid) stored, row.Agrees (node txid)) ∧
      ∀ row ∈ stored, ∃ after ∈ rows.foldl (touch update txid) stored,
        row.Gains (mined txid) after := by
  induction rows generalizing stored with
  | nil => exact ⟨agrees, fun row present => ⟨row, present, .refl _ row⟩⟩
  | cons new rows ih =>
    obtain ⟨first, toFirst⟩ := touch_cases (enrich new List.mem_cons_self) agrees
    obtain ⟨last, toLast⟩ := ih (fun new listed => enrich new (List.mem_cons_of_mem _ listed)) first
    refine ⟨last, fun row present => ?_⟩
    obtain ⟨mid, inMid, toMid⟩ := toFirst row present
    obtain ⟨after, inAfter, toAfter⟩ := toLast mid inMid
    exact ⟨after, inAfter, toMid.trans toAfter⟩

/-- A row that one of the upserts completes stays complete. -/
theorem foldl_touch_has (txid : Txid) (enrich : ∀ new ∈ rows, Enriches node mined update new)
    {has : Transaction → Prop}
    (keeps : ∀ {row after : Transaction}, row.Gains (mined txid) after → has row → has after)
    {stored : Option Transaction} (agrees : ∀ row ∈ stored, row.Agrees (node txid))
    {new : NewTransaction} (listed : new ∈ rows) (named : new.txid = txid) (fresh : has new.row)
    (sets : ∀ row : Transaction, row.Agrees (node txid) → has (update row new.row)) :
    ∃ after ∈ rows.foldl (touch update txid) stored, has after := by
  -- Induction over the rows up to the one that brings the fact; what follows only adds to the row.
  induction rows generalizing stored with
  | nil => cases listed
  | cons first rows ih =>
    have rest (new : NewTransaction) (listed : new ∈ rows) :=
      enrich new (List.mem_cons_of_mem _ listed)
    have touched := (touch_cases (enrich first List.mem_cons_self) agrees).1
    rcases List.mem_cons.mp listed with rfl | later
    · have reached : ∃ row ∈ touch update txid stored new, has row := by
        rw [touch, if_pos named]
        refine ⟨_, rfl, ?_⟩
        cases stored with
        | none => exact fresh
        | some row => exact sets row (agrees row rfl)
      obtain ⟨row, present, complete⟩ := reached
      obtain ⟨after, inAfter, gains⟩ := (foldl_touch_gains txid rest touched).2 row present
      exact ⟨after, inAfter, keeps gains complete⟩
    · exact ih rest touched later

theorem learns_upsertMany {txs : List NewTransaction} (known : db.AgreesWith node)
    (enrich : ∀ new ∈ txs, Enriches node mined update new)
    (h : db.upsertMany update txs = some next) : Learns node mined db next := by
  have done := transactions_upsertInSlices transactionInsertChunkSize_pos h
  have both (txid : Txid) := foldl_touch_gains txid
    (fun new listed => enrich new (NewTransaction.mem_sortedByTxid.mp listed)) (known txid)
  subst done
  exact ⟨fun txid => (both txid).1, fun txid => (both txid).2⟩

theorem has_upsertMany {txs : List NewTransaction} (known : db.AgreesWith node)
    (enrich : ∀ new ∈ txs, Enriches node mined update new)
    (h : db.upsertMany update txs = some next) {has : Transaction → Prop}
    {new : NewTransaction} (listed : new ∈ txs)
    (keeps : ∀ {row after : Transaction}, row.Gains (mined new.txid) after → has row → has after)
    (fresh : has new.row)
    (sets : ∀ row : Transaction, row.Agrees (node new.txid) → has (update row new.row)) :
    ∃ row, next.transactions new.txid = some row ∧ has row := by
  have done := transactions_upsertInSlices transactionInsertChunkSize_pos h
  subst done
  exact foldl_touch_has new.txid
    (fun new listed => enrich new (NewTransaction.mem_sortedByTxid.mp listed)) keeps
    (known new.txid) (NewTransaction.mem_sortedByTxid.mpr listed) rfl fresh sets

end Db

namespace Transaction

variable {tx : NodeTx} {row : Transaction}
  {mined : Option OffsetDateTime × Option String → Prop}

theorem Agrees.of_has (raw : row.HasRaw tx) (fee : row.HasFee tx) : row.Agrees tx :=
  ⟨.inr fee, .inr raw.2, .inr raw.1⟩

theorem Agrees.hollow (tx : NodeTx) (now : OffsetDateTime) (txid : Txid) :
    (NewTransaction.hollow now txid).row.Agrees tx :=
  ⟨.inl rfl, .inl rfl, .inl rfl⟩

/-- A column that is known has the node's value. -/
theorem Agrees.known (agrees : row.Agrees tx) :
    (row.fee.isSome = true → row.fee = some tx.fee) ∧ (row.weight ≠ 0 → row.weight = tx.weight) ∧
      (row.inputTxids.isSome = true → row.inputTxids = some tx.inputTxids) := by
  refine ⟨fun known => ?_, agrees.weight.resolve_left, fun known => ?_⟩
  · apply agrees.fee.resolve_left
    intro unknown
    rw [unknown] at known
    cases known
  · apply agrees.inputTxids.resolve_left
    intro unknown
    rw [unknown] at known
    cases known

/-- Writing the node's values over what is known changes nothing of it. -/
theorem Agrees.gains (agrees : row.Agrees tx) {after : Transaction}
    (fee : after.fee = row.fee ∨ after.fee = some tx.fee)
    (weight : after.weight = row.weight ∨ after.weight = tx.weight)
    (inputTxids : after.inputTxids = row.inputTxids ∨ after.inputTxids = some tx.inputTxids)
    (firstSeenAt : after.firstSeenAt = row.firstSeenAt)
    (confirmation : after.confirmation = row.confirmation ∨
      after.confirmedAt.isSome = true ∧ after.confirmedAtBlock.isSome = true ∧
        mined after.confirmation) : after.Agrees tx ∧ row.Gains mined after := by
  -- A field the row knows already holds the node's value, so filling it again changes nothing.
  obtain ⟨knownFee, knownWeight, knownInputs⟩ := agrees.known
  refine ⟨⟨?_, ?_, ?_⟩, ?_⟩
  · exact fee.elim (fun same => same ▸ agrees.fee) .inr
  · exact weight.elim (fun same => same ▸ agrees.weight) .inr
  · exact inputTxids.elim (fun same => same ▸ agrees.inputTxids) .inr
  · refine ⟨fun known => ?_, fun known => ?_, fun known => ?_, firstSeenAt, fun known => ?_,
      fun known => ?_, confirmation.imp id fun moved => moved.2.2⟩
    · exact fee.elim id fun filled => filled.trans (knownFee known).symm
    · exact weight.elim id fun filled => filled.trans (knownWeight known).symm
    · exact inputTxids.elim id fun filled => filled.trans (knownInputs known).symm
    · rcases confirmation with same | moved
      · rwa [show after.confirmedAt = row.confirmedAt from congrArg Prod.fst same]
      · exact moved.1
    · rcases confirmation with same | moved
      · rwa [show after.confirmedAtBlock = row.confirmedAtBlock from congrArg Prod.snd same]
      · exact moved.2.1

theorem fillFee_cases (row new : Transaction) :
    (new.fee.isSome = true → row.fee.isSome = true) ∧ row.fillFee new = row ∨
      new.fee.isSome = true ∧ row.fillFee new = { row with fee := new.fee } := by
  unfold fillFee
  split_ifs with lacks
  · exact .inr ⟨lacks.2, rfl⟩
  · left
    refine ⟨fun supplied => ?_, rfl⟩
    simpa [supplied, Option.isSome_iff_ne_none] using lacks

end Transaction

theorem Db.learns_updateTransactions {db : Db} {node : Txid → NodeTx}
    {mined : Txid → Option OffsetDateTime × Option String → Prop}
    {update : Txid → Transaction → Transaction} (known : db.AgreesWith node)
    (updates : ∀ txid (row : Transaction), row.Agrees (node txid) →
      (update txid row).Agrees (node txid) ∧ row.Gains (mined txid) (update txid row)) :
    Learns node mined db (db.updateTransactions update) := by
  apply learns_of_rows
  · intro txid row stored
    obtain ⟨agrees, gains⟩ := updates txid row (known txid row stored)
    exact ⟨update txid row, by simp [updateTransactions, stored], agrees, gains⟩
  · intro txid after absent updated
    simp [updateTransactions, absent] at updated

section Upserts

variable {node : Txid → NodeTx} {new : NewTransaction}
  {mined : Txid → Option OffsetDateTime × Option String → Prop}

theorem Db.Enriches.fillFee (incoming : new.row.Agrees (node new.txid)) :
    Enriches node mined Transaction.fillFee new := by
  have fills (row : Transaction) (known : row.Agrees (node new.txid)) :
      (row.fillFee new.row).Agrees (node new.txid) ∧
        row.Gains (mined new.txid) (row.fillFee new.row) := by
    rcases row.fillFee_cases new.row with ⟨-, same⟩ | ⟨supplied, filled⟩
    · rw [same]
      exact ⟨known, .refl _ row⟩
    · rw [filled]
      exact known.gains (.inr (incoming.known.1 supplied)) (.inl rfl) (.inl rfl) rfl (.inl rfl)
  exact ⟨incoming, fun row known => (fills row known).1, fun row known => (fills row known).2⟩

theorem Db.Enriches.confirm (isMined : new.Mined node)
    (mines : mined new.txid new.row.confirmation) :
    Enriches node mined Transaction.confirm new := by
  have confirms (row : Transaction) (known : row.Agrees (node new.txid)) :
      (row.confirm new.row).Agrees (node new.txid) ∧
        row.Gains (mined new.txid) (row.confirm new.row) :=
    known.gains (.inr isMined.fee) (.inr isMined.raw.2) (.inr isMined.raw.1) rfl
      (.inr ⟨isMined.confirmedAt, isMined.confirmedAtBlock, mines⟩)
  exact ⟨.of_has isMined.raw isMined.fee, fun row known => (confirms row known).1,
    fun row known => (confirms row known).2⟩

end Upserts

namespace RowOp

variable {node : Txid → NodeTx} {db : Db}

/-- No writer loses what a row has. -/
theorem learns (known : db.AgreesWith node) {op : RowOp} (agrees : op.Agrees node) :
    Db.Learns node op.Mines db (op.apply db) := by
  -- Each write leaves what agrees with the node, and adds only what the node says.
  cases op with
  | insertHollow rows =>
    apply Db.learns_of_rows
    · intro txid row stored
      refine ⟨row, ?_, known txid row stored, .refl _ row⟩
      simp [apply, Db.insertOrIgnore, stored]
    · intro txid after absent inserted
      simp only [apply, Db.insertOrIgnore, absent] at inserted
      obtain ⟨new, found, rfl⟩ := Option.map_eq_some_iff.mp inserted
      obtain ⟨⟨hollow, now⟩, -, rfl⟩ := List.mem_map.mp (List.mem_of_find?_eq_some found)
      exact .hollow ..
  | insertMany txs =>
    simp only [apply]
    cases inserted : db.insertMany txs with
    | none => exact .refl known
    | some next =>
      exact Db.learns_upsertMany known (fun new listed => .fillFee (agrees new listed)) inserted
  | backfillRaw txid inputTxids weight =>
    obtain ⟨rfl, rfl⟩ := agrees
    apply Db.learns_updateTransactions known
    intro other row known
    -- The write goes through only where the row lacks the data.
    split_ifs with lacks
    · obtain ⟨rfl, -⟩ := lacks
      exact known.gains (.inl rfl) (.inr rfl) (.inr rfl) rfl (.inl rfl)
    · exact ⟨known, .refl _ row⟩
  | backfillFee txid fee =>
    obtain rfl : fee = (node txid).fee := agrees
    apply Db.learns_updateTransactions known
    intro other row known
    split_ifs with lacks
    · obtain ⟨rfl, -⟩ := lacks
      exact known.gains (.inr rfl) (.inl rfl) (.inl rfl) rfl (.inl rfl)
    · exact ⟨known, .refl _ row⟩
  | insertOrConfirmMany txs =>
    simp only [apply]
    cases inserted : db.insertOrConfirmMany txs with
    | none => exact .refl known
    | some next =>
      refine Db.learns_upsertMany known (fun new listed => ?_) inserted
      exact .confirm (agrees new listed) ⟨new, listed, rfl, rfl⟩

/-- The database after the writers of the list. -/
def run (db : Db) (ops : List RowOp) : Db := ops.foldl apply db

/-- Something happens at an operation of the run. -/
def Somewhere (event : Db → RowOp → Prop) (db : Db) : List RowOp → Prop
  | [] => False
  | op :: ops => event db op ∨ Somewhere event (op.apply db) ops

theorem learns_run (known : db.AgreesWith node) {ops : List RowOp}
    (agrees : ∀ op ∈ ops, op.Agrees node) :
    Db.Learns node (fun txid confirmation => ∃ op ∈ ops, op.Mines txid confirmation) db
      (run db ops) := by
  induction ops generalizing db with
  | nil => exact .refl known
  | cons op ops ih =>
    have first := learns known (agrees op List.mem_cons_self)
    have rest := ih first.agrees fun op listed => agrees op (List.mem_cons_of_mem _ listed)
    apply Db.Learns.trans
    · exact first.mono fun txid confirmation mines => ⟨op, List.mem_cons_self, mines⟩
    · apply rest.mono
      rintro txid confirmation ⟨op, listed, mines⟩
      exact ⟨op, List.mem_cons_of_mem _ listed, mines⟩

/-- The parents and the weight of the txid reach its row. -/
def SuppliesRaw (txid : Txid) (db : Db) : RowOp → Prop
  | backfillRaw other _ _ => other = txid ∧ (db.transactions txid).isSome = true
  | insertOrConfirmMany txs =>
    (db.insertOrConfirmMany txs).isSome = true ∧ txid ∈ txs.map NewTransaction.txid
  | _ => False

/-- The fee of the txid reaches its row. -/
def SuppliesFee (txid : Txid) (db : Db) : RowOp → Prop
  | insertMany txs => (db.insertMany txs).isSome = true ∧
      ∃ new ∈ txs, new.txid = txid ∧ new.row.fee.isSome = true
  | backfillFee other _ => other = txid ∧ (db.transactions txid).isSome = true
  | insertOrConfirmMany txs =>
    (db.insertOrConfirmMany txs).isSome = true ∧ txid ∈ txs.map NewTransaction.txid
  | _ => False

section Supplies

variable {txid : Txid} {op : RowOp}

theorem hasRaw_of_supplies (known : db.AgreesWith node) (agrees : op.Agrees node)
    (supplies : op.SuppliesRaw txid db) :
    ∃ row, (op.apply db).transactions txid = some row ∧ row.HasRaw (node txid) := by
  cases op with
  | backfillRaw other inputTxids weight =>
    obtain ⟨rfl, stored⟩ := supplies
    obtain ⟨rfl, rfl⟩ := agrees
    obtain ⟨row, stored⟩ := Option.isSome_iff_exists.mp stored
    -- The row was written by this request, or had the data before.
    have has := (known other row stored).known
    simp only [apply, Db.backfillRaw, Db.updateTransactions, stored, Option.map_some,
      Option.some.injEq, exists_eq_left', true_and]
    split_ifs with lacks
    · exact ⟨rfl, rfl⟩
    · obtain ⟨parents, weighs⟩ := not_or.mp lacks
      exact ⟨has.2.2 (by simpa [Option.isSome_iff_ne_none] using parents), has.2.1 weighs⟩
  | insertOrConfirmMany txs =>
    obtain ⟨accepted, named⟩ := supplies
    obtain ⟨next, inserted⟩ := Option.isSome_iff_exists.mp accepted
    obtain ⟨new, listed, rfl⟩ := List.mem_map.mp named
    have isMined : new.Mined node := agrees new listed
    have enrich : ∀ new ∈ txs, Db.Enriches node (fun _ _ => True) Transaction.confirm new :=
      fun new listed => .confirm (agrees new listed) trivial
    rw [apply, inserted]
    exact Db.has_upsertMany known enrich inserted listed (fun gains => gains.hasRaw) isMined.raw
      fun _ _ => isMined.raw
  | insertHollow | insertMany | backfillFee => exact supplies.elim

theorem hasFee_of_supplies (known : db.AgreesWith node) (agrees : op.Agrees node)
    (supplies : op.SuppliesFee txid db) :
    ∃ row, (op.apply db).transactions txid = some row ∧ row.HasFee (node txid) := by
  cases op with
  | backfillFee other fee =>
    obtain ⟨rfl, stored⟩ := supplies
    obtain rfl : fee = (node other).fee := agrees
    obtain ⟨row, stored⟩ := Option.isSome_iff_exists.mp stored
    have has := (known other row stored).known
    simp only [apply, Db.backfillFee, Db.updateTransactions, stored, Option.map_some,
      Option.some.injEq, exists_eq_left', true_and]
    split_ifs with lacks
    · rfl
    · exact has.1 (by simpa [Option.isSome_iff_ne_none] using lacks)
  | insertMany txs =>
    obtain ⟨accepted, new, listed, rfl, supplied⟩ := supplies
    obtain ⟨next, inserted⟩ := Option.isSome_iff_exists.mp accepted
    have fee := (agrees new listed).known.1 supplied
    have enrich : ∀ new ∈ txs, Db.Enriches node (fun _ _ => True) Transaction.fillFee new :=
      fun new listed => .fillFee (agrees new listed)
    rw [apply, inserted]
    refine Db.has_upsertMany known enrich inserted listed (fun gains => gains.hasFee) fee
      fun row known => ?_
    -- The upsert fills a missing fee and keeps one that is there.
    rcases row.fillFee_cases new.row with ⟨already, same⟩ | ⟨-, filled⟩
    · rw [same]
      exact known.known.1 (already supplied)
    · rw [filled]
      exact fee
  | insertOrConfirmMany txs =>
    obtain ⟨accepted, named⟩ := supplies
    obtain ⟨next, inserted⟩ := Option.isSome_iff_exists.mp accepted
    obtain ⟨new, listed, rfl⟩ := List.mem_map.mp named
    have isMined : new.Mined node := agrees new listed
    have enrich : ∀ new ∈ txs, Db.Enriches node (fun _ _ => True) Transaction.confirm new :=
      fun new listed => .confirm (agrees new listed) trivial
    rw [apply, inserted]
    exact Db.has_upsertMany known enrich inserted listed (fun gains => gains.hasFee) isMined.fee
      fun _ _ => isMined.fee
  | insertHollow | backfillRaw => exact supplies.elim

/-- What an operation of the run completes is complete at its end. -/
theorem has_of_somewhere {has : Transaction → Prop} {event : Db → RowOp → Prop}
    (keeps : ∀ {mined} {row after : Transaction}, row.Gains mined after → has row → has after)
    (reaches : ∀ {db : Db} {op : RowOp}, db.AgreesWith node → op.Agrees node → event db op →
      ∃ row, (op.apply db).transactions txid = some row ∧ has row)
    (known : db.AgreesWith node) {ops : List RowOp} (agrees : ∀ op ∈ ops, op.Agrees node)
    (happens : Somewhere event db ops) :
    ∃ row, (run db ops).transactions txid = some row ∧ has row := by
  induction ops generalizing db with
  | nil => exact happens.elim
  | cons op ops ih =>
    have first := learns known (agrees op List.mem_cons_self)
    have later (op : RowOp) (listed : op ∈ ops) := agrees op (List.mem_cons_of_mem _ listed)
    rcases happens with here | rest
    · obtain ⟨row, stored, complete⟩ := reaches known (agrees op List.mem_cons_self) here
      obtain ⟨after, inNext, gains⟩ := (learns_run first.agrees later).gains txid row stored
      exact ⟨after, inNext, keeps gains complete⟩
    · exact ih first.agrees later rest

end Supplies

end RowOp

/-- **Rows only gain information.** Whatever writers run in whatever order, each
supplying what the node says: no row loses or changes a fee, a weight, parents or
the time it was first seen, and a set confirmation stays set and moves only to
that of a block stored with the transaction; a batch without a repeated txid
does the same in any order and in any slices; and a row that got the parents and
the weight and the fee has the node's values and needs no backfill. -/
theorem transactions_gain_until_complete {node : Txid → NodeTx} {db : Db}
    (known : db.AgreesWith node) {ops : List RowOp} (agrees : ∀ op ∈ ops, op.Agrees node) :
    (∀ txid row, db.transactions txid = some row →
      ∃ after, (RowOp.run db ops).transactions txid = some after ∧
        row.Gains (fun confirmation => ∃ op ∈ ops, op.Mines txid confirmation) after) ∧
    (∀ update size rows txs, 0 < size → rows.Perm txs → (txs.map NewTransaction.txid).Nodup →
      db.upsertInSlices size update rows = db.upsertMany update txs) ∧
    (∀ size rows txs, 0 < size → rows.Perm txs → (txs.map NewTransaction.txid).Nodup →
      (slices size rows).foldl (fun db slice => db.insertOrIgnore slice) db =
        db.insertOrIgnore txs) ∧
    (∀ txid, RowOp.Somewhere (RowOp.SuppliesRaw txid) db ops →
      RowOp.Somewhere (RowOp.SuppliesFee txid) db ops →
      ∃ row, (RowOp.run db ops).transactions txid = some row ∧ row.HasRaw (node txid) ∧
        row.HasFee (node txid) ∧ row.fill.backfillStage = none) := by
  refine ⟨(RowOp.learns_run known agrees).gains, fun update size rows txs positive perm distinct =>
    Db.upsertInSlices_eq positive perm distinct db, fun size rows txs positive perm distinct => ?_,
    fun txid raw fee => ?_⟩
  · rw [Db.foldl_insertOrIgnore positive]
    apply Db.insertOrIgnore_perm perm
    intro first inFirst second inSecond
    exact List.inj_on_of_nodup_map distinct inFirst inSecond
  -- The two stages may come from different writes; each leaves its mark on the same row.
  · obtain ⟨row, stored, hasRaw⟩ := RowOp.has_of_somewhere (fun gains => gains.hasRaw)
      RowOp.hasRaw_of_supplies known agrees raw
    obtain ⟨same, found, hasFee⟩ := RowOp.has_of_somewhere (fun gains => gains.hasFee)
      RowOp.hasFee_of_supplies known agrees fee
    obtain rfl : row = same := Option.some.inj (stored.symm.trans found)
    exact ⟨row, stored, hasRaw, hasFee, Transaction.backfillStage_of_has hasRaw hasFee⟩

/-! ### Two runs -/

/-- Every transaction pays 10, weighs 400 and spends an output of `p`. -/
def evenNode (_ : Txid) : NodeTx := ⟨10, 400, ["p"], by decide⟩

/-- `a` as a block of that hash and time has it. -/
def minedRow (minedAt : OffsetDateTime) (hash : String) : NewTransaction :=
  ⟨"a", ⟨some 10, 400, minedAt, some minedAt, none, some hash, some ["p"]⟩⟩

/-- `a` is seen at 5, and its fee and its body are filled in. -/
def filledRun : List RowOp :=
  [.insertHollow [("a", 5)], .backfillFee "a" 10, .backfillRaw "a" ["p"] 400]

theorem hollow_row_filled : ∃ row, (RowOp.run .empty filledRun).transactions "a" = some row ∧
    row.HasRaw (evenNode "a") ∧ row.HasFee (evenNode "a") ∧ row.fill.backfillStage = none := by
  have known : Db.empty.AgreesWith evenNode := by
    intro txid row stored
    cases stored
  have agrees : ∀ op ∈ filledRun, op.Agrees evenNode := by
    intro op listed
    simp only [filledRun, List.mem_cons, List.not_mem_nil, or_false] at listed
    obtain rfl | rfl | rfl := listed
    · trivial
    · exact rfl
    · exact ⟨rfl, rfl⟩
  exact (transactions_gain_until_complete known agrees).2.2.2 "a"
    (.inr (.inr (.inl ⟨rfl, by decide⟩))) (.inr (.inl ⟨rfl, by decide⟩))

/-- A transaction stored with two blocks is confirmed by the second, at its time. -/
theorem second_block_moves_confirmation :
    (∀ op ∈ [RowOp.insertOrConfirmMany [minedRow 1 "b"], .insertOrConfirmMany [minedRow 2 "c"]],
      op.Agrees evenNode) ∧
    ((RowOp.run .empty [.insertOrConfirmMany [minedRow 1 "b"]]).transactions "a").map
      Transaction.confirmation = some (some 1, some "b") ∧
    ((RowOp.run .empty [.insertOrConfirmMany [minedRow 1 "b"],
      .insertOrConfirmMany [minedRow 2 "c"]]).transactions "a").map
      Transaction.confirmation = some (some 2, some "c") := by
  refine ⟨fun op listed => ?_, by decide, by decide⟩
  simp only [List.mem_cons, List.not_mem_nil, or_false] at listed
  obtain rfl | rfl := listed
  all_goals
    intro new inBlock
    obtain rfl := List.mem_singleton.mp inBlock
    exact ⟨⟨rfl, rfl⟩, rfl, rfl, rfl⟩

end MempoolObserver
