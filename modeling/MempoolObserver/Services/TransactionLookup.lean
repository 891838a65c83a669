import MempoolObserver.Db.TransactionRows
import MempoolObserver.Services.ClusterStream
import MempoolObserver.Services.Resolution

/-!
# Looking transactions up

`GET /transactions` takes a comma-separated list of txids, refuses a list that is
empty, too long or not made of txids, and answers with the stored rows in request
order and the txids without one.

The database is read once. Percent-encoding of the query is left to the libraries
on both sides.

## Main definitions

* `parseTxids` — the `txids` parameter as a list
* `lookup`, `transactions` — the service and the handler
* `joinTxids` — the parameter as a client writes it

## Main results

* `parseTxids_joinTxids` — what a client writes is what the handler reads
* `parseTxids_normalises` — what is accepted is a short list of distinct txids
* `transactions_partitions` — each txid asked for is answered once, in order
-/

namespace MempoolObserver

/-- Clusters cap at 64 transactions; 128 leaves headroom without inviting abuse. -/
def maxTxids : ℕ := 128

/-! ### The parameter -/

/-- 64-char lowercase hex. Such a string has as many bytes as characters. -/
def isValidTxid (s : String) : Bool :=
  s.toList.length == 64 && s.toList.all fun c => c.isDigit || ('a' ≤ c && c ≤ 'f')

def splitCommas (raw : String) : List String := (raw.toList.splitOn ',').map String.ofList

/-- What the deduplicating loop carries. -/
structure Deduped where
  seen : Finset String
  txids : List String

namespace Deduped

def push (deduped : Deduped) (segment : String) : Deduped :=
  if segment ∈ deduped.seen then deduped
  else ⟨insert segment deduped.seen, deduped.txids ++ [segment]⟩

def ofSegments (segments : List String) : Deduped := segments.foldl push ⟨∅, []⟩

end Deduped

def parseTxids (raw : String) : Except ApiError (List String) :=
  if raw = "" then .error (.badRequest "`txids` must not be empty")
  else
    let segments := splitCommas raw
    if segments.length > maxTxids then
      .error (.badRequest s!"at most {maxTxids} txids allowed, got {segments.length}")
    else
      match segments.find? fun segment => !isValidTxid segment with
      | some segment => .error (.badRequest s!"invalid txid: `{segment}`")
      | none => .ok (Deduped.ofSegments segments).txids

/-- The txids as the page writes them into the query. -/
def joinTxids (txids : List String) : String :=
  String.ofList ([','].intercalate (txids.map String.toList))

/-! ### The service -/

structure TransactionRef where
  txid : Txid
  fee : Option Int64
  vsize : Int64
  firstSeenAt : OffsetDateTime
  clusterId : Option ClusterId
  inputTxids : Option (List Txid)
  complete : Bool
  deriving DecidableEq, Repr

/-- The row lacks nothing a backfill could fill. -/
def Transaction.isComplete (row : Transaction) : Bool := row.fill.backfillStage.isNone

def TransactionRef.ofRow (txid : Txid) (row : Transaction) : TransactionRef where
  txid := txid
  fee := row.fee
  vsize := vsizeFromWeight row.weight
  firstSeenAt := row.firstSeenAt
  clusterId := row.clusterId
  inputTxids := row.inputTxids
  complete := row.isComplete

structure TransactionLookup where
  found : List TransactionRef
  missing : List Txid
  deriving DecidableEq, Repr

/-- The stored rows of the txids, as the map the service keys by txid. -/
def Db.findByTxids (txids : List Txid) (db : Db) : Txid → Option Transaction := fun txid =>
  if txid ∈ txids then db.transactions txid else none

/-- What the loop of `lookup` carries: a row leaves the map when it is found. -/
structure LookupSplit where
  byTxid : Txid → Option Transaction
  answered : TransactionLookup

def LookupSplit.take (split : LookupSplit) (txid : Txid) : LookupSplit :=
  match split.byTxid txid with
  | some row =>
    { byTxid := Function.update split.byTxid txid none
      answered.found := split.answered.found ++ [.ofRow txid row]
      answered.missing := split.answered.missing }
  | none =>
    { byTxid := split.byTxid
      answered.found := split.answered.found
      answered.missing := split.answered.missing ++ [txid] }

/-- Splits `txids` into `found`, in request order, and `missing`. -/
def lookup (db : Db) (txids : List Txid) : TransactionLookup :=
  (txids.foldl LookupSplit.take ⟨db.findByTxids txids, [], []⟩).answered

/-- The handler of `GET /transactions`; the query may fail. -/
def transactions (db : Db) (failed : Bool) (raw : String) :
    Except ApiError TransactionLookup := do
  let txids ← parseTxids raw
  if failed then .error .repo else .ok (lookup db txids)

/-! ### Reading the parameter back -/

section Parameter

variable {raw t : String} {segments txids : List String}

theorem isValidTxid_iff :
    isValidTxid t = true ↔ t.length = 64 ∧ ∀ c ∈ t.toList, c.isDigit ∨ 'a' ≤ c ∧ c ≤ 'f' := by
  simp [isValidTxid, String.length_toList]

theorem comma_notMem (valid : isValidTxid t = true) : ',' ∉ t.toList := by
  intro comma
  have hex := (isValidTxid_iff.mp valid).2 ',' comma
  revert hex
  decide

theorem ne_empty_of_isValidTxid (valid : isValidTxid t = true) : t ≠ "" := by
  rintro rfl
  exact absurd (isValidTxid_iff.mp valid).1 (by decide)

/-- Joining undoes splitting when no part holds a comma. -/
theorem splitCommas_joinTxids (nonempty : txids ≠ []) (plain : ∀ t ∈ txids, ',' ∉ t.toList) :
    splitCommas (joinTxids txids) = txids := by
  have parts : (txids.map String.toList).map String.ofList = txids := by
    rw [List.map_map]
    exact List.map_id'' (fun t => String.ofList_toList) txids
  rw [splitCommas, joinTxids, String.toList_ofList, List.splitOn_intercalate _ ?_ ?_, parts]
  · simpa using plain
  · simpa using nonempty

namespace Deduped

theorem ofSegments_concat (segments : List String) (segment : String) :
    ofSegments (segments ++ [segment]) = (ofSegments segments).push segment := by
  simp [ofSegments]

theorem seen_ofSegments (segments : List String) :
    (ofSegments segments).seen = segments.toFinset := by
  induction segments using List.reverseRecOn with
  | nil => rfl
  | append_singleton segments segment ih =>
    rw [ofSegments_concat, push]
    split_ifs with again
    · rw [ih] at again ⊢
      ext other
      simp only [List.mem_toFinset] at again
      simp only [List.toFinset_append, Finset.mem_union, List.mem_toFinset, List.mem_singleton]
      exact ⟨.inl, fun either => either.elim id fun same => same ▸ again⟩
    · rw [ih]
      ext other
      simp

/-- A segment is kept when it is seen for the first time. -/
theorem txids_ofSegments_concat (segments : List String) (segment : String) :
    (ofSegments (segments ++ [segment])).txids =
      if segment ∈ segments then (ofSegments segments).txids
      else (ofSegments segments).txids ++ [segment] := by
  rw [ofSegments_concat, push, seen_ofSegments]
  simp only [List.mem_toFinset]
  split_ifs <;> rfl

theorem mem_txids_ofSegments : t ∈ (ofSegments segments).txids ↔ t ∈ segments := by
  induction segments using List.reverseRecOn with
  | nil => rfl
  | append_singleton segments segment ih =>
    rw [txids_ofSegments_concat]
    split_ifs with again
    · rw [ih, List.mem_append, List.mem_singleton]
      exact ⟨.inl, fun either => either.elim id fun same => same ▸ again⟩
    · rw [List.mem_append, List.mem_append, ih]

theorem nodup_txids_ofSegments (segments : List String) : (ofSegments segments).txids.Nodup := by
  induction segments using List.reverseRecOn with
  | nil => exact List.nodup_nil
  | append_singleton segments segment ih =>
    rw [txids_ofSegments_concat]
    split_ifs with again
    · exact ih
    · refine ih.append (List.nodup_singleton segment) (List.disjoint_singleton.mpr ?_)
      exact fun earlier => again (mem_txids_ofSegments.mp earlier)

theorem txids_ofSegments_sublist (segments : List String) :
    (ofSegments segments).txids.Sublist segments := by
  induction segments using List.reverseRecOn with
  | nil => exact List.Sublist.refl _
  | append_singleton segments segment ih =>
    rw [txids_ofSegments_concat]
    split_ifs with again
    · exact ih.trans (List.sublist_append_left _ _)
    · exact ih.append (List.Sublist.refl _)

theorem txids_ofSegments_of_nodup (nodup : segments.Nodup) :
    (ofSegments segments).txids = segments := by
  apply (txids_ofSegments_sublist segments).eq_of_length
  have same := List.perm_of_nodup_nodup_toFinset_eq (nodup_txids_ofSegments segments) nodup
    (by ext t; simp [mem_txids_ofSegments])
  exact same.length_eq

end Deduped

/-- What is accepted: between one and `maxTxids` segments, each a txid. -/
theorem parseTxids_eq_ok_iff :
    parseTxids raw = .ok txids ↔
      raw ≠ "" ∧ (splitCommas raw).length ≤ maxTxids ∧
        (∀ segment ∈ splitCommas raw, isValidTxid segment = true) ∧
        txids = (Deduped.ofSegments (splitCommas raw)).txids := by
  simp only [parseTxids]
  split_ifs with empty long
  · simp [empty]
  · simp only [false_iff]
    omega
  · split
    · next segment bad =>
      have invalid := List.find?_some bad
      have member := List.mem_of_find?_eq_some bad
      simp only [reduceCtorEq, false_iff]
      rintro ⟨-, -, valid, -⟩
      simp [valid segment member] at invalid
    · next all =>
      have valid : ∀ segment ∈ splitCommas raw, isValidTxid segment = true := by
        simpa using all
      simp only [Except.ok.injEq, empty, not_false_eq_true, true_and, Ne]
      constructor
      · rintro rfl
        exact ⟨by omega, valid, rfl⟩
      · rintro ⟨-, -, rfl⟩
        rfl

theorem nodup_of_parseTxids (parsed : parseTxids raw = .ok txids) : txids.Nodup := by
  obtain ⟨-, -, -, rfl⟩ := parseTxids_eq_ok_iff.mp parsed
  exact Deduped.nodup_txids_ofSegments _

/-- What the page writes for a short list of txids is read as that list without repetitions. -/
theorem parseTxids_joinTxids (nonempty : txids ≠ []) (few : txids.length ≤ maxTxids)
    (valid : ∀ t ∈ txids, isValidTxid t = true) :
    parseTxids (joinTxids txids) = .ok (Deduped.ofSegments txids).txids := by
  have split : splitCommas (joinTxids txids) = txids :=
    splitCommas_joinTxids nonempty fun t member => comma_notMem (valid t member)
  apply parseTxids_eq_ok_iff.mpr
  rw [split]
  refine ⟨?_, few, valid, rfl⟩
  intro empty
  -- the empty text splits into one empty part, which is no txid
  rw [empty] at split
  obtain ⟨t, rest, rfl⟩ := List.exists_cons_of_ne_nil nonempty
  apply ne_empty_of_isValidTxid (valid t List.mem_cons_self)
  exact (List.cons.inj split).1.symm

theorem parseTxids_of_joinTxids (nonempty : txids ≠ []) (few : txids.length ≤ maxTxids)
    (nodup : txids.Nodup) (valid : ∀ t ∈ txids, isValidTxid t = true) :
    parseTxids (joinTxids txids) = .ok txids := by
  rw [parseTxids_joinTxids nonempty few valid, Deduped.txids_ofSegments_of_nodup nodup]

/-- Whatever is accepted becomes a short list of distinct txids, which written back is read
as itself. -/
theorem parseTxids_normalises (parsed : parseTxids raw = .ok txids) :
    (txids ≠ [] ∧ txids.length ≤ maxTxids ∧ txids.Nodup ∧ ∀ t ∈ txids, isValidTxid t = true) ∧
      txids.Sublist (splitCommas raw) ∧ (∀ t, t ∈ txids ↔ t ∈ splitCommas raw) ∧
      parseTxids (joinTxids txids) = .ok txids := by
  obtain ⟨-, few, valid, rfl⟩ := parseTxids_eq_ok_iff.mp parsed
  set kept := (Deduped.ofSegments (splitCommas raw)).txids
  have sublist : kept.Sublist (splitCommas raw) := Deduped.txids_ofSegments_sublist _
  have members : ∀ t, t ∈ kept ↔ t ∈ splitCommas raw := fun t => Deduped.mem_txids_ofSegments
  have nonempty : kept ≠ [] := by
    obtain ⟨t, member⟩ : ∃ t, t ∈ splitCommas raw := by
      apply List.exists_mem_of_ne_nil
      simp [splitCommas, List.splitOn_ne_nil]
    exact List.ne_nil_of_mem ((members t).mpr member)
  have short : kept.length ≤ maxTxids := sublist.length_le.trans few
  have nodup : kept.Nodup := nodup_of_parseTxids parsed
  have good : ∀ t ∈ kept, isValidTxid t = true := fun t member => valid t ((members t).mp member)
  exact ⟨⟨nonempty, short, nodup, good⟩, sublist, members,
    parseTxids_of_joinTxids nonempty short nodup good⟩

end Parameter

/-- A txid of one digit. -/
def digitTxid (c : Char) : Txid := String.ofList (List.replicate 64 c)

theorem isValidTxid_digitTxid : ∀ t ∈ [digitTxid 'a', digitTxid 'b', digitTxid 'a'],
    isValidTxid t = true := by
  decide +kernel

theorem parseTxids_repeated :
    parseTxids (joinTxids [digitTxid 'a', digitTxid 'b', digitTxid 'a']) =
      .ok [digitTxid 'a', digitTxid 'b'] := by
  rw [parseTxids_joinTxids (List.cons_ne_nil _ _) (by decide) isValidTxid_digitTxid]
  decide +kernel

theorem parseTxids_normalises_repeated :
    [digitTxid 'a', digitTxid 'b'].Nodup ∧
      parseTxids (joinTxids [digitTxid 'a', digitTxid 'b']) =
        .ok [digitTxid 'a', digitTxid 'b'] := by
  obtain ⟨⟨-, -, nodup, -⟩, -, -, again⟩ := parseTxids_normalises parseTxids_repeated
  exact ⟨nodup, again⟩

/-! ### The answer -/

/-- The lookup answers each txid of the list once: with its row, or as missing. -/
structure Partitions (db : Db) (txids : List Txid) (answer : TransactionLookup) : Prop where
  found : answer.found = txids.filterMap fun txid =>
    (db.transactions txid).map (TransactionRef.ofRow txid)
  missing : answer.missing = txids.filter fun txid => (db.transactions txid).isNone

section Answer

variable {db : Db} {txids : List Txid} {txid : Txid} {answer : TransactionLookup}
  {ref : TransactionRef}

/-- The loop on distinct txids, from any point on. -/
theorem foldl_take (nodup : txids.Nodup) (split : LookupSplit) :
    (txids.foldl LookupSplit.take split).answered =
      ⟨split.answered.found ++ txids.filterMap (fun txid =>
          (split.byTxid txid).map (TransactionRef.ofRow txid)),
        split.answered.missing ++ txids.filter fun txid =>
          (split.byTxid txid).isNone⟩ := by
  induction txids generalizing split with
  | nil => simp
  | cons txid txids ih =>
    obtain ⟨fresh, nodup⟩ := List.nodup_cons.mp nodup
    rw [List.foldl_cons, ih nodup]
    cases known : split.byTxid txid with
    | none => simp [LookupSplit.take, known]
    | some row =>
      -- the rows of the txids that are left are still in the map
      have later : ∀ other ∈ txids,
          Function.update split.byTxid txid none other = split.byTxid other := by
        intro other member
        have differs : other ≠ txid := ne_of_mem_of_not_mem member fresh
        exact Function.update_of_ne differs _ _
      simp only [LookupSplit.take, known, List.filterMap_cons, List.filter_cons, Option.map_some,
        Option.isNone_some, List.append_assoc, List.singleton_append, Bool.false_eq_true,
        if_false]
      congr 2
      · congr 1
        exact List.filterMap_congr fun other member => by rw [later other member]
      · exact List.filter_congr fun other member => by rw [later other member]

theorem lookup_partitions (nodup : txids.Nodup) (db : Db) :
    Partitions db txids (lookup db txids) := by
  have asked : ∀ txid ∈ txids, db.findByTxids txids txid = db.transactions txid :=
    fun txid member => if_pos member
  rw [lookup, foldl_take nodup]
  constructor
  · exact List.filterMap_congr fun txid member => by simp only [asked txid member]
  · exact List.filter_congr fun txid member => by simp only [asked txid member]

namespace Partitions

theorem mem_found (partitions : Partitions db txids answer) :
    ref ∈ answer.found ↔
      ∃ txid ∈ txids, ∃ row, db.transactions txid = some row ∧ ref = .ofRow txid row := by
  rw [partitions.found]
  simp only [List.mem_filterMap, Option.map_eq_some_iff]
  simp only [eq_comm]

theorem mem_missing (partitions : Partitions db txids answer) :
    txid ∈ answer.missing ↔ txid ∈ txids ∧ db.transactions txid = none := by
  rw [partitions.missing]
  simp

/-- The found rows are the stored ones, in the order asked. -/
theorem map_txid_found (partitions : Partitions db txids answer) :
    answer.found.map TransactionRef.txid =
      txids.filter fun txid => (db.transactions txid).isSome := by
  rw [partitions.found]
  clear partitions
  induction txids with
  | nil => rfl
  | cons txid txids ih =>
    cases stored : db.transactions txid with
    | none => simp [stored, ih]
    | some row => simp [stored, ih, TransactionRef.ofRow]

theorem perm (partitions : Partitions db txids answer) :
    (answer.found.map TransactionRef.txid ++ answer.missing).Perm txids := by
  rw [partitions.map_txid_found, partitions.missing]
  have others : (txids.filter fun txid => (db.transactions txid).isNone) =
      txids.filter fun txid => !(db.transactions txid).isSome := by
    simp
  rw [others]
  exact List.filter_append_perm _ txids

end Partitions

/-- The handler answers the distinct txids of the parameter, each once, with what is stored. -/
theorem transactions_partitions {raw : String} {failed : Bool}
    (answered : transactions db failed raw = .ok answer) :
    ∃ txids, parseTxids raw = .ok txids ∧ Partitions db txids answer ∧
      (answer.found.map TransactionRef.txid ++ answer.missing).Perm txids := by
  cases parsed : parseTxids raw with
  | error error =>
    simp only [transactions, parsed] at answered
    cases answered
  | ok txids =>
    cases failed with
    | true =>
      simp only [transactions, parsed] at answered
      cases answered
    | false =>
      simp only [transactions, parsed] at answered
      cases answered
      have partitions := lookup_partitions (nodup_of_parseTxids parsed) db
      exact ⟨txids, rfl, partitions, partitions.perm⟩

end Answer

/-- One hollow row. -/
def hollowRowDb : Db := Db.empty.insertOrIgnore [.hollow 7 (digitTxid 'b')]

theorem transactions_partitions_pair :
    transactions hollowRowDb false (joinTxids [digitTxid 'a', digitTxid 'b', digitTxid 'a']) =
        .ok ⟨[⟨digitTxid 'b', none, 0, 7, none, none, false⟩], [digitTxid 'a']⟩ ∧
      [digitTxid 'b', digitTxid 'a'].Perm [digitTxid 'a', digitTxid 'b'] := by
  have answered : transactions hollowRowDb false
      (joinTxids [digitTxid 'a', digitTxid 'b', digitTxid 'a']) =
        .ok ⟨[⟨digitTxid 'b', none, 0, 7, none, none, false⟩], [digitTxid 'a']⟩ := by
    simp only [transactions, parseTxids_repeated]
    decide +kernel
  obtain ⟨txids, parsed, -, perm⟩ := transactions_partitions answered
  obtain rfl : txids = [digitTxid 'a', digitTxid 'b'] :=
    Except.ok.inj (parsed.symm.trans parseTxids_repeated)
  exact ⟨answered, perm⟩

end MempoolObserver
