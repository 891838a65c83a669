import MempoolObserver.Db.ClusterMembership
import MempoolObserver.Library.Runs
import MempoolObserver.Library.Table
import MempoolObserver.Services.TransactionLookup

/-!
# The transaction cache of a page

A page that wants transactions fetches those it has no row for, and again, every
`staleRetryMs`, those whose row is incomplete or was missing. Its requests are
answered one by one while the server goes on writing rows, and a new list of wanted
txids aborts what is in flight.

Time is that of the page, in milliseconds, and the interval and `Date.now` go by the
same clock. A request is settled within the client's timeout, and the interval waits its
full period after each firing. A render and its effects are one step.

## Main definitions

* `TransactionCache` — the state of the hook
* `LookupWorld`, `LookupWorld.step` — the page, its requests and the server's rows
* `Reads` — a cached row is what the server's row once was
-/

namespace MempoolObserver

open Collections Runs

def txidsPerRequest : ℕ := 128

def maxCached : ℕ := 2000

/-- A cached row this long past its last fetch attempt is eligible for retry. -/
def staleRetryMs : ℕ := 30000

/-- After this long the client aborts a request itself. -/
def defaultTimeoutMs : ℕ := 10000

/-! ### The cache -/

structure Cache where
  txs : Table TransactionRef.txid
  missing : Finset Txid

namespace Cache

def empty : Cache := ⟨.empty, ∅⟩

def size (cache : Cache) : ℕ := cache.txs.size + cache.missing.card

/-- The txids the server has answered for. -/
def known (cache : Cache) : Finset Txid := cache.txs.keys ∪ cache.missing

/-- Drops cached entries outside `wanted` once the cache grows past `maxCached`. -/
def evict (cache : Cache) (wanted : Finset Txid) : Cache :=
  if cache.size ≤ maxCached then cache
  else ⟨cache.txs.filter (· ∈ wanted), cache.missing.filter (· ∈ wanted)⟩

def addFound (cache : Cache) (tx : TransactionRef) : Cache :=
  ⟨cache.txs.set tx, cache.missing.erase tx.txid⟩

def addLookup (cache : Cache) (lookup : TransactionLookup) : Cache :=
  let stored := lookup.found.foldl addFound cache
  ⟨stored.txs, stored.missing ∪ lookup.missing.toFinset⟩

/-- Merges what a set of requests found; never replaces the cache wholesale. -/
def merge (cache : Cache) (lookups : List TransactionLookup) (wanted : Finset Txid) : Cache :=
  (lookups.foldl addLookup cache).evict wanted

end Cache

/-! ### The hook -/

/-- One request of an attempt, with the answer once it is there. -/
structure LookupRequest where
  batch : List Txid
  answer : Option TransactionLookup

/-- The requests sent together, and what the effect that sent them wanted. -/
structure Attempt where
  startedAt : ℕ
  wanted : Finset Txid
  requests : List LookupRequest

structure TransactionCache where
  now : ℕ
  /-- With the updates that are not rendered yet. -/
  cache : Cache
  /-- As of the last render. -/
  cacheRef : Cache
  loading : Bool
  error : Option String
  /-- What the effect in force depends on. -/
  key : Option String
  lastAttemptRef : Txid → Option ℕ
  /-- What the effect in force has sent and not heard of. -/
  inFlight : List Attempt
  /-- When the interval fires next. -/
  nextTick : ℕ

/-- Sorted, deduped, and joined to a string. -/
def cacheKey (txids : List Txid) : String := joinTxids (txids.dedup.insertionSort (· ≤ ·))

def wantedOf (key : String) : List Txid := if key = "" then [] else splitCommas key

namespace TransactionCache

/-- The hook before its first render. -/
def initial : TransactionCache where
  now := 0
  cache := .empty
  cacheRef := .empty
  loading := false
  error := none
  key := none
  lastAttemptRef := fun _ => none
  inFlight := []
  nextTick := 0

/-- The last attempt is long enough ago, or there was none. -/
def isStale (hook : TransactionCache) (txid : Txid) : Bool :=
  match hook.lastAttemptRef txid with
  | none => true
  | some lastAttempt => staleRetryMs ≤ hook.now - lastAttempt

/-- Whether an attempt asks for the txid. -/
def needs (hook : TransactionCache) (txid : Txid) : Bool :=
  match hook.cacheRef.txs.get txid with
  | some cachedTx => !cachedTx.complete && hook.isStale txid
  | none => txid ∉ hook.cacheRef.missing || hook.isStale txid

def attempt (hook : TransactionCache) (wanted : List Txid) : TransactionCache :=
  let needed := wanted.filter hook.needs
  if needed.isEmpty then
    -- nothing to fetch; only clear loading if nothing else is in flight
    if hook.inFlight.isEmpty then { hook with loading := false } else hook
  else
    let requests := (slices txidsPerRequest needed).map fun batch => ⟨batch, none⟩
    { hook with
      lastAttemptRef := fun txid =>
        if txid ∈ needed then some hook.now else hook.lastAttemptRef txid
      inFlight := hook.inFlight ++ [⟨hook.now, wanted.toFinset, requests⟩]
      loading := true }

/-- A render sees the updates of the state. -/
def commit (hook : TransactionCache) : TransactionCache := { hook with cacheRef := hook.cache }

/-- The cleanup of the effect in force, which aborts what it has sent, and the start of the
next one. -/
def restart (hook : TransactionCache) (key : String) : TransactionCache :=
  { hook with key := some key, inFlight := [], nextTick := hook.now + staleRetryMs }

/-- A render. The effect reruns on another key only: one attempt at once, and the next when
the interval fires. -/
def rerender (hook : TransactionCache) (txids : List Txid) : TransactionCache :=
  let key := cacheKey txids
  if hook.key = some key then hook.commit
  else (hook.commit.restart key).attempt (wantedOf key)

/-- The interval waits for its next period. -/
def rearm (hook : TransactionCache) : TransactionCache :=
  { hook with nextTick := hook.now + staleRetryMs }

/-- The interval fires. -/
def fire (hook : TransactionCache) (key : String) : TransactionCache :=
  hook.rearm.attempt (wantedOf key)

/-- A settled attempt is forgotten. -/
def settle (hook : TransactionCache) (i : ℕ) : TransactionCache :=
  let left := hook.inFlight.eraseIdx i
  { hook with inFlight := left, loading := hook.loading && !left.isEmpty }

def answerWith (hook : TransactionCache) (i j : ℕ) (attempt : Attempt) (request : LookupRequest) :
    TransactionCache :=
  { hook with
    inFlight := hook.inFlight.set i
      { attempt with requests := attempt.requests.set j request } }

end TransactionCache

/-! ### The page and the server -/

structure LookupWorld where
  hook : TransactionCache
  db : Db

inductive LookupAction where
  | rerender (txids : List Txid)
  | tick
  /-- Time passes, and no request outlives its timeout. -/
  | advance (ms : ℕ)
  /-- The server answers a request of an attempt. -/
  | serve (i j : ℕ)
  | resolve (i : ℕ)
  | reject (i : ℕ) (error : String)
  /-- A writer of rows on the server. -/
  | write (op : RowOp)
  | relink (newLink : Txid → Option ClusterId → Option ClusterId)

namespace LookupWorld

def initial (db : Db) : LookupWorld := ⟨.initial, db⟩

/-- One step of the page or the server; `none` when it is not possible. -/
def step (w : LookupWorld) : LookupAction → Option LookupWorld
  | .rerender txids => some { w with hook := w.hook.rerender txids }
  | .tick =>
    match w.hook.key with
    | some key =>
      if w.hook.nextTick ≤ w.hook.now then some { w with hook := w.hook.fire key } else none
    | none => none
  | .advance ms =>
    if ∀ attempt ∈ w.hook.inFlight, w.hook.now + ms ≤ attempt.startedAt + defaultTimeoutMs then
      some { w with hook := { w.hook with now := w.hook.now + ms } }
    else none
  | .serve i j =>
    match w.hook.inFlight[i]? with
    | some attempt =>
      match attempt.requests[j]? with
      | some ⟨batch, none⟩ =>
        match transactions w.db false (joinTxids batch) with
        | .ok lookup =>
          some { w with hook := w.hook.answerWith i j attempt ⟨batch, some lookup⟩ }
        | .error _ => none
      | _ => none
    | none => none
  | .resolve i =>
    match w.hook.inFlight[i]? with
    | some attempt =>
      (attempt.requests.mapM LookupRequest.answer).map fun lookups =>
        { w with hook := { w.hook with
            cache := w.hook.cache.merge lookups attempt.wanted, error := none }.settle i }
    | none => none
  | .reject i error =>
    if i < w.hook.inFlight.length then
      some { w with hook := { w.hook with error := some error }.settle i }
    else none
  | .write op => some { w with db := op.apply w.db }
  | .relink newLink => some { w with db := w.db.relink newLink }

end LookupWorld

/-! ### What merging does -/

/-- The txids of the rows that were found. -/
def TransactionLookup.foundIds (lookup : TransactionLookup) : Finset Txid :=
  (lookup.found.map TransactionRef.txid).toFinset

namespace Cache

variable {cache : Cache} {lookup : TransactionLookup} {lookups : List TransactionLookup}
  {wanted : Finset Txid} {txid : Txid} {ref : TransactionRef}

theorem keys_foldl_addFound (found : List TransactionRef) (cache : Cache) :
    (found.foldl addFound cache).txs.keys =
      cache.txs.keys ∪ (found.map TransactionRef.txid).toFinset := by
  induction found generalizing cache with
  | nil => simp
  | cons tx found ih =>
    rw [List.foldl_cons, ih, addFound, Table.keys_set, List.map_cons, List.toFinset_cons,
      Finset.insert_union, Finset.union_insert]

theorem missing_foldl_addFound (found : List TransactionRef) (cache : Cache) :
    (found.foldl addFound cache).missing =
      cache.missing \ (found.map TransactionRef.txid).toFinset := by
  induction found generalizing cache with
  | nil => simp
  | cons tx found ih =>
    rw [List.foldl_cons, ih, addFound, List.map_cons, List.toFinset_cons, Finset.sdiff_insert,
      Finset.erase_sdiff_comm]

theorem get_foldl_addFound {found : List TransactionRef}
    (held : (found.foldl addFound cache).txs.get txid = some ref) :
    ref ∈ found ∨ cache.txs.get txid = some ref := by
  induction found generalizing cache with
  | nil => exact .inr held
  | cons tx found ih =>
    rcases ih held with later | now
    · exact .inl (List.mem_cons_of_mem tx later)
    · rw [addFound, Table.get_set] at now
      split_ifs at now with same
      · obtain rfl : tx = ref := Option.some.inj now
        exact .inl List.mem_cons_self
      · exact .inr now

theorem keys_addLookup : (cache.addLookup lookup).txs.keys = cache.txs.keys ∪ lookup.foundIds :=
  keys_foldl_addFound lookup.found cache

theorem missing_addLookup :
    (cache.addLookup lookup).missing =
      cache.missing \ lookup.foundIds ∪ lookup.missing.toFinset := by
  rw [addLookup, missing_foldl_addFound]
  rfl

theorem known_addLookup :
    (cache.addLookup lookup).known =
      cache.known ∪ (lookup.foundIds ∪ lookup.missing.toFinset) := by
  ext txid
  simp only [known, keys_addLookup, missing_addLookup, Finset.mem_union, Finset.mem_sdiff]
  tauto

/-- Every txid that some lookup answers for is known afterwards, and nothing is forgotten. -/
theorem mem_known_foldl_addLookup :
    txid ∈ (lookups.foldl addLookup cache).known ↔
      txid ∈ cache.known ∨ ∃ lookup ∈ lookups, txid ∈ lookup.foundIds ∨ txid ∈ lookup.missing := by
  induction lookups generalizing cache with
  | nil => simp
  | cons lookup lookups ih =>
    rw [List.foldl_cons, ih, known_addLookup]
    simp only [Finset.mem_union, List.mem_toFinset, List.mem_cons, exists_eq_or_imp, or_assoc]

theorem get_foldl_addLookup (held : (lookups.foldl addLookup cache).txs.get txid = some ref) :
    (∃ lookup ∈ lookups, ref ∈ lookup.found) ∨ cache.txs.get txid = some ref := by
  induction lookups generalizing cache with
  | nil => exact .inr held
  | cons lookup lookups ih =>
    rcases ih held with ⟨other, member, found⟩ | first
    · exact .inl ⟨other, List.mem_cons_of_mem _ member, found⟩
    · rcases get_foldl_addFound first with found | before
      · exact .inl ⟨lookup, List.mem_cons_self, found⟩
      · exact .inr before

/-- No txid is found by one lookup and missing for another, so none ends up as both. -/
theorem disjoint_foldl_addLookup (disjoint : Disjoint cache.txs.keys cache.missing)
    (unheld : ∀ lookup ∈ lookups, ∀ txid ∈ lookup.missing, txid ∉ cache.txs.keys)
    (apart : ∀ lookup ∈ lookups, ∀ other ∈ lookups, ∀ txid ∈ lookup.missing,
      txid ∉ other.foundIds) :
    Disjoint (lookups.foldl addLookup cache).txs.keys
      (lookups.foldl addLookup cache).missing := by
  induction lookups generalizing cache with
  | nil => exact disjoint
  | cons lookup lookups ih =>
    have head : lookup ∈ lookup :: lookups := List.mem_cons_self
    have tail : ∀ other ∈ lookups, other ∈ lookup :: lookups :=
      fun other => List.mem_cons_of_mem lookup
    apply ih
    · rw [keys_addLookup, missing_addLookup, Finset.disjoint_left] at *
      intro txid held
      simp only [Finset.mem_union, Finset.mem_sdiff, List.mem_toFinset] at held ⊢
      rintro (⟨missed, unfound⟩ | missing)
      · exact held.elim (fun key => disjoint key missed) unfound
      · exact held.elim (unheld lookup head txid missing) (apart lookup head lookup head txid missing)
    · intro other member txid missing
      rw [keys_addLookup, Finset.mem_union, not_or]
      exact ⟨unheld other (tail other member) txid missing,
        apart other (tail other member) lookup head txid missing⟩
    · exact fun other member another also => apart other (tail other member) another (tail another also)

theorem get_of_get_evict (held : (cache.evict wanted).txs.get txid = some ref) :
    cache.txs.get txid = some ref := by
  unfold evict at held
  split_ifs at held
  · exact held
  · rw [Table.get_filter] at held
    split_ifs at held
    exact held

/-- What is wanted is not evicted. -/
theorem mem_known_evict (member : txid ∈ wanted) :
    txid ∈ (cache.evict wanted).known ↔ txid ∈ cache.known := by
  unfold evict
  split_ifs
  · rfl
  · simp [known, Table.keys_filter, member]

theorem disjoint_evict (disjoint : Disjoint cache.txs.keys cache.missing) :
    Disjoint (cache.evict wanted).txs.keys (cache.evict wanted).missing := by
  unfold evict
  split_ifs
  · exact disjoint
  · rw [Table.keys_filter]
    exact Finset.disjoint_filter_filter disjoint

/-- A cache that had to drop entries holds only wanted ones. -/
theorem size_evict_le (disjoint : Disjoint cache.txs.keys cache.missing) :
    (cache.evict wanted).size ≤ max maxCached wanted.card := by
  have apart : Disjoint (cache.evict wanted).txs.keys (cache.evict wanted).missing :=
    disjoint_evict disjoint
  unfold evict at apart ⊢
  split_ifs at apart ⊢ with fits
  · exact le_max_of_le_left fits
  · apply le_max_of_le_right
    rw [size, ← Table.card_keys, ← Finset.card_union_of_disjoint apart]
    apply Finset.card_le_card
    intro txid member
    rw [Table.keys_filter, ← Finset.filter_union] at member
    exact (Finset.mem_filter.mp member).2

end Cache

/-! ### What the server's rows become -/

/-- The cached row is what the server's row once was. -/
def Reads (db : Db) (ref : TransactionRef) : Prop :=
  ∃ old row, ref = .ofRow ref.txid old ∧ db.transactions ref.txid = some row ∧
    old.Gains (fun _ => True) row

/-- No row of the server loses anything. -/
def Db.Grows (db next : Db) : Prop :=
  ∀ txid row, db.transactions txid = some row →
    ∃ after, next.transactions txid = some after ∧ row.Gains (fun _ => True) after

section Rows

variable {db next : Db} {node : Txid → NodeTx} {ref : TransactionRef} {txid : Txid}

theorem Reads.mono (grows : db.Grows next) (reads : Reads db ref) : Reads next ref := by
  obtain ⟨old, row, same, stored, gains⟩ := reads
  obtain ⟨after, kept, more⟩ := grows _ row stored
  exact ⟨old, after, same, kept, gains.trans more⟩

theorem reads_ofRow {row : Transaction} (stored : db.transactions txid = some row) :
    Reads db (.ofRow txid row) :=
  ⟨row, row, rfl, stored, .refl _ row⟩

theorem Reads.stored (reads : Reads db ref) : db.transactions ref.txid ≠ none := by
  obtain ⟨-, row, -, stored, -⟩ := reads
  rw [stored]
  exact Option.some_ne_none row

theorem Db.Learns.grows {mined : Txid → Option OffsetDateTime × Option String → Prop}
    (learns : Db.Learns node mined db next) : db.Grows next := by
  intro txid row stored
  obtain ⟨after, kept, gains⟩ := learns.gains txid row stored
  exact ⟨after, kept, gains.mono fun _ _ => trivial⟩

theorem grows_relink (newLink : Txid → Option ClusterId → Option ClusterId) (db : Db) :
    db.Grows (db.relink newLink) := by
  intro txid row stored
  refine ⟨{ row with clusterId := newLink txid row.clusterId }, ?_, ?_⟩
  · simp [Db.relink, Db.updateTransactions, stored]
  · exact ⟨fun _ => rfl, fun _ => rfl, fun _ => rfl, rfl, id, id, .inl rfl⟩

theorem agreesWith_relink (agrees : db.AgreesWith node)
    (newLink : Txid → Option ClusterId → Option ClusterId) : (db.relink newLink).AgreesWith node := by
  intro txid row stored
  simp only [Db.relink, Db.updateTransactions, Option.map_eq_some_iff] at stored
  obtain ⟨old, held, rfl⟩ := stored
  exact ⟨(agrees txid old held).fee, (agrees txid old held).weight,
    (agrees txid old held).inputTxids⟩

/-- Each field of a cached row that was known is what the server has. -/
structure Current (db : Db) (ref : TransactionRef) (row : Transaction) : Prop where
  stored : db.transactions ref.txid = some row
  firstSeenAt : ref.firstSeenAt = row.firstSeenAt
  fee : ref.fee.isSome = true → row.fee = ref.fee
  vsize : ref.vsize ≠ 0 → vsizeFromWeight row.weight = ref.vsize
  inputTxids : ref.inputTxids.isSome = true → row.inputTxids = ref.inputTxids
  /-- A complete row is final, but for the cluster it is in. -/
  complete : ref.complete = true →
    TransactionRef.ofRow ref.txid row = { ref with clusterId := row.clusterId }

theorem vsizeFromWeight_zero : vsizeFromWeight 0 = 0 := by decide

theorem Reads.current (reads : Reads db ref) : ∃ row, Current db ref row := by
  obtain ⟨old, row, same, stored, gains⟩ := reads
  have fee : ref.fee = old.fee := congrArg TransactionRef.fee same
  have vsize : ref.vsize = vsizeFromWeight old.weight := congrArg TransactionRef.vsize same
  have inputs : ref.inputTxids = old.inputTxids := congrArg TransactionRef.inputTxids same
  have seen : ref.firstSeenAt = old.firstSeenAt := congrArg TransactionRef.firstSeenAt same
  have done : ref.complete = old.isComplete := congrArg TransactionRef.complete same
  refine ⟨row, stored, seen.trans gains.firstSeenAt.symm, ?_, ?_, ?_, ?_⟩
  · intro known
    rw [fee] at known ⊢
    exact gains.fee known
  · intro known
    rw [vsize] at known ⊢
    have weighs : old.weight ≠ 0 := by
      intro weightless
      rw [weightless] at known
      exact known vsizeFromWeight_zero
    rw [gains.weight weighs]
  · intro known
    rw [inputs] at known ⊢
    exact gains.inputTxids known
  · intro complete
    rw [done, Transaction.isComplete, Option.isNone_iff_eq_none,
      Transaction.backfillStage_fill_eq_none] at complete
    obtain ⟨parents, weighs, paid⟩ := complete
    -- everything a complete row says is kept, so the row is still complete
    have kept : row.isComplete = ref.complete := by
      rw [done]
      simp only [Transaction.isComplete, Transaction.fill, gains.fee paid, gains.weight weighs,
        gains.inputTxids parents]
    have size : vsizeFromWeight row.weight = ref.vsize := by rw [gains.weight weighs, vsize]
    have payment : row.fee = ref.fee := by rw [gains.fee paid, fee]
    have parentsKept : row.inputTxids = ref.inputTxids := by
      rw [gains.inputTxids parents, inputs]
    have seenKept : row.firstSeenAt = ref.firstSeenAt := by rw [gains.firstSeenAt, seen]
    simp only [TransactionRef.ofRow, kept, size, payment, parentsKept, seenKept]

end Rows

end MempoolObserver
