import MempoolObserver.Web.TransactionCache

/-!
# What every step of the transaction cache keeps

At most one attempt is in flight, for what the effect in force lacks. What is cached was
once the server's, and nothing was asked for twice within a period.

## Main definitions

* `LookupInv` — the invariant, and `Sound`, what is asked of a step

## Main results

* `LookupInv.step` — every step keeps it
* `lookupInv_run`
-/

namespace MempoolObserver

open Collections Runs

/-! ### What every state satisfies -/

/-- The cache says nothing that was never so, and no txid is both cached and missing. -/
structure Cache.Holds (db : Db) (cache : Cache) : Prop where
  disjoint : Disjoint cache.txs.keys cache.missing
  reads : ∀ txid ref, cache.txs.get txid = some ref → Reads db ref

/-- The answer of a request: each txid of the batch is found as the server has it, or missing
and not cached. -/
structure Answered (db : Db) (cache : Cache) (batch : List Txid) (lookup : TransactionLookup) :
    Prop where
  reads : ∀ ref ∈ lookup.found, Reads db ref
  covers : ∀ txid, txid ∈ batch ↔ txid ∈ lookup.foundIds ∨ txid ∈ lookup.missing
  apart : ∀ txid ∈ lookup.missing, txid ∉ lookup.foundIds
  unheld : ∀ txid ∈ lookup.missing, txid ∉ cache.txs.keys

/-- The effect in force and what it has rendered. -/
structure KeyInv (hook : TransactionCache) (key : String) : Prop where
  nodup : (wantedOf key).Nodup
  valid : ∀ txid ∈ wantedOf key, isValidTxid txid = true
  rendered : ∀ txid ∈ wantedOf key, txid ∈ hook.cacheRef.known → txid ∈ hook.cache.known
  paced : ∀ txid last, hook.lastAttemptRef txid = some last →
    last + staleRetryMs ≤ hook.nextTick

/-- Nothing is in flight; without an error, each wanted txid has been answered for. -/
structure Idle (hook : TransactionCache) : Prop where
  inFlight : hook.inFlight = []
  loading : hook.loading = false
  settled : hook.error = none → ∀ key, hook.key = some key →
    ∀ txid ∈ wantedOf key, txid ∈ hook.cache.known

/-- One attempt is in flight, for what the effect in force lacks. -/
structure Waits (db : Db) (hook : TransactionCache) (attempt : Attempt) : Prop where
  inFlight : hook.inFlight = [attempt]
  loading : hook.loading = true
  keyed : ∃ key, hook.key = some key ∧ attempt.wanted = (wantedOf key).toFinset
  paced : attempt.startedAt + staleRetryMs = hook.nextTick
  timely : hook.now ≤ attempt.startedAt + defaultTimeoutMs
  nodup : (attempt.requests.flatMap LookupRequest.batch).Nodup
  parses : ∀ request ∈ attempt.requests, parseTxids (joinTxids request.batch) = .ok request.batch
  covers : ∀ txid ∈ attempt.wanted,
    txid ∈ hook.cache.known ∨ txid ∈ attempt.requests.flatMap LookupRequest.batch
  answered : ∀ request ∈ attempt.requests, ∀ lookup, request.answer = some lookup →
    Answered db hook.cache request.batch lookup

structure LookupInv (node : Txid → NodeTx) (w : LookupWorld) : Prop where
  agrees : w.db.AgreesWith node
  holds : w.hook.cache.Holds w.db
  past : ∀ txid last, w.hook.lastAttemptRef txid = some last → last ≤ w.hook.now
  keyed : ∀ key, w.hook.key = some key → KeyInv w.hook key
  flight : Idle w.hook ∨ ∃ attempt, Waits w.db w.hook attempt

/-- What is asked of the run: wanted txids are txids, and writers write what the node says. -/
def Sound (node : Txid → NodeTx) (_ : LookupWorld) : LookupAction → Prop
  | .rerender txids => ∀ txid ∈ txids, isValidTxid txid = true
  | .write op => op.Agrees node
  | _ => True

section Invariant

variable {node : Txid → NodeTx} {w next : LookupWorld} {hook : TransactionCache} {db : Db}
  {key : String} {txids : List Txid} {attempt : Attempt}

theorem wantedOf_cacheKey (valid : ∀ txid ∈ txids, isValidTxid txid = true) :
    wantedOf (cacheKey txids) = txids.dedup.insertionSort (· ≤ ·) := by
  have sorted : ∀ txid ∈ txids.dedup.insertionSort (· ≤ ·), isValidTxid txid = true := by
    intro txid member
    exact valid txid (List.mem_dedup.mp ((List.mem_insertionSort _).mp member))
  rw [wantedOf, cacheKey]
  by_cases none : txids.dedup.insertionSort (· ≤ ·) = []
  · rw [none]
    rfl
  · have split := splitCommas_joinTxids none fun txid member => comma_notMem (sorted txid member)
    rw [if_neg, split]
    intro empty
    obtain ⟨txid, rest, same⟩ := List.exists_cons_of_ne_nil none
    rw [empty, same] at split
    apply ne_empty_of_isValidTxid (sorted txid (same ▸ List.mem_cons_self))
    exact (List.cons.inj split).1.symm

theorem nodup_wantedOf (valid : ∀ txid ∈ txids, isValidTxid txid = true) :
    (wantedOf (cacheKey txids)).Nodup := by
  rw [wantedOf_cacheKey valid]
  exact (List.perm_insertionSort _ _).nodup_iff.mpr (List.nodup_dedup _)

theorem mem_wantedOf_cacheKey (valid : ∀ txid ∈ txids, isValidTxid txid = true) {txid : Txid} :
    txid ∈ wantedOf (cacheKey txids) ↔ txid ∈ txids := by
  rw [wantedOf_cacheKey valid]
  exact (List.mem_insertionSort _).trans List.mem_dedup

/-- A txid that an attempt skips has an answer in the rendered cache. -/
theorem known_of_not_needs {txid : Txid} (skipped : hook.needs txid = false) :
    txid ∈ hook.cacheRef.known := by
  rw [Cache.known, Finset.mem_union]
  unfold TransactionCache.needs at skipped
  split at skipped
  · next cached => exact .inl (Table.mem_keys_of_get cached)
  · next absent =>
    right
    simpa using (Bool.or_eq_false_iff.mp skipped).1

/-- The requests of an attempt: the needed txids in batches the server accepts. -/
def requestsFor (needed : List Txid) : List LookupRequest :=
  (slices txidsPerRequest needed).map fun batch => ⟨batch, none⟩

theorem flatMap_batch_requestsFor (needed : List Txid) :
    (requestsFor needed).flatMap LookupRequest.batch = needed := by
  rw [requestsFor, List.flatMap_map, List.flatMap_id', slices_flatten (by decide)]

theorem parseTxids_of_mem_requestsFor {needed : List Txid} (nodup : needed.Nodup)
    (valid : ∀ txid ∈ needed, isValidTxid txid = true) {request : LookupRequest}
    (member : request ∈ requestsFor needed) :
    parseTxids (joinTxids request.batch) = .ok request.batch := by
  obtain ⟨batch, sliced, rfl⟩ := List.mem_map.mp member
  have whole : (slices txidsPerRequest needed).flatten = needed :=
    slices_flatten (by decide) needed
  obtain ⟨nonempty, short⟩ := length_of_mem_slices (by decide) sliced
  have within : batch.Sublist needed := whole ▸ List.sublist_flatten_of_mem sliced
  apply parseTxids_of_joinTxids nonempty short (nodup.sublist within)
  exact fun txid inBatch => valid txid (within.subset inBatch)

theorem length_batch_of_mem_requestsFor {needed : List Txid} {request : LookupRequest}
    (member : request ∈ requestsFor needed) : request.batch.length ≤ txidsPerRequest := by
  obtain ⟨batch, sliced, rfl⟩ := List.mem_map.mp member
  exact (length_of_mem_slices (by decide) sliced).2

/-- What an attempt with nothing in flight sends. -/
theorem requests_attempt {wanted : List Txid} (free : hook.inFlight = []) :
    (hook.attempt wanted).inFlight.flatMap Attempt.requests =
      requestsFor (wanted.filter hook.needs) := by
  simp only [TransactionCache.attempt]
  split_ifs with nothing
  · rw [free, List.isEmpty_iff.mp nothing]
    rfl
  · rw [free, List.isEmpty_iff.mp nothing]
    rfl
  · rw [free]
    exact List.append_nil _

/-- An attempt from an idle state leaves an idle state or waits for its requests. -/
theorem flight_attempt (free : hook.inFlight = []) (inForce : hook.key = some key)
    (keyInv : KeyInv hook key) (period : hook.nextTick = hook.now + staleRetryMs) (db : Db) :
    Idle (hook.attempt (wantedOf key)) ∨
      ∃ attempt, Waits db (hook.attempt (wantedOf key)) attempt := by
  simp only [TransactionCache.attempt]
  split_ifs with nothing busy
  · -- all that is wanted is known already
    refine .inl ⟨free, rfl, fun _ other same txid member => ?_⟩
    obtain rfl : key = other := Option.some.inj (inForce.symm.trans same)
    apply keyInv.rendered txid member
    apply known_of_not_needs
    simpa using List.filter_eq_nil_iff.mp (List.isEmpty_iff.mp nothing) txid member
  · exact absurd (by rw [free]; rfl) busy
  · right
    have needed : ((wantedOf key).filter hook.needs).Nodup := keyInv.nodup.filter _
    refine ⟨_, by rw [free]; rfl, rfl, ⟨key, inForce, rfl⟩, period.symm, ?_, ?_, ?_, ?_, ?_⟩
    · exact Nat.le_add_right _ _
    · exact (flatMap_batch_requestsFor _).symm ▸ needed
    · intro request member
      apply parseTxids_of_mem_requestsFor needed _ member
      exact fun txid inside => keyInv.valid txid (List.mem_of_mem_filter inside)
    · intro txid member
      have listed : txid ∈ wantedOf key := List.mem_toFinset.mp member
      by_cases asked : hook.needs txid = true
      · right
        exact (flatMap_batch_requestsFor _).symm ▸ List.mem_filter.mpr ⟨listed, asked⟩
      · left
        exact keyInv.rendered txid listed (known_of_not_needs (Bool.eq_false_iff.mpr asked))
    · intro request member lookup answer
      obtain ⟨batch, -, rfl⟩ := List.mem_map.mp member
      cases answer

@[simp] theorem key_attempt (wanted : List Txid) : (hook.attempt wanted).key = hook.key := by
  simp only [TransactionCache.attempt]
  split_ifs <;> rfl

@[simp] theorem cache_attempt (wanted : List Txid) :
    (hook.attempt wanted).cache = hook.cache := by
  simp only [TransactionCache.attempt]
  split_ifs <;> rfl

@[simp] theorem cacheRef_attempt (wanted : List Txid) :
    (hook.attempt wanted).cacheRef = hook.cacheRef := by
  simp only [TransactionCache.attempt]
  split_ifs <;> rfl

@[simp] theorem now_attempt (wanted : List Txid) : (hook.attempt wanted).now = hook.now := by
  simp only [TransactionCache.attempt]
  split_ifs <;> rfl

@[simp] theorem nextTick_attempt (wanted : List Txid) :
    (hook.attempt wanted).nextTick = hook.nextTick := by
  simp only [TransactionCache.attempt]
  split_ifs <;> rfl

/-- An attempt notes its own time, and only that. -/
theorem lastAttemptRef_attempt {wanted : List Txid} {txid : Txid} {last : ℕ}
    (noted : (hook.attempt wanted).lastAttemptRef txid = some last) :
    last = hook.now ∨ hook.lastAttemptRef txid = some last := by
  simp only [TransactionCache.attempt] at noted
  split_ifs at noted with nothing busy
  · exact .inr noted
  · exact .inr noted
  · simp only at noted
    split_ifs at noted
    · exact .inl (Option.some.inj noted).symm
    · exact .inr noted

/-- The state from which an effect or the interval makes its attempt. -/
theorem inv_attempt (agrees : db.AgreesWith node) (holds : hook.cache.Holds db)
    (past : ∀ txid last, hook.lastAttemptRef txid = some last → last ≤ hook.now)
    (free : hook.inFlight = []) (inForce : hook.key = some key) (keyInv : KeyInv hook key)
    (period : hook.nextTick = hook.now + staleRetryMs) :
    LookupInv node ⟨hook.attempt (wantedOf key), db⟩ where
  agrees := agrees
  holds := by simpa using holds
  past txid last noted := by
    rw [now_attempt]
    rcases lastAttemptRef_attempt noted with rfl | before
    · exact le_rfl
    · exact past txid last before
  keyed other same := by
    rw [key_attempt, inForce, Option.some.injEq] at same
    subst same
    refine ⟨keyInv.nodup, keyInv.valid, by simpa using keyInv.rendered, fun txid last noted => ?_⟩
    rw [nextTick_attempt]
    rcases lastAttemptRef_attempt noted with rfl | before
    · exact period.ge
    · exact keyInv.paced txid last before
  flight := flight_attempt free inForce keyInv period db

/-- When the interval is due, nothing is in flight any more. -/
theorem inFlight_eq_nil_of_due (inv : LookupInv node w) (due : w.hook.nextTick ≤ w.hook.now) :
    w.hook.inFlight = [] := by
  rcases inv.flight with idle | ⟨attempt, waits⟩
  · exact idle.inFlight
  · have paced := waits.paced
    have timely := waits.timely
    simp only [staleRetryMs, defaultTimeoutMs] at paced timely
    omega

theorem inv_rerender (inv : LookupInv node w)
    (valid : ∀ txid ∈ txids, isValidTxid txid = true) :
    LookupInv node { w with hook := w.hook.rerender txids } := by
  simp only [TransactionCache.rerender]
  split_ifs with same
  · -- the key is the same: the render commits the cache and nothing else
    refine ⟨inv.agrees, inv.holds, inv.past, fun key inForce => ?_, ?_⟩
    · have keyInv := inv.keyed key inForce
      exact ⟨keyInv.nodup, keyInv.valid, fun _ _ => id, keyInv.paced⟩
    · exact inv.flight.imp (fun idle => ⟨idle.inFlight, idle.loading, idle.settled⟩)
        fun ⟨attempt, waits⟩ => ⟨attempt, { waits with }⟩
  · have keyInv : KeyInv (w.hook.commit.restart (cacheKey txids)) (cacheKey txids) := by
      refine ⟨nodup_wantedOf valid, ?_, fun _ _ => id, fun txid last noted => ?_⟩
      · exact fun txid member => valid txid ((mem_wantedOf_cacheKey valid).mp member)
      · exact Nat.add_le_add_right (inv.past txid last noted) _
    apply inv_attempt
    · exact inv.agrees
    · exact inv.holds
    · exact inv.past
    · rfl
    · rfl
    · exact keyInv
    · rfl

theorem inv_fire (inv : LookupInv node w) (inForce : w.hook.key = some key)
    (due : w.hook.nextTick ≤ w.hook.now) :
    LookupInv node { w with hook := w.hook.fire key } := by
  have keyInv := inv.keyed key inForce
  have rearmed : KeyInv w.hook.rearm key := by
    refine ⟨keyInv.nodup, keyInv.valid, keyInv.rendered, fun txid last noted => ?_⟩
    exact Nat.add_le_add_right (inv.past txid last noted) _
  apply inv_attempt
  · exact inv.agrees
  · exact inv.holds
  · exact inv.past
  · exact inFlight_eq_nil_of_due inv due
  · exact inForce
  · exact rearmed
  · rfl

/-- The server's rows may only gain. -/
theorem inv_grows (inv : LookupInv node w) (agrees : db.AgreesWith node)
    (grows : w.db.Grows db) : LookupInv node { w with db := db } where
  agrees := agrees
  holds := ⟨inv.holds.disjoint, fun txid ref held => (inv.holds.reads txid ref held).mono grows⟩
  past := inv.past
  keyed := inv.keyed
  flight := inv.flight.imp id fun ⟨attempt, waits⟩ => by
    refine ⟨attempt, { waits with answered := fun request member lookup answer => ?_ }⟩
    have answered := waits.answered request member lookup answer
    exact { answered with reads := fun ref found => (answered.reads ref found).mono grows }

theorem inv_advance (inv : LookupInv node w) {ms : ℕ}
    (timely : ∀ attempt ∈ w.hook.inFlight,
      w.hook.now + ms ≤ attempt.startedAt + defaultTimeoutMs) :
    LookupInv node { w with hook := { w.hook with now := w.hook.now + ms } } where
  agrees := inv.agrees
  holds := inv.holds
  past txid last noted := (inv.past txid last noted).trans (Nat.le_add_right _ _)
  keyed key inForce := { inv.keyed key inForce with }
  flight := inv.flight.imp (fun idle => { idle with }) fun ⟨attempt, waits⟩ => by
    refine ⟨attempt, { waits with timely := timely attempt ?_ }⟩
    rw [waits.inFlight]
    exact List.mem_singleton_self attempt

theorem map_batch_set {requests : List LookupRequest} {j : ℕ} {batch : List Txid}
    {old new : Option TransactionLookup} (asked : requests[j]? = some ⟨batch, old⟩) :
    (requests.set j ⟨batch, new⟩).map LookupRequest.batch =
      requests.map LookupRequest.batch := by
  apply List.ext_getElem?
  intro k
  rw [List.getElem?_map, List.getElem?_map, List.getElem?_set]
  split_ifs with same within
  · subst same
    rw [asked]
    rfl
  · rw [List.getElem?_eq_none (by omega)]
  · rfl

theorem flatMap_batch_set {requests : List LookupRequest} {j : ℕ} {batch : List Txid}
    {old new : Option TransactionLookup} (asked : requests[j]? = some ⟨batch, old⟩) :
    (requests.set j ⟨batch, new⟩).flatMap LookupRequest.batch =
      requests.flatMap LookupRequest.batch := by
  rw [List.flatMap_def, List.flatMap_def, map_batch_set asked]

/-- The server's answer to a list of distinct txids. -/
theorem answered_lookup {cache : Cache} {batch : List Txid} (holds : cache.Holds db)
    (nodup : batch.Nodup) : Answered db cache batch (lookup db batch) := by
  have partitions := lookup_partitions nodup db
  constructor
  · intro ref found
    obtain ⟨txid, -, row, stored, rfl⟩ := partitions.mem_found.mp found
    exact reads_ofRow stored
  · intro txid
    rw [partitions.mem_missing, TransactionLookup.foundIds, List.mem_toFinset,
      partitions.map_txid_found, List.mem_filter, Option.isSome_iff_ne_none]
    tauto
  · intro txid missing
    rw [TransactionLookup.foundIds, List.mem_toFinset, partitions.map_txid_found, List.mem_filter]
    simp [(partitions.mem_missing.mp missing).2]
  · intro txid missing held
    -- a row that was ever read is still there
    obtain ⟨ref, cached⟩ := Option.isSome_iff_exists.mp (Table.isSome_get.mpr held)
    obtain rfl : ref.txid = txid := Table.key_eq_of_get cached
    exact (holds.reads _ ref cached).stored (partitions.mem_missing.mp missing).2

/-- The only attempt there is. -/
theorem Waits.getElem?_eq (waits : Waits db hook attempt) {i : ℕ} {other : Attempt}
    (listed : hook.inFlight[i]? = some other) : i = 0 ∧ other = attempt := by
  rw [waits.inFlight] at listed
  cases i with
  | zero => exact ⟨rfl, (Option.some.inj listed).symm⟩
  | succ i => cases listed

theorem Idle.getElem?_eq (idle : Idle hook) {i : ℕ} : hook.inFlight[i]? = none := by
  rw [idle.inFlight]
  rfl

theorem inv_serve (inv : LookupInv node w) {i j : ℕ} {batch : List Txid}
    {answer : TransactionLookup} (listed : w.hook.inFlight[i]? = some attempt)
    (asked : attempt.requests[j]? = some ⟨batch, none⟩)
    (answers : transactions w.db false (joinTxids batch) = .ok answer) :
    LookupInv node { w with hook := w.hook.answerWith i j attempt ⟨batch, some answer⟩ } where
  agrees := inv.agrees
  holds := inv.holds
  past := inv.past
  keyed key inForce := { inv.keyed key inForce with }
  flight := by
    rcases inv.flight with idle | ⟨other, waits⟩
    · rw [idle.getElem?_eq] at listed
      cases listed
    · obtain ⟨rfl, rfl⟩ := waits.getElem?_eq listed
      have member : ⟨batch, none⟩ ∈ attempt.requests := List.mem_of_getElem? asked
      have nodup : batch.Nodup :=
        (List.nodup_flatMap.mp waits.nodup).1 ⟨batch, none⟩ member
      have found : answer = lookup w.db batch := by
        simp only [transactions, waits.parses _ member] at answers
        exact (Except.ok.inj answers).symm
      subst found
      refine .inr ⟨{ attempt with
        requests := attempt.requests.set j ⟨batch, some (lookup w.db batch)⟩ }, ?_⟩
      refine ⟨?_, waits.loading, waits.keyed, waits.paced, waits.timely, ?_, ?_, ?_, ?_⟩
      · simp only [TransactionCache.answerWith, waits.inFlight]
        rfl
      · rw [flatMap_batch_set asked]
        exact waits.nodup
      · intro request held
        rcases List.mem_or_eq_of_mem_set held with before | rfl
        · exact waits.parses request before
        · exact waits.parses ⟨batch, none⟩ member
      · rw [flatMap_batch_set asked]
        exact waits.covers
      · intro request held known heard
        rcases List.mem_or_eq_of_mem_set held with before | rfl
        · exact waits.answered request before known heard
        · obtain rfl : lookup w.db batch = known := Option.some.inj heard
          exact answered_lookup inv.holds nodup

/-- Which lookups an attempt resolves with. -/
theorem mem_of_mapM_answer {requests : List LookupRequest} {lookups : List TransactionLookup}
    (all : requests.mapM LookupRequest.answer = some lookups) :
    (∀ request ∈ requests, ∃ lookup ∈ lookups, request.answer = some lookup) ∧
      ∀ lookup ∈ lookups, ∃ request ∈ requests, request.answer = some lookup := by
  induction requests generalizing lookups with
  | nil =>
    obtain rfl : [] = lookups := by simpa using all
    simp
  | cons request requests ih =>
    simp only [List.mapM_cons, Option.bind_eq_bind, Option.bind_eq_some_iff, Option.pure_def,
      Option.some.injEq] at all
    obtain ⟨first, heard, rest, others, rfl⟩ := all
    obtain ⟨forth, back⟩ := ih others
    constructor
    · rintro other (_ | ⟨_, later⟩)
      · exact ⟨first, List.mem_cons_self, heard⟩
      · obtain ⟨lookup, member, same⟩ := forth other later
        exact ⟨lookup, List.mem_cons_of_mem _ member, same⟩
    · rintro lookup (_ | ⟨_, later⟩)
      · exact ⟨request, List.mem_cons_self, heard⟩
      · obtain ⟨other, member, same⟩ := back lookup later
        exact ⟨other, List.mem_cons_of_mem _ member, same⟩

/-- No txid is missing for one request and found for another. -/
theorem Waits.apart (waits : Waits db hook attempt) {request other : LookupRequest}
    (member : request ∈ attempt.requests) (also : other ∈ attempt.requests)
    {mine theirs : TransactionLookup} (heard : request.answer = some mine)
    (told : other.answer = some theirs) : ∀ txid ∈ mine.missing, txid ∉ theirs.foundIds := by
  intro txid missing found
  by_cases same : request = other
  · subst same
    obtain rfl : mine = theirs := Option.some.inj (heard.symm.trans told)
    exact (waits.answered request member mine heard).apart txid missing found
  · have disjoint := (List.nodup_flatMap.mp waits.nodup).2
    have : Std.Symm (Function.onFun List.Disjoint LookupRequest.batch) :=
      ⟨fun _ _ apart => apart.symm⟩
    apply disjoint.forall member also same
    · exact ((waits.answered request member mine heard).covers txid).mpr (.inr missing)
    · exact ((waits.answered other also theirs told).covers txid).mpr (.inl found)

/-- What is in the cache once an attempt has resolved. -/
theorem mem_known_merge (waits : Waits db hook attempt) {lookups : List TransactionLookup}
    (all : attempt.requests.mapM LookupRequest.answer = some lookups) {txid : Txid}
    (wanted : txid ∈ attempt.wanted) :
    txid ∈ (hook.cache.merge lookups attempt.wanted).known := by
  rw [Cache.merge, Cache.mem_known_evict wanted, Cache.mem_known_foldl_addLookup]
  rcases waits.covers txid wanted with known | asked
  · exact .inl known
  · obtain ⟨request, member, inBatch⟩ := List.mem_flatMap.mp asked
    obtain ⟨lookup, listed, heard⟩ := (mem_of_mapM_answer all).1 request member
    have covers := (waits.answered request member lookup heard).covers
    exact .inr ⟨lookup, listed, (covers txid).mp inBatch⟩

theorem disjoint_lookups (holds : hook.cache.Holds db) (waits : Waits db hook attempt)
    {lookups : List TransactionLookup}
    (all : attempt.requests.mapM LookupRequest.answer = some lookups) :
    Disjoint (lookups.foldl Cache.addLookup hook.cache).txs.keys
      (lookups.foldl Cache.addLookup hook.cache).missing := by
  have source := (mem_of_mapM_answer all).2
  apply Cache.disjoint_foldl_addLookup holds.disjoint
  · intro lookup listed
    obtain ⟨request, member, heard⟩ := source lookup listed
    exact (waits.answered request member lookup heard).unheld
  · intro lookup listed other also
    obtain ⟨request, member, heard⟩ := source lookup listed
    obtain ⟨second, present, told⟩ := source other also
    exact waits.apart member present heard told

theorem holds_merge (holds : hook.cache.Holds db) (waits : Waits db hook attempt)
    {lookups : List TransactionLookup}
    (all : attempt.requests.mapM LookupRequest.answer = some lookups) :
    (hook.cache.merge lookups attempt.wanted).Holds db := by
  refine ⟨Cache.disjoint_evict (disjoint_lookups holds waits all), fun txid ref held => ?_⟩
  have merged := Cache.get_of_get_evict held
  rcases Cache.get_foldl_addLookup merged with ⟨lookup, listed, found⟩ | before
  · obtain ⟨request, member, heard⟩ := (mem_of_mapM_answer all).2 lookup listed
    exact (waits.answered request member lookup heard).reads ref found
  · exact holds.reads txid ref before

theorem inv_resolve (inv : LookupInv node w) {i : ℕ} {lookups : List TransactionLookup}
    (listed : w.hook.inFlight[i]? = some attempt)
    (all : attempt.requests.mapM LookupRequest.answer = some lookups) :
    LookupInv node { w with hook := { w.hook with
      cache := w.hook.cache.merge lookups attempt.wanted, error := none }.settle i } := by
  rcases inv.flight with idle | ⟨other, waits⟩
  · rw [idle.getElem?_eq] at listed
    cases listed
  · obtain ⟨rfl, rfl⟩ := waits.getElem?_eq listed
    obtain ⟨key, inForce, wanted⟩ := waits.keyed
    have current : ∀ other, w.hook.key = some other → other = key := fun other same =>
      Option.some.inj (same.symm.trans inForce)
    have merged : ∀ txid ∈ wantedOf key,
        txid ∈ (w.hook.cache.merge lookups attempt.wanted).known := by
      intro txid member
      apply mem_known_merge waits all
      rw [wanted]
      exact List.mem_toFinset.mpr member
    refine ⟨inv.agrees, holds_merge inv.holds waits all, inv.past, fun other same => ?_, .inl ?_⟩
    · have keyInv := inv.keyed other same
      refine { keyInv with rendered := fun txid member _ => ?_ }
      obtain rfl := current other same
      exact merged txid member
    · refine ⟨by simp [TransactionCache.settle, waits.inFlight],
        by simp [TransactionCache.settle, waits.inFlight], fun _ other same => ?_⟩
      obtain rfl := current other same
      exact merged

theorem inv_reject (inv : LookupInv node w) {i : ℕ} (error : String)
    (listed : i < w.hook.inFlight.length) :
    LookupInv node { w with hook := { w.hook with error := some error }.settle i } where
  agrees := inv.agrees
  holds := inv.holds
  past := inv.past
  keyed key inForce := { inv.keyed key inForce with }
  flight := by
    rcases inv.flight with idle | ⟨attempt, waits⟩
    · rw [idle.inFlight] at listed
      cases listed
    · obtain rfl : i = 0 := by
        rw [waits.inFlight] at listed
        exact Nat.lt_one_iff.mp listed
      -- nothing is claimed about the cache while an error stands
      refine .inl ⟨by simp [TransactionCache.settle, waits.inFlight],
        by simp [TransactionCache.settle, waits.inFlight], fun cleared => ?_⟩
      cases cleared

theorem lookupInv_initial (agrees : db.AgreesWith node) :
    LookupInv node (LookupWorld.initial db) where
  agrees := agrees
  holds := ⟨Finset.disjoint_empty_left _, fun _ _ held => by cases held⟩
  past _ _ noted := by cases noted
  keyed _ inForce := by cases inForce
  flight := .inl ⟨rfl, rfl, fun _ _ inForce => by cases inForce⟩

/-- Every step of the page and of the server keeps the invariant. -/
theorem LookupInv.step (inv : LookupInv node w) {action : LookupAction}
    (sound : Sound node w action) (stepped : w.step action = some next) :
    LookupInv node next := by
  cases action with
  | rerender txids =>
    obtain rfl := Option.some.inj stepped
    exact inv_rerender inv sound
  | tick =>
    simp only [LookupWorld.step] at stepped
    split at stepped
    · next key inForce =>
      split_ifs at stepped with due
      obtain rfl := Option.some.inj stepped
      exact inv_fire inv inForce due
    · cases stepped
  | advance ms =>
    simp only [LookupWorld.step] at stepped
    split_ifs at stepped with timely
    obtain rfl := Option.some.inj stepped
    exact inv_advance inv timely
  | serve i j =>
    simp only [LookupWorld.step] at stepped
    split at stepped
    · next attempt listed =>
      split at stepped
      · next batch asked =>
        split at stepped
        · next answer answers =>
          obtain rfl := Option.some.inj stepped
          exact inv_serve inv listed asked answers
        · cases stepped
      · cases stepped
    · cases stepped
  | resolve i =>
    simp only [LookupWorld.step] at stepped
    split at stepped
    · next attempt listed =>
      obtain ⟨lookups, all, rfl⟩ := Option.map_eq_some_iff.mp stepped
      exact inv_resolve inv listed all
    · cases stepped
  | reject i error =>
    simp only [LookupWorld.step] at stepped
    split_ifs at stepped with listed
    obtain rfl := Option.some.inj stepped
    exact inv_reject inv error listed
  | write op =>
    obtain rfl := Option.some.inj stepped
    have learns := RowOp.learns inv.agrees sound
    exact inv_grows inv learns.agrees learns.grows
  | relink newLink =>
    obtain rfl := Option.some.inj stepped
    exact inv_grows inv (agreesWith_relink inv.agrees newLink) (grows_relink newLink w.db)

/-- What holds after any run of the page and the server. -/
theorem lookupInv_run (agrees : db.AgreesWith node) {actions : List LookupAction}
    (sound : Along LookupWorld.step (Sound node) (LookupWorld.initial db) actions)
    (ran : run LookupWorld.step (LookupWorld.initial db) actions = some w) :
    LookupInv node w :=
  run_induction_along (fun _ _ _ inv meets stepped => inv.step meets stepped)
    (lookupInv_initial agrees) sound ran

end Invariant

end MempoolObserver
