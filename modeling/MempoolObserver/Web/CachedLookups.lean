import MempoolObserver.Web.CacheInvariant

/-!
# What a page sees of its transaction cache

## Main results

* `one_lookup_at_a_time` — the attempts and what the page says of them
* `cached_rows_hold` — the cached rows and the server's
* `tick_asks_again` — what the interval asks for
* `cache_size_le`
-/

namespace MempoolObserver

open Collections Runs

/-! ### Runs -/

section Results

variable {node : Txid → NodeTx} {db : Db} {w next : LookupWorld} {actions : List LookupAction}

/-- At most one attempt is ever in flight, the page says so, and the server accepts each of its
requests, which ask for no txid twice. A page that is not loading and shows no error has an
answer for all it wants. -/
theorem one_lookup_at_a_time (agrees : db.AgreesWith node)
    (sound : Along LookupWorld.step (Sound node) (LookupWorld.initial db) actions)
    (ran : run LookupWorld.step (LookupWorld.initial db) actions = some w) :
    w.hook.inFlight.length ≤ 1 ∧ (w.hook.loading = true ↔ w.hook.inFlight ≠ []) ∧
      (∀ attempt ∈ w.hook.inFlight, (attempt.requests.flatMap LookupRequest.batch).Nodup ∧
        ∀ request ∈ attempt.requests, parseTxids (joinTxids request.batch) = .ok request.batch) ∧
      (w.hook.loading = false → w.hook.error = none → ∀ key, w.hook.key = some key →
        ∀ txid ∈ wantedOf key, txid ∈ w.hook.cache.known) := by
  rcases (lookupInv_run agrees sound ran).flight with idle | ⟨attempt, waits⟩
  · rw [idle.inFlight, idle.loading]
    refine ⟨Nat.zero_le _, by simp, ?_, fun _ => idle.settled⟩
    intro attempt listed
    cases listed
  · rw [waits.inFlight, waits.loading]
    refine ⟨le_rfl, by simp, fun other listed => ?_, fun quiet => by cases quiet⟩
    obtain rfl := List.mem_singleton.mp listed
    exact ⟨waits.nodup, waits.parses⟩

/-- No txid is both cached and missing, and what a cached row knows the server still says: a
complete row is the server's row but for its cluster. -/
theorem cached_rows_hold (agrees : db.AgreesWith node)
    (sound : Along LookupWorld.step (Sound node) (LookupWorld.initial db) actions)
    (ran : run LookupWorld.step (LookupWorld.initial db) actions = some w) :
    Disjoint w.hook.cache.txs.keys w.hook.cache.missing ∧
      ∀ txid ref, w.hook.cache.txs.get txid = some ref →
        ref.txid = txid ∧ ∃ row, Current w.db ref row := by
  have holds := (lookupInv_run agrees sound ran).holds
  refine ⟨holds.disjoint, fun txid ref held => ?_⟩
  exact ⟨Table.key_eq_of_get held, (holds.reads txid ref held).current⟩

/-- When the interval fires, every wanted txid without a complete row is asked for, and no
other: none of them was asked for less than a period ago. The server accepts each batch. -/
theorem tick_asks_again {key : String} (agrees : db.AgreesWith node)
    (sound : Along LookupWorld.step (Sound node) (LookupWorld.initial db) actions)
    (ran : run LookupWorld.step (LookupWorld.initial db) actions = some w)
    (inForce : w.hook.key = some key) (ticked : w.step .tick = some next) :
    ((next.hook.inFlight.flatMap Attempt.requests).flatMap LookupRequest.batch =
      (wantedOf key).filter fun txid =>
        !((w.hook.cacheRef.txs.get txid).any TransactionRef.complete)) ∧
      ∀ request ∈ next.hook.inFlight.flatMap Attempt.requests,
        request.batch.length ≤ txidsPerRequest ∧
          parseTxids (joinTxids request.batch) = .ok request.batch := by
  have inv := lookupInv_run agrees sound ran
  simp only [LookupWorld.step, inForce] at ticked
  split_ifs at ticked with due
  obtain rfl := Option.some.inj ticked
  have free := inFlight_eq_nil_of_due inv due
  have stale : ∀ txid, w.hook.rearm.isStale txid = true := by
    intro txid
    unfold TransactionCache.isStale
    cases noted : w.hook.lastAttemptRef txid with
    | none => simp [TransactionCache.rearm, noted]
    | some last =>
      have paced := (inv.keyed key inForce).paced txid last noted
      simp only [TransactionCache.rearm, noted]
      apply decide_eq_true
      omega
  have asked : (wantedOf key).filter w.hook.rearm.needs = (wantedOf key).filter fun txid =>
      !((w.hook.cacheRef.txs.get txid).any TransactionRef.complete) := by
    refine List.filter_congr fun txid _ => ?_
    unfold TransactionCache.needs
    rw [stale txid]
    simp only [TransactionCache.rearm, Bool.and_true, Bool.or_true]
    cases w.hook.cacheRef.txs.get txid <;> rfl
  have sent : (w.hook.rearm.attempt (wantedOf key)).inFlight.flatMap Attempt.requests =
      requestsFor ((wantedOf key).filter w.hook.rearm.needs) :=
    requests_attempt free
  rw [TransactionCache.fire, sent, flatMap_batch_requestsFor, asked]
  refine ⟨rfl, fun request listed => ⟨length_batch_of_mem_requestsFor listed, ?_⟩⟩
  apply parseTxids_of_mem_requestsFor ((inv.keyed key inForce).nodup.filter _) _ listed
  exact fun txid inside => (inv.keyed key inForce).valid txid (List.mem_of_mem_filter inside)

/-- Every list of wanted txids is short. -/
def Few (n : ℕ) (_ : LookupWorld) : LookupAction → Prop
  | .rerender txids => txids.toFinset.card ≤ n
  | _ => True

/-- The cache and what is wanted are bounded. -/
structure Bounded (n : ℕ) (hook : TransactionCache) : Prop where
  size : hook.cache.size ≤ max maxCached n
  wanted : ∀ key, hook.key = some key → (wantedOf key).toFinset.card ≤ n

theorem bounded_step {n : ℕ} {action : LookupAction} (inv : LookupInv node w)
    (sound : Sound node w action) (few : Few n w action) (bounded : Bounded n w.hook)
    (stepped : w.step action = some next) : Bounded n next.hook := by
  cases action with
  | rerender txids =>
    obtain rfl := Option.some.inj stepped
    simp only [TransactionCache.rerender]
    split_ifs with same
    · exact ⟨bounded.size, bounded.wanted⟩
    · refine ⟨by rw [cache_attempt]; exact bounded.size, fun key inForce => ?_⟩
      rw [key_attempt] at inForce
      obtain rfl : cacheKey txids = key := Option.some.inj inForce
      have listed : (wantedOf (cacheKey txids)).toFinset = txids.toFinset := by
        ext txid
        rw [List.mem_toFinset, List.mem_toFinset, mem_wantedOf_cacheKey sound]
      rw [listed]
      exact few
  | tick =>
    simp only [LookupWorld.step] at stepped
    split at stepped
    · split_ifs at stepped
      obtain rfl := Option.some.inj stepped
      rw [TransactionCache.fire]
      refine ⟨by rw [cache_attempt]; exact bounded.size, fun key inForce => ?_⟩
      rw [key_attempt] at inForce
      exact bounded.wanted key inForce
    · cases stepped
  | advance ms =>
    simp only [LookupWorld.step] at stepped
    split_ifs at stepped
    obtain rfl := Option.some.inj stepped
    exact ⟨bounded.size, bounded.wanted⟩
  | serve i j =>
    simp only [LookupWorld.step] at stepped
    split at stepped
    · split at stepped
      · split at stepped
        · obtain rfl := Option.some.inj stepped
          exact ⟨bounded.size, bounded.wanted⟩
        · cases stepped
      · cases stepped
    · cases stepped
  | resolve i =>
    simp only [LookupWorld.step] at stepped
    split at stepped
    · next attempt listed =>
      obtain ⟨lookups, all, rfl⟩ := Option.map_eq_some_iff.mp stepped
      refine ⟨?_, bounded.wanted⟩
      rcases inv.flight with idle | ⟨other, waits⟩
      · rw [idle.getElem?_eq] at listed
        cases listed
      · -- the merge keeps the cap unless more than that is wanted
        obtain ⟨rfl, rfl⟩ := waits.getElem?_eq listed
        obtain ⟨key, inForce, wanted⟩ := waits.keyed
        apply (Cache.size_evict_le (disjoint_lookups inv.holds waits all)).trans
        rw [wanted]
        exact max_le_max_left _ (bounded.wanted key inForce)
    · cases stepped
  | reject i error =>
    simp only [LookupWorld.step] at stepped
    split_ifs at stepped
    obtain rfl := Option.some.inj stepped
    exact ⟨bounded.size, bounded.wanted⟩
  | write op =>
    obtain rfl := Option.some.inj stepped
    exact bounded
  | relink newLink =>
    obtain rfl := Option.some.inj stepped
    exact bounded

/-- The cache never holds more than `maxCached` entries, unless a page wants more at once. -/
theorem cache_size_le {n : ℕ} (agrees : db.AgreesWith node)
    (sound : Along LookupWorld.step (Sound node) (LookupWorld.initial db) actions)
    (few : Along LookupWorld.step (Few n) (LookupWorld.initial db) actions)
    (ran : run LookupWorld.step (LookupWorld.initial db) actions = some w) :
    w.hook.cache.size ≤ max maxCached n := by
  have both : LookupInv node w ∧ Bounded n w.hook := by
    refine run_induction_along (motive := fun w => LookupInv node w ∧ Bounded n w.hook) ?_ ?_
      (sound.and few) ran
    · rintro w action next ⟨inv, bounded⟩ ⟨fine, short⟩ stepped
      exact ⟨inv.step fine stepped, bounded_step inv fine short bounded stepped⟩
    · refine ⟨lookupInv_initial agrees, ⟨Nat.zero_le _, fun key inForce => ?_⟩⟩
      cases inForce
  exact both.2.size

end Results

/-! ### A row that is asked for again -/

/-- The row of a wanted txid arrives hollow, and half a minute passes. -/
def hollowLookups : List LookupAction :=
  [.rerender [digitTxid 'b'], .write (.insertHollow [(digitTxid 'b', 7)]), .serve 0 0,
    .resolve 0, .rerender [digitTxid 'b'], .advance 30000]

theorem hollowLookups_ticks :
    ((run LookupWorld.step (.initial .empty) hollowLookups).bind fun w =>
      (w.step .tick).map fun _ => w.hook.key) = some (some (cacheKey [digitTxid 'b'])) := by
  decide +kernel

theorem agreesWith_empty (node : Txid → NodeTx) : Db.empty.AgreesWith node := by
  intro txid row stored
  cases stored

theorem hollowLookups_sound :
    Along LookupWorld.step (Sound evenNode) (.initial .empty) hollowLookups := by
  have valid : ∀ txid ∈ [digitTxid 'b'], isValidTxid txid = true := by decide +kernel
  apply along_of_forall_mem
  intro action listed w
  simp only [hollowLookups, List.mem_cons, List.not_mem_nil, or_false] at listed
  obtain rfl | rfl | rfl | rfl | rfl | rfl := listed
  · exact valid
  · trivial
  · trivial
  · trivial
  · exact valid
  · trivial

theorem one_lookup_of_hollowLookups :
    ∃ w, run LookupWorld.step (.initial .empty) hollowLookups = some w ∧
      w.hook.inFlight.length ≤ 1 := by
  obtain ⟨w, ran, -⟩ := Option.bind_eq_some_iff.mp hollowLookups_ticks
  exact ⟨w, ran, (one_lookup_at_a_time (agreesWith_empty evenNode) hollowLookups_sound ran).1⟩

theorem cached_rows_hold_hollowLookups :
    ∃ w, run LookupWorld.step (.initial .empty) hollowLookups = some w ∧
      Disjoint w.hook.cache.txs.keys w.hook.cache.missing := by
  obtain ⟨w, ran, -⟩ := Option.bind_eq_some_iff.mp hollowLookups_ticks
  exact ⟨w, ran, (cached_rows_hold (agreesWith_empty evenNode) hollowLookups_sound ran).1⟩

theorem tick_asks_for_hollow_row :
    ∃ w next, run LookupWorld.step (.initial .empty) hollowLookups = some w ∧
      w.step .tick = some next ∧
      ((next.hook.inFlight.flatMap Attempt.requests).flatMap LookupRequest.batch =
        (wantedOf (cacheKey [digitTxid 'b'])).filter fun txid =>
          !((w.hook.cacheRef.txs.get txid).any TransactionRef.complete)) ∧
        ∀ request ∈ next.hook.inFlight.flatMap Attempt.requests,
          request.batch.length ≤ txidsPerRequest ∧
            parseTxids (joinTxids request.batch) = .ok request.batch := by
  obtain ⟨w, ran, ticks⟩ := Option.bind_eq_some_iff.mp hollowLookups_ticks
  obtain ⟨next, ticked, inForce⟩ := Option.map_eq_some_iff.mp ticks
  exact ⟨w, next, ran, ticked,
    tick_asks_again (agreesWith_empty evenNode) hollowLookups_sound ran inForce ticked⟩

theorem cache_size_le_hollowLookups :
    ∃ w, run LookupWorld.step (.initial .empty) hollowLookups = some w ∧
      w.hook.cache.size ≤ max maxCached 1 := by
  obtain ⟨w, ran, -⟩ := Option.bind_eq_some_iff.mp hollowLookups_ticks
  have few : Along LookupWorld.step (Few 1) (.initial .empty) hollowLookups := by
    apply along_of_forall_mem
    intro action listed w
    simp only [hollowLookups, List.mem_cons, List.not_mem_nil, or_false] at listed
    obtain rfl | rfl | rfl | rfl | rfl | rfl := listed <;> simp [Few]
  exact ⟨w, ran, cache_size_le (agreesWith_empty evenNode) hollowLookups_sound few ran⟩

end MempoolObserver
