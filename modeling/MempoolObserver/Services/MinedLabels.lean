import MempoolObserver.Services.BlockExclusion

/-!
# Labels of mined transactions

The node, the poller and the `catch_up` loop around the schedule of ticks and
blocks. The node never reorganises: blocks are only ever appended, and a mined
transaction never comes back. The poller reads the mempool and submits what it
read some time later; a notification starts `catch_up`, which reads the tip and
our latest height and applies the heights in between one by one. Nothing fails.

The label of a remove is decided by the flush that writes it, so a departure
caused by a block is recorded as an eviction when the flush gets in first.
`mined_rows_labelled` says where the line runs: from the moment the block is granted
the gate it cannot, and until then it always does.
-/

namespace MempoolObserver

open Relation

structure Node where
  /-- The best chain, lowest block first. -/
  chain : List GetBlockModel
  mempool : Finset Txid
  distinct : (chain.map GetBlockModel.hash).Nodup

namespace Node

def getBlock (node : Node) (hash : String) : Option GetBlockModel :=
  node.chain.find? fun block => block.hash = hash

def getTipHeight (node : Node) : Int := (node.chain.getLast?.map GetBlockModel.height).getD 0

def getBlockHash (node : Node) (height : Int) : Option String :=
  (node.chain.find? fun block => block.height = height).map GetBlockModel.hash

/-- The node connects a block of transactions not mined before. -/
def connect (node : Node) (block : GetBlockModel) : Option Node :=
  if fresh : block.hash ∉ node.chain.map GetBlockModel.hash then
    if block.height = node.getTipHeight + 1 ∧
        ∀ txid ∈ block.txids, ∀ old ∈ node.chain, txid ∉ old.txids then
      some
        { chain := node.chain ++ [block]
          mempool := node.mempool \ block.txids.toFinset
          distinct := by
            rw [List.map_append, List.nodup_append]
            exact ⟨node.distinct, by simp, by simpa using fresh⟩ }
    else none
  else none

theorem mem_chain_of_getBlock {node : Node} {hash : String} {block : GetBlockModel}
    (found : node.getBlock hash = some block) : block ∈ node.chain ∧ block.hash = hash :=
  ⟨List.mem_of_find?_eq_some found, by simpa using List.find?_some found⟩

theorem exists_getBlock_of_getBlockHash {node : Node} {height : Int} {hash : String}
    (found : node.getBlockHash height = some hash) : ∃ block, node.getBlock hash = some block := by
  obtain ⟨block, mined, rfl⟩ := Option.map_eq_some_iff.mp found
  apply Option.isSome_iff_exists.mp
  exact List.find?_isSome.mpr ⟨block, List.mem_of_find?_eq_some mined, by simp⟩

theorem chain_connect {node next : Node} {block : GetBlockModel}
    (h : node.connect block = some next) : next.chain = node.chain ++ [block] := by
  unfold connect at h
  split_ifs at h
  cases h
  rfl

end Node

/-- Where `persist_blocks_and_txs` stands. -/
inductive SyncPc where
  | waiting
  | reading
  | tipKnown (tip : Int)
  /-- `get_block_hash` of the next height to apply. -/
  | applying (height tip : Int)
  | inBlock (height tip : Int)
  deriving DecidableEq, Repr

structure World where
  system : System
  node : Node
  /-- What the poller read and has not submitted yet. -/
  polled : Option (Finset Txid)
  notifications : ℕ
  sync : SyncPc

inductive WorldOp where
  | connect (block : GetBlockModel)
  | accept (txid : Txid)
  | evict (txid : Txid)
  | poll
  | submit (call : Call)
  | notify
  | readTip
  | readLatest
  | startBlock
  | fetchBlock
  | finishBlock
  | system (op : SystemOp)

/-- The operations left to the schedule: no failure, no cancellation, and the
cluster service asserts what the node's mempool bears out. -/
def SystemOp.allowed (node : Node) : SystemOp → Bool
  | produce (.submitAuthoritative _ _) => false
  | produce (.assertPresent _ txids) => decide (∀ txid ∈ txids, txid ∈ node.mempool)
  | produce (.assertAbsent _ txids) => decide (∀ txid ∈ txids, txid ∉ node.mempool)
  | tick .fail => false
  | block (.start _) | block (.fetched _) | block .finish | block .cancel | block .fail => false
  | _ => true

namespace World

def initial (now : ℕ) (ledger : MempoolLedger) (db : Db) (node : Node) : World :=
  ⟨.initial now ledger db, node, none, 0, .waiting⟩

/-- One step, `none` when the operation is not possible. -/
def step (w : World) : WorldOp → Option World
  | .connect block => (w.node.connect block).map fun node =>
    { w with node := node, notifications := w.notifications + 1 }
  | .accept txid =>
    if ∀ block ∈ w.node.chain, txid ∉ block.txids then
      some { w with node := { w.node with mempool := insert txid w.node.mempool } }
    else none
  | .evict txid => some { w with node := { w.node with mempool := w.node.mempool.erase txid } }
  | .poll => some { w with polled := some w.node.mempool }
  | .submit call =>
    match w.polled with
    | some txids => (w.system.step (.produce (.submitAuthoritative call txids))).map fun system =>
      { w with system := system, polled := none }
    | none => none
  | .notify =>
    match w.sync, w.notifications with
    | .waiting, notifications + 1 =>
      some { w with sync := .reading, notifications := notifications }
    | _, _ => none
  | .readTip =>
    match w.sync with
    | .reading => some { w with sync := .tipKnown w.node.getTipHeight }
    | _ => none
  | .readLatest =>
    match w.sync with
    | .tipKnown tip =>
      let height := match w.system.db.latestHeight with
        | some latest => latest + 1
        -- an empty database starts from the tip
        | none => tip
      some { w with sync := if tip < height then .waiting else .applying height tip }
    | _ => none
  | .startBlock =>
    match w.sync with
    | .applying height tip =>
      (w.node.getBlockHash height).bind fun hash =>
        (w.system.step (.block (.start hash))).map fun system =>
          { w with system := system, sync := .inBlock height tip }
    | _ => none
  | .fetchBlock =>
    match w.system.block with
    | some ⟨hash, .fetching⟩ =>
      (w.node.getBlock hash).bind fun block =>
        (w.system.step (.block (.fetched block))).map fun system => { w with system := system }
    | _ => none
  | .finishBlock =>
    match w.sync with
    | .inBlock height tip => (w.system.step (.block .finish)).map fun system =>
      { w with
        system := system
        -- the tip is read again after each pass
        sync := if height < tip then .applying (height + 1) tip else .reading }
    | _ => none
  | .system op =>
    if op.allowed w.node then
      (w.system.step op).map fun system => { w with system := system }
    else none

/-- A step that leaves no hold of the gate at `maxHold`. -/
def Step (w next : World) : Prop := ∃ op, w.step op = some next ∧ next.system.Timely

/-- A whole schedule, `none` when some operation of it is not possible or leaves
a hold at `maxHold`. -/
def steps (w : World) (ops : List WorldOp) : Option World :=
  ops.foldlM (fun w op => (w.step op).filter fun next => next.system.Timely) w

theorem run_of_steps {w last : World} {ops : List WorldOp} (h : w.steps ops = some last) :
    ReflTransGen World.Step w last := by
  refine Collections.foldlM_option_induction (motive := ReflTransGen World.Step w) ?_ .refl h
  intro mid op _ next run stepped
  obtain ⟨step, timely⟩ := Option.filter_eq_some_iff.mp stepped
  exact run.tail ⟨op, step, of_decide_eq_true timely⟩

end World

/-! ### What a step does to the schedule and to the chain -/

/-- The operation fails nothing, and a block asked for or fetched is the node's. -/
def SystemOp.Clean (w : World) : SystemOp → Prop
  | block (.start hash) => ∃ block, w.node.getBlock hash = some block
  | block (.fetched fetched) =>
    ∃ hash, w.system.block = some ⟨hash, .fetching⟩ ∧ w.node.getBlock hash = some fetched
  | block .cancel | block .fail => False
  | _ => True

theorem World.system_step {w next : World} {op : WorldOp} (h : w.step op = some next) :
    next.system = w.system ∨ ∃ op, w.system.step op = some next.system ∧ op.Clean w := by
  -- Either the world outside moves and the system stays, or the system takes one step.
  cases op with
  | connect block =>
    simp only [step] at h
    obtain ⟨node, -, rfl⟩ := Option.map_eq_some_iff.mp h
    exact .inl rfl
  | accept txid =>
    simp only [step] at h
    split_ifs at h
    cases h
    exact .inl rfl
  | evict | poll =>
    cases h
    exact .inl rfl
  | submit call =>
    simp only [step] at h
    split at h
    · obtain ⟨system, submitted, rfl⟩ := Option.map_eq_some_iff.mp h
      exact .inr ⟨_, submitted, trivial⟩
    · cases h
  | notify | readTip | readLatest =>
    simp only [step] at h
    split at h <;> cases h
    exact .inl rfl
  | startBlock =>
    simp only [step] at h
    split at h
    · obtain ⟨hash, found, h⟩ := Option.bind_eq_some_iff.mp h
      obtain ⟨system, started, rfl⟩ := Option.map_eq_some_iff.mp h
      exact .inr ⟨_, started, Node.exists_getBlock_of_getBlockHash found⟩
    · cases h
  | fetchBlock =>
    simp only [step] at h
    split at h
    · rename_i hash fetching
      obtain ⟨block, found, h⟩ := Option.bind_eq_some_iff.mp h
      obtain ⟨system, fetched, rfl⟩ := Option.map_eq_some_iff.mp h
      exact .inr ⟨_, fetched, hash, fetching, found⟩
    · cases h
  | finishBlock =>
    simp only [step] at h
    split at h
    · obtain ⟨system, finished, rfl⟩ := Option.map_eq_some_iff.mp h
      exact .inr ⟨_, finished, trivial⟩
    · cases h
  | system op =>
    simp only [step] at h
    split_ifs at h with allowed
    obtain ⟨system, stepped, rfl⟩ := Option.map_eq_some_iff.mp h
    -- The steps that would not be clean are those the world takes by itself.
    refine .inr ⟨op, stepped, ?_⟩
    unfold SystemOp.Clean
    split
    · simp [SystemOp.allowed] at allowed
    · simp [SystemOp.allowed] at allowed
    · simp [SystemOp.allowed] at allowed
    · simp [SystemOp.allowed] at allowed
    · trivial

theorem World.chain_step {w next : World} {op : WorldOp} (h : w.step op = some next) :
    w.node.chain <+: next.node.chain := by
  -- Only a new block changes the chain, and it goes on its end.
  cases op with
  | connect block =>
    simp only [step] at h
    obtain ⟨node, connected, rfl⟩ := Option.map_eq_some_iff.mp h
    simp only [Node.chain_connect connected]
    exact List.prefix_append ..
  | accept txid =>
    simp only [step] at h
    split_ifs at h
    cases h
    exact List.prefix_rfl
  | evict | poll =>
    cases h
    exact List.prefix_rfl
  | notify | readTip | readLatest =>
    simp only [step] at h
    split at h <;> cases h
    exact List.prefix_rfl
  | submit | finishBlock =>
    simp only [step] at h
    split at h
    · obtain ⟨system, -, rfl⟩ := Option.map_eq_some_iff.mp h
      exact List.prefix_rfl
    · cases h
  | startBlock | fetchBlock =>
    simp only [step] at h
    split at h
    · obtain ⟨_, -, h⟩ := Option.bind_eq_some_iff.mp h
      obtain ⟨system, -, rfl⟩ := Option.map_eq_some_iff.mp h
      exact List.prefix_rfl
    · cases h
  | system op =>
    simp only [step] at h
    split_ifs at h
    obtain ⟨system, -, rfl⟩ := Option.map_eq_some_iff.mp h
    exact List.prefix_rfl

/-- A block the node has, it keeps. -/
theorem World.getBlock_step {w next : World} {op : WorldOp} (h : w.step op = some next)
    {hash : String} {block : GetBlockModel} (known : w.node.getBlock hash = some block) :
    next.node.getBlock hash = some block := by
  obtain ⟨later, appended⟩ := chain_step h
  unfold Node.getBlock at known ⊢
  rw [← appended, List.find?_append, known]
  rfl

/-- No confirmation is ever taken back. -/
theorem System.isConfirmed_step {s next : System} {op : SystemOp} (inv : SystemInv s)
    (h : s.step op = some next) {txid : Txid} (confirmed : s.db.isConfirmed txid = true) :
    next.db.isConfirmed txid = true := by
  obtain same | ⟨batch, tx, writing, -, -, rfl⟩ | ⟨hash, block, seenAt, db, -, inserted, -, rfl⟩ :=
    db_step h
  · rw [same.isConfirmed, confirmed]
  · rw [BatchTx.isConfirmed_commit (inv.batch batch tx writing).1, confirmed]
  · exact (Db.isConfirmed_insertWithTransactions (by simp [GetBlockModel.newTransactions])
      inserted txid).mpr (.inr confirmed)

/-! ### From the grant on -/

/-- The block's `acquire` has returned, and either its transactions are
confirmed or its insert is the next thing it writes. -/
structure Granted (hash : String) (block : GetBlockModel) (w : World) : Prop where
  known : w.node.getBlock hash = some block
  progress : w.system.block = some ⟨hash, .fetching⟩ ∨
    w.system.block = some ⟨hash, .inserting block⟩ ∨
    ∀ txid ∈ block.txids, w.system.db.isConfirmed txid = true

theorem Granted.step {hash : String} {block : GetBlockModel} {w next : World} {op : WorldOp}
    (granted : Granted hash block w) (inv : SystemInv w.system) (h : w.step op = some next) :
    Granted hash block next := by
  refine ⟨World.getBlock_step h granted.known, ?_⟩
  obtain same | ⟨op, step, clean⟩ := World.system_step h
  · rw [same]
    exact granted.progress
  generalize next.system = after at step ⊢
  -- Three stages of the hold: the block fetched, being inserted, its transactions confirmed.
  rcases granted.progress with fetching | inserting | confirmed
  · cases op with
    | block op =>
      cases System.stepBlock_cases step with
      | fetched was =>
        obtain ⟨known, asked, found⟩ := clean
        rw [fetching] at was asked
        cases was
        cases asked
        obtain rfl := Option.some.inj (found.symm.trans granted.known)
        exact .inr (.inl rfl)
      -- A hold that is dropped is no clean step.
      | cancel | fail => exact clean.elim
      | start other | lock other | grant other | insert other | assertAbsent other
      | clusterTx other | finish other =>
        rw [fetching] at other
        cases other
    | tick op => exact .inl ((System.block_stepTick step).trans fetching)
    | advance elapsed =>
      obtain ⟨gate, -, rfl⟩ := System.step_advance step
      exact .inl fetching
    | produce | backfillRaw | backfillFee =>
      cases step
      exact .inl fetching
  · cases op with
    | block op =>
      cases System.stepBlock_cases step with
      | insert was inserted =>
        rw [inserting] at was
        cases was
        refine .inr (.inr fun txid member => ?_)
        refine (Db.isConfirmed_insertWithTransactions (by simp [GetBlockModel.newTransactions])
          inserted txid).mpr (.inl ?_)
        simpa [GetBlockModel.newTransactions, GetBlockModel.txids] using member
      | cancel | fail => exact clean.elim
      | start other | lock other | grant other | fetched other | assertAbsent other
      | clusterTx other | finish other =>
        rw [inserting] at other
        cases other
    | tick op => exact .inr (.inl ((System.block_stepTick step).trans inserting))
    | advance elapsed =>
      obtain ⟨gate, -, rfl⟩ := System.step_advance step
      exact .inr (.inl inserting)
    | produce | backfillRaw | backfillFee =>
      cases step
      exact .inr (.inl inserting)
  -- What is confirmed stays confirmed, whatever comes after.
  · exact .inr (.inr fun txid member => System.isConfirmed_step inv step (confirmed txid member))

theorem World.exclusion_step {w next : World} (inv : ExclusionInv w.system) (h : w.Step next) :
    ExclusionInv next.system := by
  obtain ⟨op, step, timely⟩ := h
  obtain same | ⟨op, step, -⟩ := World.system_step step
  · exact same ▸ inv
  · exact inv.step ⟨⟨op, step⟩, timely⟩

theorem World.exclusion_run {first w : World} (inv : ExclusionInv first.system)
    (run : ReflTransGen World.Step first w) : ExclusionInv w.system := by
  induction run with
  | refl => exact inv
  | tail _ step ih => exact exclusion_step ih step

theorem Granted.run {hash : String} {block : GetBlockModel} {first w : World}
    (granted : Granted hash block first) (inv : ExclusionInv first.system)
    (run : ReflTransGen World.Step first w) : Granted hash block w := by
  induction run with
  | refl => exact granted
  | tail run step ih =>
    obtain ⟨op, step, -⟩ := step
    exact ih.step (World.exclusion_run inv run).system step

/-! ### Before the grant -/

/-- What a step does to the block at work: it is a new one that the node has, or the one from
before, which is inserted as the node answered it. -/
theorem World.block_step {w next : World} {op : WorldOp} (h : w.step op = some next)
    {run : BlockRun} (after : next.system.block = some run) :
    (∃ block, w.node.getBlock run.hash = some block) ∧ run.stage = .acquiring ∨
      ∃ before, w.system.block = some before ∧ before.hash = run.hash ∧
        ∀ block, run.stage = .inserting block → before.stage = .inserting block ∨
          before.stage = .fetching ∧ w.node.getBlock run.hash = some block := by
  obtain same | ⟨op, step, clean⟩ := World.system_step h
  · rw [same] at after
    exact .inr ⟨run, after, rfl, fun block inserting => .inl inserting⟩
  generalize next.system = system at step after
  have kept (unchanged : w.system.block = some run) :
      ∃ before, w.system.block = some before ∧ before.hash = run.hash ∧
        ∀ block, run.stage = .inserting block → before.stage = .inserting block ∨
          before.stage = .fetching ∧ w.node.getBlock run.hash = some block :=
    ⟨run, unchanged, rfl, fun block inserting => .inl inserting⟩
  cases op with
  | advance elapsed =>
    obtain ⟨gate, -, rfl⟩ := System.step_advance step
    exact .inr (kept after)
  | produce | backfillRaw | backfillFee =>
    cases step
    exact .inr (kept after)
  | tick op => exact .inr (kept ((System.block_stepTick step).symm.trans after))
  | block op =>
    cases System.stepBlock_cases step with
    | start =>
      cases after
      exact .inl ⟨clean, rfl⟩
    | lock | clusterTx => exact .inr (kept after)
    | grant was | insert was | assertAbsent was =>
      cases after
      exact .inr ⟨_, was, rfl, fun block inserting => by cases inserting⟩
    | fetched was =>
      cases after
      obtain ⟨hash, asked, found⟩ := clean
      cases was.symm.trans asked
      refine .inr ⟨_, was, rfl, fun block inserting => .inr ⟨rfl, ?_⟩⟩
      cases inserting
      exact found
    | cancel | finish | fail => cases after

/-- The block at work is one the node has. -/
def World.Known (w : World) : Prop :=
  ∀ run, w.system.block = some run → ∃ block, w.node.getBlock run.hash = some block

theorem World.known_step {w next : World} {op : WorldOp} (known : w.Known)
    (h : w.step op = some next) : next.Known := by
  intro run after
  rcases World.block_step h after with ⟨⟨block, found⟩, -⟩ | ⟨before, was, same, -⟩
  · exact ⟨block, World.getBlock_step h found⟩
  · obtain ⟨block, found⟩ := known before was
    exact ⟨block, World.getBlock_step h (same ▸ found)⟩

theorem World.known_run {now : ℕ} {ledger : MempoolLedger} {db : Db} {node : Node} {w : World}
    (run : ReflTransGen World.Step (.initial now ledger db node) w) : w.Known := by
  induction run with
  | refl =>
    intro run work
    cases work
  | tail _ step ih =>
    obtain ⟨op, step, -⟩ := step
    exact World.known_step ih step

theorem World.getBlock_run {first w : World} {hash : String} {block : GetBlockModel}
    (known : first.node.getBlock hash = some block) (run : ReflTransGen World.Step first w) :
    w.node.getBlock hash = some block := by
  induction run with
  | refl => exact known
  | tail _ step ih =>
    obtain ⟨op, step, -⟩ := step
    exact World.getBlock_step step ih

/-- A step after which the block of the hash has not just been granted the gate. -/
def World.UngrantedStep (hash : String) (w next : World) : Prop :=
  w.Step next ∧ next.system.block ≠ some ⟨hash, .fetching⟩

theorem World.run_of_ungranted {hash : String} {first w : World}
    (run : ReflTransGen (World.UngrantedStep hash) first w) : ReflTransGen World.Step first w := by
  induction run with
  | refl => exact .refl
  | tail _ step ih => exact ih.tail step.1

/-- Until its block is granted, only another block can have confirmed a transaction. -/
structure Ungranted (hash : String) (txid : Txid) (w : World) : Prop where
  once : ∀ a ∈ w.node.chain, ∀ b ∈ w.node.chain, txid ∈ a.txids → txid ∈ b.txids → a = b
  fetching : w.system.block ≠ some ⟨hash, .fetching⟩
  inserting : ∀ other block, w.system.block = some ⟨other, .inserting block⟩ →
    other ≠ hash ∧ w.node.getBlock other = some block
  confirmed : w.system.db.isConfirmed txid = true →
    ∃ other block, other ≠ hash ∧ w.node.getBlock other = some block ∧ txid ∈ block.txids

theorem Ungranted.initial {hash : String} {txid : Txid} {now : ℕ} {ledger : MempoolLedger}
    {db : Db} {node : Node} (unmined : ∀ old ∈ node.chain, txid ∉ old.txids)
    (unconfirmed : db.isConfirmed txid = false) :
    Ungranted hash txid (.initial now ledger db node) where
  once a listed _ _ mined _ := absurd mined (unmined a listed)
  fetching work := by cases work
  inserting _ _ work := by cases work
  confirmed already := by cases unconfirmed.symm.trans already

/-- A transaction is mined once: the node connects no block that mines it again. -/
theorem Ungranted.once_step {hash : String} {txid : Txid} {w next : World} {op : WorldOp}
    (ungranted : Ungranted hash txid w) (h : w.step op = some next) :
    ∀ a ∈ next.node.chain, ∀ b ∈ next.node.chain, txid ∈ a.txids → txid ∈ b.txids → a = b := by
  have kept (same : next.node.chain = w.node.chain) : ∀ a ∈ next.node.chain,
      ∀ b ∈ next.node.chain, txid ∈ a.txids → txid ∈ b.txids → a = b := by
    rw [same]
    exact ungranted.once
  cases op with
  | connect block =>
    simp only [World.step] at h
    obtain ⟨node, connected, rfl⟩ := Option.map_eq_some_iff.mp h
    have appended := Node.chain_connect connected
    unfold Node.connect at connected
    split_ifs at connected with fresh fits
    have apart : ∀ old ∈ w.node.chain, txid ∈ old.txids → txid ∉ block.txids :=
      fun old listed mined again => fits.2 txid again old listed mined
    simp only [appended, List.mem_append, List.mem_singleton]
    rintro a (old | rfl) b (older | rfl) inA inB
    · exact ungranted.once a old b older inA inB
    · exact absurd inB (apart a old inA)
    · exact absurd inA (apart b older inB)
    · rfl
  | accept txid =>
    simp only [World.step] at h
    split_ifs at h
    cases h
    exact kept rfl
  | evict | poll =>
    cases h
    exact kept rfl
  | notify | readTip | readLatest =>
    simp only [World.step] at h
    split at h <;> cases h
    exact kept rfl
  | submit | finishBlock =>
    simp only [World.step] at h
    split at h
    · obtain ⟨system, -, rfl⟩ := Option.map_eq_some_iff.mp h
      exact kept rfl
    · cases h
  | startBlock | fetchBlock =>
    simp only [World.step] at h
    split at h
    · obtain ⟨_, -, h⟩ := Option.bind_eq_some_iff.mp h
      obtain ⟨system, -, rfl⟩ := Option.map_eq_some_iff.mp h
      exact kept rfl
    · cases h
  | system op =>
    simp only [World.step] at h
    split_ifs at h
    obtain ⟨system, -, rfl⟩ := Option.map_eq_some_iff.mp h
    exact kept rfl

theorem Ungranted.step {hash : String} {txid : Txid} {w next : World}
    (ungranted : Ungranted hash txid w) (inv : SystemInv w.system)
    (h : w.UngrantedStep hash next) : Ungranted hash txid next := by
  obtain ⟨⟨op, step, -⟩, fetching⟩ := h
  refine ⟨ungranted.once_step step, fetching, fun other block work => ?_, fun already => ?_⟩
  · rcases World.block_step step work with ⟨-, acquiring⟩ | ⟨before, was, same, fetched⟩
    · cases acquiring
    · obtain ⟨_, stage⟩ := before
      cases same
      rcases fetched block rfl with rfl | ⟨rfl, found⟩
      · obtain ⟨differs, found⟩ := ungranted.inserting _ block was
        exact ⟨differs, World.getBlock_step step found⟩
      · refine ⟨?_, World.getBlock_step step found⟩
        rintro rfl
        exact ungranted.fetching was
  · -- Only the insert of a block confirms anything, and it is the node's block.
    have before : w.system.db.isConfirmed txid = true ∨
        ∃ other block, other ≠ hash ∧ w.node.getBlock other = some block ∧ txid ∈ block.txids := by
      obtain same | ⟨op, moved, -⟩ := World.system_step step
      · exact .inl (same ▸ already)
      obtain same | ⟨batch, tx, writing, -, -, next⟩ |
        ⟨other, block, seenAt, db, inserting, inserted, -, next⟩ := System.db_step moved
      · exact .inl ((same.isConfirmed txid).symm.trans already)
      · rw [next, BatchTx.isConfirmed_commit (inv.batch batch tx writing).1] at already
        exact .inl already
      · rw [next] at already
        rcases (Db.isConfirmed_insertWithTransactions (by simp [GetBlockModel.newTransactions])
          inserted txid).mp already with mined | confirmed
        · obtain ⟨differs, found⟩ := ungranted.inserting other block inserting
          refine .inr ⟨other, block, differs, found, ?_⟩
          simpa [GetBlockModel.newTransactions, GetBlockModel.txids] using mined
        · exact .inl confirmed
    rcases before with confirmed | mined
    · obtain ⟨other, block, differs, found, mined⟩ := ungranted.confirmed confirmed
      exact ⟨other, block, differs, World.getBlock_step step found, mined⟩
    · obtain ⟨other, block, differs, found, mined⟩ := mined
      exact ⟨other, block, differs, World.getBlock_step step found, mined⟩

theorem Ungranted.run {hash : String} {txid : Txid} {first w : World}
    (ungranted : Ungranted hash txid first) (inv : ExclusionInv first.system)
    (run : ReflTransGen (World.UngrantedStep hash) first w) :
    Ungranted hash txid w ∧ ExclusionInv w.system := by
  induction run with
  | refl => exact ⟨ungranted, inv⟩
  | tail _ step ih => exact ⟨ih.1.step ih.2.system step, World.exclusion_step ih.2 step.1⟩

/-- A transaction of a block that has not been granted the gate is not confirmed yet. -/
theorem Ungranted.isConfirmed_eq_false {hash : String} {txid : Txid} {w : World}
    {block : GetBlockModel} (ungranted : Ungranted hash txid w)
    (mined : w.node.getBlock hash = some block) (member : txid ∈ block.txids) :
    w.system.db.isConfirmed txid = false := by
  rw [← Bool.not_eq_true]
  intro already
  obtain ⟨other, block', differs, found, also⟩ := ungranted.confirmed already
  obtain ⟨listed, named⟩ := Node.mem_chain_of_getBlock mined
  obtain ⟨listed', named'⟩ := Node.mem_chain_of_getBlock found
  have same := ungranted.once block listed block' listed' member also
  exact differs (by rw [← named', ← named, same])

/-! ### The labels -/

theorem DeltaReason.eq_removeEvicted {reason : DeltaReason} (removed : reason.direction = .remove)
    (other : reason ≠ .removeConfirmed) : reason = .removeEvicted := by
  cases reason with
  | addMempool => cases removed
  | removeConfirmed => exact absurd rfl other
  | removeEvicted => rfl

theorem Granted.isConfirmed_of_commit {hash : String} {block : GetBlockModel} {w : World}
    {system : System} (granted : Granted hash block w) (inv : ExclusionInv w.system)
    (stepped : w.system.step (.tick .commitDb) = some system) {txid : Txid}
    (member : txid ∈ block.txids) : w.system.db.isConfirmed txid = true := by
  -- a tick is at work, so the block is past its insert
  have working : w.system.tick ≠ .idle :=
    System.tick_of_writes (show TickOp.commitDb.Writes from trivial) stepped
  have notHeld := inv.system.not_held_of_tick inv.timely working
  rw [inv.system.phase] at notHeld
  rcases granted.progress with fetching | inserting | confirmed
  · simp [System.blockPhase, fetching] at notHeld
  · simp [System.blockPhase, inserting] at notHeld
  · exact confirmed txid member

/-- **Labels turn with the grant.** Under every schedule of poller, ticks, notifications and
`catch_up`, with no failure and no hold reaching `maxHold`: once `acquire` has returned for a
block, every remove of one of its transactions that a flush commits is labelled confirmed. Up to
then, the removes of transactions that the block is the first to mine are labelled evicted. -/
theorem mined_rows_labelled {now : ℕ} {ledger : MempoolLedger} {db : Db} {node : Node}
    {w next : World} {hash : String} {block : GetBlockModel}
    (ran : ReflTransGen World.Step (.initial now ledger db node) w)
    (mined : w.node.getBlock hash = some block)
    (committed : w.step (.system (.tick .commitDb)) = some next) :
    ∃ rows, next.system.db.mempoolDeltas = w.system.db.mempoolDeltas ++ rows ∧
      ∀ row ∈ rows, row.txid ∈ block.txids → row.reason.direction = .remove →
        (∀ granted, ReflTransGen World.Step (.initial now ledger db node) granted →
          granted.system.block = some ⟨hash, .fetching⟩ → ReflTransGen World.Step granted w →
            row.reason = .removeConfirmed) ∧
        (ReflTransGen (World.UngrantedStep hash) (.initial now ledger db node) w →
          (∀ old ∈ node.chain, row.txid ∉ old.txids) → db.isConfirmed row.txid = false →
            row.reason = .removeEvicted) := by
  have start : ExclusionInv (World.initial now ledger db node).system := .initial now ledger db
  have inv := World.exclusion_run start ran
  simp only [World.step, SystemOp.allowed, if_true] at committed
  obtain ⟨system, stepped, rfl⟩ := Option.map_eq_some_iff.mp committed
  obtain ⟨rows, appended, labels⟩ := inv.commitDb_labels stepped
  refine ⟨rows, appended, fun row written member removed => ⟨?_, ?_⟩⟩
  · intro granted before returned after
    obtain ⟨known, found⟩ := World.known_run before _ returned
    -- the node answered with the block it still has
    obtain rfl : known = block :=
      Option.some.inj ((World.getBlock_run found after).symm.trans mined)
    have progress := Granted.run ⟨found, .inl returned⟩ (World.exclusion_run start before) after
    apply (labels row written removed).mpr
    apply System.isConfirmed_step inv.system stepped
    exact progress.isConfirmed_of_commit inv stepped member
  · intro ungranted unmined unconfirmed
    apply DeltaReason.eq_removeEvicted removed
    intro confirmed
    -- the commit itself confirms nothing
    obtain ⟨batch, tx, writing, -⟩ := System.stepTick_commitDb stepped
    have already := (labels row written removed).mp confirmed
    rw [inv.isConfirmed_step stepped writing] at already
    obtain ⟨unheld, -⟩ := (Ungranted.initial unmined unconfirmed).run start ungranted
    cases (unheld.isConfirmed_eq_false mined member).symm.trans already

/-! ### A flush that gets in first -/

/-- A node that has mined `g` and holds `t`, which we have stored as resident. -/
def residentNode : Node := ⟨[⟨"g", 10, 50, []⟩], {"t"}, by simp⟩

def residentDb : Db :=
  { Db.empty with
    mempoolDeltas := [⟨"t", .addMempool, 0⟩]
    blocks := [⟨"g", 10, 50⟩] }

def resident : World := .initial 0 ⟨{"t"}, [], false⟩ residentDb residentNode

/-- The block that mines `t`. -/
def miningBlock : GetBlockModel := ⟨"h", 11, 100, [⟨"t", 400, 10, []⟩]⟩

/-- The tick up to the commit of a batch with one remove. -/
def flushOneRemove (call : Call) : List WorldOp :=
  [.system (.tick .tryLock), .system (.tick .checkHeld), .system (.tick (.beginFlush call)),
    .system (.tick .bailIf), .system (.tick .exec), .system (.tick .proceed),
    .system (.tick .bailIf), .system (.tick .exec), .system (.tick .proceed),
    .system (.tick .proceed), .system (.tick .proceed), .system (.tick .bailIf)]

/-- The clock and the hash order of the calls below. -/
def pollerCall : Call := ⟨fun _ => 7, .sorted _⟩

/-- The block is connected and polled, and a tick commits before the
notification is handled: `t` was mined and is recorded as evicted. -/
theorem flush_before_block_evicts :
    ∃ w, ReflTransGen World.Step resident w ∧
      resident.steps ([.connect miningBlock, .poll, .submit pollerCall] ++
        flushOneRemove pollerCall ++ [.system (.tick .commitDb)]) = some w ∧
      "t" ∈ resident.system.ledger.live ∧ "t" ∈ resident.node.mempool ∧
      miningBlock ∈ w.node.chain ∧ "t" ∈ miningBlock.txids ∧
      w.system.db.mempoolDeltas = [⟨"t", .addMempool, 0⟩, ⟨"t", .removeEvicted, 7⟩] := by
  obtain ⟨w, stepped⟩ : ∃ w, resident.steps ([.connect miningBlock, .poll, .submit pollerCall] ++
      flushOneRemove pollerCall ++ [.system (.tick .commitDb)]) = some w :=
    Option.isSome_iff_exists.mp (by decide)
  refine ⟨w, World.run_of_steps stepped, stepped, by decide, by decide, ?_⟩
  obtain rfl : _ = w := Option.some.inj stepped
  exact ⟨by decide, by decide, rfl⟩

/-- The block is picked up and granted the gate. -/
def grantBlock : List WorldOp :=
  [.connect miningBlock, .notify, .readTip, .readLatest, .startBlock, .system (.block .lock),
    .system (.block .grant)]

/-- The block is applied, and a tick writes the remove it queued. -/
def applyThenFlush : List WorldOp :=
  [.fetchBlock, .system (.block (.insert 90)), .system (.block (.assertAbsent pollerCall)),
    .finishBlock] ++ flushOneRemove pollerCall

/-- The departure is polled and about to be flushed while its block waits to be picked up. -/
def pollThenFlush : List WorldOp :=
  [.connect miningBlock, .poll, .submit pollerCall] ++ flushOneRemove pollerCall

/-- A schedule that begins no block. -/
def World.idleSteps (w : World) (ops : List WorldOp) : Option World :=
  ops.foldlM (fun w op => (w.step op).filter fun next =>
    next.system.Timely ∧ next.system.block.isNone = true) w

theorem World.ungranted_of_idleSteps {w last : World} {ops : List WorldOp} (hash : String)
    (h : w.idleSteps ops = some last) :
    ReflTransGen (World.UngrantedStep hash) w last := by
  refine Collections.foldlM_option_induction
    (motive := ReflTransGen (World.UngrantedStep hash) w) ?_ .refl h
  intro mid op _ next run stepped
  obtain ⟨step, kept⟩ := Option.filter_eq_some_iff.mp stepped
  obtain ⟨timely, idle⟩ := of_decide_eq_true kept
  refine run.tail ⟨⟨op, step, timely⟩, ?_⟩
  rw [Option.isNone_iff_eq_none.mp idle]
  intro work
  cases work

/-- The same departure flushed before its block is granted the gate, and after. -/
theorem flush_labels_by_grant :
    (∃ w next rows, ReflTransGen World.Step resident w ∧
      w.step (.system (.tick .commitDb)) = some next ∧
      next.system.db.mempoolDeltas = w.system.db.mempoolDeltas ++ rows ∧ rows ≠ [] ∧
      ∀ row ∈ rows, row.txid ∈ miningBlock.txids → row.reason.direction = .remove →
        row.reason = .removeEvicted) ∧
    ∃ w next rows, ReflTransGen World.Step resident w ∧
      w.step (.system (.tick .commitDb)) = some next ∧
      next.system.db.mempoolDeltas = w.system.db.mempoolDeltas ++ rows ∧ rows ≠ [] ∧
      ∀ row ∈ rows, row.txid ∈ miningBlock.txids → row.reason.direction = .remove →
        row.reason = .removeConfirmed := by
  -- one row is there before the commit and two after it
  have grown {w next : World} {rows : List MempoolDelta}
      (before : w.system.db.mempoolDeltas.length = 1)
      (after : next.system.db.mempoolDeltas.length = 2)
      (appended : next.system.db.mempoolDeltas = w.system.db.mempoolDeltas ++ rows) :
      rows ≠ [] := by
    rintro rfl
    rw [appended, List.append_nil] at after
    omega
  constructor
  · have whole : ((resident.idleSteps pollThenFlush).bind fun w =>
          (w.step (.system (.tick .commitDb))).map fun next =>
            (decide (w.node.getBlock "h" = some miningBlock), w.system.db.mempoolDeltas.length,
              next.system.db.mempoolDeltas.length)) = some (true, 1, 2) := by decide
    obtain ⟨w, stepped, commits⟩ := Option.bind_eq_some_iff.mp whole
    obtain ⟨next, committed, ends⟩ := Option.map_eq_some_iff.mp commits
    obtain ⟨mined, before, after⟩ : decide (w.node.getBlock "h" = some miningBlock) = true ∧
        w.system.db.mempoolDeltas.length = 1 ∧ next.system.db.mempoolDeltas.length = 2 := by
      simpa using ends
    have ungranted := World.ungranted_of_idleSteps "h" stepped
    have ran := World.run_of_ungranted ungranted
    obtain ⟨rows, appended, labels⟩ :=
      mined_rows_labelled ran (of_decide_eq_true mined) committed
    refine ⟨w, next, rows, ran, committed, appended, grown before after appended, ?_⟩
    intro row written member removed
    have same : row.txid = "t" := by simpa [miningBlock, GetBlockModel.txids] using member
    apply (labels row written member removed).2 ungranted
    · rw [same]
      decide
    · rw [same]
      decide
  · have whole : ((resident.steps grantBlock).bind fun granted =>
        (granted.steps applyThenFlush).bind fun w =>
          (w.step (.system (.tick .commitDb))).map fun next =>
            (decide (w.node.getBlock "h" = some miningBlock), w.system.db.mempoolDeltas.length,
              next.system.db.mempoolDeltas.length)) = some (true, 1, 2) := by decide
    obtain ⟨granted, toGrant, rest⟩ := Option.bind_eq_some_iff.mp whole
    obtain ⟨w, toCommit, commits⟩ := Option.bind_eq_some_iff.mp rest
    obtain ⟨next, committed, ends⟩ := Option.map_eq_some_iff.mp commits
    obtain ⟨mined, before, after⟩ : decide (w.node.getBlock "h" = some miningBlock) = true ∧
        w.system.db.mempoolDeltas.length = 1 ∧ next.system.db.mempoolDeltas.length = 2 := by
      simpa using ends
    have returned : (resident.steps grantBlock).map (·.system.block) =
        some (some ⟨"h", .fetching⟩) := rfl
    rw [toGrant] at returned
    have begins := World.run_of_steps toGrant
    have ran := begins.trans (World.run_of_steps toCommit)
    obtain ⟨rows, appended, labels⟩ :=
      mined_rows_labelled ran (of_decide_eq_true mined) committed
    refine ⟨w, next, rows, ran, committed, appended, grown before after appended, ?_⟩
    intro row written member removed
    exact (labels row written member removed).1 granted begins (Option.some.inj returned)
      (World.run_of_steps toCommit)

end MempoolObserver
