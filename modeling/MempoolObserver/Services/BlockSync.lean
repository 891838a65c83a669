import MempoolObserver.Library.Runs
import MempoolObserver.Services.MinedLabels

/-!
# Catching up with the chain

`sync_missing_blocks` step by step, over the schedule of ticks and blocks, against
a node whose chain only grows. Any call to the node and any query may fail, which
ends the pass; so may `apply_block` at any of its stages, also after its block is
stored. A pass that failed is retried after a backoff, and the process may restart
at any moment. Block events only decide when a sync starts, so whether they are
lost, duplicated or late makes no difference.

The stored blocks are a range of the chain throughout: `Stores` says which, and that
exactly the transactions of these blocks are confirmed.

## Main results

* `Stores.insert` — storing the next block of the chain extends the range
* `CatchUpInv` — what holds between any two steps
* `stored_blocks_contiguous` — the state of the tables at every point of a run
-/

namespace MempoolObserver

open Runs

/-! ### The chain -/

/-- The chain starts at a genesis block; every block has a coinbase, and no
transaction is mined twice. -/
structure Node.Chained (node : Node) : Prop where
  genesis : node.chain ≠ []
  heights : ∀ (i : ℕ) (block : GetBlockModel), node.chain[i]? = some block → block.height = i
  coinbase : ∀ block ∈ node.chain, block.txs ≠ []
  disjoint : ∀ (i j : ℕ) (block other : GetBlockModel), node.chain[i]? = some block →
    node.chain[j]? = some other →
    ∀ txid ∈ block.txids, txid ∈ other.txids → i = j

namespace Node.Chained

variable {node next : Node} {block : GetBlockModel}

theorem length_pos (chained : node.Chained) : 0 < node.chain.length :=
  List.length_pos_iff.mpr chained.genesis

theorem getTipHeight_eq (chained : node.Chained) :
    node.getTipHeight = (node.chain.length : Int) - 1 := by
  have positive := chained.length_pos
  have last : node.chain[node.chain.length - 1]? = some (node.chain.getLast chained.genesis) := by
    rw [← List.getLast?_eq_getElem?, List.getLast?_eq_some_getLast chained.genesis]
  have height := chained.heights _ _ last
  rw [Node.getTipHeight, List.getLast?_eq_some_getLast chained.genesis, Option.map_some,
    Option.getD_some, height]
  omega

/-- The hash of a height is the hash of the block at that place. -/
theorem exists_of_getBlockHash (chained : node.Chained) {height : Int} {hash : String}
    (h : node.getBlockHash height = some hash) :
    ∃ i : ℕ, ∃ block, height = i ∧ node.chain[i]? = some block ∧ block.hash = hash := by
  obtain ⟨block, found, named⟩ := Option.map_eq_some_iff.mp h
  have here : block.height = height := by simpa using List.find?_some found
  obtain ⟨i, placed⟩ := List.getElem?_of_mem (List.mem_of_find?_eq_some found)
  exact ⟨i, block, here ▸ chained.heights i block placed, placed, named⟩

/-- The node answers a hash with the one block that has it. -/
theorem eq_of_getBlock {i : ℕ} {other : GetBlockModel} (placed : node.chain[i]? = some other)
    (h : node.getBlock other.hash = some block) : block = other := by
  have same : block.hash = other.hash := by simpa using List.find?_some h
  exact List.inj_on_of_nodup_map node.distinct (List.mem_of_find?_eq_some h)
    (List.mem_of_getElem? placed) same

theorem connect (chained : node.Chained) (h : node.connect block = some next)
    (coinbase : block.txs ≠ []) : next.Chained := by
  have chain := Node.chain_connect h
  have tip := chained.getTipHeight_eq
  unfold Node.connect at h
  split_ifs at h with fresh fits
  obtain ⟨height, unmined⟩ := fits
  -- A position in the longer chain is an old one or the one just added.
  have placed {i : ℕ} {some' : GetBlockModel} (h : next.chain[i]? = some some') :
      node.chain[i]? = some some' ∨ i = node.chain.length ∧ some' = block := by
    rw [chain, List.getElem?_append] at h
    split_ifs at h with inside
    · exact .inl h
    · obtain ⟨first, rfl⟩ := List.getElem?_eq_some_iff.mp h
      simp only [List.length_singleton] at first
      exact .inr ⟨by omega, by simp⟩
  refine ⟨by simp [chain], ?_, ?_, ?_⟩
  · intro i other h
    rcases placed h with old | ⟨rfl, rfl⟩
    · exact chained.heights i other old
    · omega
  · intro other member
    rw [chain, List.mem_append, List.mem_singleton] at member
    rcases member with old | rfl
    · exact chained.coinbase other old
    · exact coinbase
  · intro i j first second hi hj txid inFirst inSecond
    -- The new block mines nothing that is on the chain already.
    rcases placed hi with old | ⟨rfl, rfl⟩ <;> rcases placed hj with older | ⟨rfl, rfl⟩
    · exact chained.disjoint i j first second old older txid inFirst inSecond
    · exact absurd inFirst (unmined txid inSecond first (List.mem_of_getElem? old))
    · exact absurd inSecond (unmined txid inFirst second (List.mem_of_getElem? older))
    · rfl

end Node.Chained

/-! ### A stored range of the chain -/

/-- The database holds `count` blocks of the chain from `start` on, and the
confirmations of exactly their transactions. -/
structure Stores (chain : List GetBlockModel) (start count : ℕ) (db : Db) : Prop where
  within : start + count ≤ chain.length
  blocks : db.blocks = ((chain.drop start).take count).map GetBlockModel.toBlock
  confirmed : ∀ (i : ℕ) (block : GetBlockModel), start ≤ i → i < start + count →
    chain[i]? = some block → ∀ txid ∈ block.txids,
      db.confirmation txid = (some block.minedAt, some block.hash)
  unconfirmed : ∀ txid, (∀ (i : ℕ) (block : GetBlockModel), start ≤ i → i < start + count →
    chain[i]? = some block → txid ∉ block.txids) → db.confirmation txid = (none, none)

namespace Stores

variable {chain : List GetBlockModel} {start count : ℕ} {db next : Db} {node : Node}

theorem empty {db : Db} (blocks : db.blocks = [])
    (unconfirmed : ∀ txid, db.confirmation txid = (none, none)) : Stores chain 0 0 db where
  within := by omega
  blocks := by simp [blocks]
  confirmed := by omega
  unconfirmed txid _ := unconfirmed txid

theorem congr (stores : Stores chain start count db) (blocks : next.blocks = db.blocks)
    (confirmation : ∀ txid, next.confirmation txid = db.confirmation txid) :
    Stores chain start count next where
  within := stores.within
  blocks := blocks.trans stores.blocks
  confirmed i block low high placed txid member := by
    rw [confirmation, stores.confirmed i block low high placed txid member]
  unconfirmed txid absent := by rw [confirmation, stores.unconfirmed txid absent]

/-- A longer chain has the same range. -/
theorem append (stores : Stores chain start count db) (more : List GetBlockModel) :
    Stores (chain ++ more) start count db := by
  have within := stores.within
  have same {i : ℕ} (high : i < start + count) : (chain ++ more)[i]? = chain[i]? :=
    List.getElem?_append_left (by omega)
  refine ⟨by rw [List.length_append]; omega, ?_, ?_, ?_⟩
  · rw [stores.blocks, List.drop_append_of_le_length (by omega), List.take_append_of_le_length]
    rw [List.length_drop]
    omega
  · intro i block low high placed
    exact stores.confirmed i block low high (same high ▸ placed)
  · intro txid absent
    refine stores.unconfirmed txid fun i block low high placed => ?_
    exact absent i block low high ((same high).trans placed)

/-- The heights stored, in order. -/
theorem heights_eq (stores : Stores node.chain start count db) (chained : node.Chained) :
    db.blocks.map Block.height = (List.range count).map fun i => ((start + i : ℕ) : Int) := by
  have within := stores.within
  rw [stores.blocks, List.map_map]
  refine List.ext_getElem? fun i => ?_
  rw [List.getElem?_map, List.getElem?_map, List.getElem?_take, List.getElem?_drop]
  split_ifs with inside
  · have bound : start + i < node.chain.length := by omega
    rw [List.getElem?_eq_getElem bound, List.getElem?_range inside]
    exact congrArg some (chained.heights _ _ (List.getElem?_eq_getElem bound))
  · rw [List.getElem?_eq_none (by simpa using inside)]
    rfl

theorem length_blocks (stores : Stores node.chain start count db) (chained : node.Chained) :
    db.blocks.length = count := by
  simpa using congrArg List.length (stores.heights_eq chained)

theorem latestHeight_eq (stores : Stores node.chain start count db) (chained : node.Chained) :
    db.latestHeight = if count = 0 then none else some ((start + count - 1 : ℕ) : Int) := by
  rw [Db.latestHeight, stores.heights_eq chained]
  split_ifs with none
  · rw [none]
    rfl
  · rw [List.max?_eq_some_iff]
    simp only [List.mem_map, List.mem_range]
    constructor
    · exact ⟨count - 1, by omega, by congr 1; omega⟩
    · rintro _ ⟨i, inside, rfl⟩
      omega

theorem missingHeights_eq_zero (stores : Stores node.chain start count db)
    (chained : node.Chained) : db.missingHeights = 0 := by
  have latest := stores.latestHeight_eq chained
  rw [Db.latestHeight] at latest
  rw [Db.missingHeights, latest]
  by_cases none : count = 0
  · rw [if_pos none]
    split <;> simp_all
  · have lowest : (db.blocks.map Block.height).min? = some (start : Int) := by
      rw [stores.heights_eq chained, List.min?_eq_some_iff]
      simp only [List.mem_map, List.mem_range]
      constructor
      · exact ⟨0, by omega, by simp⟩
      · rintro _ ⟨i, inside, rfl⟩
        omega
    rw [if_neg none, lowest]
    simp only [stores.length_blocks chained]
    omega

/-- An empty range starts anywhere. -/
theorem rebase (stores : Stores chain start 0 db) {i : ℕ} (within : i ≤ chain.length) :
    Stores chain i 0 db where
  within := by omega
  blocks := by simpa using stores.blocks
  confirmed := by omega
  unconfirmed txid _ := stores.unconfirmed txid (by omega)

/-- The block after the range is not stored yet. -/
theorem hash_not_mem (stores : Stores node.chain start count db) {block : GetBlockModel}
    (placed : node.chain[start + count]? = some block) :
    block.hash ∉ db.blocks.map Block.hash := by
  rw [stores.blocks, List.map_map]
  intro member
  obtain ⟨other, stored, same⟩ := List.mem_map.mp member
  have inChain : other ∈ node.chain := List.mem_of_mem_drop (List.mem_of_mem_take stored)
  obtain rfl : other = block :=
    List.inj_on_of_nodup_map node.distinct inChain (List.mem_of_getElem? placed) same
  obtain ⟨j, inside⟩ := List.getElem?_of_mem stored
  rw [List.getElem?_take, List.getElem?_drop] at inside
  split_ifs at inside with before
  obtain ⟨bound, -⟩ := List.getElem?_eq_some_iff.mp inside
  have twice := (List.getElem?_inj bound node.distinct.of_map).mp (inside.trans placed.symm)
  omega

/-- Storing the block after the range extends it. -/
theorem insert (stores : Stores node.chain start count db) (chained : node.Chained)
    {block : GetBlockModel} (placed : node.chain[start + count]? = some block)
    {seenAt : OffsetDateTime}
    (h : db.insertWithTransactions block.toBlock (block.newTransactions seenAt) = some next) :
    Stores node.chain start (count + 1) next := by
  obtain ⟨bound, -⟩ := List.getElem?_eq_some_iff.mp placed
  -- The insert stamps the block's transactions and no others.
  have confirmation (txid : Txid) : next.confirmation txid =
      if txid ∈ block.txids then (some block.minedAt, some block.hash)
      else db.confirmation txid := by
    rw [Db.confirmation_insertWithTransactions (fun new member => ?_) h]
    · simp only [GetBlockModel.newTransactions, GetBlockModel.txids, List.map_map]
      rfl
    · obtain ⟨tx, -, rfl⟩ := List.mem_map.mp member
      rfl
  refine ⟨by omega, ?_, ?_, ?_⟩
  · have fresh : block.toBlock.hash ∉ db.blocks.map Block.hash := stores.hash_not_mem placed
    rw [Db.blocks_insertWithTransactions h, if_neg fresh, stores.blocks, List.take_add_one,
      List.getElem?_drop, placed, List.map_append]
    rfl
  -- A transaction of an earlier block is not in this one, so its stamp stays.
  · intro i other low high there txid member
    rw [confirmation]
    by_cases last : i = start + count
    · subst last
      obtain rfl : block = other := Option.some.inj (placed.symm.trans there)
      rw [if_pos member]
    · have unmined : txid ∉ block.txids := fun here =>
        last (chained.disjoint i _ other block there placed txid member here)
      rw [if_neg unmined, stores.confirmed i other low (by omega) there txid member]
  · intro txid absent
    rw [confirmation, if_neg (absent _ block (by omega) (by omega) placed)]
    exact stores.unconfirmed txid fun i other low high => absent i other low (by omega)

/-- A block of the chain is stored exactly when its transactions are confirmed by it. -/
theorem mem_blocks_iff (stores : Stores node.chain start count db) (chained : node.Chained)
    {block : GetBlockModel} (member : block ∈ node.chain) :
    block.toBlock ∈ db.blocks ↔
      ∀ txid ∈ block.txids, db.confirmation txid = (some block.minedAt, some block.hash) := by
  have within := stores.within
  obtain ⟨i, placed⟩ := List.getElem?_of_mem member
  have stored : block.toBlock ∈ db.blocks ↔ start ≤ i ∧ i < start + count := by
    rw [stores.blocks, List.mem_map]
    constructor
    · rintro ⟨other, inside, same⟩
      obtain ⟨j, at_j⟩ := List.getElem?_of_mem inside
      rw [List.getElem?_take, List.getElem?_drop] at at_j
      split_ifs at at_j with before
      obtain rfl : other = block := List.inj_on_of_nodup_map node.distinct
        (List.mem_of_getElem? at_j) member (congrArg Block.hash same)
      obtain ⟨bound, -⟩ := List.getElem?_eq_some_iff.mp at_j
      have twice := (List.getElem?_inj bound node.distinct.of_map).mp (at_j.trans placed.symm)
      omega
    · rintro ⟨low, high⟩
      refine ⟨block, List.mem_of_getElem? (i := i - start) ?_, rfl⟩
      rw [List.getElem?_take, List.getElem?_drop, if_pos (by omega)]
      rwa [Nat.add_sub_cancel' low]
  rw [stored]
  constructor
  · rintro ⟨low, high⟩
    exact stores.confirmed i block low high placed
  · intro confirmed
    by_contra outside
    -- the coinbase of a block outside the range is not confirmed
    obtain ⟨tx, rest, txs⟩ := List.exists_cons_of_ne_nil (chained.coinbase block member)
    have coinbase : tx.txid ∈ block.txids := by simp [GetBlockModel.txids, txs]
    have absent := stores.unconfirmed tx.txid fun j other low high there here =>
      outside ((chained.disjoint j i other block there placed tx.txid here coinbase) ▸ ⟨low, high⟩)
    rw [confirmed tx.txid coinbase] at absent
    cases absent

end Stores

/-! ### The sync -/

/-- Where `sync_missing_blocks` stands. -/
inductive CatchUpPc where
  /-- No sync is under way. -/
  | idle
  | readTip
  | readLatest (tip : Int)
  | fetchHash (height tip : Int)
  /-- `apply_block` of the height. -/
  | applying (height tip : Int)
  /-- The pass failed; it is retried after a while. -/
  | backoff
  /-- `catch_up` returned, having last read this tip; the missing heights are sampled. -/
  | caughtUp (tip : Int)
  deriving DecidableEq, Repr

/-- The tip the pass goes by. -/
def CatchUpPc.tip : CatchUpPc → Option Int
  | readLatest tip | fetchHash _ tip | applying _ tip | caughtUp tip => some tip
  | _ => none

structure CatchUpWorld where
  system : System
  node : Node
  pc : CatchUpPc
  /-- The tip seen by the pass that stored the first block. -/
  started : Option Int
  /-- The heights whose `apply_block` returned `Ok`, in order. -/
  applied : List Int

/-- What can happen; a call that is not answered has failed. -/
inductive CatchUpOp where
  | connect (block : GetBlockModel)
  /-- A block event reaches a listener that is not syncing. -/
  | event
  | readTip (answered : Bool)
  | readLatest (answered : Bool)
  | fetchHash (answered : Bool)
  | retry
  | sample
  | system (op : SystemOp)
  /-- The process starts again with the tables it left. -/
  | restart (now : ℕ) (ledger : MempoolLedger)

namespace CatchUpWorld

def initial (now : ℕ) (ledger : MempoolLedger) (db : Db) (node : Node) : CatchUpWorld :=
  ⟨.initial now ledger db, node, .idle, none, []⟩

/-- What a step of the schedule means for the sync. -/
def afterSystem (w : CatchUpWorld) (op : SystemOp) (system : System) : CatchUpWorld :=
  match op, w.pc with
  | .block .finish, .applying height tip =>
    { w with
      system := system
      applied := w.applied ++ [height]
      -- the tip is read again after each pass
      pc := if height < tip then .fetchHash (height + 1) tip else .readTip }
  | .block .fail, _ | .block .cancel, _ => { w with system := system, pc := .backoff }
  | .block (.insert _), pc =>
    { w with
      system := system
      started := if w.system.db.blocks = [] then pc.tip else w.started }
  | _, _ => { w with system := system }

/-- The node is asked for the block whose hash it gave, and `apply_block` is called by
the sync alone. -/
def allowed (w : CatchUpWorld) : SystemOp → Bool
  | .block (.start _) => false
  | .block (.fetched block) =>
    match w.system.block with
    | some ⟨hash, .fetching⟩ => w.node.getBlock hash = some block
    | _ => false
  | _ => true

/-- One step, `none` when the operation is not possible. -/
def step (w : CatchUpWorld) : CatchUpOp → Option CatchUpWorld
  | .connect block =>
    if block.txs ≠ [] then (w.node.connect block).map fun node => { w with node := node } else none
  | .event => if w.pc = .idle then some { w with pc := .readTip } else none
  | .readTip answered =>
    match w.pc with
    | .readTip =>
      some { w with pc := if answered then .readLatest w.node.getTipHeight else .backoff }
    | _ => none
  | .readLatest answered =>
    match w.pc with
    | .readLatest tip =>
      -- an empty database starts from the tip
      let height := w.system.db.latestHeight.elim tip (· + 1)
      some { w with pc :=
        if answered then if tip < height then .caughtUp tip else .fetchHash height tip
        else .backoff }
    | _ => none
  | .fetchHash answered =>
    match w.pc with
    | .fetchHash height tip =>
      if answered then (w.node.getBlockHash height).bind fun hash =>
        (w.system.step (.block (.start hash))).map fun system =>
          { w with system := system, pc := .applying height tip }
      else some { w with pc := .backoff }
    | _ => none
  | .retry => if w.pc = .backoff then some { w with pc := .readTip } else none
  | .sample =>
    match w.pc with
    | .caughtUp _ => some { w with pc := .idle }
    | _ => none
  | .system op =>
    if w.allowed op then (w.system.step op).map (w.afterSystem op) else none
  | .restart now ledger =>
    some { w with system := .initial now ledger w.system.db, pc := .idle }

/-! ### The invariant -/

/-- The height to be applied next is the one after the range, or the tip if nothing is
stored. -/
structure Pending (chain : List GetBlockModel) (start count : ℕ) (height tip : Int) : Prop where
  reached : height ≤ tip
  known : tip < chain.length
  next : if count = 0 then height = tip else height = (start + count : ℕ)

/-- What each stage of `apply_block` knows of the block it applies. -/
def StageInv (chain : List GetBlockModel) (applied : List Int) (start count : ℕ)
    (height tip : Int) (run : BlockRun) : Prop :=
  match run.stage with
  | .acquiring | .fetching => Pending chain start count height tip ∧
      ∃ i : ℕ, ∃ block, height = i ∧ chain[i]? = some block ∧ block.hash = run.hash
  | .inserting block => Pending chain start count height tip ∧
      ∃ i : ℕ, height = i ∧ chain[i]? = some block
  | .asserting _ | .confirming _ => height + 1 = (start + count : ℕ) ∧ 0 < count ∧ height ≤ tip ∧
      tip < chain.length ∧ ∀ other ∈ applied, other < height

/-- What the sync knows where it stands. -/
def PcInv (chain : List GetBlockModel) (applied : List Int) (start count : ℕ)
    (block : Option BlockRun) : CatchUpPc → Prop
  | .idle | .readTip | .backoff => block = none
  | .readLatest tip => block = none ∧ tip < chain.length
  | .fetchHash height tip => block = none ∧ Pending chain start count height tip
  | .applying height tip =>
    ∃ run, block = some run ∧ StageInv chain applied start count height tip run
  | .caughtUp tip => block = none ∧ 0 < count ∧ tip < (start + count : ℕ)

structure CatchUpInv (w : CatchUpWorld) (start count : ℕ) : Prop where
  system : SystemInv w.system
  chained : w.node.Chained
  stores : Stores w.node.chain start count w.system.db
  started : w.started = if count = 0 then none else some (start : Int)
  increasing : w.applied.Pairwise (· < ·)
  stored : ∀ height ∈ w.applied, (start : Int) ≤ height ∧ height < (start + count : ℕ)
  pc : PcInv w.node.chain w.applied start count w.system.block w.pc

/-- Only storing a block touches the blocks and the confirmations. -/
theorem tables_step {s next : System} {op : SystemOp} (inv : SystemInv s)
    (h : s.step op = some next) (inserts : ∀ seenAt, op ≠ .block (.insert seenAt)) :
    next.db.blocks = s.db.blocks ∧ ∀ txid, next.db.confirmation txid = s.db.confirmation txid := by
  obtain same | ⟨batch, tx, writing, -, -, rfl⟩ | ⟨_, _, seenAt, _, -, -, stored, -⟩ :=
    System.db_step h
  · exact ⟨same.blocks, same.confirmation⟩
  · exact ⟨rfl, tx.confirmation_commit (inv.batch batch tx writing).1 s.db⟩
  · exact absurd stored (inserts seenAt)

variable {w next : CatchUpWorld} {start count : ℕ}

theorem CatchUpInv.applying_of_block (inv : w.CatchUpInv start count) {run : BlockRun}
    (applying : w.system.block = some run) :
    ∃ height tip, w.pc = .applying height tip ∧
      StageInv w.node.chain w.applied start count height tip run := by
  have known := inv.pc
  rw [applying] at known
  cases pc : w.pc <;> rw [pc] at known
  case applying height tip =>
    obtain ⟨other, same, stage⟩ := known
    cases same
    exact ⟨height, tip, rfl, stage⟩
  all_goals simp [PcInv] at known

/-- A step that leaves the block under way and the tables alone. -/
theorem CatchUpInv.withSystem (inv : w.CatchUpInv start count) {system : System}
    (systemInv : SystemInv system) (block : system.block = w.system.block)
    (tables : system.db.blocks = w.system.db.blocks ∧
      ∀ txid, system.db.confirmation txid = w.system.db.confirmation txid) :
    CatchUpInv { w with system := system } start count :=
  ⟨systemInv, inv.chained, inv.stores.congr tables.1 tables.2, inv.started, inv.increasing,
    inv.stored, block ▸ inv.pc⟩

/-- A stage of `apply_block` that stores nothing gives way to the next. -/
theorem CatchUpInv.withStage (inv : w.CatchUpInv start count) {system : System}
    (systemInv : SystemInv system)
    (tables : system.db.blocks = w.system.db.blocks ∧
      ∀ txid, system.db.confirmation txid = w.system.db.confirmation txid)
    {run later : BlockRun} (applying : w.system.block = some run)
    (applies : system.block = some later)
    (stage : ∀ height tip, StageInv w.node.chain w.applied start count height tip run →
      StageInv w.node.chain w.applied start count height tip later) :
    CatchUpInv { w with system := system } start count := by
  obtain ⟨height, tip, pc, known⟩ := inv.applying_of_block applying
  refine ⟨systemInv, inv.chained, inv.stores.congr tables.1 tables.2, inv.started, inv.increasing,
    inv.stored, ?_⟩
  dsimp only
  rw [pc]
  exact ⟨later, applies, stage height tip known⟩

/-- The pass ends, and with it the block under way. -/
theorem CatchUpInv.withPc (inv : w.CatchUpInv start count) {system : System} {pc : CatchUpPc}
    (systemInv : SystemInv system)
    (tables : system.db.blocks = w.system.db.blocks ∧
      ∀ txid, system.db.confirmation txid = w.system.db.confirmation txid)
    (known : PcInv w.node.chain w.applied start count system.block pc) :
    CatchUpInv { w with system := system, pc := pc } start count :=
  ⟨systemInv, inv.chained, inv.stores.congr tables.1 tables.2, inv.started, inv.increasing,
    inv.stored, known⟩

/-- The chain grows past everything the sync knows. -/
theorem PcInv.append {chain : List GetBlockModel} {applied : List Int} {block : Option BlockRun}
    {pc : CatchUpPc} (inv : PcInv chain applied start count block pc)
    (more : List GetBlockModel) : PcInv (chain ++ more) applied start count block pc := by
  have longer : (chain.length : Int) ≤ (chain ++ more).length := by simp
  -- The chain only grows at its end, and whatever has been read of it stays true.
  have kept {i : ℕ} {old : GetBlockModel} (placed : chain[i]? = some old) :
      (chain ++ more)[i]? = some old := by
    obtain ⟨bound, -⟩ := List.getElem?_eq_some_iff.mp placed
    rw [List.getElem?_append_left bound, placed]
  have pending {height tip : Int} (pending : Pending chain start count height tip) :
      Pending (chain ++ more) start count height tip :=
    ⟨pending.reached, lt_of_lt_of_le pending.known longer, pending.next⟩
  cases pc with
  | idle | readTip | backoff | caughtUp => exact inv
  | readLatest tip => exact ⟨inv.1, lt_of_lt_of_le inv.2 longer⟩
  | fetchHash height tip => exact ⟨inv.1, pending inv.2⟩
  | applying height tip =>
    obtain ⟨⟨hash, stage⟩, applying, known⟩ := inv
    refine ⟨⟨hash, stage⟩, applying, ?_⟩
    cases stage with
    | acquiring | fetching =>
      obtain ⟨soon, i, old, at_i, placed, named⟩ := known
      exact ⟨pending soon, i, old, at_i, kept placed, named⟩
    | inserting block =>
      obtain ⟨soon, i, at_i, placed⟩ := known
      exact ⟨pending soon, i, at_i, kept placed⟩
    | asserting | confirming =>
      obtain ⟨last, some, reached, known, before⟩ := known
      exact ⟨last, some, reached, lt_of_lt_of_le known longer, before⟩

theorem CatchUpInv.connect (inv : w.CatchUpInv start count) {node : Node} {block : GetBlockModel}
    (h : w.node.connect block = some node) (coinbase : block.txs ≠ []) :
    CatchUpInv { w with node := node } start count := by
  have chain := Node.chain_connect h
  refine ⟨inv.system, inv.chained.connect h coinbase, ?_, inv.started, inv.increasing, inv.stored,
    ?_⟩
  · rw [chain]
    exact inv.stores.append _
  · dsimp only
    rw [chain]
    exact inv.pc.append _

/-- Storing a block extends the range, or starts it at the tip of the pass. -/
theorem CatchUpInv.insert (inv : w.CatchUpInv start count) {hash : String} {block : GetBlockModel}
    {seenAt : OffsetDateTime} {db : Db} (systemInv : SystemInv { w.system with
      db := db, block := some ⟨hash, .asserting block⟩ })
    (inserting : w.system.block = some ⟨hash, .inserting block⟩)
    (h : w.system.db.insertWithTransactions block.toBlock (block.newTransactions seenAt) =
      some db) :
    ∃ start count, CatchUpInv (w.afterSystem (.block (.insert seenAt))
      { w.system with db := db, block := some ⟨hash, .asserting block⟩ }) start count := by
  obtain ⟨height, tip, pc, soon, i, at_i, placed⟩ := inv.applying_of_block inserting
  obtain ⟨bound, -⟩ := List.getElem?_eq_some_iff.mp placed
  have length := inv.stores.length_blocks inv.chained
  have nothing : w.system.db.blocks = [] ↔ count = 0 := by
    rw [← length, List.length_eq_zero_iff]
  have next := soon.next
  by_cases first : count = 0
  · -- the first block stored is the tip of its pass
    subst first
    rw [if_pos rfl] at next
    have empty : w.applied = [] := by
      refine List.eq_nil_iff_forall_not_mem.mpr fun other member => ?_
      have := inv.stored other member
      omega
    have stores := (inv.stores.rebase (i := i) (by omega)).insert inv.chained placed h
    refine ⟨i, 1, systemInv, inv.chained, stores, ?_, inv.increasing, ?_, ?_⟩
    · simp only [afterSystem, pc, CatchUpPc.tip]
      rw [if_pos (nothing.mpr rfl), ← next, at_i]
      rfl
    · simp [afterSystem, empty]
    · simp only [afterSystem, pc]
      refine ⟨_, rfl, by omega, by omega, soon.reached, soon.known, ?_⟩
      simp [empty]
  -- A later block goes right after the run already stored.
  · rw [if_neg first] at next
    obtain rfl : i = start + count := by omega
    have stores := inv.stores.insert inv.chained placed h
    refine ⟨start, count + 1, systemInv, inv.chained, stores, ?_, inv.increasing, ?_, ?_⟩
    · simp only [afterSystem, nothing, first, if_false]
      rw [inv.started, if_neg first, if_neg (by omega)]
    · intro other member
      have := inv.stored other member
      omega
    · simp only [afterSystem, pc]
      refine ⟨_, rfl, by omega, by omega, soon.reached, soon.known, ?_⟩
      intro other member
      have := inv.stored other member
      omega

/-- `apply_block` returns: its height is applied, and the next one comes. -/
theorem CatchUpInv.finish (inv : w.CatchUpInv start count) {system : System}
    (systemInv : SystemInv system) {hash : String} {block : GetBlockModel}
    (confirming : w.system.block = some ⟨hash, .confirming block⟩)
    (tables : system.db.blocks = w.system.db.blocks ∧
      ∀ txid, system.db.confirmation txid = w.system.db.confirmation txid)
    (ended : system.block = none) :
    CatchUpInv (w.afterSystem (.block .finish) system) start count := by
  -- The height joins the applied ones; the next height of the pass follows, or the pass is over.
  obtain ⟨height, tip, pc, last, some, reached, known, before⟩ := inv.applying_of_block confirming
  have stores := inv.stores.congr tables.1 tables.2
  simp only [afterSystem, pc]
  refine ⟨systemInv, inv.chained, stores, inv.started, ?_, ?_, ?_⟩
  · refine List.pairwise_append.mpr ⟨inv.increasing, List.pairwise_singleton _ _, ?_⟩
    intro other member here same
    rw [List.mem_singleton.mp same]
    exact before other member
  · intro other member
    rcases List.mem_append.mp member with old | new
    · exact inv.stored other old
    · rw [List.mem_singleton.mp new]
      omega
  · dsimp only
    split_ifs with more
    · exact ⟨ended, by omega, known, by rw [if_neg (by omega)]; omega⟩
    · exact ended

/-- One step of the schedule. -/
theorem CatchUpInv.afterSystem (inv : w.CatchUpInv start count) {op : SystemOp} {system : System}
    (allowed : w.allowed op = true) (h : w.system.step op = some system) :
    ∃ start count, CatchUpInv (w.afterSystem op system) start count := by
  have systemInv := inv.system.step h
  cases op with
  | advance elapsed =>
    refine ⟨start, count, inv.withSystem systemInv ?_ (tables_step inv.system h (by simp))⟩
    obtain ⟨gate, -, rfl⟩ := System.step_advance h
    rfl
  | produce | backfillRaw | backfillFee =>
    refine ⟨start, count, inv.withSystem systemInv ?_ (tables_step inv.system h (by simp))⟩
    cases h
    rfl
  | tick op =>
    refine ⟨start, count, inv.withSystem systemInv ?_ (tables_step inv.system h (by simp))⟩
    exact System.block_stepTick h
  | block op =>
    have tables (others : ∀ seenAt, op ≠ .insert seenAt) :=
      tables_step inv.system h (by simpa using others)
    cases System.stepBlock_cases h with
    | insert inserting inserted => exact inv.insert systemInv inserting inserted
    | start => simp [CatchUpWorld.allowed] at allowed
    | lock =>
      exact ⟨start, count, inv.withSystem systemInv rfl (tables (by simp))⟩
    | grant acquiring =>
      exact ⟨start, count,
        inv.withStage systemInv (tables (by simp)) acquiring rfl fun _ _ known => known⟩
    | fetched fetching =>
      simp only [CatchUpWorld.allowed, fetching, decide_eq_true_eq] at allowed
      refine ⟨start, count, inv.withStage systemInv (tables (by simp)) fetching rfl ?_⟩
      rintro height tip ⟨soon, i, other, at_i, placed, rfl⟩
      -- the node answers with the block of that hash, which is the one in place
      obtain rfl := Node.Chained.eq_of_getBlock placed allowed
      exact ⟨soon, i, at_i, placed⟩
    | assertAbsent asserting =>
      exact ⟨start, count,
        inv.withStage systemInv (tables (by simp)) asserting rfl fun _ _ known => known⟩
    | clusterTx =>
      exact ⟨start, count, inv.withSystem systemInv rfl (tables (by simp))⟩
    | finish confirming =>
      exact ⟨start, count, inv.finish systemInv confirming (tables (by simp)) rfl⟩
    | fail | cancel =>
      exact ⟨start, count, inv.withPc systemInv (tables (by simp)) rfl⟩

/-- A pass that has read the tip and the latest height has caught up, or knows what
comes next. -/
theorem CatchUpInv.pc_readLatest (inv : w.CatchUpInv start count) {tip : Int}
    (pc : w.pc = .readLatest tip) :
    PcInv w.node.chain w.applied start count w.system.block
      (if tip < w.system.db.latestHeight.elim tip (· + 1) then .caughtUp tip
      else .fetchHash (w.system.db.latestHeight.elim tip (· + 1)) tip) := by
  have known := inv.pc
  rw [pc] at known
  obtain ⟨idle, below⟩ := known
  rw [inv.stores.latestHeight_eq inv.chained]
  by_cases none : count = 0
  · rw [if_pos none, Option.elim_none, if_neg (lt_irrefl tip)]
    exact ⟨idle, le_refl tip, below, by rw [if_pos none]⟩
  · rw [if_neg none, Option.elim_some]
    have next : ((start + count - 1 : ℕ) : Int) + 1 = (start + count : ℕ) := by omega
    rw [next]
    split_ifs with past
    · exact ⟨idle, by omega, past⟩
    · exact ⟨idle, by omega, below, by rw [if_neg none]⟩

theorem CatchUpInv.fetchHash (inv : w.CatchUpInv start count) {height tip : Int} {hash : String}
    {system : System} (pc : w.pc = .fetchHash height tip)
    (answer : w.node.getBlockHash height = some hash)
    (h : w.system.step (.block (.start hash)) = some system) :
    CatchUpInv { w with system := system, pc := .applying height tip } start count := by
  have known := inv.pc
  rw [pc] at known
  obtain ⟨-, soon⟩ := known
  refine inv.withPc (inv.system.step h) (tables_step inv.system h (by simp)) ?_
  obtain ⟨i, block, at_i, placed, named⟩ := inv.chained.exists_of_getBlockHash answer
  have starts : w.system.stepBlock (.start hash) = some system := h
  cases System.stepBlock_cases starts with
  | start => exact ⟨⟨hash, .acquiring⟩, rfl, soon, i, block, at_i, placed, named⟩

/-- One step of any kind. -/
theorem CatchUpInv.step (inv : w.CatchUpInv start count) {op : CatchUpOp}
    (h : w.step op = some next) : ∃ start count, next.CatchUpInv start count := by
  -- A step that moves the program counter alone needs its new condition and nothing else.
  have pcOnly {pc : CatchUpPc}
      (known : PcInv w.node.chain w.applied start count w.system.block pc) :
      ∃ start count, CatchUpInv { w with pc := pc } start count :=
    ⟨start, count, inv.withPc inv.system ⟨rfl, fun _ => rfl⟩ known⟩
  cases op with
  | connect block =>
    simp only [CatchUpWorld.step] at h
    split_ifs at h with coinbase
    obtain ⟨node, connected, rfl⟩ := Option.map_eq_some_iff.mp h
    exact ⟨start, count, inv.connect connected coinbase⟩
  | event | retry =>
    simp only [CatchUpWorld.step] at h
    split_ifs at h with here
    cases h
    have known := inv.pc
    rw [here] at known
    exact pcOnly known
  | readTip answered =>
    simp only [CatchUpWorld.step] at h
    split at h
    · rename_i here
      cases h
      have known := inv.pc
      rw [here] at known
      have tip := inv.chained.getTipHeight_eq
      refine pcOnly ?_
      -- An answer is bounded by the chain; without one the counter goes back to where it started.
      split_ifs
      · exact ⟨known, by omega⟩
      · exact known
    · cases h
  | readLatest answered =>
    simp only [CatchUpWorld.step] at h
    split at h
    · rename_i tip here
      cases h
      have idle := inv.pc
      rw [here] at idle
      refine pcOnly ?_
      by_cases given : answered = true
      · rw [if_pos given]
        exact inv.pc_readLatest here
      · rw [if_neg given]
        exact idle.1
    · cases h
  | fetchHash answered =>
    simp only [CatchUpWorld.step] at h
    split at h
    · rename_i height tip here
      have idle := inv.pc
      rw [here] at idle
      -- A hash starts the block's handler; without an answer the pass ends.
      split_ifs at h
      · obtain ⟨hash, answer, started⟩ := Option.bind_eq_some_iff.mp h
        obtain ⟨system, began, rfl⟩ := Option.map_eq_some_iff.mp started
        exact ⟨start, count, inv.fetchHash here answer began⟩
      · cases h
        exact pcOnly idle.1
    · cases h
  | sample =>
    simp only [CatchUpWorld.step] at h
    split at h
    · rename_i tip here
      cases h
      have idle := inv.pc
      rw [here] at idle
      exact pcOnly idle.1
    · cases h
  -- Everything else of the system runs in between and is covered by its own lemma.
  | system op =>
    simp only [CatchUpWorld.step] at h
    split_ifs at h with allowed
    obtain ⟨system, stepped, rfl⟩ := Option.map_eq_some_iff.mp h
    exact inv.afterSystem allowed stepped
  -- A restart loses what was in memory and finds the same tables and the same chain.
  | restart now ledger =>
    cases h
    have fresh := SystemInv.initial now ledger w.system.db
    exact ⟨start, count, inv.withPc fresh ⟨rfl, fun _ => rfl⟩ rfl⟩

theorem CatchUpInv.initial {now : ℕ} {ledger : MempoolLedger} {db : Db} {node : Node}
    (chained : node.Chained) (blocks : db.blocks = [])
    (unconfirmed : ∀ txid, db.confirmation txid = (none, none)) :
    (CatchUpWorld.initial now ledger db node).CatchUpInv 0 0 where
  system := .initial now ledger db
  chained := chained
  stores := .empty blocks unconfirmed
  started := rfl
  increasing := .nil
  stored := by simp [CatchUpWorld.initial]
  pc := rfl

end CatchUpWorld

open CatchUpWorld in
/-- At every point of every run on an empty database the stored blocks are the range of
the chain that starts at the tip of the pass that stored the first of them, a block is
stored exactly when its transactions are confirmed by it, the heights are applied in
order, and a catch-up that returned has reached the tip it read last. -/
theorem stored_blocks_contiguous {now : ℕ} {ledger : MempoolLedger} {db : Db} {node : Node}
    {w : CatchUpWorld} {ops : List CatchUpOp} (chained : node.Chained) (blocks : db.blocks = [])
    (unconfirmed : ∀ txid, db.confirmation txid = (none, none))
    (ran : run step (initial now ledger db node) ops = some w) :
    (∃ start count : ℕ, start + count ≤ w.node.chain.length ∧
      w.system.db.blocks = ((w.node.chain.drop start).take count).map GetBlockModel.toBlock ∧
      w.started = if count = 0 then none else some (start : Int)) ∧
    (∀ (height : ℕ) (block : GetBlockModel), w.node.chain[height]? = some block →
      block.height = height ∧
      (block.toBlock ∈ w.system.db.blocks ↔ ∀ txid ∈ block.txids,
        w.system.db.confirmation txid = (some block.minedAt, some block.hash))) ∧
    w.applied.Pairwise (· < ·) ∧
    (∀ height ∈ w.applied, height ∈ w.system.db.blocks.map Block.height) ∧
    (∀ tip, w.pc = .caughtUp tip →
      ∃ latest, w.system.db.latestHeight = some latest ∧ tip ≤ latest) ∧
    w.system.db.missingHeights = 0 := by
  -- The invariant holds along the run, for some stored stretch of the chain.
  obtain ⟨start, count, inv⟩ : ∃ start count, w.CatchUpInv start count := by
    refine run_induction (motive := fun w => ∃ start count, w.CatchUpInv start count)
      (fun s op next holds stepped => ?_) ⟨0, 0, .initial chained blocks unconfirmed⟩ ran
    obtain ⟨start, count, inv⟩ := holds
    exact inv.step stepped
  refine ⟨⟨start, count, inv.stores.within, inv.stores.blocks, inv.started⟩, ?_, inv.increasing, ?_,
    ?_, inv.stores.missingHeights_eq_zero inv.chained⟩
  · intro height block placed
    exact ⟨inv.chained.heights height block placed,
      inv.stores.mem_blocks_iff inv.chained (List.mem_of_getElem? placed)⟩
  · intro height member
    obtain ⟨low, high⟩ := inv.stored height member
    rw [inv.stores.heights_eq inv.chained]
    -- A height applied lies in the stored stretch, which has no gaps.
    refine List.mem_map.mpr ⟨(height - start).toNat, List.mem_range.mpr (by omega), by omega⟩
  · intro tip returned
    have known := inv.pc
    rw [returned] at known
    obtain ⟨-, positive, reached⟩ := known
    refine ⟨_, (inv.stores.latestHeight_eq inv.chained).trans (if_neg (by omega)), by omega⟩

/-! ### A pass that fails and is retried -/

/-- A chain of the genesis block alone. -/
def genesisNode : Node := ⟨[⟨"g", 0, 50, [⟨"c0", 400, 0, []⟩]⟩], ∅, by simp⟩

/-- The block after it. -/
def nextBlock : GetBlockModel := ⟨"h", 1, 100, [⟨"c1", 400, 0, []⟩, ⟨"t", 400, 10, []⟩]⟩

/-- The node fails to return the genesis block, and mines another before the retry. -/
def retriedSync : List CatchUpOp :=
  [.event, .readTip true, .readLatest true, .fetchHash true, .system (.block .lock),
    .system (.block .grant), .system (.block .fail), .connect nextBlock, .retry,
    .readTip true, .readLatest true, .fetchHash true, .system (.block .lock),
    .system (.block .grant), .system (.block (.fetched nextBlock)),
    .system (.block (.insert 90)), .system (.block (.assertAbsent pollerCall)),
    .system (.block .finish), .readTip true, .readLatest true]

open CatchUpWorld in
theorem stored_blocks_contiguous_of_retry :
    ∃ w, run step (initial 0 ⟨∅, [], false⟩ .empty genesisNode) retriedSync = some w ∧
      w.pc = .caughtUp 1 ∧ w.applied = [1] ∧ w.system.db.blocks = [nextBlock.toBlock] ∧
      w.system.db.missingHeights = 0 ∧
      (∀ txid ∈ nextBlock.txids, w.system.db.confirmation txid = (some 100, some "h")) := by
  obtain ⟨w, ran⟩ : ∃ w, run step (initial 0 ⟨∅, [], false⟩ .empty genesisNode) retriedSync =
      some w := Option.isSome_iff_exists.mp (by decide)
  -- The chain of one block satisfies every condition on pairs trivially.
  have chained : genesisNode.Chained := by
    have only {i : ℕ} {block : GetBlockModel} (h : genesisNode.chain[i]? = some block) :
        i = 0 ∧ block = ⟨"g", 0, 50, [⟨"c0", 400, 0, []⟩]⟩ := by
      rcases i with - | i
      · exact ⟨rfl, (Option.some.inj h).symm⟩
      · cases h
    refine ⟨by decide, ?_, by decide, ?_⟩
    · intro i block h
      obtain ⟨rfl, rfl⟩ := only h
      rfl
    · intro i j block other hi hj _ _ _
      rw [(only hi).1, (only hj).1]
  obtain ⟨-, confirmed, -, -, -, missing⟩ :=
    stored_blocks_contiguous chained rfl (fun _ => rfl) ran
  obtain rfl : _ = w := Option.some.inj ran
  refine ⟨_, rfl, rfl, rfl, rfl, missing, ?_⟩
  exact (confirmed 1 nextBlock rfl).2.mp (by decide)

end MempoolObserver
