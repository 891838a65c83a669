import Mathlib.Data.List.Sort
import MempoolObserver.Library.Channel
import MempoolObserver.Library.Runs
import MempoolObserver.Shared.Models

/-!
# The chain tip on a page

A block is stored, and once its clusters are confirmed it is announced on the bus. A page
that subscribes to `chain.tip` gets the highest stored block and then the announcements. The
server subscribes to the bus first and reads the block afterwards, so that a block which is
stored in between is in the answer, on the bus, or both.

A page may therefore see a block again, and an older one after a newer. What it shows in the
end is the tip, as long as heights rise and the read succeeds: after a failed one, the page
waits for the next announcement.

## Main definitions

* `BlockRepository.latest` — the block `get_current_chain_tip` reads
* `TipWorld.step` — one subscription, beside the block service

## Main results

* `settled_page_shows_tip`
-/

namespace MempoolObserver

open Channel Runs

structure NewBlockInfoEvent where
  height : Int
  minedAt : OffsetDateTime
  deriving DecidableEq, Repr

/-- The first of the stored blocks by descending height. -/
def BlockRepository.latest (stored : List NewBlockInfoEvent) : Option NewBlockInfoEvent :=
  (stored.insertionSort fun first second => second.height ≤ first.height).head?

/-- The task that serves one subscription to `chain.tip`. -/
inductive TipTask where
  | spawned
  /-- On the bus, with the latest block still to be read. -/
  | subscribed (pending : List NewBlockInfoEvent)
  /-- Frames on their way to the page, and announcements still on the bus. -/
  | streaming (frames pending : List NewBlockInfoEvent)
  deriving DecidableEq

/-- What a task has still to send. -/
def TipTask.blocks : TipTask → List NewBlockInfoEvent
  | .spawned => []
  | .subscribed pending => pending
  | .streaming frames pending => frames ++ pending

structure TipWorld where
  /-- The stored blocks, oldest first. -/
  stored : List NewBlockInfoEvent
  /-- The block that is stored and not announced yet. -/
  applying : Option NewBlockInfoEvent
  task : Option TipTask
  /-- What the page shows. -/
  block : Option NewBlockInfoEvent

inductive TipAction where
  /-- `apply_block` commits a block. -/
  | insert (block : NewBlockInfoEvent)
  | announce
  /-- The page subscribes, on a new connection or an old one. -/
  | subscribe
  | unsubscribe
  /-- The task is on the bus. -/
  | join
  /-- It reads the latest block, which may fail. -/
  | read (fails : Bool)
  /-- It takes an announcement from the bus. -/
  | forward
  /-- A frame reaches the page. -/
  | deliver

namespace TipWorld

/-- Messages the bus holds for a subscriber before it drops the oldest. -/
def channelCapacity : ℕ := 1024

/-- A page that shows nothing, beside a server with these blocks. -/
def initial (stored : List NewBlockInfoEvent) : TipWorld := ⟨stored, none, none, none⟩

/-- The bus hands an announcement to a task that has joined. -/
def hear (block : NewBlockInfoEvent) : TipTask → TipTask
  | .spawned => .spawned
  | .subscribed pending => .subscribed (send channelCapacity pending block)
  | .streaming frames pending => .streaming frames (send channelCapacity pending block)

def step (w : TipWorld) : TipAction → Option TipWorld
  | .insert block =>
    -- one block is applied at a time
    match w.applying with
    | none => some { w with stored := w.stored ++ [block], applying := some block }
    | some _ => none
  | .announce =>
    match w.applying with
    | some block => some { w with applying := none, task := w.task.map (hear block) }
    | none => none
  | .subscribe => some { w with task := some .spawned }
  | .unsubscribe => some { w with task := none }
  | .join =>
    match w.task with
    | some .spawned => some { w with task := some (.subscribed []) }
    | _ => none
  | .read fails =>
    match w.task with
    | some (.subscribed pending) =>
      let initial := if fails then none else BlockRepository.latest w.stored
      some { w with task := some (.streaming initial.toList pending) }
    | _ => none
  | .forward =>
    match w.task with
    | some (.streaming frames (block :: pending)) =>
      some { w with task := some (.streaming (frames ++ [block]) pending) }
    | _ => none
  | .deliver =>
    match w.task with
    | some (.streaming (block :: frames) pending) =>
      some { w with task := some (.streaming frames pending), block := some block }
    | _ => none

/-! ### What every state satisfies -/

/-- What the page will show when all that is on its way has arrived. -/
def upcoming (w : TipWorld) (frames pending : List NewBlockInfoEvent) :
    Option NewBlockInfoEvent :=
  (frames ++ pending).getLast?.or w.block

/-- The announced blocks. -/
def announced (w : TipWorld) : List NewBlockInfoEvent :=
  if w.applying.isSome then w.stored.dropLast else w.stored

structure TipInv (w : TipWorld) : Prop where
  climbs : w.stored.Pairwise fun first second => first.height < second.height
  applying : ∀ block, w.applying = some block → w.stored.getLast? = some block
  shown : ∀ block, w.block = some block → block ∈ w.stored
  sent : ∀ task, w.task = some task → ∀ block ∈ task.blocks, block ∈ w.stored
  /-- What is on the bus ends with the last announcement. -/
  bus : ∀ pending, w.task = some (.subscribed pending) → pending ≠ [] →
    pending.getLast? = w.announced.getLast?
  streams : ∀ frames pending, w.task = some (.streaming frames pending) →
    w.upcoming frames pending = w.stored.getLast? ∨
      w.upcoming frames pending = w.announced.getLast?

/-- Blocks come in the order of their heights, and the latest one can be read. -/
def Orderly (w : TipWorld) : TipAction → Prop
  | .insert block => ∀ other ∈ w.stored, other.height < block.height
  | .read fails => fails = false
  | _ => True

instance (w : TipWorld) : (action : TipAction) → Decidable (w.Orderly action)
  | .insert block => inferInstanceAs (Decidable (∀ other ∈ w.stored, other.height < block.height))
  | .read fails => inferInstanceAs (Decidable (fails = false))
  | .announce | .subscribe | .unsubscribe | .join | .forward | .deliver => .isTrue trivial

section Steps

variable {w next : TipWorld} {action : TipAction} {stored : List NewBlockInfoEvent}

/-- With rising heights, the highest block is the last one. -/
theorem latest_eq_getLast?
    (climbs : stored.Pairwise fun first second => first.height < second.height) :
    BlockRepository.latest stored = stored.getLast? := by
  let above : NewBlockInfoEvent → NewBlockInfoEvent → Prop :=
    fun first second => second.height ≤ first.height
  have : Std.Total above := ⟨fun _ _ => le_total _ _⟩
  have : IsTrans NewBlockInfoEvent above := ⟨fun _ _ _ upper lower => le_trans lower upper⟩
  have apart : (stored.map NewBlockInfoEvent.height).Nodup :=
    (List.pairwise_map.mpr climbs).imp ne_of_lt
  have descends : stored.reverse.Pairwise above :=
    List.pairwise_reverse.mpr (climbs.imp le_of_lt)
  have shuffled : (stored.insertionSort above).Perm stored.reverse :=
    (List.perm_insertionSort above stored).trans stored.reverse_perm.symm
  have sorted : stored.insertionSort above = stored.reverse := by
    refine List.Perm.eq_of_pairwise ?_ (List.pairwise_insertionSort above stored) descends shuffled
    intro first second listed other upper lower
    exact List.inj_on_of_nodup_map apart ((List.mem_insertionSort above).mp listed)
      (List.mem_reverse.mp other) (le_antisymm lower upper)
  rw [BlockRepository.latest, sorted, List.head?_reverse]

theorem tipInv_initial
    (climbs : stored.Pairwise fun first second => first.height < second.height) :
    (initial stored).TipInv where
  climbs := climbs
  applying _ held := by cases held
  shown _ held := by cases held
  sent _ held := by cases held
  bus _ joined := by cases joined
  streams _ _ streams := by cases streams

/-- A step that leaves the blocks alone. -/
theorem TipInv.withTask (inv : w.TipInv) {task : Option TipTask}
    {shows : Option NewBlockInfoEvent} (shown : ∀ block, shows = some block → block ∈ w.stored)
    (sent : ∀ served, task = some served → ∀ block ∈ served.blocks, block ∈ w.stored)
    (bus : ∀ pending, task = some (.subscribed pending) → pending ≠ [] →
      pending.getLast? = w.announced.getLast?)
    (streams : ∀ frames pending, task = some (.streaming frames pending) →
      (frames ++ pending).getLast?.or shows = w.stored.getLast? ∨
        (frames ++ pending).getLast?.or shows = w.announced.getLast?) :
    TipInv { w with task, block := shows } :=
  ⟨inv.climbs, inv.applying, shown, sent, bus, streams⟩

/-- A subscription that is not on the bus. -/
theorem TipInv.silent (inv : w.TipInv) {task : Option TipTask}
    (silent : task = none ∨ task = some .spawned) : TipInv { w with task } := by
  apply inv.withTask inv.shown
  · rintro served rfl block listed
    rcases silent with none | spawned
    · cases none
    · cases spawned
      cases listed
  · rintro pending rfl
    rcases silent with none | spawned
    · cases none
    · cases spawned
  · rintro frames pending rfl
    rcases silent with none | spawned
    · cases none
    · cases spawned

theorem TipInv.insert (inv : w.TipInv) (idle : w.applying = none) {block : NewBlockInfoEvent}
    (higher : ∀ other ∈ w.stored, other.height < block.height) :
    TipInv { w with stored := w.stored ++ [block], applying := some block } := by
  -- all that was stored before is announced
  have before : w.announced = w.stored := by simp [announced, idle]
  have after : announced { w with stored := w.stored ++ [block], applying := some block } =
      w.stored := by
    simp [announced]
  constructor
  · apply List.pairwise_append.mpr
    refine ⟨inv.climbs, List.pairwise_singleton _ _, fun other member last same => ?_⟩
    obtain rfl := List.mem_singleton.mp same
    exact higher other member
  · intro other held
    obtain rfl : block = other := Option.some.inj held
    exact List.getLast?_concat
  · exact fun other shows => List.mem_append_left _ (inv.shown other shows)
  · exact fun task held other listed => List.mem_append_left _ (inv.sent task held other listed)
  · intro pending joined nonempty
    rw [after, ← before]
    exact inv.bus pending joined nonempty
  · intro frames pending streaming
    right
    rw [after]
    have earlier := inv.streams frames pending streaming
    rw [before, or_self] at earlier
    exact earlier

/-- A task that hears of a block has nothing else to send that it had not before. -/
theorem blocks_hear {block other : NewBlockInfoEvent} {task : TipTask}
    (listed : other ∈ (hear block task).blocks) : other ∈ task.blocks ∨ other = block := by
  have sent : ∀ pending : List NewBlockInfoEvent,
      other ∈ send channelCapacity pending block → other ∈ pending ∨ other = block := by
    intro pending member
    rcases List.mem_append.mp (send_suffix.subset member) with before | last
    · exact .inl before
    · exact .inr (List.mem_singleton.mp last)
  cases task with
  | spawned => cases listed
  | subscribed pending => exact sent pending listed
  | streaming frames pending =>
    rcases List.mem_append.mp listed with framed | held
    · exact .inl (List.mem_append_left _ framed)
    · exact (sent pending held).imp_left (List.mem_append_right _)

theorem TipInv.announce (inv : w.TipInv) {block : NewBlockInfoEvent}
    (applied : w.applying = some block) :
    TipInv { w with applying := none, task := w.task.map (hear block) } := by
  have last := inv.applying block applied
  have room : 0 < channelCapacity := by decide
  have stored : block ∈ w.stored := List.mem_of_getLast? last
  constructor
  · exact inv.climbs
  · intro other held
    cases held
  · exact inv.shown
  · intro task held other listed
    obtain ⟨earlier, before, rfl⟩ := Option.map_eq_some_iff.mp held
    rcases blocks_hear listed with sent | rfl
    · exact inv.sent earlier before other sent
    · exact stored
  · intro pending joined _
    obtain ⟨task, held, heard⟩ := Option.map_eq_some_iff.mp joined
    cases task with
    | spawned => cases heard
    | subscribed earlier =>
      obtain rfl : send channelCapacity earlier block = pending :=
        TipTask.subscribed.inj heard
      rw [getLast?_send room]
      exact last.symm
    | streaming frames earlier => cases heard
  · intro frames pending streaming
    left
    obtain ⟨task, held, heard⟩ := Option.map_eq_some_iff.mp streaming
    cases task with
    | spawned => cases heard
    | subscribed earlier => cases heard
    | streaming earlierFrames earlier =>
      obtain ⟨rfl, rfl⟩ := TipTask.streaming.inj heard
      rw [upcoming, List.getLast?_append, getLast?_send room]
      exact last.symm

theorem TipInv.step (inv : w.TipInv) (orderly : w.Orderly action)
    (stepped : w.step action = some next) : next.TipInv := by
  cases action with
  | insert block =>
    simp only [TipWorld.step] at stepped
    split at stepped
    · next idle =>
      cases stepped
      exact inv.insert idle orderly
    · cases stepped
  | announce =>
    simp only [TipWorld.step] at stepped
    split at stepped
    · next block applied =>
      cases stepped
      exact inv.announce applied
    · cases stepped
  | subscribe =>
    cases stepped
    exact inv.silent (.inr rfl)
  | unsubscribe =>
    cases stepped
    exact inv.silent (.inl rfl)
  | join =>
    simp only [TipWorld.step] at stepped
    split at stepped
    · cases stepped
      apply inv.withTask inv.shown
      · rintro served joined block listed
        cases joined
        cases listed
      · rintro pending joined nonempty
        cases joined
        exact absurd rfl nonempty
      · rintro frames pending streaming
        cases streaming
    · cases stepped
  | read fails =>
    simp only [TipWorld.step] at stepped
    split at stepped
    · next pending joined =>
      cases stepped
      obtain rfl : fails = false := orderly
      simp only [Bool.false_eq_true, if_false, latest_eq_getLast? inv.climbs]
      apply inv.withTask inv.shown
      · rintro served streaming block listed
        cases streaming
        rcases List.mem_append.mp listed with read | held
        · exact List.mem_of_getLast? (Option.mem_toList.mp read)
        · exact inv.sent _ joined block held
      · rintro pending joined
        cases joined
      · rintro frames events streaming
        cases streaming
        cases pending with
        | nil =>
          -- nothing was announced since the task joined: the answer is the last block there is
          left
          cases last : w.stored.getLast? with
          | some block => simp
          | none =>
            have shows : w.block = none := by
              rw [Option.eq_none_iff_forall_not_mem]
              intro block held
              have stored := inv.shown block held
              rw [List.getLast?_eq_none_iff.mp last] at stored
              cases stored
            simp [shows]
        | cons block rest =>
          right
          have bus := inv.bus _ joined (List.cons_ne_nil block rest)
          rw [List.getLast?_append, ← bus]
          simp [List.getLast?_cons]
    · cases stepped
  | forward =>
    simp only [TipWorld.step] at stepped
    split at stepped
    · next frames block pending streaming =>
      cases stepped
      have whole : frames ++ [block] ++ pending = frames ++ block :: pending := by
        rw [List.append_assoc, List.singleton_append]
      apply inv.withTask inv.shown
      · rintro served again other listed
        cases again
        apply inv.sent _ streaming
        rw [TipTask.blocks, ← whole]
        exact listed
      · rintro pending joined
        cases joined
      · rintro _ _ again
        cases again
        rw [whole]
        exact inv.streams frames (block :: pending) streaming
    · cases stepped
  | deliver =>
    simp only [TipWorld.step] at stepped
    split at stepped
    · next block frames pending streaming =>
      cases stepped
      have sent := inv.sent _ streaming
      apply inv.withTask
      · intro other shows
        obtain rfl : block = other := Option.some.inj shows
        exact sent block List.mem_cons_self
      · rintro served again other listed
        cases again
        exact sent other (List.mem_cons_of_mem block listed)
      · rintro pending joined
        cases joined
      · rintro _ _ again
        cases again
        -- the page shows the frame that was the next one to show
        have same := inv.streams (block :: frames) pending streaming
        rw [upcoming, List.cons_append, List.getLast?_cons, Option.some_or] at same
        cases later : (frames ++ pending).getLast? with
        | none => simpa [later] using same
        | some last => simpa [later] using same
    · cases stepped

end Steps

end TipWorld

/-- With rising heights and reads that succeed: in whatever order blocks are stored, announced,
read and delivered, and however many announcements a slow bus drops, the page shows stored
blocks only, and when all has arrived it shows the tip. -/
theorem settled_page_shows_tip {stored : List NewBlockInfoEvent} {actions : List TipAction}
    {w : TipWorld} (climbs : stored.Pairwise fun first second => first.height < second.height)
    (orderly : Along TipWorld.step TipWorld.Orderly (.initial stored) actions)
    (ran : run TipWorld.step (.initial stored) actions = some w) :
    (∀ block, w.block = some block → block ∈ w.stored) ∧
      (w.applying = none → w.task = some (.streaming [] []) →
        w.block = BlockRepository.latest w.stored) := by
  have inv : w.TipInv :=
    run_induction_along (fun _ _ _ held fine stepped => held.step fine stepped)
      (TipWorld.tipInv_initial climbs) orderly ran
  refine ⟨inv.shown, fun idle settled => ?_⟩
  rw [TipWorld.latest_eq_getLast? inv.climbs]
  have same := inv.streams [] [] settled
  simpa [TipWorld.upcoming, TipWorld.announced, idle] using same

/-- A block is stored and announced between joining the bus and reading the tip. -/
def tipActions : List TipAction :=
  [.subscribe, .join, .insert ⟨1, 10⟩, .announce, .insert ⟨2, 20⟩, .read false, .deliver,
    .announce, .forward, .forward, .deliver, .deliver]

theorem settled_page_shows_tip_of_race :
    ∃ w, run TipWorld.step (.initial []) tipActions = some w ∧
      w.block = BlockRepository.latest w.stored := by
  have ends : ((run TipWorld.step (.initial []) tipActions).map fun w => (w.applying, w.task)) =
      some (none, some (.streaming [] [])) := by
    decide +kernel
  obtain ⟨w, ran, state⟩ := Option.map_eq_some_iff.mp ends
  obtain ⟨idle, settled⟩ := Prod.mk.inj state
  have orderly : Along TipWorld.step TipWorld.Orderly (.initial []) tipActions := by
    decide +kernel
  exact ⟨w, ran, (settled_page_shows_tip List.Pairwise.nil orderly ran).2 idle settled⟩

end MempoolObserver
