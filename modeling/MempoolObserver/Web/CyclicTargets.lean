import Mathlib.Data.Finset.Basic
import Mathlib.Data.List.Count
import Mathlib.Data.List.Nodup
import Mathlib.Data.List.Perm.Subperm
import Mathlib.Logic.Function.Basic
import MempoolObserver.Library.Cycles

/-!
# The transactions stuck in a cycle

Kahn's algorithm over the edges between the members of a cluster: a queue starts with
the nodes that no edge enters, and every node that leaves it lowers the count of its
children. The nodes that never get to the queue are on a cycle or downstream of one.

## Main definitions

* `findCyclicTargets` — the nodes that are never dequeued
* `Kahn.Inv` — the counts and the queue after any number of rounds

## Main results

* `Kahn.Inv.visit` — one round of the queue loop
* `Kahn.run_spec` — as many rounds as there are nodes empty the queue
* `findCyclicTargets_spec` — what is left over is on a cycle or downstream of one
-/

namespace MempoolObserver

open Cycles

structure RawEdge where
  fromId : String
  toId : String
  deriving DecidableEq, Repr

/-- The state of the queue loop; the queue without the part already read. -/
structure Kahn where
  queue : List String
  finalized : List String
  indeg : String → ℤ

def indegrees (edges : List RawEdge) : String → ℤ :=
  edges.foldl (fun indeg e => Function.update indeg e.toId (indeg e.toId + 1)) fun _ => 0

def childrenOf (edges : List RawEdge) (u : String) : List String :=
  (edges.filter (·.fromId = u)).map RawEdge.toId

def Kahn.relax (kahn : Kahn) (c : String) : Kahn :=
  let d := kahn.indeg c - 1
  ⟨if d = 0 then kahn.queue ++ [c] else kahn.queue, kahn.finalized,
    Function.update kahn.indeg c d⟩

/-- The body of the loop for the node that was dequeued. -/
def Kahn.visit (edges : List RawEdge) (kahn : Kahn) (u : String) : Kahn :=
  (childrenOf edges u).foldl Kahn.relax ⟨kahn.queue, u :: kahn.finalized, kahn.indeg⟩

/-- `none` when the queue is not empty after that many rounds. -/
def Kahn.run (edges : List RawEdge) : ℕ → Kahn → Option Kahn
  | 0, kahn => if kahn.queue = [] then some kahn else none
  | fuel + 1, kahn =>
    match kahn.queue with
    | [] => some kahn
    | u :: rest => Kahn.run edges fuel (Kahn.visit edges ⟨rest, kahn.finalized, kahn.indeg⟩ u)

def Kahn.start (txids : List String) (edges : List RawEdge) : Kahn :=
  ⟨txids.filter (indegrees edges · = 0), [], indegrees edges⟩

/-- The nodes that are never dequeued. -/
def findCyclicTargets (txids : List String) (edges : List RawEdge) : Option (List String) :=
  (Kahn.run edges txids.length (Kahn.start txids edges)).map fun kahn =>
    txids.filter (· ∉ kahn.finalized)

/-! ### Counting the edges into a node -/

section

variable {txids : List String} {edges : List RawEdge} {kahn done : Kahn} {u p x : String}

/-- Parent to child. -/
def IsParent (edges : List RawEdge) (p x : String) : Prop := ⟨p, x⟩ ∈ edges

instance : Decidable (IsParent edges p x) := inferInstanceAs (Decidable (_ ∈ _))

/-- The edges into a node that do not come from the given nodes. -/
def pending (edges : List RawEdge) (gone : List String) (x : String) : ℕ :=
  edges.countP fun e => e.toId = x ∧ e.fromId ∉ gone

theorem indegrees_eq : indegrees edges x = pending edges [] x := by
  -- The counting loop adds to whatever the table held before.
  have run (indeg : String → ℤ) :
      edges.foldl (fun indeg e => Function.update indeg e.toId (indeg e.toId + 1)) indeg x =
        indeg x + pending edges [] x := by
    induction edges generalizing indeg with
    | nil => simp [pending]
    | cons e edges ih =>
      rw [List.foldl_cons, ih, pending, pending, List.countP_cons, Function.update_apply]
      by_cases into : e.toId = x
      · subst into
        simp only [↓reduceIte, List.not_mem_nil, not_false_eq_true, and_self, decide_true]
        push_cast
        omega
      · simp [into, Ne.symm into]
  exact (run _).trans (by simp)

theorem pending_eq_zero {gone : List String} :
    pending edges gone x = 0 ↔ ∀ p, IsParent edges p x → p ∈ gone := by
  rw [pending, List.countP_eq_zero]
  constructor
  · intro none p edge
    simpa using none _ edge
  · intro all e edge
    by_cases into : e.toId = x
    · subst into
      simpa using all e.fromId edge
    · simp [into]

theorem mem_childrenOf : x ∈ childrenOf edges u ↔ IsParent edges u x := by
  constructor
  · intro inside
    obtain ⟨e, among, rfl⟩ := List.mem_map.mp inside
    obtain ⟨edge, source⟩ := List.mem_filter.mp among
    rw [← of_decide_eq_true source]
    exact edge
  · intro edge
    exact List.mem_map.mpr ⟨_, List.mem_filter.mpr ⟨edge, by simp⟩, rfl⟩

theorem nodup_childrenOf (nodup : edges.Nodup) : (childrenOf edges u).Nodup := by
  refine (nodup.filter _).map_on fun e inside e' inside' same => ?_
  have source := of_decide_eq_true (List.mem_filter.mp inside).2
  have source' := of_decide_eq_true (List.mem_filter.mp inside').2
  cases e
  cases e'
  simp_all only

/-- A source that goes takes at most one edge with it. -/
theorem pending_cons {gone : List String} (nodup : edges.Nodup) (fresh : u ∉ gone) :
    (pending edges (u :: gone) x : ℤ) =
      pending edges gone x - if x ∈ childrenOf edges u then 1 else 0 := by
  -- Removing u takes away the edges from u to x, and deduplication leaves at most one.
  have split : pending edges gone x = edges.count ⟨u, x⟩ + pending edges (u :: gone) x := by
    rw [pending, List.countP_eq_countP_filter_add edges _ (· == ⟨u, x⟩), List.countP_filter,
      List.countP_filter, List.count, pending]
    congr 1 <;> apply List.countP_congr
    · rintro ⟨p, y⟩ -
      grind
    · rintro ⟨p, y⟩ -
      grind
  have once : edges.count ⟨u, x⟩ = if x ∈ childrenOf edges u then 1 else 0 := by
    rw [nodup.count, if_congr mem_childrenOf rfl rfl]
    rfl
  rw [split, once]
  by_cases child : x ∈ childrenOf edges u
  · simp only [child, ↓reduceIte]
    omega
  · simp [child]

/-! ### The rounds of the queue loop -/

/-- Each child is counted down once; those that reach zero are queued. -/
theorem foldl_relax {children : List String} (nodup : children.Nodup) :
    children.foldl Kahn.relax kahn =
      ⟨kahn.queue ++ children.filter (kahn.indeg · = 1), kahn.finalized,
        fun x => kahn.indeg x - if x ∈ children then 1 else 0⟩ := by
  induction children generalizing kahn with
  | nil => simp
  | cons c children ih =>
    obtain ⟨fresh, nodup⟩ := List.nodup_cons.mp nodup
    rw [List.foldl_cons, ih nodup]
    -- the count of `c` itself is not read again: the children are distinct
    have others : children.filter ((kahn.relax c).indeg · = 1) =
        children.filter (kahn.indeg · = 1) := by
      refine List.filter_congr fun x inside => ?_
      have differ : x ≠ c := ne_of_mem_of_not_mem inside fresh
      simp [Kahn.relax, differ]
    rw [others]
    simp only [Kahn.relax, Kahn.mk.injEq, true_and]
    constructor
    · by_cases last : kahn.indeg c = 1
      · simp [last]
      · have more : ¬ kahn.indeg c - 1 = 0 := by omega
        simp [last, more]
    · funext x
      by_cases same : x = c
      · subst same
        simp [fresh]
      · simp [same]

/-- Between two rounds the counts are those of the edges whose source was not dequeued yet,
and the nodes without such an edge are those in the queue or dequeued. -/
structure Kahn.Inv (txids : List String) (edges : List RawEdge) (kahn : Kahn) : Prop where
  nodup : (kahn.finalized ++ kahn.queue).Nodup
  known : ∀ x ∈ kahn.finalized ++ kahn.queue, x ∈ txids
  indeg : ∀ x, kahn.indeg x = pending edges kahn.finalized x
  reached : ∀ x ∈ txids, x ∈ kahn.finalized ++ kahn.queue ↔ kahn.indeg x = 0
  acc : ∀ x ∈ kahn.finalized, Acc (IsParent edges) x

theorem Kahn.Inv.start (distinct : txids.Nodup) :
    Kahn.Inv txids edges (Kahn.start txids edges) where
  nodup := by simpa [Kahn.start] using distinct.filter _
  known x inside := by
    simp only [Kahn.start, List.nil_append, List.mem_filter] at inside
    exact inside.1
  indeg x := indegrees_eq
  reached x known := by simp [Kahn.start, known]
  acc x inside := by simp [Kahn.start] at inside

/-- The children that the loop body queues. -/
def newcomers (edges : List RawEdge) (indeg : String → ℤ) (u : String) : List String :=
  (childrenOf edges u).filter (indeg · = 1)

theorem Kahn.visit_eq {rest finalized : List String} {indeg : String → ℤ} (distinct : edges.Nodup) :
    Kahn.visit edges ⟨rest, finalized, indeg⟩ u =
      ⟨rest ++ newcomers edges indeg u, u :: finalized,
        fun x => indeg x - if x ∈ childrenOf edges u then 1 else 0⟩ :=
  foldl_relax (nodup_childrenOf distinct)

theorem Kahn.Inv.visit {rest finalized : List String} {indeg : String → ℤ} (distinct : edges.Nodup)
    (inside : ∀ p x, IsParent edges p x → x ∈ txids)
    (inv : Kahn.Inv txids edges ⟨u :: rest, finalized, indeg⟩) :
    Kahn.Inv txids edges (Kahn.visit edges ⟨rest, finalized, indeg⟩ u) := by
  obtain ⟨nodup, known, degrees, reached, acc⟩ := inv
  simp only at nodup known degrees reached acc
  have order : (u :: finalized ++ (rest ++ newcomers edges indeg u)).Perm
      (finalized ++ u :: rest ++ newcomers edges indeg u) := by
    rw [← List.append_assoc]
    exact List.perm_middle.symm.append_right _
  have fresh : u ∉ finalized := fun before =>
    List.disjoint_of_nodup_append nodup before List.mem_cons_self
  have counts (x : String) : indeg x - (if x ∈ childrenOf edges u then 1 else 0) =
      pending edges (u :: finalized) x := by
    rw [pending_cons distinct fresh, degrees]
  -- a newcomer had one edge left, the one from `u`
  have queued (x : String) : x ∈ newcomers edges indeg u ↔
      indeg x ≠ 0 ∧ pending edges (u :: finalized) x = 0 := by
    have count := counts x
    rw [newcomers, List.mem_filter, decide_eq_true_eq]
    by_cases child : x ∈ childrenOf edges u
    · simp only [child, ↓reduceIte] at count
      simp only [child, true_and]
      omega
    · simp only [child, ↓reduceIte] at count
      simp only [child, false_and, false_iff]
      omega
  rw [Kahn.visit_eq distinct]
  refine ⟨?_, ?_, counts, ?_, ?_⟩
  · refine order.nodup_iff.mpr (nodup.append ((nodup_childrenOf distinct).filter _) ?_)
    intro x old new
    exact ((queued x).mp new).1 ((reached x (known x old)).mp old)
  · intro x member
    obtain old | new := List.mem_append.mp (order.mem_iff.mp member)
    · exact known x old
    · exact inside u x (mem_childrenOf.mp (List.mem_of_mem_filter new))
  · intro x among
    have count := counts x
    simp only
    rw [order.mem_iff, List.mem_append, reached x among, queued, count]
    split at count <;> omega
  · intro x member
    obtain rfl | before := List.mem_cons.mp member
    · have none : pending edges finalized x = 0 := by
        have zero := (reached x (known x (by simp))).mp (by simp)
        rw [degrees] at zero
        exact_mod_cast zero
      exact ⟨_, fun p edge => acc p (pending_eq_zero.mp none p edge)⟩
    · exact acc x before

theorem Kahn.Inv.length_le (inv : Kahn.Inv txids edges kahn) :
    kahn.finalized.length + kahn.queue.length ≤ txids.length := by
  rw [← List.length_append]
  exact (List.subperm_of_subset inv.nodup inv.known).length_le

/-- The rounds that are left are enough, and keep the invariant. -/
theorem Kahn.run_spec {fuel : ℕ} (distinct : edges.Nodup)
    (inside : ∀ p x, IsParent edges p x → x ∈ txids) (inv : Kahn.Inv txids edges kahn)
    (enough : txids.length ≤ kahn.finalized.length + fuel) :
    ∃ done, Kahn.run edges fuel kahn = some done ∧ done.queue = [] ∧
      Kahn.Inv txids edges done := by
  -- Each visit finalizes one more node, and there are at most as many as txids.
  induction fuel generalizing kahn with
  | zero =>
    have empty : kahn.queue = [] := by
      have bound := inv.length_le
      exact List.length_eq_zero_iff.mp (by omega)
    exact ⟨kahn, by rw [Kahn.run, if_pos empty], empty, inv⟩
  | succ fuel ih =>
    obtain ⟨queue, finalized, indeg⟩ := kahn
    cases queue with
    | nil => exact ⟨_, rfl, rfl, inv⟩
    | cons u rest =>
      refine ih (inv.visit distinct inside) ?_
      rw [Kahn.visit_eq distinct]
      simp only [List.length_cons] at *
      omega

/-- A node whose ancestors can be peeled off is dequeued in the end. -/
theorem Kahn.Inv.mem_finalized (inv : Kahn.Inv txids edges kahn) (empty : kahn.queue = [])
    (sources : ∀ p x, IsParent edges p x → p ∈ txids) (acc : Acc (IsParent edges) x)
    (among : x ∈ txids) : x ∈ kahn.finalized := by
  induction acc with
  | intro x _ ih =>
    have none : pending edges kahn.finalized x = 0 :=
      pending_eq_zero.mpr fun p edge => ih p edge (sources p x edge)
    have zero : kahn.indeg x = 0 := by
      rw [inv.indeg, none]
      rfl
    simpa [empty] using (inv.reached x among).mpr zero

theorem finite_sources : {p | ∃ x, IsParent edges p x}.Finite :=
  (edges.map RawEdge.fromId).finite_toSet.subset fun _ ⟨_, edge⟩ =>
    List.mem_map.mpr ⟨_, edge, rfl⟩

/-- The loop ends with an empty queue, and what it leaves over is on a cycle or downstream of
one. -/
theorem findCyclicTargets_spec (distinct : txids.Nodup) (once : edges.Nodup)
    (inside : ∀ p x, IsParent edges p x → p ∈ txids ∧ x ∈ txids) :
    ∃ cyclic, findCyclicTargets txids edges = some cyclic ∧
      ∀ x ∈ txids, x ∈ cyclic ↔ Downstream (IsParent edges) x := by
  obtain ⟨done, run, empty, inv⟩ := Kahn.run_spec once (fun p x edge => (inside p x edge).2)
    (Kahn.Inv.start distinct) (Nat.le_add_left _ _)
  refine ⟨txids.filter (· ∉ done.finalized), by rw [findCyclicTargets, run]; rfl, ?_⟩
  intro x among
  rw [← not_iff_not, ← acc_iff_not_downstream finite_sources, List.mem_filter]
  simp only [among, true_and, decide_eq_true_eq, not_not]
  exact ⟨inv.acc x, fun acc =>
    inv.mem_finalized empty (fun p x edge => (inside p x edge).1) acc among⟩

end

end MempoolObserver
