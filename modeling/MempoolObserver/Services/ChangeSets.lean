import MempoolObserver.Library.Replication
import MempoolObserver.Services.ClusterDelta

/-!
# Change sets of nested rounds

A mutation round marks the clusters it touched, and merges in the change sets of
the smaller rounds it ran, which were built the same way. The order in which all
the marks were made is lost in the result, except that the last mark of a cluster
is the one that stays: this is what lets a stage return its own change set and
the caller merge it in when the stage is done.

The sets are hash maps in memory, so everything here is stated up to the order in
which they list their entries, and the order a merge walks them in is shown not to
matter.

## Main definitions

* `ClusterDeltaSet.Filed` — every id has at most one entry
* `ClusterDeltaSet.Same` — the same entries, listed in any order
* `ChangeTree` — the calls that build a change set, nested sets included
* `ChangeTree.Yields` — the change sets these calls can build
* `ChangeTree.marks` — these calls as one sequence of marks

## Main results

* `ChangeTree.Yields.mark_eq` — a change set is the replay of its marks
* `ChangeTree.Yields.same` — calls with the same last marks build the same entries, so
  merging is associative
* `ChangeTree.Yields.publish_merge` — a merged set is published like its parts in turn
-/

namespace MempoolObserver

open Replication

namespace ClusterDeltaSet

variable {changes other third : ClusterDeltaSet}

/-! ### Entries -/

/-- Every id has at most one entry: the upserted map has one cluster for a key, the
removed set lists a key once, and no key is in both. -/
structure Filed (changes : ClusterDeltaSet) : Prop where
  upserted : (changes.upserted.map ActiveCluster.id).Nodup
  removed : changes.removed.Nodup
  disjoint : ∀ cluster ∈ changes.upserted, cluster.id ∉ changes.removed

/-- The same entries, in any order. -/
structure Same (changes other : ClusterDeltaSet) : Prop where
  upserted : changes.upserted.Perm other.upserted
  removed : changes.removed.Perm other.removed

theorem filed_default : Filed default where
  upserted := List.nodup_nil
  removed := List.nodup_nil
  disjoint := by simp [default]

private theorem nodup_ids_filter {clusters : List ActiveCluster} (id : ClusterId)
    (nodup : (clusters.map ActiveCluster.id).Nodup) :
    ((clusters.filter (·.id ≠ id)).map ActiveCluster.id).Nodup :=
  nodup.sublist (List.filter_sublist.map _)

theorem Filed.markRemoved (filed : Filed changes) (id : ClusterId) :
    Filed (changes.markRemoved id) where
  upserted := nodup_ids_filter id filed.upserted
  removed := filed.removed.insert
  disjoint := by
    intro cluster member
    simp only [ClusterDeltaSet.markRemoved, List.mem_filter, decide_eq_true_eq] at member
    rw [ClusterDeltaSet.markRemoved, List.mem_insert_iff, not_or]
    exact ⟨member.2, filed.disjoint cluster member.1⟩

theorem Filed.put (filed : Filed changes) (cluster : ActiveCluster) :
    Filed (changes.put cluster) where
  upserted := by
    rw [ClusterDeltaSet.put, List.map_cons, List.nodup_cons]
    -- The old entry of the same id is filtered out before the new one goes in front.
    refine ⟨?_, nodup_ids_filter cluster.id filed.upserted⟩
    intro member
    obtain ⟨other, listed, same⟩ := List.mem_map.mp member
    simp [same] at listed
  removed := filed.removed.filter _
  disjoint := by
    intro entry member
    simp only [ClusterDeltaSet.put, List.mem_cons, List.mem_filter, decide_eq_true_eq] at member ⊢
    intro listed
    cases member with
    | inl here => exact listed.2 (here ▸ rfl)
    | inr rest => exact filed.disjoint entry rest.1 listed.1

theorem Filed.markUpserted (filed : Filed changes) (cluster : Cluster) :
    Filed (changes.markUpserted cluster) := by
  unfold ClusterDeltaSet.markUpserted
  split_ifs with inactive
  · exact filed.markRemoved cluster.id
  · exact filed.put _

theorem Filed.merge (filed : Filed changes) (other : ClusterDeltaSet) :
    Filed (changes.merge other) := by
  have puts (clusters : List ActiveCluster) :
      Filed (clusters.foldr (fun cluster changes => changes.put cluster) changes) := by
    induction clusters with
    | nil => exact filed
    | cons cluster clusters ih => exact ih.put cluster
  have removes (ids : List ClusterId) (start : ClusterDeltaSet) (filed : Filed start) :
      Filed (ids.foldl ClusterDeltaSet.markRemoved start) := by
    induction ids generalizing start with
    | nil => exact filed
    | cons id ids ih => exact ih _ (filed.markRemoved id)
  exact removes other.removed _ (puts other.upserted)

theorem mem_removed_iff {id : ClusterId} : id ∈ changes.removed ↔ changes.mark id = some none := by
  unfold mark
  split_ifs with removed
  · simp [removed]
  · simp [removed]

theorem Filed.mem_upserted_iff (filed : Filed changes) {cluster : ActiveCluster} :
    cluster ∈ changes.upserted ↔ changes.mark cluster.id = some (some cluster) := by
  unfold mark
  constructor
  -- The sets are disjoint, so the mark is read from the upserts, where the id is listed once.
  · intro member
    rw [if_neg (filed.disjoint cluster member), Option.map_eq_some_iff]
    refine ⟨cluster, ?_, rfl⟩
    cases found : changes.upserted.find? fun entry => entry.id = cluster.id with
    | none =>
      have absent := List.find?_eq_none.mp found cluster member
      simp at absent
    | some entry =>
      have same : entry.id = cluster.id := by simpa using List.find?_some found
      exact congrArg some (List.inj_on_of_nodup_map filed.upserted
        (List.mem_of_find?_eq_some found) member same)
  · intro marked
    split_ifs at marked with removed
    · simp at marked
    · obtain ⟨entry, found, same⟩ := Option.map_eq_some_iff.mp marked
      obtain rfl : entry = cluster := by simpa using same
      exact List.mem_of_find?_eq_some found

/-- Two change sets that mark every id alike have the same entries. -/
theorem Filed.same (filed : Filed changes) (filedOther : Filed other)
    (marks : ∀ id, changes.mark id = other.mark id) : Same changes other where
  upserted := by
    refine (List.perm_ext_iff_of_nodup filed.upserted.of_map filedOther.upserted.of_map).mpr ?_
    intro cluster
    rw [filed.mem_upserted_iff, filedOther.mem_upserted_iff, marks]
  removed := by
    refine (List.perm_ext_iff_of_nodup filed.removed filedOther.removed).mpr ?_
    intro id
    rw [mem_removed_iff, mem_removed_iff, marks]

/-! ### The order of the entries -/

theorem Filed.of_same (filed : Filed changes) (same : Same changes other) : Filed other where
  upserted := (same.upserted.map _).nodup_iff.mp filed.upserted
  removed := same.removed.nodup_iff.mp filed.removed
  disjoint := by
    intro cluster member listed
    exact filed.disjoint cluster (same.upserted.mem_iff.mpr member)
      (same.removed.mem_iff.mpr listed)

theorem Same.mark_eq (same : Same changes other) (filed : Filed changes) (id : ClusterId) :
    changes.mark id = other.mark id := by
  have filedOther := filed.of_same same
  apply Option.ext
  intro mark
  -- A removal is read off the removed ids, an upsert off the upserts; each list is only reordered.
  cases mark with
  | none => rw [← mem_removed_iff, ← mem_removed_iff, same.removed.mem_iff]
  | some cluster =>
    by_cases here : cluster.id = id
    · subst here
      rw [← filed.mem_upserted_iff, ← filedOther.mem_upserted_iff, same.upserted.mem_iff]
    · have elsewhere {set : ClusterDeltaSet} : set.mark id ≠ some (some cluster) := by
        unfold ClusterDeltaSet.mark
        split_ifs with removed
        · simp
        · intro marked
          obtain ⟨entry, found, same⟩ := Option.map_eq_some_iff.mp marked
          obtain rfl : entry = cluster := by simpa using same
          exact here (by simpa using List.find?_some found)
      exact iff_of_false elsewhere elsewhere

end ClusterDeltaSet

/-! ### Nested rounds -/

/-- The calls that build a change set. The sets merged in are built the same way. -/
inductive ChangeTree where
  | default
  | markUpserted (tree : ChangeTree) (cluster : Cluster)
  | markRemoved (tree : ChangeTree) (id : ClusterId)
  | merge (tree nested : ChangeTree)

namespace ChangeTree

/-- A change set the calls can build. The maps list their entries in any order, so a set
may be walked in any order when it is merged in or published. -/
inductive Yields : ChangeTree → ClusterDeltaSet → Prop where
  | default : Yields default .default
  | markUpserted {tree : ChangeTree} {changes : ClusterDeltaSet} (cluster : Cluster) :
      Yields tree changes → Yields (tree.markUpserted cluster) (changes.markUpserted cluster)
  | markRemoved {tree : ChangeTree} {changes : ClusterDeltaSet} (id : ClusterId) :
      Yields tree changes → Yields (tree.markRemoved id) (changes.markRemoved id)
  | merge {tree nested : ChangeTree} {changes other : ClusterDeltaSet} :
      Yields tree changes → Yields nested other →
        Yields (tree.merge nested) (changes.merge other)
  | reorder {tree : ChangeTree} {changes other : ClusterDeltaSet} :
      Yields tree changes → ClusterDeltaSet.Same changes other → Yields tree other

/-- The mark of an upsert: one of a cluster that is not active counts as a removal. -/
def upsertMark (cluster : Cluster) : Write ClusterId (Option ActiveCluster) :=
  (cluster.id, some (if cluster.status = .active then some (.ofCluster cluster) else none))

/-- All marks in the order of the calls, those of a nested set where it is merged in. -/
def marks : ChangeTree → List (Write ClusterId (Option ActiveCluster))
  | default => []
  | markUpserted tree cluster => tree.marks ++ [upsertMark cluster]
  | markRemoved tree id => tree.marks ++ [(id, some none)]
  | merge tree nested => tree.marks ++ nested.marks

/-- What the marks leave in an empty map when they are applied in order. -/
def lastMarks (tree : ChangeTree) : ClusterId → Option (Option ActiveCluster) :=
  replay tree.marks fun _ => none

theorem isSome_of_mem_marks (tree : ChangeTree) : ∀ write ∈ tree.marks, write.2.isSome := by
  induction tree with
  | default => simp [marks]
  | markUpserted tree cluster ih =>
    intro write member
    cases List.mem_append.mp member with
    | inl before => exact ih write before
    | inr last => rw [List.mem_singleton.mp last, upsertMark, Option.isSome_some]
  | markRemoved tree id ih =>
    intro write member
    cases List.mem_append.mp member with
    | inl before => exact ih write before
    | inr last => rw [List.mem_singleton.mp last, Option.isSome_some]
  | merge tree nested ih ihNested =>
    intro write member
    cases List.mem_append.mp member with
    | inl before => exact ih write before
    | inr later => exact ihNested write later

/-- The marks of a nested set win over those made before it was merged in. -/
theorem lastMarks_merge (tree nested : ChangeTree) (id : ClusterId) :
    (tree.merge nested).lastMarks id = (nested.lastMarks id).or (tree.lastMarks id) := by
  rw [lastMarks, marks, replay_append, replay_eq_or nested.isSome_of_mem_marks]
  rfl

theorem lastMarks_assoc (tree nested inner : ChangeTree) :
    ((tree.merge nested).merge inner).lastMarks = (tree.merge (nested.merge inner)).lastMarks := by
  simp only [lastMarks, marks, List.append_assoc]

namespace Yields

variable {tree nested inner : ChangeTree} {changes other : ClusterDeltaSet}

theorem filed (yields : tree.Yields changes) : changes.Filed := by
  induction yields with
  | default => exact ClusterDeltaSet.filed_default
  | markUpserted cluster _ ih => exact ih.markUpserted cluster
  | markRemoved id _ ih => exact ih.markRemoved id
  | merge _ _ ih _ => exact ih.merge _
  | reorder _ same ih => exact ih.of_same same

/-- A change set is the replay of its marks on an empty map. -/
theorem mark_eq (yields : tree.Yields changes) (id : ClusterId) :
    changes.mark id = tree.lastMarks id := by
  induction yields with
  | default => exact ClusterDeltaSet.mark_default id
  | markUpserted cluster _ ih =>
    rw [lastMarks, marks, replay_append, ClusterDeltaSet.mark_markUpserted, ih]
    exact (Function.update_apply ..).symm
  | markRemoved removed _ ih =>
    rw [lastMarks, marks, replay_append, ClusterDeltaSet.mark_markRemoved, ih]
    exact (Function.update_apply ..).symm
  | merge _ _ ih ihNested =>
    rw [ClusterDeltaSet.mark_merge, ih, ihNested, lastMarks_merge]
  | reorder built same ih =>
    rw [← same.mark_eq built.filed, ih]

theorem mem_upserted_iff (yields : tree.Yields changes) (cluster : ActiveCluster) :
    cluster ∈ changes.upserted ↔ tree.lastMarks cluster.id = some (some cluster) := by
  rw [yields.filed.mem_upserted_iff, yields.mark_eq]

theorem mem_removed_iff (yields : tree.Yields changes) (id : ClusterId) :
    id ∈ changes.removed ↔ tree.lastMarks id = some none := by
  rw [ClusterDeltaSet.mem_removed_iff, yields.mark_eq]

/-- Calls that leave the same marks build the same entries. -/
theorem same (yields : tree.Yields changes) (yieldsOther : nested.Yields other)
    (marks : tree.lastMarks = nested.lastMarks) : ClusterDeltaSet.Same changes other :=
  yields.filed.same yieldsOther.filed fun id => by
    rw [yields.mark_eq, yieldsOther.mark_eq, marks]

/-- Publishing a merged set is publishing its parts one after another. -/
theorem publish_merge {merged : ClusterDeltaSet} (yields : tree.Yields changes)
    (yieldsOther : nested.Yields other) (yieldsMerged : (tree.merge nested).Yields merged)
    (snapshot : ClusterSnapshot) :
    snapshot.publish merged = ClusterSnapshot.publish (snapshot.publish changes) other := by
  funext id
  rw [ClusterSnapshot.publish_apply, ClusterSnapshot.publish_apply, ClusterSnapshot.publish_apply,
    yields.mark_eq, yieldsOther.mark_eq, yieldsMerged.mark_eq, lastMarks_merge]
  cases nested.lastMarks id <;> rfl

end Yields

end ChangeTree

/-- A change set built by nested rounds holds the last mark of every cluster and nothing
else, merging is associative, and a merged set is published like its parts in turn. -/
theorem change_sets_last_mark_wins {tree : ChangeTree} {changes : ClusterDeltaSet}
    (yields : tree.Yields changes) :
    changes.Filed ∧
      (∀ cluster, cluster ∈ changes.upserted ↔
        tree.lastMarks cluster.id = some (some cluster)) ∧
      (∀ id, id ∈ changes.removed ↔ tree.lastMarks id = some none) ∧
      (∀ (nested inner : ChangeTree) (left right : ClusterDeltaSet),
        ((tree.merge nested).merge inner).Yields left →
          (tree.merge (nested.merge inner)).Yields right → ClusterDeltaSet.Same left right) ∧
      ∀ (nested : ChangeTree) (other merged : ClusterDeltaSet) (snapshot : ClusterSnapshot),
        nested.Yields other → (tree.merge nested).Yields merged →
          snapshot.publish merged = ClusterSnapshot.publish (snapshot.publish changes) other := by
  -- Membership is the last mark; merging and publishing are compared through the last marks.
  refine ⟨yields.filed, yields.mem_upserted_iff, yields.mem_removed_iff, ?_, ?_⟩
  · intro nested inner left right yieldsLeft yieldsRight
    exact yieldsLeft.same yieldsRight (ChangeTree.lastMarks_assoc tree nested inner)
  · intro nested other merged snapshot yieldsOther yieldsMerged
    exact yields.publish_merge yieldsOther yieldsMerged snapshot

def singleton : Cluster := ⟨1, .active, 1, 400, 100, 0, none, none, [⟨["a"], 100, 400⟩]⟩

/-- A cluster is upserted, closed by a nested round, and upserted again by the outer one. -/
def reopened : ChangeTree :=
  ((ChangeTree.default.markUpserted singleton).merge
    (ChangeTree.default.markRemoved 1)).markUpserted singleton

theorem reopened_last_mark_wins :
    ∃ changes, reopened.Yields changes ∧ changes.Filed ∧ 1 ∉ changes.removed := by
  have outer := ChangeTree.Yields.default.markUpserted singleton
  have closed := ChangeTree.Yields.default.markRemoved 1
  have yields := (outer.merge closed).markUpserted singleton
  have wins := change_sets_last_mark_wins yields
  refine ⟨_, yields, wins.1, ?_⟩
  rw [wins.2.2.1]
  decide

end MempoolObserver
