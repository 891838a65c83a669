import Mathlib.Data.Finset.Card
import Mathlib.Data.List.Nodup

/-!
# Tables keyed by a part of their rows

An insertion-ordered map whose keys are read off the values: a row that is set
takes the place of the row with its key, and is the last one if there was none. No
two rows share a key.
-/

namespace MempoolObserver

structure Table {β κ : Type*} (key : β → κ) where
  rows : List β
  distinct : (rows.map key).Nodup

namespace Table

variable {β κ : Type*} {key : β → κ} [DecidableEq κ] {table : Table key} {row : β} {k : κ}
  {p : κ → Prop} [DecidablePred p]

/-- No rows. -/
def empty : Table key := ⟨[], List.nodup_nil⟩

def get (table : Table key) (k : κ) : Option β := table.rows.find? fun row => key row = k

def size (table : Table key) : ℕ := table.rows.length

def keys (table : Table key) : Finset κ := (table.rows.map key).toFinset

/-- The rows with a row put in the place of the one with its key. -/
def replaced (key : β → κ) (rows : List β) (row : β) : List β :=
  rows.map fun old => if key old = key row then row else old

theorem map_key_replaced (rows : List β) (row : β) :
    (replaced key rows row).map key = rows.map key := by
  rw [replaced, List.map_map]
  refine List.map_congr_left fun old _ => ?_
  by_cases same : key old = key row <;> simp [same]

def set (table : Table key) (row : β) : Table key :=
  if held : key row ∈ table.rows.map key then
    ⟨replaced key table.rows row, by rw [map_key_replaced]; exact table.distinct⟩
  else
    ⟨table.rows ++ [row], by
      rw [List.map_append, List.map_singleton]
      exact table.distinct.append (List.nodup_singleton _)
        (List.disjoint_singleton.mpr held)⟩

/-- The rows whose key satisfies the condition. -/
def filter (table : Table key) (p : κ → Prop) [DecidablePred p] : Table key :=
  ⟨table.rows.filter fun row => p (key row),
    table.distinct.sublist (List.filter_sublist.map key)⟩

@[simp] theorem get_empty : (empty : Table key).get k = none := rfl

theorem key_eq_of_get (found : table.get k = some row) : key row = k := by
  simpa using List.find?_some found

theorem get_eq_none_iff : table.get k = none ↔ k ∉ table.keys := by
  simp only [get, List.find?_eq_none, decide_eq_true_eq, keys, List.mem_toFinset, List.mem_map,
    not_exists, not_and]

theorem isSome_get : (table.get k).isSome = true ↔ k ∈ table.keys := by
  rw [Option.isSome_iff_ne_none, Ne, get_eq_none_iff, not_not]

theorem mem_keys_of_get (found : table.get k = some row) : k ∈ table.keys :=
  isSome_get.mp (by rw [found]; rfl)

theorem card_keys : table.keys.card = table.size := by
  rw [keys, List.toFinset_card_of_nodup table.distinct, List.length_map, size]

@[simp] theorem keys_empty : (empty : Table key).keys = ∅ := rfl

theorem keys_set : (table.set row).keys = insert (key row) table.keys := by
  unfold set
  split_ifs with held
  · rw [Finset.insert_eq_of_mem (by simpa [keys] using held)]
    simp only [keys, map_key_replaced]
  · ext k
    simp only [keys, List.map_append, List.mem_toFinset, List.mem_append, List.map_cons,
      List.map_nil, List.mem_singleton, Finset.mem_insert]
    tauto

theorem find?_replaced (rows : List β) (k : κ) :
    (replaced key rows row).find? (fun old => key old = k) =
      if key row = k ∧ k ∈ rows.map key then some row
      else rows.find? fun old => key old = k := by
  induction rows with
  | nil => simp [replaced]
  | cons old rows ih =>
    simp only [replaced, List.map_cons] at ih ⊢
    by_cases same : key old = key row
    · by_cases asked : key row = k
      · simp [same, asked]
      · have other : key old ≠ k := same ▸ asked
        simp [same, asked, ih]
    · by_cases asked : key old = k
      · subst asked
        have other : key row ≠ key old := Ne.symm same
        simp [same, other]
      · simp only [same, if_false, List.find?_cons, asked, decide_false, ih, List.mem_cons]
        simp only [eq_comm (a := k), asked, false_or]

theorem get_set : (table.set row).get k = if key row = k then some row else table.get k := by
  unfold set
  split_ifs with held asked asked
  · simp only [get, find?_replaced]
    rw [if_pos ⟨asked, asked ▸ held⟩]
  · simp only [get, find?_replaced]
    rw [if_neg fun both => asked both.1]
  · subst asked
    have absent : table.get (key row) = none :=
      get_eq_none_iff.mpr (by simpa [keys] using held)
    simp only [get] at absent ⊢
    rw [List.find?_append, absent]
    simp
  · simp only [get, List.find?_append]
    simp [asked]

theorem get_filter : (table.filter p).get k = if p k then table.get k else none := by
  simp only [get, filter, List.find?_filter]
  split_ifs with kept
  · refine congrArg (fun test => List.find? test table.rows) (funext fun row => ?_)
    by_cases asked : key row = k <;> simp [asked, kept]
  · rw [List.find?_eq_none]
    intro row _
    by_cases asked : key row = k <;> simp [asked, kept]

theorem keys_filter : (table.filter p).keys = table.keys.filter p := by
  ext k
  rw [← isSome_get, get_filter, Finset.mem_filter, ← isSome_get]
  split_ifs with kept <;> simp [kept]

end Table

end MempoolObserver
