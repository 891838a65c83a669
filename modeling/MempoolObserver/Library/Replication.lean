import Mathlib.Data.List.Basic
import Mathlib.Logic.Function.Basic

/-!
# Copies of a keyed map

A map from keys to values changes one key at a time, and the changes are sent to
a copy as a log of writes. A copy that starts late is first given the current
contents and then the log, which may reach back before the moment the contents
were read: some writes arrive twice, and some arrive after newer contents.

None of this matters as long as the log is *absorbed* by the original, meaning
that replaying it there changes nothing: then a copy that agrees with the
original on the keys the log never writes agrees with it everywhere once the log
is replayed, and in no other case.

## Main results

* `Absorbed.append` — a log stays absorbed when writes are made and logged
* `Absorbed.replay_eq_iff` — when a copy catches up
* `replay_contents` — replaying the contents of a map over a copy
* `replay_eq_or` — a log that deletes nothing is one map laid over another
-/

namespace MempoolObserver.Replication

variable {κ β : Type*} [DecidableEq κ]

/-- The new value of one key, `none` when the key is deleted. -/
abbrev Write (κ β : Type*) := κ × Option β

/-- The map after a log of writes. -/
def replay (log : List (Write κ β)) (map : κ → Option β) : κ → Option β :=
  log.foldl (fun map write => Function.update map write.1 write.2) map

@[simp] theorem replay_nil (map : κ → Option β) : replay [] map = map := rfl

@[simp] theorem replay_cons (write : Write κ β) (log : List (Write κ β)) (map : κ → Option β) :
    replay (write :: log) map = replay log (Function.update map write.1 write.2) := rfl

theorem replay_append (log more : List (Write κ β)) (map : κ → Option β) :
    replay (log ++ more) map = replay more (replay log map) :=
  List.foldl_append

/-- The log has a write of the key. -/
def Writes (log : List (Write κ β)) (key : κ) : Prop := key ∈ log.map Prod.fst

omit [DecidableEq κ] in
@[simp] theorem writes_append {log more : List (Write κ β)} {key : κ} :
    Writes (log ++ more) key ↔ Writes log key ∨ Writes more key := by
  simp only [Writes, List.map_append, List.mem_append]

/-- A key the log does not write keeps its value. -/
theorem replay_of_not_writes {log : List (Write κ β)} {key : κ} (untouched : ¬ Writes log key)
    (map : κ → Option β) : replay log map key = map key := by
  induction log generalizing map with
  | nil => rfl
  | cons write log ih =>
    simp only [Writes, List.map_cons, List.mem_cons, not_or] at untouched
    rw [replay_cons, ih untouched.2, Function.update_of_ne untouched.1]

/-- What a log leaves in the keys it writes does not depend on the map. -/
theorem replay_of_writes {log : List (Write κ β)} {key : κ} (touched : Writes log key)
    (map other : κ → Option β) : replay log map key = replay log other key := by
  induction log generalizing map other with
  | nil => simp [Writes] at touched
  | cons write log ih =>
    rw [replay_cons, replay_cons]
    by_cases later : Writes log key
    · exact ih later _ _
    · have here : key = write.1 := by
        simp only [Writes, List.map_cons, List.mem_cons] at touched
        exact touched.resolve_right later
      rw [replay_of_not_writes later, replay_of_not_writes later, here, Function.update_self,
        Function.update_self]

/-- A log that deletes nothing lays the map it builds from scratch over any other. -/
theorem replay_eq_or {log : List (Write κ β)} (kept : ∀ write ∈ log, write.2.isSome)
    (map : κ → Option β) (key : κ) :
    replay log map key = (replay log (fun _ => none) key).or (map key) := by
  induction log generalizing map with
  | nil => rfl
  | cons write log ih =>
    have keptLog : ∀ write ∈ log, write.2.isSome := fun other member =>
      kept other (List.mem_cons_of_mem _ member)
    obtain ⟨value, written⟩ := Option.isSome_iff_exists.mp (kept write List.mem_cons_self)
    rw [replay_cons, replay_cons, ih keptLog, ih keptLog (Function.update _ _ _)]
    by_cases here : key = write.1
    · rw [here, Function.update_self, Function.update_self, written]
      cases replay log (fun _ => none) write.1 <;> rfl
    · rw [Function.update_of_ne here, Function.update_of_ne here, Option.or_none]

/-- Replaying the log on the map changes nothing. -/
def Absorbed (log : List (Write κ β)) (map : κ → Option β) : Prop := replay log map = map

theorem absorbed_nil (map : κ → Option β) : Absorbed [] map := rfl

/-- Making more writes and logging them keeps the log absorbed. -/
theorem Absorbed.append {log : List (Write κ β)} {map : κ → Option β} (absorbed : Absorbed log map)
    (more : List (Write κ β)) : Absorbed (log ++ more) (replay more map) := by
  rw [Absorbed, replay_append]
  funext key
  by_cases later : Writes more key
  · exact replay_of_writes later _ _
  · rw [replay_of_not_writes later]
    by_cases touched : Writes log key
    · rw [replay_of_writes touched _ map, absorbed, replay_of_not_writes later]
    · rw [replay_of_not_writes touched]

/-- The end of an absorbed log is absorbed. -/
theorem Absorbed.of_append {log more : List (Write κ β)} {map : κ → Option β}
    (absorbed : Absorbed (log ++ more) map) : Absorbed more map := by
  rw [Absorbed, replay_append] at absorbed
  funext key
  by_cases touched : Writes more key
  · rw [replay_of_writes touched map (replay log map), absorbed]
  · exact replay_of_not_writes touched map

/-- A copy catches up by an absorbed log exactly when it is right about the keys
that the log does not write. -/
theorem Absorbed.replay_eq_iff {log : List (Write κ β)} {map copy : κ → Option β}
    (absorbed : Absorbed log map) :
    replay log copy = map ↔ ∀ key, ¬ Writes log key → copy key = map key := by
  constructor
  · intro caughtUp key untouched
    rw [← caughtUp, replay_of_not_writes untouched]
  · intro agree
    funext key
    by_cases touched : Writes log key
    · rw [replay_of_writes touched copy map, absorbed]
    · rw [replay_of_not_writes touched, agree key touched]

/-- The contents of a map, as writes of the listed keys. -/
def contents (map : κ → Option β) (keys : List κ) : List (Write κ β) :=
  keys.map fun key => (key, map key)

/-- Listed keys take the map's value, the others keep the copy's. -/
theorem replay_contents (map copy : κ → Option β) (keys : List κ) (key : κ) :
    replay (contents map keys) copy key = if key ∈ keys then map key else copy key := by
  induction keys generalizing copy with
  | nil => simp [contents]
  | cons first rest ih =>
    rw [contents, List.map_cons, replay_cons, ← contents, ih]
    by_cases later : key ∈ rest
    · simp [later]
    · by_cases here : key = first
      · simp [here]
      · simp [later, here]

end MempoolObserver.Replication
