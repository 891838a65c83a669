import Mathlib.Data.List.Nodup
import Mathlib.Data.List.Perm.Basic
import Mathlib.Data.List.Range
import MempoolObserver.Library.Measures

/-!
# The pool of node connections

A call to the node takes an idle connection from the pool, or builds one when there is none,
and puts it back when it is answered. Taking and building are two steps: a connection may
come back to the pool between them, and the call builds its own all the same.

## Main definitions

* `PooledTransport.step` — the calls of any number of threads, step by step

## Main results

* `pool_grows_to_peak` — no connection is shared, and the pool has as many as there ever were
  calls at once
-/

namespace MempoolObserver

open Runs

abbrev SocketId := ℕ

abbrev CallId := ℕ

structure PooledTransport where
  /-- Whether the configured url parses, which building a connection needs. -/
  validUrl : Bool
  idle : List SocketId
  /-- How many connections were built; they are numbered as they are. -/
  built : ℕ
  /-- The calls that found no idle connection and are about to build one. -/
  building : List CallId
  /-- The calls that are being sent, with their connection. -/
  sending : List (CallId × SocketId)

inductive PoolAction where
  /-- A call looks for an idle connection. -/
  | take (call : CallId)
  | build (call : CallId)
  /-- A call is answered, with a response or an error, and its connection checked in. -/
  | checkin (call : CallId)

namespace PooledTransport

def new (validUrl : Bool) : PooledTransport := ⟨validUrl, [], 0, [], []⟩

/-- The calls that are on their way. -/
def calls (w : PooledTransport) : List CallId := w.building ++ w.sending.map Prod.fst

/-- All connections there are. -/
def sockets (w : PooledTransport) : List SocketId := w.idle ++ w.sending.map Prod.snd

def step (w : PooledTransport) : PoolAction → Option PooledTransport
  | .take call =>
    if call ∈ w.calls then none
    else
      match w.idle.getLast? with
      | some socket =>
        some { w with idle := w.idle.dropLast, sending := w.sending ++ [(call, socket)] }
      | none => some { w with building := w.building ++ [call] }
  | .build call =>
    if call ∈ w.building then
      if w.validUrl then
        some { w with
          built := w.built + 1
          building := w.building.erase call
          sending := w.sending ++ [(call, w.built)] }
      else some { w with building := w.building.erase call }
    else none
  | .checkin call =>
    match w.sending.find? fun entry => entry.1 = call with
    | some entry =>
      some { w with idle := w.idle ++ [entry.2], sending := w.sending.erase entry }
    | none => none

/-! ### What every state satisfies -/

structure PoolInv (w : PooledTransport) : Prop where
  /-- Every connection is idle or sends one call. -/
  sockets : w.sockets.Perm (List.range w.built)
  calls : w.calls.Nodup

section Steps

variable {w next : PooledTransport} {call : CallId} {action : PoolAction}

theorem poolInv_new (validUrl : Bool) : (new validUrl).PoolInv :=
  ⟨List.Perm.refl _, List.nodup_nil⟩

theorem PoolInv.length_sockets (inv : w.PoolInv) : w.idle.length + w.sending.length = w.built := by
  have same := inv.sockets.length_eq
  simpa [PooledTransport.sockets] using same

theorem PoolInv.step (inv : w.PoolInv) (stepped : w.step action = some next) : next.PoolInv := by
  cases action with
  | take call =>
    simp only [PooledTransport.step] at stepped
    split_ifs at stepped with known
    split at stepped
    · next socket last =>
      obtain rfl := Option.some.inj stepped
      constructor
      · -- the connection moves from the idle ones to the sending ones
        have whole : w.idle.dropLast ++ [socket] = w.idle :=
          List.dropLast_append_getLast? socket last
        have moved : (w.idle.dropLast ++ (w.sending.map Prod.snd ++ [socket])).Perm
            (w.idle ++ w.sending.map Prod.snd) := by
          nth_rewrite 2 [← whole]
          rw [List.append_assoc]
          exact List.Perm.append_left _ List.perm_append_comm
        simpa [PooledTransport.sockets] using moved.trans inv.sockets
      · have more : (w.calls ++ [call]).Nodup :=
          inv.calls.append (List.nodup_singleton call) (List.disjoint_singleton.mpr known)
        simpa [PooledTransport.calls] using more
    · obtain rfl := Option.some.inj stepped
      refine ⟨inv.sockets, ?_⟩
      have more : (call :: w.calls).Nodup := List.nodup_cons.mpr ⟨known, inv.calls⟩
      refine more.perm ?_
      simp only [PooledTransport.calls, List.append_assoc, List.singleton_append]
      exact List.perm_middle.symm
  | build call =>
    simp only [PooledTransport.step] at stepped
    split_ifs at stepped with listed valid
    · obtain rfl := Option.some.inj stepped
      constructor
      · have more := inv.sockets.append_right [w.built]
        rw [← List.range_succ] at more
        simpa [PooledTransport.sockets] using more
      · refine inv.calls.perm ?_
        simp only [PooledTransport.calls, List.map_append, List.map_cons, List.map_nil]
        have erased := List.perm_cons_erase listed
        have front := erased.append_right (w.sending.map Prod.fst)
        refine front.trans ?_
        rw [List.cons_append, ← List.append_assoc]
        exact List.perm_append_singleton call _ |>.symm
    · obtain rfl := Option.some.inj stepped
      refine ⟨inv.sockets, inv.calls.sublist ?_⟩
      exact List.Sublist.append List.erase_sublist (List.Sublist.refl _)
  | checkin call =>
    simp only [PooledTransport.step] at stepped
    split at stepped
    · next entry found =>
      obtain rfl := Option.some.inj stepped
      have listed : entry ∈ w.sending := List.mem_of_find?_eq_some found
      have erased := List.perm_cons_erase listed
      constructor
      · have moved := (erased.map Prod.snd).append_left w.idle
        refine List.Perm.trans ?_ inv.sockets
        refine List.Perm.trans ?_ moved.symm
        simp [PooledTransport.sockets]
      · refine inv.calls.sublist ?_
        exact List.Sublist.append (List.Sublist.refl _) (List.erase_sublist.map _)
    · cases stepped

/-- How many connections there will be when the calls that are about to build have built. -/
def size (w : PooledTransport) : ℕ := w.built + w.building.length

theorem length_calls_le (inv : w.PoolInv) : w.calls.length ≤ w.size := by
  have whole := inv.length_sockets
  simp only [calls, size, List.length_append, List.length_map]
  omega

/-- The pool grows only when every connection is taken. -/
theorem size_step (inv : w.PoolInv) (valid : w.validUrl = true)
    (stepped : w.step action = some next) :
    next.validUrl = true ∧ next.size = max w.size next.calls.length := by
  have whole := inv.length_sockets
  cases action with
  | take call =>
    simp only [PooledTransport.step] at stepped
    split_ifs at stepped
    split at stepped
    · next socket last =>
      obtain rfl := Option.some.inj stepped
      have some' : 0 < w.idle.length := List.length_pos_of_mem (List.mem_of_getLast? last)
      refine ⟨valid, ?_⟩
      simp only [size, calls, List.length_append, List.length_map, List.length_cons,
        List.length_nil]
      omega
    · next none =>
      obtain rfl := Option.some.inj stepped
      have empty : w.idle = [] := List.getLast?_eq_none_iff.mp none
      rw [empty, List.length_nil] at whole
      refine ⟨valid, ?_⟩
      simp only [size, calls, List.length_append, List.length_map, List.length_cons,
        List.length_nil]
      omega
  | build call =>
    simp only [PooledTransport.step, valid, if_true] at stepped
    split_ifs at stepped with listed
    obtain rfl := Option.some.inj stepped
    have shorter := List.length_erase_of_mem listed
    have positive : 0 < w.building.length := List.length_pos_of_mem listed
    refine ⟨rfl, ?_⟩
    simp only [size, calls, List.length_append, List.length_map, List.length_cons,
      List.length_nil, shorter]
    omega
  | checkin call =>
    simp only [PooledTransport.step] at stepped
    split at stepped
    · next entry found =>
      obtain rfl := Option.some.inj stepped
      have shorter := List.length_erase_of_mem (List.mem_of_find?_eq_some found)
      refine ⟨valid, ?_⟩
      simp only [size, calls, List.length_append, List.length_map, shorter]
      omega
    · cases stepped

end Steps

end PooledTransport

/-- Every connection of the pool is idle or sends one call, and no call has two. There are as
many of them, with those about to be built, as there ever were calls on their way at once. -/
theorem pool_grows_to_peak {actions : List PoolAction} {w : PooledTransport}
    (ran : run PooledTransport.step (.new true) actions = some w) :
    w.sockets.Perm (List.range w.built) ∧ w.calls.Nodup ∧
      w.built + w.building.length =
        highWater PooledTransport.step (fun w => w.calls.length) (.new true) actions := by
  have inv : w.PoolInv :=
    run_induction (fun _ _ _ held stepped => held.step stepped) (PooledTransport.poolInv_new true)
      ran
  refine ⟨inv.sockets, inv.calls, ?_⟩
  have grown : w.size = max (PooledTransport.new true).size
      (highWater PooledTransport.step (fun w => w.calls.length) (.new true) actions) := by
    apply size_eq_highWater (motive := fun w => w.PoolInv ∧ w.validUrl = true) _ _ _ _ _ ran
    · exact fun w held => PooledTransport.length_calls_le held.1
    · intro w action next held stepped
      obtain ⟨valid, grown⟩ := PooledTransport.size_step held.1 held.2 stepped
      exact ⟨⟨held.1.step stepped, valid⟩, grown⟩
    · exact ⟨PooledTransport.poolInv_new true, rfl⟩
  exact grown.trans (Nat.max_eq_right (Nat.zero_le _))

/-- Two calls at once, then a third. -/
def threeCalls : List PoolAction :=
  [.take 0, .build 0, .take 1, .checkin 0, .build 1, .take 2, .checkin 1, .checkin 2]

theorem pool_of_threeCalls : ∃ w, run PooledTransport.step (.new true) threeCalls = some w ∧
    w.sockets.Perm (List.range 2) := by
  have ends : ((run PooledTransport.step (.new true) threeCalls).map PooledTransport.built) =
      some 2 := by
    decide
  obtain ⟨w, ran, built⟩ := Option.map_eq_some_iff.mp ends
  exact ⟨w, ran, built ▸ (pool_grows_to_peak ran).1⟩

end MempoolObserver
