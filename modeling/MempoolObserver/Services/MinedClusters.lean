import MempoolObserver.Services.Confirmation

/-!
# Clusters with a mined member

What a round writes about clusters are the groups the node answered with, and
closings. While no answer names a mined transaction, a cluster with a mined member
is one that was there before the round; and while the answers that name a member of
it name nobody else's, it is merged into no other.

## Main definitions

* `ClusterEnv.Reports` — a group the node answers with
* `NodeSafe` — what the answers name of the clusters with a mined member
* `Recast` — where a stored cluster comes from in one transaction
* `Passes` — the transactions of a round, one after the other
* `Db.Carries` — clusters with a mined member stay as they are, or end confirmed

## Main results

* `NodeSafe.passes` — a round carries the clusters with a mined member
-/

namespace MempoolObserver

open Relation Collections ClusterService

variable {env : ClusterEnv}

/-- The node answers some call with the group. -/
def ClusterEnv.Reports (env : ClusterEnv) (group : List Txid) : Prop :=
  ∃ call asked cluster, env.getMempoolCluster call asked = .cluster cluster ∧ cluster.txids = group

namespace Db

/-- A member of the cluster is mined. -/
def HasMined (db : Db) (id : ClusterId) : Prop := ∃ txid ∈ db.members id, db.isConfirmed txid = true

/-- The group names a member of the cluster. -/
def Names (db : Db) (group : List Txid) (id : ClusterId) : Prop :=
  ∃ txid ∈ group, txid ∈ db.members id

/-- Clusters with a mined member are as they were, or confirmed. -/
def Carries (db next : Db) : Prop :=
  ∀ id row, next.clusters id = some row → next.HasMined id →
    db.clusters id = some row ∧ next.members id = db.members id ∨ row.status = .confirmed

variable {db mid next : Db} {id : ClusterId}

theorem HasMined.congr (mined : next.HasMined id) (records : db.SameRecords next)
    (members : next.members id = db.members id) : db.HasMined id := by
  obtain ⟨txid, member, confirmed⟩ := mined
  exact ⟨txid, members ▸ member, by rwa [records.isConfirmed] at confirmed⟩

theorem Carries.trans (first : Carries db mid) (second : Carries mid next)
    (records : mid.SameRecords next) : Carries db next := by
  intro id row stored mined
  rcases second id row stored mined with ⟨before, members⟩ | confirmed
  · apply (first id row before (mined.congr records members)).imp_left
    exact fun earlier => ⟨earlier.1, members.trans earlier.2⟩
  · exact .inr confirmed

/-- An active cluster with a mined member is the one it was. -/
theorem Carries.active (carries : Carries db next) (records : db.SameRecords next)
    (active : next.IsActive id) (mined : next.HasMined id) :
    db.IsActive id ∧ db.HasMined id ∧ next.members id = db.members id := by
  obtain ⟨row, stored, status⟩ := active
  obtain ⟨before, members⟩ := (carries id row stored mined).resolve_right (by simp [status])
  exact ⟨⟨row, before, status⟩, mined.congr records members, members⟩

end Db

/-- The node names no mined transaction; a group of its answers that names a member of
an active cluster with a mined one names nobody in another active cluster, and no two of
its answers link it to anyone else. -/
structure NodeSafe (env : ClusterEnv) (db : Db) : Prop where
  unmined : ∀ group, env.Reports group → ∀ txid ∈ group, db.isConfirmed txid = false
  apart : ∀ {id other}, db.IsActive id → db.HasMined id → db.IsActive other → other ≠ id →
    ∀ group, env.Reports group → db.Names group id → ¬ db.Names group other
  linked : ∀ {id}, db.IsActive id → db.HasMined id → ∀ group near, env.Reports group →
    env.Reports near → db.Names group id → (∃ txid ∈ near, txid ∈ group) → db.Names near id

/-- How a cluster stored in `next` comes from `db`. -/
inductive Recast (env : ClusterEnv) (db next : Db) (id : ClusterId) (row : ClusterRow) : Prop where
  | same (before : db.clusters id = some row) (members : next.members id = db.members id)
  | confirmed (ended : row.status = .confirmed)
  /-- A group the node answered with. -/
  | group {group : List Txid} (reported : env.Reports group)
      (members : ∀ txid, txid ∈ next.members id ↔ txid ∈ group)
  /-- A group names members of it and of the cluster that is kept. -/
  | merged {group : List Txid} {keep : ClusterId} (ended : row.status ≠ .active)
      (members : next.members id = db.members id) (reported : env.Reports group)
      (active : db.IsActive id) (kept : db.IsActive keep) (differs : keep ≠ id)
      (named : db.Names group id) (keepNamed : db.Names group keep)
  | emptied (ended : row.status ≠ .active) (unmined : ¬ next.HasMined id)

/-- One transaction of a round. -/
structure Passed (env : ClusterEnv) (db next : Db) : Prop where
  inv : Db.StoreInv [] next
  records : db.SameRecords next
  recast : ∀ {id row}, next.clusters id = some row → Recast env db next id row

/-- The transactions of a round. -/
def Passes (env : ClusterEnv) : Db → Db → Prop := ReflTransGen (Passed env)

/-! ### What the answers name -/

namespace NodeSafe

variable {db next : Db}

theorem carries (safe : NodeSafe env db) (passed : Passed env db next) : db.Carries next := by
  intro id row stored mined
  cases passed.recast stored with
  | same before members => exact .inl ⟨before, members⟩
  | confirmed ended => exact .inr ended
  | group reported members =>
    -- a group of the node has no mined member
    obtain ⟨txid, member, confirmed⟩ := mined
    have unmined := safe.unmined _ reported txid ((members txid).mp member)
    rw [passed.records.isConfirmed, unmined] at confirmed
    cases confirmed
  | merged ended members reported active kept differs named keepNamed =>
    have before := mined.congr passed.records members
    exact absurd keepNamed (safe.apart active before kept differs _ reported named)
  | emptied ended unmined => exact absurd mined unmined

theorem passed (safe : NodeSafe env db) (passed : Passed env db next) : NodeSafe env next := by
  have carries := safe.carries passed
  constructor
  · intro group reported txid member
    rw [passed.records.isConfirmed]
    exact safe.unmined group reported txid member
  · intro id other active mined otherActive differs group reported named
    obtain ⟨before, wasMined, members⟩ := carries.active passed.records active mined
    have namedBefore : db.Names group id := by rwa [Db.Names, ← members]
    rintro ⟨txid, inGroup, inOther⟩
    obtain ⟨row, stored, status⟩ := otherActive
    cases passed.recast stored with
    | same otherBefore otherMembers =>
      refine safe.apart before wasMined ⟨row, otherBefore, status⟩ differs group reported
        namedBefore ⟨txid, inGroup, ?_⟩
      rwa [← otherMembers]
    | confirmed ended => simp [ended] at status
    | group near otherMembers =>
      -- the group written shares a txid with this one, so it names a member of the cluster
      obtain ⟨shared, inNear, inBefore⟩ := safe.linked before wasMined group _ reported near
        namedBefore ⟨txid, (otherMembers txid).mp inOther, inGroup⟩
      exact differs (passed.inv.unique ⟨row, stored, status⟩ active shared
        ((otherMembers shared).mpr inNear) (members ▸ inBefore))
    | merged ended => exact ended status
    | emptied ended => exact ended status
  · intro id active mined group near reported nearReported named shares
    obtain ⟨before, wasMined, members⟩ := carries.active passed.records active mined
    rw [Db.Names, members] at named ⊢
    exact safe.linked before wasMined group near reported nearReported named shares

/-- Closing clusters leaves the others as they are. -/
theorem without {ids : List ClusterId} (safe : NodeSafe env db) (without : Without db ids next)
    (records : db.SameRecords next) : NodeSafe env next := by
  have before {id : ClusterId} (active : next.IsActive id) :
      db.IsActive id ∧ next.members id = db.members id :=
    have ⟨wasActive, kept⟩ := (without.isActive id).mp active
    ⟨wasActive, without.members id kept⟩
  constructor
  · intro group reported txid member
    rw [records.isConfirmed]
    exact safe.unmined group reported txid member
  · intro id other active mined otherActive differs group reported named
    obtain ⟨wasActive, members⟩ := before active
    obtain ⟨otherWas, otherMembers⟩ := before otherActive
    rw [Db.Names, members] at named
    rw [Db.Names, otherMembers]
    exact safe.apart wasActive (mined.congr records members) otherWas differs group reported named
  · intro id active mined group near reported nearReported named shares
    obtain ⟨wasActive, members⟩ := before active
    rw [Db.Names, members] at named ⊢
    exact safe.linked wasActive (mined.congr records members) group near reported nearReported
      named shares

/-- A round carries the clusters with a mined member. -/
theorem passes (safe : NodeSafe env db) (passes : Passes env db next) :
    NodeSafe env next ∧ db.Carries next ∧ db.SameRecords next := by
  induction passes with
  | refl => exact ⟨safe, fun _ _ stored _ => .inl ⟨stored, rfl⟩, .refl db⟩
  | tail _ step ih =>
    obtain ⟨midSafe, carries, records⟩ := ih
    exact ⟨midSafe.passed step, carries.trans (midSafe.carries step) step.records,
      records.trans step.records⟩

end NodeSafe

/-! ### One transaction -/

section Transactions

variable {db next : Db} {now : Txid → OffsetDateTime} {id : ClusterId} {row : ClusterRow}

theorem recast_insertIn {new : List NewCluster} {clusters : List Cluster} (inv : db.Versioned)
    (reported : ∀ cluster ∈ new, env.Reports cluster.txids)
    (h : db.insertIn now new = some (clusters, next)) (stored : next.clusters id = some row) :
    Recast env db next id row := by
  obtain ⟨-, inserts⟩ := Db.inserts_insertIn inv h
  cases found : (fresh db.clusterSeq new).lookup id with
  | none =>
    rw [inserts.clusters_old found] at stored
    exact .same stored (inserts.members_old found)
  | some cluster =>
    refine .group (reported cluster (Db.lookup_fresh_bounds found).1) fun txid => ?_
    rw [inserts.members_fresh inv found]

theorem recast_replaceChunksIn {update : ClusterVersionUpdate} {live : Bool} {cluster : Cluster}
    (inv : db.Versioned) (reported : env.Reports update.txids)
    (h : db.replaceChunksIn now update live = some (cluster, next))
    (stored : next.clusters id = some row) : Recast env db next id row := by
  obtain ⟨old, present, ⟨-, -, rfl⟩ | ⟨active, -, rep⟩⟩ := Db.replaceChunksIn_cases h
  · exact .same stored rfl
  by_cases other : id = update.clusterId
  · subst other
    exact .group reported fun txid => by rw [rep.members_self inv present]
  · rw [rep.clusters_other other] at stored
    exact .same stored (rep.members_other other)

/-- Ending clusters leaves the others as they are. -/
theorem recast_ends {ended : List ClusterId} {change : ClusterRow → ClusterRow}
    (ends : Db.Ends db ended change next)
    (recast : ∀ before, id ∈ ended → db.clusters id = some before → row = change before →
      Recast env db next id row)
    (stored : next.clusters id = some row) : Recast env db next id row := by
  rw [ends.clusters] at stored
  split_ifs at stored with member
  · obtain ⟨before, present, rfl⟩ := Option.map_eq_some_iff.mp stored
    exact recast before member present rfl
  · exact .same stored (ends.members_eq member)

end Transactions

end MempoolObserver
