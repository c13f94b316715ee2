import SniffDogSniff.Kademlia.KadBucket
import SniffDogSniff.Base.Runs
import Mathlib.Logic.Function.Basic

/-!
# The routing table

One bucket for every height of the distance to the own id.  The table is built
empty around a random id and then changed by three calls: `pushNode`,
`removeNode` and `setSelfNodeAddress`.

## Main definitions

* `KadRoutingTable`, `KadRoutingTable.pushNode`, `KadRoutingTable.removeNode`.
* `KadRoutingTable.Call`, `KadRoutingTable.step` — the calls as a state machine.
* `KadRoutingTable.Placed` — every entry sits in the bucket of its height.
* `KadRoutingTable.heldIds` — the ids of all entries of the table.

## Main results

* `inv_step`, `placed_step` — what every call keeps.
* `placement_capacity_order` — **placement, capacity and order in every table a
  run reaches.**
* `distinct_ids_iff` — **an id is held once all along a run exactly when no push
  of the run evicts a stale node for a node that is a candidate already.**
-/

namespace SniffDogSniff

/-- The own node and one bucket for each height. -/
structure KadRoutingTable where
  selfNode : KadNode
  buckets : Fin KAD_ID_BIT_LENGTH → KadBucket

namespace KadRoutingTable

/-- The table as the constructor leaves it, for the random id it draws. -/
def init (selfId : KadId) : KadRoutingTable :=
  ⟨KadNode.new selfId [], fun _ => KadBucket.empty⟩

/-- The bucket of an id: the height of its distance to the own id. -/
def bucketOf (t : KadRoutingTable) (id : KadId) : Fin KAD_ID_BIT_LENGTH :=
  ⟨(t.selfNode.id - id).height, KadId.height_lt _⟩

def setSelfNodeAddress (t : KadRoutingTable) (address : Bytes) : KadRoutingTable :=
  { t with selfNode := { t.selfNode with address := address } }

def hasNode (t : KadRoutingTable) (kn : KadNode) : Bool :=
  (List.finRange KAD_ID_BIT_LENGTH).any fun h => (t.buckets h).hasNode kn

/-- `pushNode`: the own node, by id or by address, is turned away. -/
def pushNode (std : StdSort) (now : Int64) (t : KadRoutingTable) (kn : KadNode) :
    KadRoutingTable × Bool :=
  -- the address alone is enough, whatever the id
  if t.selfNode.eqv kn = true ∨ t.selfNode.address = kn.address then (t, false)
  else
    let r := (t.buckets (t.bucketOf kn.id)).pushNode std now kn
    ({ t with buckets := Function.update t.buckets (t.bucketOf kn.id) r.1 }, r.2)

def removeNode (std : StdSort) (t : KadRoutingTable) (id : KadId) : KadRoutingTable × Bool :=
  if t.selfNode.id = id then (t, false)
  else
    let r := (t.buckets (t.bucketOf id)).removeNode std id
    ({ t with buckets := Function.update t.buckets (t.bucketOf id) r.1 }, r.2)

/-! ### The calls as a state machine -/

/-- A call that changes the table; a push reads the clock. -/
inductive Call
  | pushNode (now : Int64) (kn : KadNode)
  | removeNode (id : KadId)
  | setSelfNodeAddress (address : Bytes)

/-- The table after a call. -/
def step (std : StdSort) (t : KadRoutingTable) : Call → KadRoutingTable
  | .pushNode now kn => (t.pushNode std now kn).1
  | .removeNode id => (t.removeNode std id).1
  | .setSelfNodeAddress address => t.setSelfNodeAddress address

/-- The table after a sequence of calls on a new one. -/
def reached (std : StdSort) (selfId : KadId) (calls : List Call) : KadRoutingTable :=
  Runs.run (step std) (init selfId) calls

/-- What a call does to the bucket at one height. -/
inductive Stepped (std : StdSort) (t : KadRoutingTable) (h : Fin KAD_ID_BIT_LENGTH) :
    Call → KadBucket → Prop
  /-- The bucket is not touched. -/
  | same (call : Call) : Stepped std t h call (t.buckets h)
  /-- A node other than the own one is pushed into it. -/
  | push (now : Int64) (kn : KadNode) (hid : t.selfNode.id ≠ kn.id)
      (haddr : t.selfNode.address ≠ kn.address) (hh : t.bucketOf kn.id = h) :
      Stepped std t h (.pushNode now kn) ((t.buckets h).pushNode std now kn).1
  /-- A node other than the own one is removed from it. -/
  | remove (id : KadId) (hid : t.selfNode.id ≠ id) (hh : t.bucketOf id = h) :
      Stepped std t h (.removeNode id) ((t.buckets h).removeNode std id).1

/-- **Everything a call can do to a bucket.** -/
theorem step_cases (std : StdSort) (t : KadRoutingTable) (call : Call)
    (h : Fin KAD_ID_BIT_LENGTH) : Stepped std t h call ((t.step std call).buckets h) := by
  cases call with
  | pushNode now kn =>
    simp only [step, pushNode]
    by_cases hself : t.selfNode.eqv kn = true ∨ t.selfNode.address = kn.address
    · rw [if_pos hself]
      exact .same _
    rw [if_neg hself]
    push Not at hself
    obtain ⟨hid, haddr⟩ := hself
    have hne : t.selfNode.id ≠ kn.id := by simpa [KadNode.eqv] using hid
    by_cases hh : t.bucketOf kn.id = h
    · subst hh
      simp only [Function.update_self]
      exact .push now kn hne haddr rfl
    · simp only [Function.update_of_ne (Ne.symm hh)]
      exact .same _
  | removeNode id =>
    simp only [step, removeNode]
    by_cases hid : t.selfNode.id = id
    · rw [if_pos hid]
      exact .same _
    rw [if_neg hid]
    by_cases hh : t.bucketOf id = h
    · subst hh
      simp only [Function.update_self]
      exact .remove id hid rfl
    · simp only [Function.update_of_ne (Ne.symm hh)]
      exact .same _
  | setSelfNodeAddress address => exact .same _

/-- No call changes the own id. -/
theorem selfNode_id_step (std : StdSort) (t : KadRoutingTable) (call : Call) :
    (t.step std call).selfNode.id = t.selfNode.id := by
  cases call with
  | pushNode now kn =>
    simp only [step, pushNode]
    split <;> rfl
  | removeNode id =>
    simp only [step, removeNode]
    split <;> rfl
  | setSelfNodeAddress address => rfl

/-! ### Placement -/

/-- Every entry of a bucket is a foreign node at the height of the bucket. -/
def Placed (t : KadRoutingTable) : Prop :=
  ∀ h, ∀ kn ∈ (t.buckets h).entries,
    kn.id ≠ t.selfNode.id ∧ (t.selfNode.id - kn.id).height = h

theorem bucketOf_eq_of_placed {t : KadRoutingTable} (ht : t.Placed) {h : Fin KAD_ID_BIT_LENGTH}
    {kn : KadNode} (hkn : kn ∈ (t.buckets h).entries) : t.bucketOf kn.id = h :=
  Fin.ext (ht h kn hkn).2

/-- **A property of ids and addresses spreads from the pushed nodes to the
table.**  It may depend on the bucket. -/
theorem entries_step {P : Fin KAD_ID_BIT_LENGTH → KadId → Bytes → Prop} (std : StdSort)
    (t : KadRoutingTable) (call : Call)
    (ht : ∀ h, ∀ kn ∈ (t.buckets h).entries, P h kn.id kn.address)
    (hpush : ∀ now kn, call = .pushNode now kn → t.selfNode.id ≠ kn.id →
      t.selfNode.address ≠ kn.address → P (t.bucketOf kn.id) kn.id kn.address) :
    ∀ h, ∀ kn ∈ ((t.step std call).buckets h).entries, P h kn.id kn.address := by
  intro h n hn
  have hs := t.step_cases std call h
  generalize (t.step std call).buckets h = b at hs hn
  cases hs with
  | same => exact ht h n hn
  | push now kn hid haddr hh =>
    rcases KadBucket.mem_entries_pushNode hn with rfl | ⟨m, hm, hmid, hmaddr⟩
    · exact hh ▸ hpush now n rfl hid haddr
    · rw [hmid, hmaddr]
      exact ht h m hm
  | remove id hid hh =>
    obtain ⟨m, hm, hmid, hmaddr⟩ := KadBucket.mem_entries_removeNode hn
    rw [hmid, hmaddr]
    exact ht h m hm

/-- The same for several calls. -/
theorem entries_run {P : KadId → Bytes → Prop} (std : StdSort) (t : KadRoutingTable)
    (calls : List Call) (ht : ∀ h, ∀ kn ∈ (t.buckets h).entries, P kn.id kn.address)
    (hpush : ∀ now kn, .pushNode now kn ∈ calls → P kn.id kn.address) :
    ∀ h, ∀ kn ∈ ((Runs.run (step std) t calls).buckets h).entries, P kn.id kn.address := by
  refine Runs.run_induction_of_mem
    (P := fun t : KadRoutingTable => ∀ h, ∀ kn ∈ (t.buckets h).entries, P kn.id kn.address)
    (K := fun call => ∀ now kn, call = .pushNode now kn → P kn.id kn.address) ?_ calls ?_ ht
  · exact fun t call hcall ht => entries_step (P := fun _ id address => P id address) std t call ht
      fun now kn heq _ _ => hcall now kn heq
  · rintro call hmem now kn rfl
    exact hpush now kn hmem

theorem placed_init (selfId : KadId) : (init selfId).Placed := by
  intro h kn hkn
  exact absurd hkn (by simp [init, KadBucket.empty, KadBucket.entries])

theorem placed_step (std : StdSort) (t : KadRoutingTable) (call : Call) (ht : t.Placed) :
    (t.step std call).Placed := by
  rw [Placed, selfNode_id_step]
  refine entries_step (P := fun h id _ => id ≠ t.selfNode.id ∧ (t.selfNode.id - id).height = h)
    std t call ht ?_
  exact fun now kn _ hid _ => ⟨hid.symm, rfl⟩

/-! ### Capacity and order -/

theorem inv_step (std : StdSort) (t : KadRoutingTable) (call : Call)
    (ht : ∀ h, (t.buckets h).Inv) : ∀ h, ((t.step std call).buckets h).Inv := by
  intro h
  have hs := t.step_cases std call h
  generalize (t.step std call).buckets h = b at hs
  cases hs with
  | same => exact ht h
  | push now kn hne haddr hh => exact KadBucket.inv_pushNode std now kn (ht h)
  | remove id hne hh => exact KadBucket.inv_removeNode std id (ht h)

theorem length_nodes_step (std : StdSort) (t : KadRoutingTable) (call : Call)
    (h : Fin KAD_ID_BIT_LENGTH) :
    (t.buckets h).nodes.length ≤ ((t.step std call).buckets h).nodes.length := by
  have hs := t.step_cases std call h
  generalize (t.step std call).buckets h = b at hs
  cases hs with
  | same => exact le_rfl
  | push now kn hne haddr hh => exact KadBucket.length_le_pushNode std now kn
  | remove id hne hh => exact (KadBucket.length_removeNode std id).ge

/-- What every call keeps: the buckets' own invariant, and the placement. -/
def WellFormed (t : KadRoutingTable) : Prop := (∀ h, (t.buckets h).Inv) ∧ t.Placed

theorem wellFormed_init (selfId : KadId) : (init selfId).WellFormed :=
  ⟨fun _ => KadBucket.inv_empty, placed_init selfId⟩

theorem wellFormed_step (std : StdSort) (t : KadRoutingTable) (call : Call) (ht : t.WellFormed) :
    (t.step std call).WellFormed :=
  ⟨inv_step std t call ht.1, placed_step std t call ht.2⟩

theorem wellFormed_reached (std : StdSort) (selfId : KadId) (calls : List Call) :
    (reached std selfId calls).WellFormed :=
  Runs.run_induction (wellFormed_step std) calls (wellFormed_init selfId)

/-- **Placement, capacity and order in every table a run reaches**, and the
lengths of the `nodes` lists under one more call. -/
theorem placement_capacity_order (std : StdSort) (selfId : KadId) (calls : List Call) :
    (reached std selfId calls).Placed ∧
      (∀ h, ((reached std selfId calls).buckets h).Inv) ∧
      ∀ call h, ((reached std selfId calls).buckets h).nodes.length ≤
        (((reached std selfId calls).step std call).buckets h).nodes.length :=
  ⟨(wellFormed_reached std selfId calls).2, (wellFormed_reached std selfId calls).1,
    fun call h => length_nodes_step std _ call h⟩

/-! ### Distinct ids -/

/-- The ids of all entries of the table, bucket by bucket. -/
def heldIds (t : KadRoutingTable) : List KadId :=
  (List.finRange KAD_ID_BIT_LENGTH).flatMap fun h => (t.buckets h).heldIds

/-- Placement keeps the buckets apart, so only repetitions inside one count. -/
theorem nodup_heldIds_iff {t : KadRoutingTable} (ht : t.Placed) :
    t.heldIds.Nodup ↔ ∀ h, (t.buckets h).heldIds.Nodup := by
  rw [heldIds, List.nodup_flatMap]
  constructor
  · intro hd h
    exact hd.1 h (List.mem_finRange h)
  · intro hd
    -- an id that two buckets hold would have two heights
    refine ⟨fun h _ => hd h, (List.nodup_finRange _).imp ?_⟩
    intro h k hne id hid hid'
    obtain ⟨m, hm, rfl⟩ := KadBucket.exists_entry_of_mem_heldIds hid
    obtain ⟨n, hn, hmn⟩ := KadBucket.exists_entry_of_mem_heldIds hid'
    have hh := bucketOf_eq_of_placed ht hm
    have hk := bucketOf_eq_of_placed ht hn
    exact hne (hh.symm.trans (hmn ▸ hk))

/-- A call does not evict a stale node for a node that is a candidate already. -/
def KeepsIds (t : KadRoutingTable) : Call → Prop
  | .pushNode _ kn => t.selfNode.id ≠ kn.id → t.selfNode.address ≠ kn.address →
      ¬ (t.buckets (t.bucketOf kn.id)).EvictsHeld kn
  | .removeNode _ => True
  | .setSelfNodeAddress _ => True

theorem nodup_step_iff (std : StdSort) (t : KadRoutingTable) (call : Call) (ht : t.WellFormed)
    (hd : t.heldIds.Nodup) : (t.step std call).heldIds.Nodup ↔ t.KeepsIds call := by
  rw [nodup_heldIds_iff (wellFormed_step std t call ht).2]
  rw [nodup_heldIds_iff ht.2] at hd
  constructor
  · intro hd'
    cases call with
    | pushNode now kn =>
      intro hid haddr
      have hb := hd' (t.bucketOf kn.id)
      have hself : ¬ (t.selfNode.eqv kn = true ∨ t.selfNode.address = kn.address) := by
        simp [KadNode.eqv, hid, haddr]
      simp only [step, pushNode, if_neg hself, Function.update_self] at hb
      exact (KadBucket.nodup_pushNode_iff std now (ht.1 _) (hd _)).mp hb
    | removeNode id => trivial
    | setSelfNodeAddress address => trivial
  · intro hk h
    have hs := t.step_cases std call h
    generalize (t.step std call).buckets h = b at hs
    cases hs with
    | same => exact hd h
    | push now kn hid haddr hh =>
      subst hh
      exact (KadBucket.nodup_pushNode_iff std now (ht.1 _) (hd _)).mpr (hk hid haddr)
    | remove id hid hh =>
      obtain ⟨old, hsub, hperm⟩ := (t.buckets h).heldIds_removeNode std id
      exact hperm.nodup_iff.mpr ((hd h).sublist hsub)

/-- **An id is held once in every table of a run exactly when no push of the run
evicts a stale node for a node that is a candidate already.** -/
theorem distinct_ids_iff (std : StdSort) (selfId : KadId) (calls : List Call) :
    Runs.Always (step std) (fun t => t.heldIds.Nodup) (init selfId) calls ↔
      Runs.Along (step std) KeepsIds (init selfId) calls := by
  refine Runs.always_iff_along (wellFormed_step std) (nodup_step_iff std) calls (init selfId)
    (wellFormed_init selfId) ?_
  refine (nodup_heldIds_iff (placed_init selfId)).mpr fun h => ?_
  exact List.nodup_nil

/-- The `i`-th id of the top bucket of the table around the zero id. -/
def topId (i : ℕ) : KadId := KadId.ofNat (2 ^ 127 + i)

/-- Twenty-one new nodes, a copy that was five times stale when it was read, a
removal that promotes it, and the last of the new nodes once more. -/
def repushCalls : List Call :=
  (List.range 21).map (fun i => .pushNode 0 (KadNode.new (topId i) [97])) ++
    [.pushNode 0 ⟨topId 21, [97], 1, 5⟩, .removeNode (topId 0),
      .pushNode 0 (KadNode.new (topId 20) [97])]

/-- The last push of `repushCalls` leaves its node in both lists of the bucket. -/
theorem repushCalls_not_nodup :
    ¬ (reached StdSort.insertion (KadId.ofNat 0) repushCalls).heldIds.Nodup := by
  decide +kernel

end KadRoutingTable

end SniffDogSniff
