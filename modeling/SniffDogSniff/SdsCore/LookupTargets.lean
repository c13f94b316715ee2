import SniffDogSniff.SdsCore.NodesLookupTask
import SniffDogSniff.SdsCore.StoreRuns

/-!
# Where lookups start

The task refreshes a table that is full: it looks for a node of every bucket that was not
seen for an hour.  A table that is not full is explored instead, with one id for each
number of bits.  A table is full when all its buckets are, also the lowest one, and there
is a single id at the lowest distance; so a table is never full.

The ids of the exploration are the own id with all bits from a place on inverted.  The
highest bit is among these unless the place is behind the last bit, so all ids but one are
at the highest distance, and that one is the own id.

## Main definitions

* `KadRoutingTable.isFull`, `KadRoutingTable.getNodeAtHeight`, `KadId.idNbitsFarFrom`.
* `KadRoutingTable.toLook` — the ids that the task looks for.
* `NodesLookupTask.execute` — the task.

## Main results

* `eq_of_height_eq_zero` — the id at the lowest distance.
* `length_lowest_reached_le_one` — the lowest bucket of every table that is reached.
* `isFull_reached` — **no table is full, and the task explores.**
* `execute_of_reached` — so for the task as a whole.
* `not_explores` — **the ids of the exploration never fall into different buckets.**
-/

namespace SniffDogSniff

namespace KadId

/-- `idNbitsFarFrom`: all bits from a place on are inverted. -/
def idNbitsFarFrom (id1 : KadId) (bdist : ℕ) : KadId :=
  let dIdx := KAD_ID_BIT_LENGTH - bdist
  let ax : KadId :=
    { id := (List.range KAD_ID_LENGTH).map fun i =>
        if i < dIdx / 8 then 0
        else if i = dIdx / 8 then 0xff <<< UInt8.ofNat ((dIdx - i * 8) % 8) else 0xff
      length_id := by rw [List.length_map, List.length_range] }
  ax - id1

/-! ### The ids of the exploration -/

/-- The bits that `idNbitsFarFrom` inverts. -/
def farBits (bdist : ℕ) : KadId where
  id := (List.range KAD_ID_LENGTH).map fun i =>
    if i < (KAD_ID_BIT_LENGTH - bdist) / 8 then 0
    else if i = (KAD_ID_BIT_LENGTH - bdist) / 8 then
      0xff <<< UInt8.ofNat ((KAD_ID_BIT_LENGTH - bdist - i * 8) % 8)
    else 0xff
  length_id := by rw [List.length_map, List.length_range]

/-- The distance between an id and its target is the inverted bits. -/
theorem val_sub_idNbitsFarFrom (id1 : KadId) (bdist : ℕ) :
    (id1 - id1.idNbitsFarFrom bdist).val = (farBits bdist).val := by
  have htarget : id1.idNbitsFarFrom bdist = farBits bdist - id1 := rfl
  rw [htarget, val_sub, val_sub, Nat.xor_comm, Nat.xor_xor_cancel_right]

/-- No bit is inverted at distance zero. -/
theorem idNbitsFarFrom_zero (id1 : KadId) : id1.idNbitsFarFrom 0 = id1 := by
  have hzero : (farBits 0).val = 0 := by decide
  have hval := id1.val_sub_idNbitsFarFrom 0
  rw [hzero, val_sub, Nat.xor_eq_zero_iff] at hval
  exact (val_inj.mp hval).symm

/-- A byte that is shifted by less than its width keeps its top bit. -/
theorem le_toNat_shift : ∀ k < 8, 128 ≤ ((0xff : UInt8) <<< UInt8.ofNat k).toNat := by
  decide

/-- The highest byte has its top bit inverted. -/
theorem le_byte_farBits {bdist : ℕ} (h : 1 ≤ bdist) : 128 ≤ ((farBits bdist).byte 15).toNat := by
  have hlen : KAD_ID_BIT_LENGTH = 128 := rfl
  have hbyte : (farBits bdist).byte 15 =
      if 15 < (KAD_ID_BIT_LENGTH - bdist) / 8 then (0 : UInt8)
      else if 15 = (KAD_ID_BIT_LENGTH - bdist) / 8 then
        0xff <<< UInt8.ofNat ((KAD_ID_BIT_LENGTH - bdist - 15 * 8) % 8)
      else 0xff := rfl
  rw [hbyte, if_neg (by omega)]
  split
  · exact le_toNat_shift _ (Nat.mod_lt _ (by decide))
  · decide

/-- **Every target but the first is at the highest distance.** -/
theorem height_sub_idNbitsFarFrom (id1 : KadId) {bdist : ℕ} (h : 1 ≤ bdist) :
    (id1 - id1.idNbitsFarFrom bdist).height = 127 := by
  have hval : 2 ^ 127 ≤ (id1 - id1.idNbitsFarFrom bdist).val := by
    have hbyte := le_byte_farBits h
    have htop : (farBits bdist).val = 256 ^ 15 * ((farBits bdist).byte 15).toNat +
        (farBits bdist).valBelow 15 := rfl
    rw [val_sub_idNbitsFarFrom, htop]
    omega
  have hne : (id1 - id1.idNbitsFarFrom bdist).val ≠ 0 := by omega
  have hlt := (id1 - id1.idNbitsFarFrom bdist).height_lt
  have hle := (Nat.le_log2 hne).mpr hval
  rw [height_eq_log2 hne] at hlt ⊢
  have hlen : KAD_ID_BIT_LENGTH = 128 := rfl
  omega

/-- What the exploration is for: the targets differ from the own id and fall into different
buckets. -/
structure Explores (id1 : KadId) : Prop where
  other : ∀ i < KAD_ID_BIT_LENGTH, id1.idNbitsFarFrom i ≠ id1
  apart : ∀ i < KAD_ID_BIT_LENGTH, ∀ j < KAD_ID_BIT_LENGTH, i ≠ j →
    (id1 - id1.idNbitsFarFrom i).height ≠ (id1 - id1.idNbitsFarFrom j).height

/-- **The exploration never does it**: the first target is the own id, and all others fall into
the highest bucket. -/
theorem not_explores (id1 : KadId) : ¬ id1.Explores ∧ id1.idNbitsFarFrom 0 = id1 ∧
    ∀ i, 1 ≤ i → (id1 - id1.idNbitsFarFrom i).height = 127 := by
  refine ⟨fun h => ?_, id1.idNbitsFarFrom_zero, fun i => id1.height_sub_idNbitsFarFrom⟩
  exact h.other 0 (by decide) id1.idNbitsFarFrom_zero

theorem not_forall_explores : ¬ ∀ id1 : KadId, id1.Explores := by
  intro h
  refine (h (ofNat 0)).apart 1 (by decide) 2 (by decide) (by decide) ?_
  rw [height_sub_idNbitsFarFrom _ le_rfl, height_sub_idNbitsFarFrom _ one_le_two]

theorem val_sub_of_height_eq_zero {a x : KadId} (hne : a ≠ x) (h : (a - x).height = 0) :
    (a - x).val = 1 := by
  have hval := val_sub_ne_zero hne
  rw [height_eq_log2 hval] at h
  have hlt : (a - x).val < 2 ^ 1 := (Nat.log2_lt hval).mp (h ▸ Nat.zero_lt_one)
  omega

/-- There is one id at the lowest distance. -/
theorem eq_of_height_eq_zero {a x y : KadId} (hx : a ≠ x) (hy : a ≠ y)
    (hx0 : (a - x).height = 0) (hy0 : (a - y).height = 0) : x = y := by
  have hval := (val_sub_of_height_eq_zero hx hx0).trans (val_sub_of_height_eq_zero hy hy0).symm
  rw [val_sub, val_sub] at hval
  exact val_inj.mp (Nat.xor_right_inj.mp hval)

end KadId

namespace KadBucket

/-- A list for a single id does not grow. -/
theorem length_nodes_pushNode_le_one {b : KadBucket} (std : StdSort) (now : Int64) {kn : KadNode}
    (hsame : ∀ n ∈ b.entries, n.id = kn.id) (hle : b.nodes.length ≤ 1) :
    (b.pushNode std now kn).1.nodes.length ≤ 1 := by
  obtain ⟨b', found, hp, heq⟩ := b.pushNode_cases std now kn
  rw [heq, length_nodes_reorder]
  have hmax : KAD_BUCKET_MAX = 20 := rfl
  cases hp with
  | refresh h => exact (List.length_updateFirst _ _ _).trans_le hle
  | append h hroom =>
    have hnil : b.nodes = [] := by
      by_contra hne
      obtain ⟨n, hn⟩ := List.exists_mem_of_ne_nil _ hne
      exact h (List.mem_map.mpr ⟨n, hn, hsame n (List.mem_append_left _ hn)⟩)
    rw [hnil]
    exact le_rfl
  | evict h hfull i hi => omega
  | refreshReplacement h hfull hstale hr => exact hle
  | appendReplacement h hfull hstale hr hroom => exact hle
  | overflow h hfull hstale hr hroom => exact hle

end KadBucket

namespace KadRoutingTable

/-- The bucket for the lowest distance. -/
def lowest : Fin KAD_ID_BIT_LENGTH := ⟨0, by decide⟩

def isFull (t : KadRoutingTable) : Bool :=
  (List.finRange KAD_ID_BIT_LENGTH).all fun h => (t.buckets h).isFull

/-- `getNodeAtHeight`; `at` throws behind the end of the list. -/
def getNodeAtHeight (t : KadRoutingTable) (h : Fin KAD_ID_BIT_LENGTH) (index : ℕ) :
    Except String KadNode :=
  match (t.buckets h).nodes[index]? with
  | some kn => .ok kn
  | none => .error "vector::at"

/-- The ids that `execute` looks for, at time `now` and with the numbers that `rand`
draws for the buckets. -/
def toLook (now : Int64) (rand : Fin KAD_ID_BIT_LENGTH → ℕ) (t : KadRoutingTable) :
    Except String (List KadId) :=
  if t.isFull then
    (List.finRange KAD_ID_BIT_LENGTH).foldlM (fun ids h => do
      let first ← t.getNodeAtHeight h 0
      if UNIX_HOUR < now.toInt - first.lastSeen.toInt then
        let kn ← t.getNodeAtHeight h (rand h % KAD_BUCKET_MAX)
        pure (ids ++ [kn.id])
      else pure ids) []
  else .ok ((List.range KAD_ID_BIT_LENGTH).map (t.selfNode.id.idNbitsFarFrom ·))

/-- **The lowest bucket does not grow beyond one node.** -/
theorem length_lowest_step_le_one (std : StdSort) {t : KadRoutingTable} (call : Call)
    (ht : t.Placed) (hle : (t.buckets lowest).nodes.length ≤ 1) :
    ((t.step std call).buckets lowest).nodes.length ≤ 1 := by
  have hs := t.step_cases std call lowest
  generalize (t.step std call).buckets lowest = b at hs
  cases hs with
  | same => exact hle
  | push now kn hid haddr hh =>
    refine KadBucket.length_nodes_pushNode_le_one std now (fun n hn => ?_) hle
    obtain ⟨hne, hheight⟩ := ht lowest n hn
    exact KadId.eq_of_height_eq_zero hne.symm hid hheight (congrArg Fin.val hh)
  | remove id hid hh => exact (KadBucket.length_removeNode std id).trans_le hle

theorem length_lowest_reached_le_one (std : StdSort) (selfId : KadId) (calls : List Call) :
    ((reached std selfId calls).buckets lowest).nodes.length ≤ 1 := by
  have hrun := Runs.run_induction
    (P := fun t : KadRoutingTable => t.Placed ∧ (t.buckets lowest).nodes.length ≤ 1)
    (fun t call h => ⟨placed_step std t call h.1, length_lowest_step_le_one std call h.1 h.2⟩)
    calls ⟨placed_init selfId, Nat.zero_le 1⟩
  exact hrun.2

theorem isFull_eq_false {t : KadRoutingTable} (h : (t.buckets lowest).nodes.length ≤ 1) :
    t.isFull = false := by
  rw [isFull, List.all_eq_false]
  refine ⟨lowest, List.mem_finRange _, fun hfull => ?_⟩
  have hlen : (t.buckets lowest).nodes.length = 20 := eq_of_beq hfull
  omega

theorem toLook_of_not_full {t : KadRoutingTable} (h : t.isFull = false) (now : Int64)
    (rand : Fin KAD_ID_BIT_LENGTH → ℕ) : t.toLook now rand =
      .ok ((List.range KAD_ID_BIT_LENGTH).map (t.selfNode.id.idNbitsFarFrom ·)) := by
  rw [toLook, h]
  rfl

/-- **No table is full, and the task explores**: it looks for one id for each number of bits, and
never for the nodes of a bucket that was not seen for an hour. -/
theorem isFull_reached (std : StdSort) (selfId : KadId) (calls : List Call) :
    (reached std selfId calls).isFull = false ∧
      ∀ now rand, (reached std selfId calls).toLook now rand =
        .ok ((List.range KAD_ID_BIT_LENGTH).map
          ((reached std selfId calls).selfNode.id.idNbitsFarFrom ·)) := by
  have hfull := isFull_eq_false (length_lowest_reached_le_one std selfId calls)
  exact ⟨hfull, toLook_of_not_full hfull⟩

end KadRoutingTable

namespace NodesLookupTask

variable {db : BerkeleyDB} {ε : Type}

/-- The loop over the ids, while the task is running. -/
def lookUp (envs : ℕ → LookupEnv) (running : ℕ → Bool) :
    ℕ → List KadId → Prog ε (LocalNode db) Unit
  | _, [] => pure ()
  | i, id :: ids =>
      if running i then do
        let _ ← doNodesLookup (envs i) id
        lookUp envs running (i + 1) ids
      else pure ()

/-- `execute`. -/
def execute (envs : ℕ → LookupEnv) (running : ℕ → Bool) (now : Int64)
    (rand : Fin KAD_ID_BIT_LENGTH → ℕ) : Prog ε (LocalNode db) ℤ := do
  match (← Prog.get).ktable.toLook now rand with
  | .error what => Prog.throw what
  | .ok ids =>
      lookUp envs running 0 ids
      pure 0

/-- **The task looks for one id for each number of bits**, whatever the clock and `rand` say. -/
theorem execute_of_reached (envs : ℕ → LookupEnv) (running : ℕ → Bool) (now : Int64)
    (rand : Fin KAD_ID_BIT_LENGTH → ℕ) {n : LocalNode db} {std : StdSort} {selfId : KadId}
    {calls : List KadRoutingTable.Call} (h : n.ktable = KadRoutingTable.reached std selfId calls) :
    (execute envs running now rand : Prog ε _ _) n =
      (do
        lookUp envs running 0 ((List.range KAD_ID_BIT_LENGTH).map
          (n.ktable.selfNode.id.idNbitsFarFrom ·))
        pure 0 : Prog ε (LocalNode db) ℤ) n := by
  have hfull : n.ktable.isFull = false := by
    rw [h]
    exact KadRoutingTable.isFull_eq_false
      (KadRoutingTable.length_lowest_reached_le_one std selfId calls)
  have hget : (execute envs running now rand : Prog ε _ _) n =
      (match n.ktable.toLook now rand with
        | .error what => Prog.throw what
        | .ok ids => do
            lookUp envs running 0 ids
            pure 0 : Prog ε (LocalNode db) ℤ) n := rfl
  rw [hget, KadRoutingTable.toLook_of_not_full hfull]

end NodesLookupTask

end SniffDogSniff
