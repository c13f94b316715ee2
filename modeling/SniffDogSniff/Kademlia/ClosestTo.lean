import SniffDogSniff.Kademlia.KadRoutingTable

/-!
# The nodes closest to an id

`getClosestTo` collects nodes bucket by bucket: the bucket of the target first,
then alternately one bucket further down and one further up, until `count` nodes
are found, and sorts what it has by distance.  The XOR metric takes the buckets
in another order: the target's bucket, all lower ones together, then the higher
ones one by one.  The two agree only where the cut at `count` does not part nodes
that the sweep has in the wrong order.

## Main definitions

* `KadRoutingTable.getClosestTo` — the source's loop.
* `KadRoutingTable.sweepNodes` — the nodes in the order of the sweep, uncut.
* `KadRoutingTable.ReturnsClosest` — no node left out is nearer than a returned one.
* `KadRoutingTable.AnswersFully` — every bucket is visited once and nothing is lost.
* `KadRoutingTable.CutFits` — the cut parts the sweep where the metric would.

## Main results

* `perm_getClosestTo` — what is collected is the front of the sweep.
* `answersFully_of_nodup` — **a table without duplicate ids is answered from in full.**
* `returnsClosest_iff_cutFits` — **the answer is the closest nodes exactly when
  the cut fits.**
-/

namespace SniffDogSniff

namespace KadRoutingTable

/-! ### The sweep -/

/-- The nodes of the bucket at a height. -/
def nodesAt (t : KadRoutingTable) (height : ℕ) : List KadNode :=
  if h : height < KAD_ID_BIT_LENGTH then (t.buckets ⟨height, h⟩).nodes else []

/-- The order of the distances to `id`, as the lambda given to the sort has it. -/
def distanceOrder (id : KadId) : Comparator KadNode := KadId.order.comap fun kn => kn.id - id

/-- The inner loop: take nodes of the bucket while fewer than `count` are collected. -/
def takeFrom (t : KadRoutingTable) (count height : ℕ) (closest : List KadNode) : List KadNode :=
  closest ++ (t.nodesAt height).take (count - closest.length)

/-- One round of the outer loop: the bucket `i` below, then the bucket `i` above. -/
def sweepRound (t : KadRoutingTable) (count height : ℕ) (closest : List KadNode) (i : ℕ) :
    List KadNode :=
  let closest := if i ≤ height then t.takeFrom count (height - i) closest else closest
  if height + i < KAD_ID_BIT_LENGTH then t.takeFrom count (height + i) closest else closest

/-- `getAllNodes`: the nodes lists of all buckets. -/
def getAllNodes (t : KadRoutingTable) : List KadNode :=
  (List.finRange KAD_ID_BIT_LENGTH).flatMap fun h => (t.buckets h).nodes

/-- `getClosestTo`.  The outer loop stops at the first `i` with no bucket on
either side; the later rounds of the range add nothing. -/
def getClosestTo (std : StdSort) (t : KadRoutingTable) (id : KadId) (count : ℕ) : List KadNode :=
  if t.selfNode.id = id then []
  else
    let height := (t.selfNode.id - id).height
    let closest := (List.range' 1 (KAD_ID_BIT_LENGTH - 1)).foldl (t.sweepRound count height)
      (t.takeFrom count height [])
    std.sort (distanceOrder id) closest

/-- `getKClosestTo`. -/
def getKClosestTo (std : StdSort) (t : KadRoutingTable) (id : KadId) : List KadNode :=
  t.getClosestTo std id KAD_ID_LENGTH

/-- The heights that round `i` visits. -/
def roundHeights (height i : ℕ) : List ℕ :=
  (if i ≤ height then [height - i] else []) ++
    if height + i < KAD_ID_BIT_LENGTH then [height + i] else []

/-- The heights in the order of the sweep. -/
def sweepHeights (height : ℕ) : List ℕ :=
  height :: (List.range' 1 (KAD_ID_BIT_LENGTH - 1)).flatMap (roundHeights height)

/-- The nodes of the table in the order of the sweep towards `id`. -/
def sweepNodes (t : KadRoutingTable) (id : KadId) : List KadNode :=
  (sweepHeights (t.selfNode.id - id).height).flatMap t.nodesAt

/-- Cutting a collection again after every bucket is cutting it once. -/
theorem takeFrom_take (t : KadRoutingTable) (count height : ℕ) (l : List KadNode) :
    t.takeFrom count height (l.take count) = (l ++ t.nodesAt height).take count := by
  rw [takeFrom, List.take_append, List.length_take]
  congr 2
  omega

theorem sweepRound_take (t : KadRoutingTable) (count height i : ℕ) (l : List KadNode) :
    t.sweepRound count height (l.take count) i
      = (l ++ (roundHeights height i).flatMap t.nodesAt).take count := by
  unfold sweepRound roundHeights
  by_cases hlow : i ≤ height
  · by_cases hhigh : height + i < KAD_ID_BIT_LENGTH
    · simp [hlow, hhigh, takeFrom_take]
    · simp [hlow, hhigh, takeFrom_take]
  · by_cases hhigh : height + i < KAD_ID_BIT_LENGTH
    · simp [hlow, hhigh, takeFrom_take]
    · simp [hlow, hhigh]

theorem foldl_sweepRound_take (t : KadRoutingTable) (count height : ℕ) (is : List ℕ)
    (l : List KadNode) :
    is.foldl (t.sweepRound count height) (l.take count)
      = (l ++ (is.flatMap (roundHeights height)).flatMap t.nodesAt).take count := by
  induction is generalizing l with
  | nil => simp
  | cons i is ih =>
    rw [List.foldl_cons, sweepRound_take, ih, List.flatMap_cons, List.flatMap_append,
      List.append_assoc]

/-- **What is collected is the front of the sweep.** -/
theorem perm_getClosestTo (std : StdSort) (t : KadRoutingTable) {id : KadId} (count : ℕ)
    (hid : t.selfNode.id ≠ id) :
    (t.getClosestTo std id count).Perm ((t.sweepNodes id).take count) := by
  have hfirst : t.takeFrom count (t.selfNode.id - id).height []
      = (t.nodesAt (t.selfNode.id - id).height).take count := by simp [takeFrom]
  rw [getClosestTo, if_neg hid]
  refine (std.perm _ _).trans ?_
  rw [hfirst, foldl_sweepRound_take, sweepNodes, sweepHeights, List.flatMap_cons]

theorem length_getClosestTo_le (std : StdSort) (t : KadRoutingTable) (id : KadId) (count : ℕ) :
    (t.getClosestTo std id count).length ≤ count := by
  by_cases hid : t.selfNode.id = id
  · rw [getClosestTo, if_pos hid]
    exact Nat.zero_le count
  · rw [(perm_getClosestTo std t count hid).length_eq]
    exact List.length_take_le _ _

/-! ### The order of the sweep -/

/-- The place of a height in the sweep. -/
def sweepRank (height k : ℕ) : ℕ :=
  if k = height then 0 else if k < height then 2 * (height - k) - 1 else 2 * (k - height)

theorem mem_roundHeights {height i k : ℕ} : k ∈ roundHeights height i ↔
    (i ≤ height ∧ k = height - i) ∨ (height + i < KAD_ID_BIT_LENGTH ∧ k = height + i) := by
  unfold roundHeights
  rw [List.mem_append]
  split <;> split <;> simp_all

theorem sweepRank_of_mem_roundHeights {height i k : ℕ} (hi : 1 ≤ i)
    (hk : k ∈ roundHeights height i) :
    sweepRank height k = 2 * i - 1 ∨ sweepRank height k = 2 * i := by
  unfold sweepRank
  rcases mem_roundHeights.mp hk with ⟨hle, rfl⟩ | ⟨-, rfl⟩
  · left
    rw [if_neg (by omega), if_pos (by omega)]
    omega
  · right
    rw [if_neg (by omega), if_neg (by omega)]
    omega

theorem pairwise_roundHeights (height i : ℕ) (hi : 1 ≤ i) :
    (roundHeights height i).Pairwise fun j k => sweepRank height j < sweepRank height k := by
  unfold roundHeights
  split <;> split
  · rw [List.singleton_append, List.pairwise_pair, sweepRank, sweepRank]
    rw [if_neg (by omega), if_pos (by omega), if_neg (by omega), if_neg (by omega)]
    omega
  all_goals simp

/-- The sweep goes up in rank. -/
theorem pairwise_sweepHeights (height : ℕ) :
    (sweepHeights height).Pairwise fun j k => sweepRank height j < sweepRank height k := by
  rw [sweepHeights, List.pairwise_cons]
  constructor
  · intro k hk
    obtain ⟨i, hi, hk⟩ := List.mem_flatMap.mp hk
    have hrank := sweepRank_of_mem_roundHeights (List.mem_range'_1.mp hi).1 hk
    have hpos := (List.mem_range'_1.mp hi).1
    have hzero : sweepRank height height = 0 := if_pos rfl
    omega
  · rw [List.pairwise_flatMap]
    constructor
    · intro i hi
      exact pairwise_roundHeights height i (List.mem_range'_1.mp hi).1
    · refine (List.pairwise_lt_range').imp_of_mem ?_
      intro i i' hi hi' hlt j hj k hk
      have h1 := sweepRank_of_mem_roundHeights (List.mem_range'_1.mp hi).1 hj
      have h2 := sweepRank_of_mem_roundHeights (List.mem_range'_1.mp hi').1 hk
      omega

/-- The sweep visits every bucket. -/
theorem mem_sweepHeights {height k : ℕ} (hh : height < KAD_ID_BIT_LENGTH)
    (hk : k < KAD_ID_BIT_LENGTH) : k ∈ sweepHeights height := by
  rw [sweepHeights, List.mem_cons, List.mem_flatMap]
  rcases Nat.lt_trichotomy k height with hlt | heq | hgt
  · refine Or.inr ⟨height - k, List.mem_range'_1.mpr ?_, mem_roundHeights.mpr (Or.inl ?_)⟩ <;> omega
  · exact Or.inl heq
  · refine Or.inr ⟨k - height, List.mem_range'_1.mpr ?_, mem_roundHeights.mpr (Or.inr ?_)⟩ <;> omega

theorem lt_of_mem_sweepHeights {height k : ℕ} (hh : height < KAD_ID_BIT_LENGTH)
    (hk : k ∈ sweepHeights height) : k < KAD_ID_BIT_LENGTH := by
  rcases List.mem_cons.mp hk with rfl | hk
  · exact hh
  · obtain ⟨i, -, hk⟩ := List.mem_flatMap.mp hk
    rcases mem_roundHeights.mp hk with ⟨-, rfl⟩ | ⟨hlt, rfl⟩
    · exact (Nat.sub_le _ _).trans_lt hh
    · exact hlt

/-- **The sweep visits every bucket once.** -/
theorem perm_sweepHeights {height : ℕ} (hh : height < KAD_ID_BIT_LENGTH) :
    (sweepHeights height).Perm (List.range KAD_ID_BIT_LENGTH) := by
  have hnodup : (sweepHeights height).Nodup :=
    (pairwise_sweepHeights height).imp fun {j k} hlt heq => by
      rw [heq] at hlt
      exact lt_irrefl _ hlt
  rw [List.perm_ext_iff_of_nodup hnodup List.nodup_range]
  intro k
  rw [List.mem_range]
  exact ⟨lt_of_mem_sweepHeights hh, mem_sweepHeights hh⟩

theorem sweepRound_eq_foldl (t : KadRoutingTable) (count height : ℕ) (closest : List KadNode)
    (i : ℕ) : t.sweepRound count height closest i =
      (roundHeights height i).foldl (fun closest k => t.takeFrom count k closest) closest := by
  unfold sweepRound roundHeights
  by_cases hlow : i ≤ height <;> by_cases hhigh : height + i < KAD_ID_BIT_LENGTH <;>
    simp [hlow, hhigh]

/-- The loops visit the buckets in the order of the sweep. -/
theorem getClosestTo_eq_foldl (std : StdSort) (t : KadRoutingTable) {id : KadId} (count : ℕ)
    (hid : t.selfNode.id ≠ id) :
    t.getClosestTo std id count = std.sort (distanceOrder id)
      ((sweepHeights (t.selfNode.id - id).height).foldl
        (fun closest k => t.takeFrom count k closest) []) := by
  have hround : t.sweepRound count (t.selfNode.id - id).height = fun closest i =>
      (roundHeights (t.selfNode.id - id).height i).foldl
        (fun closest k => t.takeFrom count k closest) closest :=
    funext fun closest => funext fun i => sweepRound_eq_foldl t count _ closest i
  rw [getClosestTo, if_neg hid, sweepHeights, List.foldl_cons, List.foldl_flatMap, ← hround]

variable {t : KadRoutingTable}

/-- The sweep is the nodes lists of all buckets, in another order. -/
theorem perm_sweepNodes (t : KadRoutingTable) (id : KadId) :
    (t.sweepNodes id).Perm t.getAllNodes := by
  have hall : t.getAllNodes = (List.range KAD_ID_BIT_LENGTH).flatMap t.nodesAt := by
    rw [getAllNodes, ← List.map_coe_finRange_eq_range, List.flatMap_map]
    refine List.flatMap_congr fun h _ => ?_
    rw [nodesAt, dif_pos h.isLt]
  rw [hall, sweepNodes]
  exact (perm_sweepHeights (KadId.height_lt _)).flatMap_right t.nodesAt

/-- The height of the bucket a node belongs to. -/
def heightOf (t : KadRoutingTable) (kn : KadNode) : ℕ := (t.selfNode.id - kn.id).height

theorem mem_nodesAt {height : ℕ} {kn : KadNode} :
    kn ∈ t.nodesAt height ↔ ∃ h : Fin KAD_ID_BIT_LENGTH, (h : ℕ) = height ∧
      kn ∈ (t.buckets h).nodes := by
  unfold nodesAt
  split
  · next h =>
    constructor
    · exact fun hkn => ⟨⟨height, h⟩, rfl, hkn⟩
    · rintro ⟨k, rfl, hkn⟩
      exact hkn
  · next h =>
    simp only [List.not_mem_nil, false_iff, not_exists, not_and]
    intro k hk
    exact absurd (hk ▸ k.isLt) h

theorem heightOf_of_mem_nodesAt (ht : t.Placed) {height : ℕ} {kn : KadNode}
    (hkn : kn ∈ t.nodesAt height) : t.heightOf kn = height := by
  obtain ⟨h, rfl, hmem⟩ := mem_nodesAt.mp hkn
  exact (ht h kn (List.mem_append_left _ hmem)).2

theorem mem_sweepNodes {id : KadId} {kn : KadNode} :
    kn ∈ t.sweepNodes id ↔ ∃ h, kn ∈ (t.buckets h).nodes := by
  rw [sweepNodes, List.mem_flatMap]
  constructor
  · rintro ⟨height, -, hkn⟩
    obtain ⟨h, -, hmem⟩ := mem_nodesAt.mp hkn
    exact ⟨h, hmem⟩
  · rintro ⟨h, hmem⟩
    exact ⟨h, mem_sweepHeights (KadId.height_lt _) h.isLt, mem_nodesAt.mpr ⟨h, rfl, hmem⟩⟩

/-- What is returned is in the table. -/
theorem exists_mem_of_mem_getClosestTo {std : StdSort} {id : KadId} {count : ℕ} {kn : KadNode}
    (h : kn ∈ t.getClosestTo std id count) : ∃ k, kn ∈ (t.buckets k).entries := by
  by_cases hid : t.selfNode.id = id
  · rw [getClosestTo, if_pos hid] at h
    cases h
  · have hsweep := (t.perm_getClosestTo std count hid).mem_iff.mp h
    obtain ⟨k, hk⟩ := mem_sweepNodes.mp (List.mem_of_mem_take hsweep)
    exact ⟨k, List.mem_append_left _ hk⟩

/-- What is in front of the cut is no later in the sweep than what is behind it. -/
theorem sweepRank_le_of_cut (ht : t.Placed) {id : KadId} {count : ℕ} {r u : KadNode}
    (hr : r ∈ (t.sweepNodes id).take count) (hu : u ∈ (t.sweepNodes id).drop count) :
    sweepRank (t.selfNode.id - id).height (t.heightOf r)
      ≤ sweepRank (t.selfNode.id - id).height (t.heightOf u) := by
  have hpair : (t.sweepNodes id).Pairwise fun r u =>
      sweepRank (t.selfNode.id - id).height (t.heightOf r)
        ≤ sweepRank (t.selfNode.id - id).height (t.heightOf u) := by
    rw [sweepNodes, List.pairwise_flatMap]
    constructor
    · intro height _
      refine List.pairwise_of_forall_mem_list fun r hr u hu => ?_
      rw [heightOf_of_mem_nodesAt ht hr, heightOf_of_mem_nodesAt ht hu]
    · refine (pairwise_sweepHeights _).imp fun {j k} hjk r hr u hu => ?_
      rw [heightOf_of_mem_nodesAt ht hr, heightOf_of_mem_nodesAt ht hu]
      exact hjk.le
  rw [← List.take_append_drop count (t.sweepNodes id), List.pairwise_append] at hpair
  exact hpair.2.2 r hr u hu

/-! ### Completeness -/

/-- The sweep for `id` and `count` visits every bucket once, and the answer is as many nodes
of the table as there are up to `count`, all different and in the order of their distance. -/
structure AnswersFully (std : StdSort) (t : KadRoutingTable) (id : KadId) (count : ℕ) :
    Prop where
  visits_once : (sweepHeights (t.selfNode.id - id).height).Perm (List.range KAD_ID_BIT_LENGTH)
  visits : t.getClosestTo std id count = std.sort (distanceOrder id)
    ((sweepHeights (t.selfNode.id - id).height).foldl
      (fun closest k => t.takeFrom count k closest) [])
  length_eq : (t.getClosestTo std id count).length = min count t.getAllNodes.length
  nodup : ((t.getClosestTo std id count).map KadNode.id).Nodup
  subset : ∀ kn ∈ t.getClosestTo std id count, kn ∈ t.getAllNodes
  sorted : (t.getClosestTo std id count).Pairwise fun a b => (a.id - id).val ≤ (b.id - id).val

theorem sorted_getClosestTo (std : StdSort) (t : KadRoutingTable) (id : KadId) (count : ℕ) :
    (t.getClosestTo std id count).Pairwise fun a b => (a.id - id).val ≤ (b.id - id).val := by
  by_cases hid : t.selfNode.id = id
  · rw [getClosestTo, if_pos hid]
    exact List.Pairwise.nil
  · rw [getClosestTo, if_neg hid]
    refine (std.sorted _ _).imp fun {a b} h => ?_
    have hlt : KadId.lt (b.id - id) (a.id - id) = false := h
    rw [KadId.lt_eq_decide, decide_eq_false_iff_not] at hlt
    exact Nat.le_of_not_lt hlt

/-- **The sweep is complete**: in a table without duplicate ids nothing is lost or repeated. -/
theorem answersFully_of_nodup (std : StdSort) (t : KadRoutingTable) {id : KadId} (count : ℕ)
    (hid : t.selfNode.id ≠ id) (hnodup : (t.getAllNodes.map KadNode.id).Nodup) :
    t.AnswersFully std id count := by
  have hperm := perm_getClosestTo std t count hid
  have hsweep := t.perm_sweepNodes id
  refine ⟨perm_sweepHeights (KadId.height_lt _), getClosestTo_eq_foldl std t count hid, ?_, ?_, ?_,
    sorted_getClosestTo std t id count⟩
  · rw [hperm.length_eq, List.length_take, hsweep.length_eq]
  · rw [(hperm.map KadNode.id).nodup_iff]
    have hids : ((t.sweepNodes id).map KadNode.id).Nodup :=
      (hsweep.map KadNode.id).nodup_iff.mpr hnodup
    exact hids.sublist ((List.take_sublist _ _).map _)
  · intro kn hkn
    exact hsweep.mem_iff.mp (List.mem_of_mem_take (hperm.mem_iff.mp hkn))

/-! ### The metric -/

theorem val_sub_eq_xor (s a b : KadId) : (a - b).val = (s - a).val ^^^ (s - b).val := by
  simp only [KadId.val_sub]
  rw [Nat.xor_comm s.val a.val, Nat.xor_assoc, ← Nat.xor_assoc s.val, Nat.xor_self, Nat.zero_xor]

/-- A node in a lower shell around the own id is nearer. -/
theorem distance_lt_of_shell {s id a b : KadId} (hid : s ≠ id) (ha : s ≠ a) (hb : s ≠ b)
    (h : XorMetric.shell (s - id).val (s - a).val < XorMetric.shell (s - id).val (s - b).val) :
    KadId.lt (a - id) (b - id) = true := by
  rw [KadId.lt_iff, val_sub_eq_xor s a id, val_sub_eq_xor s b id]
  exact XorMetric.xor_lt_xor_of_shell_lt (KadId.val_sub_ne_zero hid) (KadId.val_sub_ne_zero ha)
    (KadId.val_sub_ne_zero hb) h

/-- The shell of a node, by the heights of the buckets. -/
theorem shell_eq {s id a : KadId} (hid : s ≠ id) (ha : s ≠ a) :
    XorMetric.shell (s - id).val (s - a).val =
      if (s - a).height = (s - id).height then 0
      else if (s - a).height < (s - id).height then 1
      else (s - a).height - (s - id).height + 1 := by
  rw [XorMetric.shell, KadId.height_eq_log2 (KadId.val_sub_ne_zero hid),
    KadId.height_eq_log2 (KadId.val_sub_ne_zero ha)]

/-- No node of a bucket that is left out of the answer is nearer than an answered one. -/
def ReturnsClosest (t : KadRoutingTable) (id : KadId) (closest : List KadNode) : Prop :=
  ∀ r ∈ closest, ∀ h, ∀ u ∈ (t.buckets h).nodes, u ∉ closest →
    KadId.lt (u.id - id) (r.id - id) = false

instance (t : KadRoutingTable) (id : KadId) (closest : List KadNode) :
    Decidable (t.ReturnsClosest id closest) :=
  inferInstanceAs (Decidable (∀ r ∈ closest, ∀ h, ∀ u ∈ (t.buckets h).nodes, _))

/-- The cut of the sweep at `count` leaves no node below the target's bucket out
while it keeps one above; and inside one bucket, or among the buckets below the
target's, it keeps none that is farther than one it leaves out. -/
def CutFits (t : KadRoutingTable) (id : KadId) (count : ℕ) : Prop :=
  ∀ r ∈ (t.sweepNodes id).take count, ∀ u ∈ (t.sweepNodes id).drop count,
    u ∉ (t.sweepNodes id).take count →
    ¬ (t.heightOf u < (t.selfNode.id - id).height ∧ (t.selfNode.id - id).height < t.heightOf r) ∧
    (t.heightOf r = t.heightOf u ∨
        (t.heightOf r < (t.selfNode.id - id).height ∧
          t.heightOf u < (t.selfNode.id - id).height) →
      KadId.lt (u.id - id) (r.id - id) = false)

instance (t : KadRoutingTable) (id : KadId) (count : ℕ) : Decidable (t.CutFits id count) :=
  inferInstanceAs (Decidable (∀ r ∈ _, ∀ u ∈ _, _))

/-- One pair across the cut: `CutFits` asks of it exactly what the metric asks. -/
theorem cut_pair_iff {s id a b : KadId} (hid : s ≠ id) (ha : s ≠ a) (hb : s ≠ b)
    (hrank : sweepRank (s - id).height (s - a).height ≤ sweepRank (s - id).height (s - b).height) :
    (¬ ((s - b).height < (s - id).height ∧ (s - id).height < (s - a).height) ∧
      ((s - a).height = (s - b).height ∨
          ((s - a).height < (s - id).height ∧ (s - b).height < (s - id).height) →
        KadId.lt (b - id) (a - id) = false)) ↔
      KadId.lt (b - id) (a - id) = false := by
  have hsa := shell_eq hid ha
  have hsb := shell_eq hid hb
  by_cases hsame : (s - a).height = (s - b).height ∨
      ((s - a).height < (s - id).height ∧ (s - b).height < (s - id).height)
  · -- inside one region the condition is the comparison itself
    constructor
    · exact fun h => h.2 hsame
    · exact fun h => ⟨by omega, fun _ => h⟩
  by_cases hcross : (s - b).height < (s - id).height ∧ (s - id).height < (s - a).height
  · -- across the target's bucket the node left out is the nearer one
    have hlt : KadId.lt (b - id) (a - id) = true := by
      refine distance_lt_of_shell hid hb ha ?_
      rw [hsa, hsb]
      split_ifs <;> omega
    rw [hlt]
    exact iff_of_false (fun h => h.1 hcross) (by simp)
  · -- otherwise the sweep agrees with the metric
    have hlt : KadId.lt (a - id) (b - id) = true := by
      refine distance_lt_of_shell hid ha hb ?_
      rw [hsa, hsb]
      unfold sweepRank at hrank
      split_ifs at hrank ⊢ <;> omega
    exact iff_of_true ⟨hcross, fun h => absurd h hsame⟩ (Comparator.asymm (c := KadId.order) hlt)

theorem returnsClosest_iff_of_placed (std : StdSort) (ht : t.Placed) {id : KadId} (count : ℕ)
    (hid : t.selfNode.id ≠ id) :
    t.ReturnsClosest id (t.getClosestTo std id count) ↔ t.CutFits id count := by
  have hmem : ∀ kn, kn ∈ t.getClosestTo std id count ↔ kn ∈ (t.sweepNodes id).take count :=
    fun kn => (t.perm_getClosestTo std count hid).mem_iff
  have hforeign : ∀ kn, kn ∈ t.sweepNodes id → t.selfNode.id ≠ kn.id := by
    intro kn hkn
    obtain ⟨h, hn⟩ := mem_sweepNodes.mp hkn
    exact (ht h kn (List.mem_append_left _ hn)).1.symm
  have hpair : ∀ r ∈ (t.sweepNodes id).take count, ∀ u ∈ (t.sweepNodes id).drop count, _ :=
    fun r hr u hu => cut_pair_iff hid (hforeign r (List.mem_of_mem_take hr))
      (hforeign u (List.mem_of_mem_drop hu)) (sweepRank_le_of_cut ht hr hu)
  constructor
  · intro h r hr u hu hout
    obtain ⟨k, hk⟩ := mem_sweepNodes.mp (List.mem_of_mem_drop hu)
    exact (hpair r hr u hu).mpr (h r ((hmem r).mpr hr) k u hk fun hin => hout ((hmem u).mp hin))
  · intro h r hr k u hu hout
    have hr' := (hmem r).mp hr
    have hout' : u ∉ (t.sweepNodes id).take count := fun hin => hout ((hmem u).mpr hin)
    have hu' : u ∈ (t.sweepNodes id).drop count := by
      have hall : u ∈ t.sweepNodes id := mem_sweepNodes.mpr ⟨k, hu⟩
      rw [← List.take_append_drop count (t.sweepNodes id), List.mem_append] at hall
      exact hall.resolve_left hout'
    exact (hpair r hr' u hu').mp (h r hr' u hu' hout')

theorem selfNode_id_reached (std : StdSort) (selfId : KadId) (calls : List Call) :
    (reached std selfId calls).selfNode.id = selfId :=
  Runs.run_induction (P := fun t => t.selfNode.id = selfId)
    (fun t call ht => (selfNode_id_step std t call).trans ht) calls rfl

/-- **In every table a run reaches, the answer is the closest nodes exactly when
the cut fits.** -/
theorem returnsClosest_iff_cutFits (std : StdSort) (selfId : KadId) (calls : List Call)
    (id : KadId) (count : ℕ) (hid : id ≠ selfId) :
    (reached std selfId calls).ReturnsClosest id
        ((reached std selfId calls).getClosestTo std id count) ↔
      (reached std selfId calls).CutFits id count := by
  refine returnsClosest_iff_of_placed std (wellFormed_reached std selfId calls).2 count ?_
  rw [selfNode_id_reached]
  exact hid.symm

/-- Two nodes, at distances 12 and 5 from the id 4; the sweep reaches the farther
one first. -/
def twoNodeCalls : List Call :=
  [.pushNode 0 (KadNode.new (KadId.ofNat 8) [97]), .pushNode 0 (KadNode.new (KadId.ofNat 1) [97])]

/-- Asked for one node, the table of `twoNodeCalls` answers with the farther one. -/
theorem twoNodeCalls_not_closest :
    ¬ (reached StdSort.insertion (KadId.ofNat 0) twoNodeCalls).ReturnsClosest (KadId.ofNat 4)
      ((reached StdSort.insertion (KadId.ofNat 0) twoNodeCalls).getClosestTo StdSort.insertion
        (KadId.ofNat 4) 1) := by
  decide +kernel

/-- Asked for one node next to id 2, the same table answers with the nearer one. -/
theorem returnsClosest_twoNodeCalls :
    (reached StdSort.insertion (KadId.ofNat 0) twoNodeCalls).ReturnsClosest (KadId.ofNat 2)
      ((reached StdSort.insertion (KadId.ofNat 0) twoNodeCalls).getClosestTo StdSort.insertion
        (KadId.ofNat 2) 1) :=
  (returnsClosest_iff_cutFits StdSort.insertion (KadId.ofNat 0) twoNodeCalls (KadId.ofNat 2) 1
    (by decide)).mpr (by decide +kernel)

/-- The table of `twoNodeCalls`, asked for three nodes. -/
theorem answersFully_twoNodeCalls :
    (reached StdSort.insertion (KadId.ofNat 0) twoNodeCalls).AnswersFully StdSort.insertion
      (KadId.ofNat 4) 3 :=
  answersFully_of_nodup StdSort.insertion (reached StdSort.insertion (KadId.ofNat 0) twoNodeCalls) 3
    (by decide) (by decide +kernel)

end KadRoutingTable

end SniffDogSniff
