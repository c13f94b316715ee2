import SniffDogSniff.Base.LittleEndian
import SniffDogSniff.Kademlia.KadId
import Mathlib.Data.List.Nodup

/-!
# Buckets

A bucket holds the nodes of one distance class: up to `KAD_BUCKET_MAX` of them in
`nodes`, and up to as many candidates for their places in `replacementNodes`.
Both lists are kept in the order of `KadNode::operator<`, the last seen first.
Nodes are told apart by their ids alone; the copies that callers push back may
carry any `lastSeen` and any `stales`.

## Main definitions

* `KadNode`, `KadNode.order` — a node, and the order of the lists.
* `KadBucket.pushNode`, `KadBucket.removeNode` — the two operations, for a time
  `now` and a sorting procedure `std`.
* `KadBucket.Pushed`, `KadBucket.Removed` — their branches, before the reordering.
* `KadBucket.Inv` — capacity and order.
* `KadBucket.EvictsHeld` — the push that enters an id twice.

## Main results

* `stalest_spec` — the search finds a node with the most stales.
* `pushNode_cases`, `removeNode_cases` — everything the operations can do.
* `inv_pushNode`, `inv_removeNode` — they keep `Inv`.
* `nodup_pushNode_iff` — a push keeps the ids distinct unless it is `EvictsHeld`.
-/

namespace List

variable {α β : Type*}

/-- Change the first element that satisfies `p`. -/
def updateFirst (p : α → Bool) (f : α → α) : List α → List α
  | [] => []
  | a :: l => if p a then f a :: l else a :: updateFirst p f l

theorem map_updateFirst {p : α → Bool} {f : α → α} {g : α → β} (hg : ∀ a, g (f a) = g a)
    (l : List α) : (l.updateFirst p f).map g = l.map g := by
  induction l with
  | nil => rfl
  | cons a l ih =>
    rw [updateFirst]
    split
    · rw [map_cons, map_cons, hg]
    · rw [map_cons, map_cons, ih]

theorem mem_updateFirst {p : α → Bool} {f : α → α} {a : α} {l : List α}
    (h : a ∈ l.updateFirst p f) : a ∈ l ∨ ∃ b ∈ l, a = f b := by
  induction l with
  | nil => exact Or.inl h
  | cons c l ih =>
    rw [updateFirst] at h
    split at h
    · rcases mem_cons.mp h with rfl | h
      · exact Or.inr ⟨c, mem_cons_self, rfl⟩
      · exact Or.inl (mem_cons_of_mem _ h)
    · rcases mem_cons.mp h with rfl | h
      · exact Or.inl mem_cons_self
      · rcases ih h with h | ⟨b, hb, rfl⟩
        · exact Or.inl (mem_cons_of_mem _ h)
        · exact Or.inr ⟨b, mem_cons_of_mem _ hb, rfl⟩

/-- Where the keys are different, only the element with the key `k` is changed. -/
theorem mem_updateFirst_of_nodup {γ : Type*} {p : α → Bool} {f : α → α} {g : α → γ} {k : γ}
    (hp : ∀ a, p a = true ↔ g a = k) {a : α} {l : List α} (hd : (l.map g).Nodup)
    (h : a ∈ l.updateFirst p f) : (a ∈ l ∧ g a ≠ k) ∨ ∃ b ∈ l, g b = k ∧ a = f b := by
  induction l with
  | nil => cases h
  | cons c l ih =>
    rw [map_cons, nodup_cons] at hd
    rw [updateFirst] at h
    split at h
    · next hc =>
      rw [hp] at hc
      rcases mem_cons.mp h with rfl | h
      · exact Or.inr ⟨c, mem_cons_self, hc, rfl⟩
      · exact Or.inl ⟨mem_cons_of_mem _ h, fun ha => hd.1 (mem_map.mpr ⟨a, h, ha.trans hc.symm⟩)⟩
    · next hc =>
      rw [hp] at hc
      rcases mem_cons.mp h with rfl | h
      · exact Or.inl ⟨mem_cons_self, hc⟩
      · rcases ih hd.2 h with ⟨h, ha⟩ | ⟨b, hb, hk, rfl⟩
        · exact Or.inl ⟨mem_cons_of_mem _ h, ha⟩
        · exact Or.inr ⟨b, mem_cons_of_mem _ hb, hk, rfl⟩

theorem exists_mem_updateFirst {p : α → Bool} (f : α → α) {a : α} {l : List α} (ha : a ∈ l)
    (hp : p a = true) : ∃ b ∈ l, p b = true ∧ f b ∈ l.updateFirst p f := by
  induction l with
  | nil => cases ha
  | cons c l ih =>
    rw [updateFirst]
    split
    · next hc => exact ⟨c, mem_cons_self, hc, mem_cons_self⟩
    · next hc =>
      have ha := (mem_cons.mp ha).resolve_left fun heq => hc (heq ▸ hp)
      obtain ⟨b, hb, hpb, hf⟩ := ih ha
      exact ⟨b, mem_cons_of_mem _ hb, hpb, mem_cons_of_mem _ hf⟩

theorem length_updateFirst (p : α → Bool) (f : α → α) (l : List α) :
    (l.updateFirst p f).length = l.length := by
  induction l with
  | nil => rfl
  | cons a l ih =>
    rw [updateFirst]
    split
    · rfl
    · rw [length_cons, length_cons, ih]

end List

namespace SniffDogSniff

def KAD_BUCKET_MAX : ℕ := 20

def STALES_THR : ℤ := 5

/-! ### Nodes -/

/-- A node of the network, as the table knows it. -/
structure KadNode where
  id : KadId
  address : Bytes
  lastSeen : Int64
  stales : Int32
  deriving DecidableEq

namespace KadNode

/-- `KadNode(id, address)`. -/
def new (id : KadId) (address : Bytes) : KadNode := ⟨id, address, 0, 0⟩

/-- `seenNow`, at time `now`. -/
def seenNow (now : Int64) (kn : KadNode) : KadNode := { kn with lastSeen := now }

def resetStales (kn : KadNode) : KadNode := { kn with stales := 0 }

def incrementStales (kn : KadNode) : KadNode := { kn with stales := kn.stales + 1 }

/-- `operator==`: nodes with one id. -/
def eqv (a b : KadNode) : Bool := decide (a.id = b.id)

theorem eqv_iff {a b : KadNode} : a.eqv b = true ↔ a.id = b.id := decide_eq_true_iff

/-- `operator<`: the one seen later comes first. -/
def order : Comparator KadNode := Comparator.ofKey fun kn => -kn.lastSeen.toInt

theorem order_lt_iff {a b : KadNode} :
    order.lt a b = true ↔ b.lastSeen.toInt < a.lastSeen.toInt := by
  simp [order, Comparator.ofKey]

theorem order_lt_eq_false_iff {a b : KadNode} :
    order.lt a b = false ↔ a.lastSeen.toInt ≤ b.lastSeen.toInt := by
  simp [order, Comparator.ofKey]

/-- Nodes are equivalent for their order when they were seen at one time. -/
theorem order_equiv_iff {a b : KadNode} : order.Equiv a b ↔ a.lastSeen = b.lastSeen := by
  rw [Comparator.Equiv, order_lt_eq_false_iff, order_lt_eq_false_iff, ← Int64.toInt_inj]
  omega

end KadNode

/-! ### The two operations -/

/-- The two lists of a bucket. -/
structure KadBucket where
  nodes : List KadNode
  replacementNodes : List KadNode
  deriving DecidableEq

namespace KadBucket

/-- A bucket as the constructor leaves it. -/
def empty : KadBucket := ⟨[], []⟩

def hasNode (b : KadBucket) (kn : KadNode) : Bool := b.nodes.any fun n => n.eqv kn

def isFull (b : KadBucket) : Bool := b.nodes.length == KAD_BUCKET_MAX

def reorder (std : StdSort) (b : KadBucket) : KadBucket :=
  ⟨std.sort KadNode.order b.nodes, std.sort KadNode.order b.replacementNodes⟩

/-- The loop over the nodes of a full bucket, from index `i` on: the index of the
first node with the most stales, among those with at least `STALES_THR`. -/
def stalestFrom : List KadNode → ℕ → ℤ → Option ℕ → Option ℕ
  | [], _, _, stalest => stalest
  | n :: ns, i, staleMax, stalest =>
      if STALES_THR ≤ n.stales.toInt ∧ staleMax < n.stales.toInt then
        stalestFrom ns (i + 1) n.stales.toInt (some i)
      else stalestFrom ns (i + 1) staleMax stalest

/-- The node that a newcomer may evict. -/
def stalest (b : KadBucket) : Option ℕ := stalestFrom b.nodes 0 0 none

/-- `pushNode`: the bucket afterwards, and whether the node was found. -/
def pushNode (std : StdSort) (now : Int64) (b : KadBucket) (kn : KadNode) : KadBucket × Bool :=
  let r : KadBucket × Bool :=
    if b.hasNode kn then
      ({ b with nodes := b.nodes.updateFirst (·.eqv kn) fun n => (n.seenNow now).resetStales },
        true)
    else if b.nodes.length < KAD_BUCKET_MAX then ({ b with nodes := b.nodes ++ [kn] }, false)
    else
      match b.stalest with
      -- the newcomer is not looked for among the candidates
      | some i => ({ b with nodes := b.nodes.eraseIdx i ++ [kn] }, false)
      | none =>
          if b.replacementNodes.any fun n => n.eqv kn then
            ({ b with
                replacementNodes := b.replacementNodes.updateFirst (·.eqv kn) (·.seenNow now) },
              true)
          else if b.replacementNodes.length < KAD_BUCKET_MAX then
            ({ b with replacementNodes := b.replacementNodes ++ [kn] }, false)
          -- the last in order is the one that was seen first
          else ({ b with replacementNodes := b.replacementNodes.dropLast ++ [kn] }, false)
  (r.1.reorder std, r.2)

/-- `removeNode`: the bucket afterwards, and whether the node was found. -/
def removeNode (std : StdSort) (b : KadBucket) (id : KadId) : KadBucket × Bool :=
  if b.nodes.any fun n => decide (n.id = id) then
    match b.replacementNodes with
    | first :: rest =>
        ((KadBucket.mk (b.nodes.eraseP (fun n => decide (n.id = id)) ++ [first]) rest).reorder std,
          true)
    | [] =>
        -- a node without a candidate for its place is kept
        ({ b with nodes := b.nodes.updateFirst (fun n => decide (n.id = id)) (·.incrementStales) },
          true)
  else (b, false)

/-! ### What an operation can do -/

/-- The ids in `nodes`. -/
def ids (b : KadBucket) : List KadId := b.nodes.map KadNode.id

/-- The ids in `replacementNodes`. -/
def replacementIds (b : KadBucket) : List KadId := b.replacementNodes.map KadNode.id

/-- The entries of both lists. -/
def entries (b : KadBucket) : List KadNode := b.nodes ++ b.replacementNodes

/-- The ids of all entries. -/
def heldIds (b : KadBucket) : List KadId := b.ids ++ b.replacementIds

theorem exists_entry_of_mem_heldIds {b : KadBucket} {id : KadId} (h : id ∈ b.heldIds) :
    ∃ n ∈ b.entries, n.id = id := by
  rwa [heldIds, ids, replacementIds, ← List.map_append, List.mem_map] at h

/-- Some node has been stale often enough to be evicted. -/
def HasStale (b : KadBucket) : Prop := ∃ n ∈ b.nodes, STALES_THR ≤ n.stales.toInt

instance (b : KadBucket) : Decidable b.HasStale :=
  inferInstanceAs (Decidable (∃ n ∈ b.nodes, _))

theorem hasNode_iff {b : KadBucket} {kn : KadNode} : b.hasNode kn = true ↔ kn.id ∈ b.ids := by
  simp [hasNode, ids, KadNode.eqv]

theorem any_eqv_iff {l : List KadNode} {kn : KadNode} :
    (l.any fun n => n.eqv kn) = true ↔ kn.id ∈ l.map KadNode.id := by
  simp [KadNode.eqv]

theorem any_id_iff {l : List KadNode} {id : KadId} :
    (l.any fun n => decide (n.id = id)) = true ↔ id ∈ l.map KadNode.id := by
  simp

/-- The loop keeps its candidate when no node beats it, or ends at a node that no other one
beats. -/
theorem stalestFrom_max : ∀ (l : List KadNode) (i : ℕ) (m : ℤ) (best : Option ℕ),
    (stalestFrom l i m best = best ∧ ∀ n ∈ l, STALES_THR ≤ n.stales.toInt → n.stales.toInt ≤ m) ∨
      ∃ j n, l[j]? = some n ∧ stalestFrom l i m best = some (i + j) ∧
        STALES_THR ≤ n.stales.toInt ∧ m < n.stales.toInt ∧
        ∀ k ∈ l, k.stales.toInt ≤ n.stales.toInt := by
  intro l
  induction l with
  | nil => exact fun i m best => Or.inl ⟨rfl, by simp⟩
  | cons a l ih =>
    intro i m best
    rw [stalestFrom]
    split
    · next htake =>
      right
      rcases ih (i + 1) a.stales.toInt (some i) with ⟨heq, hle⟩ | ⟨j, n, hj, heq, hthr, hlt, hle⟩
      · refine ⟨0, a, rfl, heq, htake.1, htake.2, List.forall_mem_cons.mpr ⟨le_rfl, fun k hk => ?_⟩⟩
        have hk' := hle k hk
        omega
      · refine ⟨j + 1, n, hj, ?_, hthr, htake.2.trans hlt, List.forall_mem_cons.mpr ⟨hlt.le, hle⟩⟩
        rw [heq, Nat.add_assoc, Nat.add_comm 1 j]
    · next hskip =>
      rcases ih (i + 1) m best with ⟨heq, hle⟩ | ⟨j, n, hj, heq, hthr, hlt, hle⟩
      · refine Or.inl ⟨heq, List.forall_mem_cons.mpr ⟨fun ha => ?_, hle⟩⟩
        omega
      · refine Or.inr ⟨j + 1, n, hj, ?_, hthr, hlt, List.forall_mem_cons.mpr ⟨?_, hle⟩⟩
        · rw [heq, Nat.add_assoc, Nat.add_comm 1 j]
        · omega

/-- **The search finds a node with the most stales.** -/
theorem stalest_spec {b : KadBucket} {i : ℕ} (h : b.stalest = some i) :
    ∃ n, b.nodes[i]? = some n ∧ STALES_THR ≤ n.stales.toInt ∧
      ∀ k ∈ b.nodes, k.stales.toInt ≤ n.stales.toInt := by
  rcases stalestFrom_max b.nodes 0 0 none with ⟨heq, -⟩ | ⟨j, n, hj, heq, hthr, -, hle⟩
  · rw [stalest, heq] at h
    cases h
  · rw [stalest, heq, Nat.zero_add, Option.some_inj] at h
    exact ⟨n, h ▸ hj, hthr, hle⟩

theorem stalest_eq_none_iff {b : KadBucket} : b.stalest = none ↔ ¬ b.HasStale := by
  have hthr : (0 : ℤ) < STALES_THR := by decide
  rw [stalest, HasStale]
  push Not
  rcases stalestFrom_max b.nodes 0 0 none with ⟨heq, hle⟩ | ⟨j, n, hj, heq, hn, -, -⟩
  · refine iff_of_true heq fun n hn => ?_
    have hmax := hle n hn
    omega
  · rw [heq]
    exact iff_of_false (Option.some_ne_none _)
      fun hnot => absurd hn (not_le.mpr (hnot n (List.mem_of_getElem? hj)))

theorem hasStale_of_stalest {b : KadBucket} {i : ℕ} (h : b.stalest = some i) : b.HasStale := by
  obtain ⟨n, hn, hthr, -⟩ := stalest_spec h
  exact ⟨n, List.mem_of_getElem? hn, hthr⟩

theorem stalest_lt {b : KadBucket} {i : ℕ} (h : b.stalest = some i) : i < b.nodes.length := by
  obtain ⟨n, hn, -⟩ := stalest_spec h
  exact (List.getElem?_eq_some_iff.mp hn).1

/-- What `pushNode` makes of the lists before it reorders them, and its result. -/
inductive Pushed (now : Int64) (b : KadBucket) (kn : KadNode) : KadBucket → Bool → Prop
  /-- The node is known: it has been seen now. -/
  | refresh (h : kn.id ∈ b.ids) : Pushed now b kn
      { b with nodes := b.nodes.updateFirst (·.eqv kn) fun n => (n.seenNow now).resetStales } true
  /-- There is room. -/
  | append (h : kn.id ∉ b.ids) (hroom : b.nodes.length < KAD_BUCKET_MAX) : Pushed now b kn
      { b with nodes := b.nodes ++ [kn] } false
  /-- A stale node makes room. -/
  | evict (h : kn.id ∉ b.ids) (hfull : KAD_BUCKET_MAX ≤ b.nodes.length) (i : ℕ)
      (hi : b.stalest = some i) : Pushed now b kn
      { b with nodes := b.nodes.eraseIdx i ++ [kn] } false
  /-- The node is a known candidate. -/
  | refreshReplacement (h : kn.id ∉ b.ids) (hfull : KAD_BUCKET_MAX ≤ b.nodes.length)
      (hstale : ¬ b.HasStale) (hr : kn.id ∈ b.replacementIds) : Pushed now b kn
      { b with
        replacementNodes := b.replacementNodes.updateFirst (·.eqv kn) (·.seenNow now) } true
  /-- There is room among the candidates. -/
  | appendReplacement (h : kn.id ∉ b.ids) (hfull : KAD_BUCKET_MAX ≤ b.nodes.length)
      (hstale : ¬ b.HasStale) (hr : kn.id ∉ b.replacementIds)
      (hroom : b.replacementNodes.length < KAD_BUCKET_MAX) : Pushed now b kn
      { b with replacementNodes := b.replacementNodes ++ [kn] } false
  /-- The last candidate makes room. -/
  | overflow (h : kn.id ∉ b.ids) (hfull : KAD_BUCKET_MAX ≤ b.nodes.length)
      (hstale : ¬ b.HasStale) (hr : kn.id ∉ b.replacementIds)
      (hroom : KAD_BUCKET_MAX ≤ b.replacementNodes.length) : Pushed now b kn
      { b with replacementNodes := b.replacementNodes.dropLast ++ [kn] } false

/-- **Everything `pushNode` can do.** -/
theorem pushNode_cases (std : StdSort) (now : Int64) (b : KadBucket) (kn : KadNode) :
    ∃ b' found, Pushed now b kn b' found ∧ b.pushNode std now kn = (b'.reorder std, found) := by
  unfold pushNode
  by_cases h : b.hasNode kn = true
  · rw [if_pos h]
    exact ⟨_, _, .refresh (hasNode_iff.mp h), rfl⟩
  have hid : kn.id ∉ b.ids := fun hm => h (hasNode_iff.mpr hm)
  rw [if_neg h]
  by_cases hroom : b.nodes.length < KAD_BUCKET_MAX
  · rw [if_pos hroom]
    exact ⟨_, _, .append hid hroom, rfl⟩
  have hfull : KAD_BUCKET_MAX ≤ b.nodes.length := Nat.le_of_not_lt hroom
  rw [if_neg hroom]
  cases hs : b.stalest with
  | some i => exact ⟨_, _, .evict hid hfull i hs, rfl⟩
  | none =>
    have hstale : ¬ b.HasStale := stalest_eq_none_iff.mp hs
    by_cases hr : (b.replacementNodes.any fun n => n.eqv kn) = true
    · simp only [hr, if_true]
      exact ⟨_, _, .refreshReplacement hid hfull hstale (any_eqv_iff.mp hr), rfl⟩
    have hrid : kn.id ∉ b.replacementIds := fun hm => hr (any_eqv_iff.mpr hm)
    by_cases hrroom : b.replacementNodes.length < KAD_BUCKET_MAX
    · simp only [hr, hrroom, if_true]
      exact ⟨_, _, .appendReplacement hid hfull hstale hrid hrroom, rfl⟩
    · simp only [hr, hrroom, if_false]
      exact ⟨_, _, .overflow hid hfull hstale hrid (Nat.le_of_not_lt hrroom), rfl⟩

/-- What `removeNode` makes of the lists before it reorders them. -/
inductive Removed (std : StdSort) (b : KadBucket) (id : KadId) : KadBucket → Prop
  /-- The first candidate takes the place of the node. -/
  | promote (h : id ∈ b.ids) (first : KadNode) (rest : List KadNode)
      (hr : b.replacementNodes = first :: rest) : Removed std b id
      ((KadBucket.mk (b.nodes.eraseP (fun n => decide (n.id = id)) ++ [first]) rest).reorder std)
  /-- Without candidates the node stays, one step more stale. -/
  | stale (h : id ∈ b.ids) (hr : b.replacementNodes = []) : Removed std b id
      { b with nodes := b.nodes.updateFirst (fun n => decide (n.id = id)) (·.incrementStales) }
  /-- The node is not here. -/
  | absent (h : id ∉ b.ids) : Removed std b id b

/-- **Everything `removeNode` can do.** -/
theorem removeNode_cases (std : StdSort) (b : KadBucket) (id : KadId) :
    Removed std b id (b.removeNode std id).1 := by
  unfold removeNode
  by_cases h : (b.nodes.any fun n => decide (n.id = id)) = true
  · have hid : id ∈ b.ids := any_id_iff.mp h
    rw [if_pos h]
    cases hr : b.replacementNodes with
    | nil =>
      have hstale : Removed std b id _ := .stale hid hr
      rw [hr] at hstale
      exact hstale
    | cons first rest => exact .promote hid first rest hr
  · rw [if_neg h]
    exact .absent fun hm => h (any_id_iff.mpr hm)

/-! ### Capacity and order -/

/-- What every operation keeps: the two lists stay within their capacity and in
order, and there are candidates only for the places of a full list. -/
structure Inv (b : KadBucket) : Prop where
  nodes_le : b.nodes.length ≤ KAD_BUCKET_MAX
  replacement_le : b.replacementNodes.length ≤ KAD_BUCKET_MAX
  full_of_replacement : b.replacementNodes ≠ [] → b.nodes.length = KAD_BUCKET_MAX
  nodes_sorted : b.nodes.Pairwise fun m n => n.lastSeen.toInt ≤ m.lastSeen.toInt
  replacement_sorted : b.replacementNodes.Pairwise fun m n => n.lastSeen.toInt ≤ m.lastSeen.toInt

theorem inv_empty : empty.Inv where
  nodes_le := by simp [empty]
  replacement_le := by simp [empty]
  full_of_replacement h := absurd rfl h
  nodes_sorted := List.Pairwise.nil
  replacement_sorted := List.Pairwise.nil

section Reorder

variable (std : StdSort) (b : KadBucket)

@[simp] theorem length_nodes_reorder : (b.reorder std).nodes.length = b.nodes.length :=
  std.length_sort _ _

@[simp] theorem length_replacementNodes_reorder :
    (b.reorder std).replacementNodes.length = b.replacementNodes.length :=
  std.length_sort _ _

theorem perm_entries_reorder : (b.reorder std).entries.Perm b.entries :=
  (std.perm _ _).append (std.perm _ _)

theorem perm_heldIds_reorder : (b.reorder std).heldIds.Perm b.heldIds :=
  ((std.perm _ _).map _).append ((std.perm _ _).map _)

variable {b}

/-- Reordering restores the order, so only the capacity is left to check. -/
theorem inv_reorder (h1 : b.nodes.length ≤ KAD_BUCKET_MAX)
    (h2 : b.replacementNodes.length ≤ KAD_BUCKET_MAX)
    (h3 : b.replacementNodes ≠ [] → b.nodes.length = KAD_BUCKET_MAX) : (b.reorder std).Inv where
  nodes_le := by rwa [length_nodes_reorder]
  replacement_le := by rwa [length_replacementNodes_reorder]
  full_of_replacement h := by
    rw [length_nodes_reorder]
    refine h3 fun hnil => h ?_
    rw [← List.length_eq_zero_iff, length_replacementNodes_reorder, hnil, List.length_nil]
  nodes_sorted := (std.sorted _ _).imp fun {m n} h => KadNode.order_lt_eq_false_iff.mp h
  replacement_sorted := (std.sorted _ _).imp fun {m n} h => KadNode.order_lt_eq_false_iff.mp h

end Reorder

variable {b : KadBucket}

/-- A push makes `nodes` one longer when it appends, and keeps its length otherwise. -/
theorem length_of_pushed {now : Int64} {kn : KadNode} {b' : KadBucket} {found : Bool}
    (h : Pushed now b kn b' found) :
    b'.nodes.length = b.nodes.length ∨
      b'.nodes.length = b.nodes.length + 1 ∧ b.nodes.length < KAD_BUCKET_MAX ∧
        b'.replacementNodes = b.replacementNodes := by
  cases h with
  | refresh h => exact Or.inl (List.length_updateFirst _ _ _)
  | append h hroom => exact Or.inr ⟨List.length_append, hroom, rfl⟩
  | evict h hfull i hi =>
    have hlt := stalest_lt hi
    refine Or.inl ?_
    rw [List.length_append, List.length_eraseIdx_of_lt hlt, List.length_singleton]
    omega
  | refreshReplacement h hfull hstale hr => exact Or.inl rfl
  | appendReplacement h hfull hstale hr hroom => exact Or.inl rfl
  | overflow h hfull hstale hr hroom => exact Or.inl rfl

theorem length_le_pushNode (std : StdSort) (now : Int64) (kn : KadNode) :
    b.nodes.length ≤ (b.pushNode std now kn).1.nodes.length := by
  obtain ⟨b', found, hp, heq⟩ := b.pushNode_cases std now kn
  rw [heq, length_nodes_reorder]
  rcases length_of_pushed hp with h | ⟨h, -⟩ <;> omega

theorem inv_pushNode (std : StdSort) (now : Int64) (kn : KadNode) (hb : b.Inv) :
    (b.pushNode std now kn).1.Inv := by
  obtain ⟨b', found, hp, heq⟩ := b.pushNode_cases std now kn
  rw [heq]
  have hlen := length_of_pushed hp
  have hmax : KAD_BUCKET_MAX = 20 := rfl
  have hn := hb.nodes_le
  have hr := hb.replacement_le
  have hfor := hb.full_of_replacement
  refine inv_reorder std ?_ ?_ ?_
  · rcases hlen with h | ⟨h, hlt, -⟩ <;> omega
  · cases hp with
    | refresh h => exact hr
    | append h hroom => exact hr
    | evict h hfull i hi => exact hr
    | refreshReplacement h hfull hstale hrid =>
      exact (List.length_updateFirst _ _ _).trans_le hr
    | appendReplacement h hfull hstale hrid hroom =>
      show (b.replacementNodes ++ [kn]).length ≤ _
      rw [List.length_append, List.length_singleton]
      omega
    | overflow h hfull hstale hrid hroom =>
      show (b.replacementNodes.dropLast ++ [kn]).length ≤ _
      rw [List.length_append, List.length_dropLast, List.length_singleton]
      omega
  · intro hne
    cases hp with
    | refresh h => exact (List.length_updateFirst _ _ _).trans (hfor hne)
    | append h hroom =>
      -- candidates would mean that the list was full already
      have := hfor hne
      omega
    | evict h hfull i hi =>
      rcases hlen with h | ⟨-, hlt, -⟩ <;> omega
    | refreshReplacement h hfull hstale hrid => exact Nat.le_antisymm hn hfull
    | appendReplacement h hfull hstale hrid hroom => exact Nat.le_antisymm hn hfull
    | overflow h hfull hstale hrid hroom => exact Nat.le_antisymm hn hfull

theorem length_removeNode (std : StdSort) (id : KadId) :
    (b.removeNode std id).1.nodes.length = b.nodes.length := by
  have hr := b.removeNode_cases std id
  generalize (b.removeNode std id).1 = b' at hr
  cases hr with
  | promote h first rest hr =>
    obtain ⟨n, hn, hid⟩ := List.mem_map.mp h
    have hpos := List.length_pos_of_mem hn
    rw [length_nodes_reorder, List.length_append, List.length_singleton,
      List.length_eraseP_of_mem hn (by simpa using hid)]
    omega
  | stale h hr => exact List.length_updateFirst _ _ _
  | absent h => rfl

theorem inv_removeNode (std : StdSort) (id : KadId) (hb : b.Inv) : (b.removeNode std id).1.Inv := by
  have hlen := b.length_removeNode std id
  have hr := b.removeNode_cases std id
  generalize (b.removeNode std id).1 = b' at hr hlen
  cases hr with
  | promote h first rest hr =>
    rw [length_nodes_reorder] at hlen
    have hfull := hb.full_of_replacement (by rw [hr]; simp)
    have hle := hb.replacement_le
    rw [hr, List.length_cons] at hle
    exact inv_reorder std (by omega) (by show rest.length ≤ _; omega) fun _ => hlen.trans hfull
  | stale h hr =>
    refine ⟨hlen.trans_le hb.nodes_le, hb.replacement_le, fun hne => absurd hr hne, ?_,
      hb.replacement_sorted⟩
    -- the order reads `lastSeen` only, which a stale step leaves alone
    have hmap : (b.nodes.updateFirst (fun n => decide (n.id = id)) (·.incrementStales)).map
        KadNode.lastSeen = b.nodes.map KadNode.lastSeen :=
      List.map_updateFirst (f := KadNode.incrementStales) (fun _ => rfl) _
    have hs := hb.nodes_sorted
    rw [← List.pairwise_map (f := KadNode.lastSeen) (R := fun x y => y.toInt ≤ x.toInt)] at hs ⊢
    rwa [hmap]
  | absent h => exact hb

/-! ### Where the entries come from -/

/-- An entry at the end of either list is one more entry. -/
theorem perm_entries_append (l r : List KadNode) (kn : KadNode) :
    (KadBucket.mk (l ++ [kn]) r).entries.Perm (kn :: (KadBucket.mk l r).entries) := by
  rw [entries, List.append_assoc]
  exact List.perm_middle

theorem perm_entries_appendReplacement (l r : List KadNode) (kn : KadNode) :
    (KadBucket.mk l (r ++ [kn])).entries.Perm (kn :: (KadBucket.mk l r).entries) := by
  rw [entries, ← List.append_assoc]
  exact List.perm_append_singleton _ _

/-- Every entry after a push is the pushed node, or an old one but for the times. -/
theorem mem_entries_pushNode {std : StdSort} {now : Int64} {kn n : KadNode}
    (h : n ∈ (b.pushNode std now kn).1.entries) :
    n = kn ∨ ∃ m ∈ b.entries, n.id = m.id ∧ n.address = m.address := by
  obtain ⟨b', found, hp, heq⟩ := b.pushNode_cases std now kn
  rw [heq, (b'.perm_entries_reorder std).mem_iff] at h
  have old : n ∈ b.entries → n = kn ∨ ∃ m ∈ b.entries, n.id = m.id ∧ n.address = m.address :=
    fun hn => Or.inr ⟨n, hn, rfl, rfl⟩
  cases hp with
  | refresh hid =>
    rcases List.mem_append.mp h with h | h
    · rcases List.mem_updateFirst h with h | ⟨m, hm, rfl⟩
      · exact old (List.mem_append_left _ h)
      · exact Or.inr ⟨m, List.mem_append_left _ hm, rfl, rfl⟩
    · exact old (List.mem_append_right _ h)
  | append hid hroom =>
    rcases List.mem_cons.mp ((perm_entries_append _ _ kn).mem_iff.mp h) with h | h
    · exact Or.inl h
    · exact old h
  | evict hid hfull i hi =>
    have hsub : (b.nodes.eraseIdx i ++ b.replacementNodes).Sublist b.entries :=
      (List.eraseIdx_sublist _ _).append (List.Sublist.refl _)
    rcases List.mem_cons.mp ((perm_entries_append _ _ kn).mem_iff.mp h) with h | h
    · exact Or.inl h
    · exact old (hsub.subset h)
  | refreshReplacement hid hfull hstale hr =>
    rcases List.mem_append.mp h with h | h
    · exact old (List.mem_append_left _ h)
    · rcases List.mem_updateFirst h with h | ⟨m, hm, rfl⟩
      · exact old (List.mem_append_right _ h)
      · exact Or.inr ⟨m, List.mem_append_right _ hm, rfl, rfl⟩
  | appendReplacement hid hfull hstale hr hroom =>
    rcases List.mem_cons.mp ((perm_entries_appendReplacement _ _ kn).mem_iff.mp h) with h | h
    · exact Or.inl h
    · exact old h
  | overflow hid hfull hstale hr hroom =>
    have hsub : (b.nodes ++ b.replacementNodes.dropLast).Sublist b.entries :=
      (List.Sublist.refl _).append (List.dropLast_sublist _)
    rcases List.mem_cons.mp ((perm_entries_appendReplacement _ _ kn).mem_iff.mp h) with h | h
    · exact Or.inl h
    · exact old (hsub.subset h)

/-- Every entry after a removal is an old one but for the stales. -/
theorem mem_entries_removeNode {std : StdSort} {id : KadId} {n : KadNode}
    (h : n ∈ (b.removeNode std id).1.entries) :
    ∃ m ∈ b.entries, n.id = m.id ∧ n.address = m.address := by
  have hr := b.removeNode_cases std id
  generalize (b.removeNode std id).1 = b' at hr h
  cases hr with
  | promote hid first rest hr =>
    rw [(perm_entries_reorder std _).mem_iff] at h
    refine ⟨n, ?_, rfl, rfl⟩
    rw [entries, hr]
    rcases List.mem_append.mp h with h | h
    · rcases List.mem_append.mp h with h | h
      · exact List.mem_append_left _ (List.mem_of_mem_eraseP h)
      · exact List.mem_append_right _ (List.mem_singleton.mp h ▸ List.mem_cons_self)
    · exact List.mem_append_right _ (List.mem_cons_of_mem _ h)
  | stale hid hr =>
    rcases List.mem_append.mp h with h | h
    · rcases List.mem_updateFirst h with h | ⟨m, hm, rfl⟩
      · exact ⟨n, List.mem_append_left _ h, rfl, rfl⟩
      · exact ⟨m, List.mem_append_left _ hm, rfl, rfl⟩
    · exact ⟨n, List.mem_append_right _ h, rfl, rfl⟩
  | absent hid => exact ⟨n, h, rfl, rfl⟩

/-! ### The ids of a bucket -/

/-- The push that enters an id twice: a stale node is evicted in favour of a node
that is a candidate already, and stays one. -/
def EvictsHeld (b : KadBucket) (kn : KadNode) : Prop :=
  kn.id ∉ b.ids ∧ KAD_BUCKET_MAX ≤ b.nodes.length ∧ b.HasStale ∧ kn.id ∈ b.replacementIds

instance (b : KadBucket) (kn : KadNode) : Decidable (b.EvictsHeld kn) :=
  inferInstanceAs (Decidable (_ ∧ _))

theorem heldIds_mk (l r : List KadNode) :
    (KadBucket.mk l r).heldIds = l.map KadNode.id ++ r.map KadNode.id := rfl

theorem mem_heldIds {id : KadId} : id ∈ b.heldIds ↔ id ∈ b.ids ∨ id ∈ b.replacementIds :=
  List.mem_append

theorem heldIds_eq (b : KadBucket) : b.heldIds = b.entries.map KadNode.id := by
  rw [heldIds, ids, replacementIds, entries, List.map_append]

/-- An entry at the end of either list is one more id. -/
theorem perm_heldIds_append (l r : List KadNode) (kn : KadNode) :
    (KadBucket.mk (l ++ [kn]) r).heldIds.Perm (kn.id :: (KadBucket.mk l r).heldIds) := by
  rw [heldIds_eq, heldIds_eq]
  exact (perm_entries_append l r kn).map KadNode.id

theorem perm_heldIds_appendReplacement (l r : List KadNode) (kn : KadNode) :
    (KadBucket.mk l (r ++ [kn])).heldIds.Perm (kn.id :: (KadBucket.mk l r).heldIds) := by
  rw [heldIds_eq, heldIds_eq]
  exact (perm_entries_appendReplacement l r kn).map KadNode.id

theorem map_id_refresh (p : KadNode → Bool) (now : Int64) (l : List KadNode) :
    (l.updateFirst p fun n => (n.seenNow now).resetStales).map KadNode.id = l.map KadNode.id :=
  List.map_updateFirst (f := fun n : KadNode => (n.seenNow now).resetStales) (fun _ => rfl) l

theorem map_id_seenNow (p : KadNode → Bool) (now : Int64) (l : List KadNode) :
    (l.updateFirst p (·.seenNow now)).map KadNode.id = l.map KadNode.id :=
  List.map_updateFirst (f := KadNode.seenNow now) (fun _ => rfl) l

theorem map_id_incrementStales (p : KadNode → Bool) (l : List KadNode) :
    (l.updateFirst p (·.incrementStales)).map KadNode.id = l.map KadNode.id :=
  List.map_updateFirst (f := KadNode.incrementStales) (fun _ => rfl) l

/-- Refreshing an entry leaves the ids alone. -/
theorem heldIds_of_found {now : Int64} {kn : KadNode} {b' : KadBucket}
    (h : Pushed now b kn b' true) : b'.heldIds = b.heldIds ∧ ¬ b.EvictsHeld kn := by
  cases h with
  | refresh h =>
    rw [heldIds_mk, map_id_refresh]
    exact ⟨rfl, fun he => he.1 h⟩
  | refreshReplacement h hfull hstale hr =>
    rw [heldIds_mk, map_id_seenNow]
    exact ⟨rfl, fun he => hstale he.2.2.1⟩

/-- A newcomer is entered next to some of the old ids, its own among them only
when a stale node is evicted for a candidate. -/
theorem heldIds_of_new {now : Int64} {kn : KadNode} {b' : KadBucket} (hb : b.Inv)
    (h : Pushed now b kn b' false) :
    ∃ old, old.Sublist b.heldIds ∧ b'.heldIds.Perm (kn.id :: old) ∧
      (kn.id ∈ old ↔ b.EvictsHeld kn) := by
  cases h with
  | append h hroom =>
    have hnil : b.replacementNodes = [] := by
      by_contra hne
      have := hb.full_of_replacement hne
      omega
    refine ⟨b.heldIds, List.Sublist.refl _, perm_heldIds_append _ _ _, ?_⟩
    rw [mem_heldIds, replacementIds, hnil]
    exact iff_of_false (by simpa using h) fun he => absurd he.2.1 (by omega)
  | evict h hfull i hi =>
    refine ⟨(b.nodes.eraseIdx i).map KadNode.id ++ b.replacementIds, ?_,
      perm_heldIds_append _ _ _, ?_⟩
    · exact ((List.eraseIdx_sublist _ _).map _).append (List.Sublist.refl _)
    · have hleft : kn.id ∉ (b.nodes.eraseIdx i).map KadNode.id := fun hm =>
        h (((List.eraseIdx_sublist _ _).map _).subset hm)
      rw [List.mem_append]
      constructor
      · rintro (hm | hm)
        · exact absurd hm hleft
        · exact ⟨h, hfull, hasStale_of_stalest hi, hm⟩
      · exact fun he => Or.inr he.2.2.2
  | appendReplacement h hfull hstale hr hroom =>
    refine ⟨b.heldIds, List.Sublist.refl _, perm_heldIds_appendReplacement _ _ _, ?_⟩
    rw [mem_heldIds]
    exact iff_of_false (by simp [h, hr]) fun he => hstale he.2.2.1
  | overflow h hfull hstale hr hroom =>
    have hsub : (b.ids ++ b.replacementNodes.dropLast.map KadNode.id).Sublist b.heldIds :=
      (List.Sublist.refl _).append ((List.dropLast_sublist _).map _)
    refine ⟨_, hsub, perm_heldIds_appendReplacement _ _ _, ?_⟩
    refine iff_of_false (fun hm => ?_) fun he => hstale he.2.2.1
    rcases mem_heldIds.mp (hsub.subset hm) with hm | hm
    · exact h hm
    · exact hr hm

/-- **A push keeps the ids distinct unless it evicts for a candidate.** -/
theorem nodup_pushNode_iff (std : StdSort) (now : Int64) {kn : KadNode} (hb : b.Inv)
    (hd : b.heldIds.Nodup) : (b.pushNode std now kn).1.heldIds.Nodup ↔ ¬ b.EvictsHeld kn := by
  obtain ⟨b', found, hp, heq⟩ := b.pushNode_cases std now kn
  rw [heq, (b'.perm_heldIds_reorder std).nodup_iff]
  cases found with
  | true =>
    obtain ⟨hids, hnot⟩ := heldIds_of_found hp
    rw [hids]
    exact iff_of_true hd hnot
  | false =>
    obtain ⟨old, hsub, hperm, hmem⟩ := heldIds_of_new hb hp
    rw [hperm.nodup_iff, List.nodup_cons, hmem]
    exact and_iff_left (hd.sublist hsub)

/-- A removal passes the ids on, or drops one. -/
theorem heldIds_removeNode (std : StdSort) (id : KadId) :
    ∃ old, old.Sublist b.heldIds ∧ (b.removeNode std id).1.heldIds.Perm old := by
  have hr := b.removeNode_cases std id
  generalize (b.removeNode std id).1 = b' at hr
  cases hr with
  | promote h first rest hr =>
    refine ⟨(b.nodes.eraseP fun n => decide (n.id = id)).map KadNode.id ++ b.replacementIds, ?_, ?_⟩
    · exact ((List.eraseP_sublist).map _).append (List.Sublist.refl _)
    · refine (perm_heldIds_reorder std _).trans ?_
      rw [heldIds_mk, replacementIds, hr, List.map_append, List.append_assoc]
      exact List.Perm.refl _
  | stale h hr =>
    refine ⟨b.heldIds, List.Sublist.refl _, ?_⟩
    rw [heldIds_mk, map_id_incrementStales]
    exact List.Perm.refl _
  | absent h => exact ⟨_, List.Sublist.refl _, List.Perm.refl _⟩

end KadBucket

end SniffDogSniff
