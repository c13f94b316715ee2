import SniffDogSniff.SdsCore.NodeRuns

/-!
# What becomes of the nodes that a lookup asks

A lookup remembers the nodes that it has asked in a set, and the ids of those that failed
in another one; when it ends, it goes through the first set and changes the table for each
node there.  The order of the first set looks at the times alone, so of several nodes that
were seen at one time only the one that was asked first is in it.  Nothing keeps a lookup
from asking an id twice: the replies of a round are not compared with each other, and not
with the nodes that the lookup starts with.

## Main definitions

* `lookupCalls` — the calls of a lookup: the nodes that it asks, and whether they answer.
* `UpdatedOnce` — the table is changed for an id once, as the call to it ended.
* `Separated` — the calls for which this is so.
* `NamesApart` — the first nodes and the replies to them do not repeat an id that is asked.

## Main results

* `traced_lookupLoop` — what a lookup has asked, remembered and seen to fail.
* `ends_updatedOnce_iff` — **the calls of a lookup that are each followed by one update.**
* `ends_nodup_contacted_iff` — **the lookups that ask no id twice.**
-/

namespace SniffDogSniff

open KadRoutingTable (distanceOrder endCalls)
open LookupState

/-! ### The calls of a lookup -/

/-- The calls of a round to some nodes. -/
def roundCalls (env : LookupEnv) (round : ℕ) (nodes : List KadNode) : List (KadNode × Bool) :=
  nodes.zipIdx.map fun e => (e.1, (env.reply round e.2).isSome)

/-- The calls of a lookup, with the nodes of the table that it starts with. -/
def lookupCalls (env : LookupEnv) (selfNode : KadNode) (targetId : KadId)
    (closest : List KadNode) : List (KadNode × Bool) :=
  roundCalls env 0 closest ++
    if late env 0 then [] else roundCalls env 1 (second env selfNode targetId closest)

/-- The ids to which a call failed. -/
def failedIds (calls : List (KadNode × Bool)) : List KadId :=
  (calls.filter fun e => !e.2).map fun e => e.1.id

theorem map_fst_roundCalls (env : LookupEnv) (round : ℕ) (nodes : List KadNode) :
    (roundCalls env round nodes).map Prod.fst = nodes := by
  rw [roundCalls, List.map_map]
  exact List.zipIdx_map_fst 0 nodes

/-- What the lookup remembers is what the calls were. -/
structure LookupState.Traced (st : LookupState) (calls : List (KadNode × Bool)) : Prop where
  contacted : st.contacted = calls.map Prod.fst
  probed : st.probed = (∅ : OrdSet KadNode.order).insertAll (calls.map Prod.fst)
  failed : st.failed = (∅ : OrdSet KadId.order).insertAll (failedIds calls)

namespace LookupState

variable {env : LookupEnv} {selfNode : KadNode} {targetId : KadId}

theorem traced_init (closest : List KadNode) : (init closest).Traced [] := ⟨rfl, rfl, rfl⟩

/-- What the calls of a round leave in the two sets. -/
theorem sets_foldl_collect (env : LookupEnv) (selfNode : KadNode) (round : ℕ)
    (es : List (KadNode × ℕ)) (st : LookupState) :
    (es.foldl (collect env selfNode round) st).probed = st.probed.insertAll (es.map Prod.fst) ∧
      (es.foldl (collect env selfNode round) st).failed = st.failed.insertAll
        (failedIds (es.map fun e => (e.1, (env.reply round e.2).isSome))) := by
  induction es generalizing st with
  | nil => exact ⟨rfl, rfl⟩
  | cons e es ih =>
    obtain ⟨hprobed, hfailed⟩ := ih (st.collect env selfNode round e)
    rw [List.foldl_cons, hprobed, hfailed, probed_collect]
    refine ⟨rfl, ?_⟩
    rw [collect, List.map_cons]
    cases env.reply round e.2 with
    | none => rfl
    | some reply => rfl

theorem traced_turn {st : LookupState} {calls : List (KadNode × Bool)} (h : st.Traced calls)
    (round : ℕ) : (st.turn env selfNode targetId round).Traced
      (calls ++ roundCalls env round st.alphaClosest) := by
  obtain ⟨hprobed, hfailed⟩ := sets_foldl_collect env selfNode round
    st.alphaClosest.zipIdx { st with discovered := [], contacted := st.contacted ++ st.alphaClosest }
  refine ⟨?_, ?_, ?_⟩
  · rw [(turn_spec env selfNode targetId round st).1, h.contacted, List.map_append, map_fst_roundCalls]
  · rw [List.map_append, map_fst_roundCalls, OrdSet.insertAll, List.foldl_append]
    refine hprobed.trans ?_
    rw [h.probed, List.zipIdx_map_fst]
    rfl
  · rw [failedIds, List.filter_append, List.map_append, OrdSet.insertAll, List.foldl_append]
    refine hfailed.trans ?_
    rw [h.failed]
    rfl

/-- A round that asks newcomers is the last one, however long it takes. -/
theorem lookupLoop_eq_turn {round : ℕ} {st : LookupState} (hne : st.alphaClosest ≠ [])
    (h : ∀ kn ∈ st.alphaClosest, kn.lastSeen = 0) :
    lookupLoop env selfNode targetId round st = st.turn env selfNode targetId round := by
  have hlast : (st.turn env selfNode targetId round).alphaClosest = [] := by
    have hlt := roundsLeft_turn env selfNode targetId round hne
    have hle := roundsLeft_le_one h
    rw [← roundsLeft_eq_zero_iff]
    omega
  rw [lookupLoop, dif_neg hne, lookupLoop_of_nil hlast, ite_self]

/-- **What a lookup has asked, remembered and seen to fail.** -/
theorem traced_lookupLoop (closest : List KadNode) :
    (lookupLoop env selfNode targetId 0 (init closest)).Traced
      (lookupCalls env selfNode targetId closest) := by
  have hfirst : ((init closest).turn env selfNode targetId 0).Traced (roundCalls env 0 closest) :=
    traced_turn (traced_init closest) 0
  by_cases hnil : closest = []
  · subst hnil
    rw [lookupLoop_of_nil rfl, lookupCalls, second_nil]
    exact (ite_self (α := List (KadNode × Bool)) []).symm ▸ traced_init []
  · have hne : (init closest).alphaClosest ≠ [] := hnil
    rw [lookupLoop, dif_neg hne, lookupCalls]
    split
    · rw [List.append_nil]
      exact hfirst
    · by_cases hlast : second env selfNode targetId closest = []
      · rw [lookupLoop_of_nil hlast, hlast]
        exact (List.append_nil _).symm ▸ hfirst
      · have hnew : ∀ kn ∈ second env selfNode targetId closest, kn.lastSeen = 0 :=
          fun kn hkn => lastSeen_of_mem_namedIn (mem_namedEarly_of_mem_second hkn)
        rw [lookupLoop_eq_turn hlast hnew]
        exact traced_turn hfirst 1

end LookupState

/-! ### One update for each call -/

/-- The call changes what the table has for an id. -/
def concerns (id : KadId) : KadRoutingTable.Call → Bool
  | .pushNode _ kn => decide (kn.id = id)
  | .removeNode id' => decide (id' = id)
  | .setSelfNodeAddress _ => false

def isPush : KadRoutingTable.Call → Bool
  | .pushNode _ _ => true
  | .removeNode _ => false
  | .setSelfNodeAddress _ => false

/-- The table is changed for the node once: it is pushed if it has answered, and else
removed. -/
def UpdatedOnce (updates : List KadRoutingTable.Call) (call : KadNode × Bool) : Prop :=
  (updates.filter (concerns call.1.id)).map isPush = [call.2]

/-- Of the nodes that are asked, take the first one for each time at which they were seen.
Every id that is asked is the id of one of them, and where a call to it fails, all do. -/
def Separated (calls : List (KadNode × Bool)) : Prop :=
  ∀ e ∈ calls,
    ((OrdSet.firsts KadNode.order (calls.map Prod.fst)).countP fun kn => decide (kn.id = e.1.id)) = 1 ∧
      ∀ e' ∈ calls, e'.1.id = e.1.id → e'.2 = false → e.2 = false

instance (calls : List (KadNode × Bool)) : Decidable (Separated calls) :=
  inferInstanceAs (Decidable (∀ e ∈ calls, _))

/-- The updates for an id: one for each node with this id. -/
theorem map_isPush_endCalls (failed : KadId → Bool) (now : KadNode → Int64) (nodes : List KadNode)
    (id : KadId) : ((endCalls failed now nodes).filter (concerns id)).map isPush =
      List.replicate (nodes.countP fun kn => decide (kn.id = id)) (!failed id) := by
  induction nodes with
  | nil => rfl
  | cons kn nodes ih =>
    have hconcerns : concerns id (if failed kn.id then KadRoutingTable.Call.removeNode kn.id
        else KadRoutingTable.Call.pushNode (now kn) kn) = decide (kn.id = id) := by
      split <;> rfl
    rw [endCalls, List.map_cons, List.filter_cons, hconcerns, ← endCalls, List.countP_cons]
    by_cases hid : kn.id = id
    · subst hid
      simp only [decide_true, if_true]
      rw [List.map_cons, ih, List.replicate_succ]
      cases failed kn.id <;> rfl
    · simp [hid, ih]

theorem failed_contains_iff {st : LookupState} {calls : List (KadNode × Bool)}
    (h : st.Traced calls) (id : KadId) :
    st.failed.contains id = true ↔ ∃ e ∈ calls, e.1.id = id ∧ e.2 = false := by
  rw [h.failed, OrdSet.contains_insertAll_iff]
  constructor
  · rintro (hempty | ⟨id', hmem, heq⟩)
    · cases hempty
    · obtain ⟨e, he, rfl⟩ := List.mem_map.mp hmem
      obtain ⟨he, hfalse⟩ := List.mem_filter.mp he
      exact ⟨e, he, (KadId.order_equiv_iff.mp heq).symm, by simpa using hfalse⟩
  · rintro ⟨e, he, rfl, hfalse⟩
    refine Or.inr ⟨e.1.id, List.mem_map.mpr ⟨e, ?_, rfl⟩, Comparator.Equiv.refl _⟩
    exact List.mem_filter.mpr ⟨he, by simpa using hfalse⟩

/-- **The calls that are each followed by one update.** -/
theorem updatedOnce_iff {st : LookupState} {calls : List (KadNode × Bool)} (h : st.Traced calls)
    (now : KadNode → Int64) :
    (∀ e ∈ calls, UpdatedOnce (endCalls st.failed.contains now st.probed.elems) e) ↔
      Separated calls := by
  refine forall₂_congr fun e he => ?_
  have hperm : st.probed.elems.Perm (OrdSet.firsts KadNode.order (calls.map Prod.fst)) := by
    rw [h.probed]
    exact OrdSet.perm_insertAll_empty _
  rw [UpdatedOnce, map_isPush_endCalls, hperm.countP_eq, eq_comm, List.eq_replicate_iff,
    List.length_singleton, eq_comm, List.forall_mem_singleton]
  refine and_congr_right fun _ => ?_
  constructor
  · intro heq e' he' hid hfalse
    rw [heq, (failed_contains_iff h e.1.id).mpr ⟨e', he', hid, hfalse⟩]
    rfl
  · intro hsame
    cases hcall : e.2 with
    | false =>
      rw [(failed_contains_iff h e.1.id).mpr ⟨e, he, rfl, hcall⟩]
      rfl
    | true =>
      rw [eq_comm, Bool.not_eq_true', Bool.eq_false_iff]
      intro hcontains
      obtain ⟨e', he', hid, hfalse⟩ := (failed_contains_iff h e.1.id).mp hcontains
      rw [hsame e' he' hid hfalse] at hcall
      cases hcall

/-- What the lookup does to the table at its end. -/
def lookupUpdates (env : LookupEnv) (st : LookupState) : List KadRoutingTable.Call :=
  endCalls st.failed.contains env.now st.probed.elems

/-- The calls of a lookup of a node. -/
def LocalNode.lookupCalls {db : BerkeleyDB} (n : LocalNode db) (env : LookupEnv) (targetId : KadId) :
    List (KadNode × Bool) :=
  SniffDogSniff.lookupCalls env n.ktable.selfNode targetId
    (n.ktable.getClosestTo env.std targetId ALPHA)

/-- They are what the lookup has at its end. -/
theorem LocalNode.traced_lookup {db : BerkeleyDB} (n : LocalNode db) (env : LookupEnv)
    (targetId : KadId) :
    (lookupLoop env n.ktable.selfNode targetId 0
      (init (n.ktable.getClosestTo env.std targetId ALPHA))).Traced (n.lookupCalls env targetId) :=
  traced_lookupLoop _

namespace NodesLookupTask

variable {db : BerkeleyDB} {ε : Type}

/-- **Each call of a lookup is followed by one update exactly where the calls are
separated**: no node that is asked was seen at the time of another one, but for its own id. -/
theorem ends_updatedOnce_iff (env : LookupEnv) (targetId : KadId) (n : LocalNode db) :
    Prog.Ends (doNodesLookup env targetId : Prog ε _ _) { n with mutex := false }
        (fun r n' => n'.ktable = Runs.run (KadRoutingTable.step env.std) n.ktable
            (lookupUpdates env r.1) ∧
          r.1.contacted = (n.lookupCalls env targetId).map Prod.fst ∧
          ∀ e ∈ n.lookupCalls env targetId, UpdatedOnce (lookupUpdates env r.1) e)
        (fun _ => False) ↔
      Separated (n.lookupCalls env targetId) := by
  have hfree : { n with mutex := false : LocalNode db }.Free := rfl
  have htraced := n.traced_lookup env targetId
  rw [Prog.Ends, Prog.outcome, doNodesLookup_of_free env targetId hfree,
    ← updatedOnce_iff htraced env.now]
  exact ⟨fun h => h.2.2, fun h => ⟨fst_afterLookup _ _ _, htraced.contacted, h⟩⟩

end NodesLookupTask

/-- A node that knows two other ones and has seen neither of them again. -/
def newcomersNode : LocalNode BerkeleyDB.inMemory where
  mutex := false
  ktable := KadRoutingTable.reached StdSort.insertion (KadId.ofNat 2)
    [.pushNode 0 (KadNode.new (KadId.ofNat 1) [97]), .pushNode 0 (KadNode.new (KadId.ofNat 7) [98])]
  searchesDB := ⟨∅, some []⟩
  detached := []

/-- No call is answered. -/
def LookupEnv.silent : LookupEnv where
  std := StdSort.insertion
  reply _ _ := none
  startTime := 0
  time _ := 0
  now _ := 0

/-- The stales of one of the two are not counted. -/
theorem NodesLookupTask.not_ends_updatedOnce :
    ¬ ∀ (env : LookupEnv) (targetId : KadId) (n : LocalNode BerkeleyDB.inMemory),
      Prog.Ends (NodesLookupTask.doNodesLookup env targetId : Prog Empty _ _)
        { n with mutex := false }
        (fun r n' => n'.ktable = Runs.run (KadRoutingTable.step env.std) n.ktable
            (lookupUpdates env r.1) ∧
          r.1.contacted = (n.lookupCalls env targetId).map Prod.fst ∧
          ∀ e ∈ n.lookupCalls env targetId, UpdatedOnce (lookupUpdates env r.1) e)
        (fun _ => False) := by
  intro h
  have hends := h LookupEnv.silent (KadId.ofNat 3) newcomersNode
  have hfree : { newcomersNode with mutex := false : LocalNode _ }.Free := rfl
  rw [Prog.Ends, Prog.outcome, NodesLookupTask.doNodesLookup_of_free _ _ hfree] at hends
  have htraced := newcomersNode.traced_lookup LookupEnv.silent (KadId.ofNat 3)
  have hseparated := (updatedOnce_iff htraced LookupEnv.silent.now).mp hends.2.2
  revert hseparated
  decide +kernel

/-! ### No id twice -/

/-- How many nodes are strictly nearer. -/
def nearer (targetId : KadId) (nodes : List KadNode) (kn : KadNode) : ℕ :=
  nodes.countP fun x => (distanceOrder targetId).lt x kn

/-- How many nodes have the id. -/
def countId (nodes : List KadNode) (id : KadId) : ℕ := nodes.countP fun kn => decide (kn.id = id)

/-- The nodes that a lookup starts with are pairwise different; and of those that are named
early, one that is named twice has two nearer ones, and one that the lookup starts with has
three. -/
def NamesApart (env : LookupEnv) (selfNode : KadNode) (targetId : KadId)
    (closest : List KadNode) : Prop :=
  (closest.map KadNode.id).Nodup ∧
    (late env 0 = false → ∀ kn ∈ namedEarly env selfNode closest,
      (1 < countId (namedEarly env selfNode closest) kn.id →
        ALPHA - 1 ≤ nearer targetId (namedEarly env selfNode closest) kn) ∧
      (kn.id ∈ closest.map KadNode.id →
        ALPHA ≤ nearer targetId (namedEarly env selfNode closest) kn))

section

variable {env : LookupEnv} {selfNode : KadNode} {targetId : KadId} {closest : List KadNode}

/-- How often the second round asks an id. -/
theorem countId_second (kn : KadNode) :
    countId (second env selfNode targetId closest) kn.id =
      min (ALPHA - nearer targetId (namedEarly env selfNode closest) kn)
        (countId (namedEarly env selfNode closest) kn.id) := by
  have hequiv : (fun x : KadNode => decide (x.id = kn.id)) =
      fun x => decide ((distanceOrder targetId).Equiv x kn) :=
    funext fun x => decide_eq_decide.mpr distanceOrder_equiv_iff.symm
  have hperm := env.std.perm (distanceOrder targetId) (namedEarly env selfNode closest)
  rw [second_eq, countId, countId, nearer, hequiv,
    StdSort.countP_equiv_take (env.std.sorted _ _), hperm.countP_eq, hperm.countP_eq]

theorem count_map_id (nodes : List KadNode) (id : KadId) :
    (nodes.map KadNode.id).count id = countId nodes id := by
  rw [List.count, List.countP_map, countId]
  exact List.countP_congr fun kn _ => by simp

theorem nodup_second_iff : ((second env selfNode targetId closest).map KadNode.id).Nodup ↔
    ∀ kn ∈ namedEarly env selfNode closest, 1 < countId (namedEarly env selfNode closest) kn.id →
      ALPHA - 1 ≤ nearer targetId (namedEarly env selfNode closest) kn := by
  have hcount : ∀ kn, countId (second env selfNode targetId closest) kn.id ≤ 1 ↔
      (1 < countId (namedEarly env selfNode closest) kn.id →
        ALPHA - 1 ≤ nearer targetId (namedEarly env selfNode closest) kn) := by
    intro kn
    rw [countId_second]
    have halpha : ALPHA = 3 := rfl
    omega
  rw [List.nodup_iff_count_le_one]
  simp only [count_map_id]
  constructor
  · exact fun h kn _ => (hcount kn).mp (h kn.id)
  · intro h id
    by_cases hmem : ∃ kn ∈ namedEarly env selfNode closest, kn.id = id
    · obtain ⟨kn, hkn, rfl⟩ := hmem
      exact (hcount kn).mpr (h kn hkn)
    -- an id that was not named is not asked
    · have hzero : countId (second env selfNode targetId closest) id = 0 :=
        List.countP_eq_zero.mpr fun kn hkn => by
          simpa using fun hid => hmem ⟨kn, mem_namedEarly_of_mem_second hkn, hid⟩
      rw [hzero]
      exact Nat.zero_le 1

theorem disjoint_second_iff :
    (∀ id ∈ closest.map KadNode.id, id ∉ (second env selfNode targetId closest).map KadNode.id) ↔
      ∀ kn ∈ namedEarly env selfNode closest, kn.id ∈ closest.map KadNode.id →
        ALPHA ≤ nearer targetId (namedEarly env selfNode closest) kn := by
  have hasked : ∀ kn ∈ namedEarly env selfNode closest,
      kn.id ∈ (second env selfNode targetId closest).map KadNode.id ↔
        nearer targetId (namedEarly env selfNode closest) kn < ALPHA := by
    intro kn hkn
    have hpos : 0 < countId (namedEarly env selfNode closest) kn.id :=
      List.countP_pos_iff.mpr ⟨kn, hkn, by simp⟩
    rw [← List.count_pos_iff, count_map_id, countId_second]
    omega
  constructor
  · intro h kn hkn hclosest
    exact not_lt.mp ((hasked kn hkn).not.mp (h kn.id hclosest))
  · intro h id hid hsecond
    obtain ⟨kn, hkn, rfl⟩ := List.mem_map.mp hsecond
    have hearly := mem_namedEarly_of_mem_second hkn
    exact absurd ((hasked kn hearly).mp hsecond) (not_lt.mpr (h kn hearly hid))

/-- **A lookup asks no id twice exactly where the names are apart.** -/
theorem nodup_lookupCalls_iff :
    (((lookupCalls env selfNode targetId closest).map Prod.fst).map KadNode.id).Nodup ↔
      NamesApart env selfNode targetId closest := by
  rw [lookupCalls, List.map_append, map_fst_roundCalls, List.map_append]
  cases hlate : late env 0 with
  | true => simp [NamesApart, hlate]
  | false =>
    rw [if_neg Bool.false_ne_true, map_fst_roundCalls, List.nodup_append, nodup_second_iff,
      NamesApart, hlate]
    simp only [forall_const, forall_and]
    refine and_congr_right fun _ => and_congr_right fun _ => ?_
    rw [← disjoint_second_iff]
    exact ⟨fun h id hid hsecond => h id hid id hsecond rfl,
      fun h id hid id' hid' heq => h id hid (heq ▸ hid')⟩

end

namespace NodesLookupTask

variable {db : BerkeleyDB} {ε : Type}

/-- What a lookup has contacted are the nodes of its calls. -/
theorem ends_nodup_iff_nodup_calls (env : LookupEnv) (targetId : KadId) (n : LocalNode db) :
    Prog.Ends (doNodesLookup env targetId : Prog ε _ _) { n with mutex := false }
        (fun r _ => (r.1.contacted.map KadNode.id).Nodup) (fun _ => False) ↔
      (((n.lookupCalls env targetId).map Prod.fst).map KadNode.id).Nodup := by
  have hfree : { n with mutex := false : LocalNode db }.Free := rfl
  rw [Prog.Ends, Prog.outcome, doNodesLookup_of_free env targetId hfree,
    ← (n.traced_lookup env targetId).contacted]

/-- **A lookup asks no id twice exactly where the names are apart.** -/
theorem ends_nodup_contacted_iff (env : LookupEnv) (targetId : KadId) (n : LocalNode db) :
    Prog.Ends (doNodesLookup env targetId : Prog ε _ _) { n with mutex := false }
        (fun r _ => (r.1.contacted.map KadNode.id).Nodup) (fun _ => False) ↔
      NamesApart env n.ktable.selfNode targetId
        (n.ktable.getClosestTo env.std targetId ALPHA) := by
  rw [ends_nodup_iff_nodup_calls, LocalNode.lookupCalls, nodup_lookupCalls_iff]

end NodesLookupTask

/-- A node that knows two other ones and has seen both of them again. -/
def seenAgainNode : LocalNode BerkeleyDB.inMemory where
  mutex := false
  ktable := KadRoutingTable.reached StdSort.insertion (KadId.ofNat 2)
    [.pushNode 0 (KadNode.new (KadId.ofNat 1) [97]), .pushNode 0 (KadNode.new (KadId.ofNat 7) [98]),
      .pushNode 1000 (KadNode.new (KadId.ofNat 1) [97]),
      .pushNode 1001 (KadNode.new (KadId.ofNat 7) [98])]
  searchesDB := ⟨∅, some []⟩
  detached := []

/-- Every reply names one and the same node. -/
def LookupEnv.gossip : LookupEnv where
  std := StdSort.insertion
  reply _ _ := some ⟨(∅ : NearestMap).set (KadId.ofNat 5) [99]⟩
  startTime := 0
  time _ := 0
  now _ := 0

/-- It is asked twice in the second round. -/
theorem NodesLookupTask.not_ends_nodup_contacted :
    ¬ ∀ (env : LookupEnv) (targetId : KadId) (n : LocalNode BerkeleyDB.inMemory),
      Prog.Ends (NodesLookupTask.doNodesLookup env targetId : Prog Empty _ _)
        { n with mutex := false } (fun r _ => (r.1.contacted.map KadNode.id).Nodup)
        (fun _ => False) := by
  intro h
  have hnodup := (NodesLookupTask.ends_nodup_iff_nodup_calls _ _ _).mp
    (h LookupEnv.gossip (KadId.ofNat 3) seenAgainNode)
  revert hnodup
  decide +kernel

end SniffDogSniff
