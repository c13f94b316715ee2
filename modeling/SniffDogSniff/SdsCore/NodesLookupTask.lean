import SniffDogSniff.Base.OrdSet
import SniffDogSniff.SdsCore.LocalNode

/-!
# Looking for nodes

`NodesLookupTask` asks the nodes that are closest to an id for nodes that are closer
still, and goes on with the closest of those they name, until they name none that was not
asked before.  The set of the nodes that were asked has the order of nodes, which looks
at nothing but the time at which they were seen.  A node that is named was not seen at
all, so once one such node has been asked, every other one counts as asked, too: there
are never more than two rounds.

## Main definitions

* `LookupEnv`, `LookupState` — what a lookup meets, and its variables.
* `LookupState.turn`, `LookupState.lookupLoop` — a round, and the loop.
* `LookupState.ContactsNearest` — the nearest node that was named was contacted.
* `NamesNearestEarly` — it is one of the first nodes, or named in front of a newcomer.

## Main results

* `discovered_harvest` — what a round discovers.
* `lookupLoop_spec` — the two rounds.
* `ends_doNodesLookup_iff` — **a lookup contacts the nearest node that it hears of exactly
  where it is among the first nodes, or named early.**
-/

namespace SniffDogSniff

open KadRoutingTable (distanceOrder)

/-- What a lookup meets. -/
structure LookupEnv where
  std : StdSort
  /-- The outcome of the `i`-th call of a round: the reply, or an exception. -/
  reply : ℕ → ℕ → Option FindNodeReply
  startTime : Int64
  /-- The clock at the end of a round. -/
  time : ℕ → Int64
  /-- The clock when a node is pushed. -/
  now : KadNode → Int64

/-- The variables of `doNodesLookup`. -/
structure LookupState where
  alphaClosest : List KadNode
  discovered : List KadNode
  probed : OrdSet KadNode.order
  failed : OrdSet KadId.order
  /-- The nodes to which a client was opened, in this order. -/
  contacted : List KadNode
  /-- The nodes whose replies were read. -/
  answered : List KadNode
  /-- The nodes that the replies named, other than the own one. -/
  named : List KadNode

/-- Not the own node, by id or by address. -/
def isOther (selfNode kn : KadNode) : Bool :=
  decide (selfNode.id ≠ kn.id ∧ selfNode.address ≠ kn.address)

/-- The nodes that a reply names, other than the own one. -/
def othersIn (selfNode : KadNode) (nearest : List (KadId × Bytes)) : List KadNode :=
  (nearest.map fun p => KadNode.new p.1 p.2).filter (isOther selfNode)

theorem othersIn_cons (selfNode : KadNode) (p : KadId × Bytes) (nearest : List (KadId × Bytes)) :
    othersIn selfNode (p :: nearest) =
      if selfNode.id = p.1 ∨ selfNode.address = p.2 then othersIn selfNode nearest
      else KadNode.new p.1 p.2 :: othersIn selfNode nearest := by
  rw [othersIn, List.map_cons]
  split
  · next hself =>
    have hfalse : isOther selfNode (KadNode.new p.1 p.2) = false := by
      rw [isOther, decide_eq_false_iff_not]
      exact fun hother => hself.elim hother.1 hother.2
    rw [List.filter_cons_of_neg (by simp [hfalse]), othersIn]
  · next hself =>
    have htrue : isOther selfNode (KadNode.new p.1 p.2) = true :=
      decide_eq_true (not_or.mp hself)
    rw [List.filter_cons_of_pos htrue, othersIn]

/-- The nodes that the replies to some calls of a round name. -/
def namedIn (env : LookupEnv) (selfNode : KadNode) (round : ℕ) (calls : List ℕ) :
    List KadNode :=
  calls.flatMap fun i =>
    match env.reply round i with
    | none => []
    | some reply => othersIn selfNode reply.nearest.entries

theorem lastSeen_of_mem_namedIn {env : LookupEnv} {selfNode : KadNode} {round : ℕ}
    {calls : List ℕ} {kn : KadNode} (h : kn ∈ namedIn env selfNode round calls) :
    kn.lastSeen = 0 := by
  obtain ⟨i, -, h⟩ := List.mem_flatMap.mp h
  split at h
  · cases h
  · obtain ⟨p, -, rfl⟩ := List.mem_map.mp (List.mem_filter.mp h).1
    rfl

namespace LookupState

/-- The state in front of the first round. -/
def init (alphaClosest : List KadNode) : LookupState := ⟨alphaClosest, [], ∅, ∅, [], [], []⟩

/-- One node of a reply. -/
def discover (selfNode : KadNode) (probed : OrdSet KadNode.order) (discovered : List KadNode)
    (p : KadId × Bytes) : List KadNode :=
  let kn := KadNode.new p.1 p.2
  if probed.contains kn then discovered
  else if selfNode.id = p.1 ∨ selfNode.address = p.2 then discovered
  else discovered ++ [kn]

/-- Collect one future. -/
def collect (env : LookupEnv) (selfNode : KadNode) (round : ℕ) (st : LookupState)
    (e : KadNode × ℕ) : LookupState :=
  let probed := st.probed.insert e.1
  match env.reply round e.2 with
  | none => { st with probed := probed, failed := st.failed.insert e.1.id }
  | some reply =>
      { st with
        probed := probed
        discovered := reply.nearest.entries.foldl (discover selfNode probed) st.discovered
        answered := st.answered ++ [e.1]
        named := st.named ++ othersIn selfNode reply.nearest.entries }

/-- Collect all futures of a round. -/
def harvest (env : LookupEnv) (selfNode : KadNode) (round : ℕ) (st : LookupState) :
    LookupState :=
  st.alphaClosest.zipIdx.foldl (collect env selfNode round)
    { st with discovered := [], contacted := st.contacted ++ st.alphaClosest }

/-- The body of the loop. -/
def turn (env : LookupEnv) (selfNode : KadNode) (targetId : KadId) (round : ℕ)
    (st : LookupState) : LookupState :=
  let st := st.harvest env selfNode round
  let discovered := env.std.sort (distanceOrder targetId) st.discovered
  { st with discovered := discovered, alphaClosest := discovered.take ALPHA }

/-! ### What a round discovers -/

/-- A node that was named was not seen. -/
theorem contains_new_iff {probed : OrdSet KadNode.order} {id : KadId} {address : Bytes} :
    probed.contains (KadNode.new id address) = true ↔ ∃ y ∈ probed.elems, y.lastSeen = 0 := by
  rw [OrdSet.contains_iff]
  constructor
  · rintro ⟨y, hy, heq⟩
    exact ⟨y, hy, (KadNode.order_equiv_iff.mp heq).symm⟩
  · rintro ⟨y, hy, hzero⟩
    exact ⟨y, hy, KadNode.order_equiv_iff.mpr hzero.symm⟩

section

variable {env : LookupEnv} {selfNode : KadNode} {round : ℕ} {probed : OrdSet KadNode.order}

/-- Behind a newcomer, nothing is discovered. -/
theorem foldl_discover_of_exists (h : ∃ y ∈ probed.elems, y.lastSeen = 0)
    (nearest : List (KadId × Bytes)) (discovered : List KadNode) :
    nearest.foldl (discover selfNode probed) discovered = discovered := by
  induction nearest with
  | nil => rfl
  | cons p nearest ih => rw [List.foldl_cons, discover, if_pos (contains_new_iff.mpr h), ih]

/-- In front of one, everything is. -/
theorem foldl_discover_of_forall (h : ∀ y ∈ probed.elems, y.lastSeen ≠ 0)
    (nearest : List (KadId × Bytes)) (discovered : List KadNode) :
    nearest.foldl (discover selfNode probed) discovered =
      discovered ++ othersIn selfNode nearest := by
  induction nearest generalizing discovered with
  | nil => exact (List.append_nil _).symm
  | cons p nearest ih =>
    have hnew : ¬ probed.contains (KadNode.new p.1 p.2) = true := by
      rw [contains_new_iff]
      push Not
      exact h
    rw [List.foldl_cons, ih, discover, if_neg hnew, othersIn_cons]
    split
    · rfl
    · rw [List.append_assoc, List.singleton_append]

/-- The nodes in front of the first one that was not seen. -/
def seenFirst (nodes : List KadNode) : List KadNode :=
  nodes.takeWhile fun kn => decide (kn.lastSeen ≠ 0)

theorem seenFirst_of_newcomer {kn : KadNode} (hzero : kn.lastSeen = 0) (nodes : List KadNode) :
    seenFirst (kn :: nodes) = [] :=
  List.takeWhile_cons_of_neg (by simpa using hzero)

theorem probed_collect (st : LookupState) (e : KadNode × ℕ) :
    (st.collect env selfNode round e).probed = st.probed.insert e.1 := by
  rw [collect]
  split <;> rfl

theorem foldl_collect_of_exists (es : List (KadNode × ℕ)) (st : LookupState)
    (h : ∃ y ∈ st.probed.elems, y.lastSeen = 0) :
    (es.foldl (collect env selfNode round) st).discovered = st.discovered := by
  induction es generalizing st with
  | nil => rfl
  | cons e es ih =>
    obtain ⟨y, hy, hzero⟩ := h
    have hinsert : ∃ y ∈ (st.probed.insert e.1).elems, y.lastSeen = 0 :=
      ⟨y, OrdSet.mem_insert.mpr (Or.inl hy), hzero⟩
    rw [List.foldl_cons, ih _ (by rwa [probed_collect]), collect]
    split
    · rfl
    · exact foldl_discover_of_exists hinsert _ _

theorem foldl_collect_of_forall (nodes : List KadNode) (i : ℕ) (st : LookupState)
    (h : ∀ y ∈ st.probed.elems, y.lastSeen ≠ 0) :
    ((nodes.zipIdx i).foldl (collect env selfNode round) st).discovered =
      st.discovered ++
        namedIn env selfNode round (List.range' i (seenFirst nodes).length) := by
  induction nodes generalizing i st with
  | nil => exact (List.append_nil _).symm
  | cons kn nodes ih =>
    rw [List.zipIdx_cons, List.foldl_cons, seenFirst, List.takeWhile_cons]
    by_cases hzero : kn.lastSeen = 0
    · -- the newcomer itself is in the set when its reply is read
      obtain ⟨y, hy, heq⟩ := st.probed.exists_equiv_mem_insert kn
      have hinsert : ∃ y ∈ (st.probed.insert kn).elems, y.lastSeen = 0 :=
        ⟨y, hy, (KadNode.order_equiv_iff.mp heq).symm.trans hzero⟩
      rw [foldl_collect_of_exists _ _ (by rwa [probed_collect]), if_neg (by simpa using hzero),
        collect]
      refine Eq.trans ?_ (List.append_nil _).symm
      split
      · rfl
      · exact foldl_discover_of_exists hinsert _ _
    · have hinsert : ∀ y ∈ (st.probed.insert kn).elems, y.lastSeen ≠ 0 := by
        intro y hy
        rcases OrdSet.mem_insert.mp hy with hy | ⟨-, rfl⟩
        · exact h y hy
        · exact hzero
      rw [ih _ _ (by rwa [probed_collect]), if_pos (by simpa using hzero), List.length_cons,
        List.range'_succ, namedIn, namedIn, List.flatMap_cons, ← List.append_assoc]
      congr 1
      rw [collect]
      split
      · next hreply => rw [hreply, List.append_nil]
      · next reply hreply =>
        rw [hreply]
        exact foldl_discover_of_forall hinsert _ _

/-- The other variables. -/
theorem foldl_collect (nodes : List KadNode) (i : ℕ) (st : LookupState) :
    ((nodes.zipIdx i).foldl (collect env selfNode round) st).contacted = st.contacted ∧
      ((nodes.zipIdx i).foldl (collect env selfNode round) st).named =
        st.named ++ namedIn env selfNode round (List.range' i nodes.length) := by
  induction nodes generalizing i st with
  | nil => exact ⟨rfl, (List.append_nil _).symm⟩
  | cons kn nodes ih =>
    obtain ⟨hcontacted, hnamed⟩ := ih (i + 1) (st.collect env selfNode round (kn, i))
    rw [List.zipIdx_cons, List.foldl_cons, hcontacted, hnamed, List.length_cons,
      List.range'_succ, namedIn, namedIn, List.flatMap_cons, collect]
    cases env.reply round i with
    | none => exact ⟨rfl, rfl⟩
    | some reply => exact ⟨rfl, List.append_assoc _ _ _⟩

/-- **What a round discovers**: what is named in front of the first newcomer, if none was
asked before. -/
theorem discovered_harvest (st : LookupState) :
    (st.harvest env selfNode round).discovered =
      if ∃ y ∈ st.probed.elems, y.lastSeen = 0 then []
      else namedIn env selfNode round (List.range (seenFirst st.alphaClosest).length) := by
  rw [harvest]
  split
  · next h => exact foldl_collect_of_exists _ _ h
  · next h =>
    push Not at h
    rw [List.range_eq_range']
    exact foldl_collect_of_forall st.alphaClosest 0 _ h

theorem mem_discovered_turn_iff {targetId : KadId} {st : LookupState} {kn : KadNode} :
    kn ∈ (st.turn env selfNode targetId round).discovered ↔
      kn ∈ (st.harvest env selfNode round).discovered :=
  (env.std.perm _ _).mem_iff

theorem lastSeen_of_mem_discovered_turn {targetId : KadId} {st : LookupState} {kn : KadNode}
    (h : kn ∈ (st.turn env selfNode targetId round).discovered) : kn.lastSeen = 0 := by
  have hkn := mem_discovered_turn_iff.mp h
  rw [discovered_harvest] at hkn
  split at hkn
  · cases hkn
  · exact lastSeen_of_mem_namedIn hkn

/-- Every node that was asked has answered, or its id has failed. -/
def Answers (st : LookupState) : Prop :=
  ∀ kn ∈ st.probed.elems, kn ∈ st.answered ∨ st.failed.contains kn.id = true

theorem answers_collect {st : LookupState} (h : st.Answers) (e : KadNode × ℕ) :
    (st.collect env selfNode round e).Answers := by
  rw [collect]
  split
  · intro kn hkn
    rcases OrdSet.mem_insert.mp hkn with hkn | ⟨-, rfl⟩
    · refine (h kn hkn).imp id fun hfailed => ?_
      obtain ⟨id, hid, heq⟩ := OrdSet.contains_iff.mp hfailed
      exact OrdSet.contains_iff.mpr ⟨id, OrdSet.mem_insert.mpr (Or.inl hid), heq⟩
    · exact Or.inr (OrdSet.contains_iff.mpr (OrdSet.exists_equiv_mem_insert _ _))
  · intro kn hkn
    rcases OrdSet.mem_insert.mp hkn with hkn | ⟨-, rfl⟩
    · exact (h kn hkn).imp (List.mem_append_left _) id
    · exact Or.inl (List.mem_append_right _ (List.mem_singleton_self _))

theorem answers_turn {st : LookupState} (h : st.Answers) (targetId : KadId) :
    (st.turn env selfNode targetId round).Answers := by
  have hfold : ∀ (es : List (KadNode × ℕ)) (st : LookupState), st.Answers →
      (es.foldl (collect env selfNode round) st).Answers := by
    intro es
    induction es with
    | nil => exact fun st h => h
    | cons e es ih => exact fun st h => ih _ (answers_collect h e)
  exact hfold st.alphaClosest.zipIdx _ h

end

/-! ### The loop -/

/-- How many rounds there are at most, for the nodes that are to be asked. -/
def roundsLeft : List KadNode → ℕ
  | [] => 0
  | kn :: _ => if kn.lastSeen = 0 then 1 else 2

theorem roundsLeft_eq_zero_iff {nodes : List KadNode} : roundsLeft nodes = 0 ↔ nodes = [] := by
  cases nodes with
  | nil => exact iff_of_true rfl rfl
  | cons kn nodes =>
    rw [roundsLeft]
    split <;> simp

theorem roundsLeft_le_one {nodes : List KadNode} (h : ∀ kn ∈ nodes, kn.lastSeen = 0) :
    roundsLeft nodes ≤ 1 := by
  cases nodes with
  | nil => exact Nat.zero_le 1
  | cons kn nodes => rw [roundsLeft, if_pos (h kn List.mem_cons_self)]

theorem roundsLeft_turn (env : LookupEnv) (selfNode : KadNode) (targetId : KadId) (round : ℕ)
    {st : LookupState} (h : st.alphaClosest ≠ []) :
    roundsLeft (st.turn env selfNode targetId round).alphaClosest <
      roundsLeft st.alphaClosest := by
  cases hnext : (st.turn env selfNode targetId round).alphaClosest with
  | nil => exact Nat.pos_of_ne_zero (roundsLeft_eq_zero_iff.not.mpr h)
  | cons next rest =>
    have hmem : next ∈ (st.turn env selfNode targetId round).discovered :=
      List.mem_of_mem_take (hnext ▸ List.mem_cons_self)
    cases hclosest : st.alphaClosest with
    | nil => exact absurd hclosest h
    | cons kn nodes =>
      rw [roundsLeft, roundsLeft, if_pos (lastSeen_of_mem_discovered_turn hmem)]
      split
      · next hzero =>
        -- a newcomer is asked first, and nothing is discovered
        have hnone := mem_discovered_turn_iff.mp hmem
        rw [discovered_harvest, hclosest, seenFirst_of_newcomer hzero nodes] at hnone
        split at hnone
        · cases hnone
        · cases hnone
      · exact Nat.one_lt_two

/-- The time that a lookup may take is over. -/
def late (env : LookupEnv) (round : ℕ) : Bool :=
  decide (60 < (env.time round).toInt - env.startTime.toInt)

/-- The loop, from a round on. -/
def lookupLoop (env : LookupEnv) (selfNode : KadNode) (targetId : KadId) (round : ℕ)
    (st : LookupState) : LookupState :=
  if h : st.alphaClosest = [] then st
  else
    have : roundsLeft (st.turn env selfNode targetId round).alphaClosest <
        roundsLeft st.alphaClosest := roundsLeft_turn env selfNode targetId round h
    if late env round then st.turn env selfNode targetId round
    else lookupLoop env selfNode targetId (round + 1) (st.turn env selfNode targetId round)
termination_by roundsLeft st.alphaClosest

/-- The state behind the loop, where there is time enough. -/
theorem lookupLoop_of_ne_nil {env : LookupEnv} {selfNode : KadNode} {targetId : KadId}
    {round : ℕ} {st : LookupState} (htime : late env round = false)
    (h : st.alphaClosest ≠ []) :
    lookupLoop env selfNode targetId round st =
      lookupLoop env selfNode targetId (round + 1) (st.turn env selfNode targetId round) := by
  rw [lookupLoop, dif_neg h, htime]
  rfl

theorem lookupLoop_of_nil {env : LookupEnv} {selfNode : KadNode} {targetId : KadId}
    {round : ℕ} {st : LookupState} (h : st.alphaClosest = []) :
    lookupLoop env selfNode targetId round st = st := by
  rw [lookupLoop, dif_pos h]

/-- What a round asks, and what it hears. -/
theorem turn_spec (env : LookupEnv) (selfNode : KadNode) (targetId : KadId) (round : ℕ)
    (st : LookupState) :
    (st.turn env selfNode targetId round).contacted = st.contacted ++ st.alphaClosest ∧
      (st.turn env selfNode targetId round).named =
        st.named ++ namedIn env selfNode round (List.range st.alphaClosest.length) := by
  rw [List.range_eq_range']
  exact foldl_collect st.alphaClosest 0 _

/-- A round that asks newcomers is the last one. -/
theorem lookupLoop_of_newcomers {env : LookupEnv} (selfNode : KadNode) (targetId : KadId)
    {round : ℕ} {st : LookupState} (htime : late env round = false)
    (h : ∀ kn ∈ st.alphaClosest, kn.lastSeen = 0) :
    (lookupLoop env selfNode targetId round st).contacted = st.contacted ++ st.alphaClosest ∧
      (lookupLoop env selfNode targetId round st).named =
        st.named ++ namedIn env selfNode round (List.range st.alphaClosest.length) := by
  by_cases hnil : st.alphaClosest = []
  · rw [lookupLoop_of_nil hnil, hnil]
    exact ⟨(List.append_nil _).symm, (List.append_nil _).symm⟩
  · have hlast : (st.turn env selfNode targetId round).alphaClosest = [] := by
      have hlt := roundsLeft_turn env selfNode targetId round hnil
      rw [← roundsLeft_eq_zero_iff]
      have hle := roundsLeft_le_one h
      omega
    rw [lookupLoop_of_ne_nil htime hnil, lookupLoop_of_nil hlast]
    exact turn_spec env selfNode targetId round st

/-- **When the loop ends, every node that was asked has answered, or its id has failed.** -/
theorem answers_lookupLoop (env : LookupEnv) (selfNode : KadNode) (targetId : KadId) (round : ℕ)
    (st : LookupState) (h : st.Answers) : (lookupLoop env selfNode targetId round st).Answers := by
  induction round, st using lookupLoop.induct env selfNode targetId with
  | case1 round st hnil =>
    rw [lookupLoop_of_nil hnil]
    exact h
  | case2 round st hne hlt hlate =>
    rw [lookupLoop, dif_neg hne, if_pos hlate]
    exact answers_turn h targetId
  | case3 round st hne hlt hlate ih =>
    rw [lookupLoop, dif_neg hne, if_neg hlate]
    exact ih (answers_turn h targetId)

end LookupState

/-! ### What the lookup contacts -/

open LookupState

/-- The nodes that are named in the first round in front of a newcomer. -/
def namedEarly (env : LookupEnv) (selfNode : KadNode) (closest : List KadNode) : List KadNode :=
  namedIn env selfNode 0 (List.range (seenFirst closest).length)

/-- All nodes that a lookup hears of when it starts with some nodes. -/
def heardOf (env : LookupEnv) (selfNode : KadNode) (closest : List KadNode) : List KadNode :=
  namedIn env selfNode 0 (List.range closest.length) ++
    namedIn env selfNode 1 (List.range (min ALPHA (namedEarly env selfNode closest).length))

/-- There is no nearer one among some nodes. -/
def Nearest (targetId : KadId) (nodes : List KadNode) (kn : KadNode) : Prop :=
  kn ∈ nodes ∧ ∀ x ∈ nodes, (distanceOrder targetId).lt x kn = false

instance (targetId : KadId) (nodes : List KadNode) (kn : KadNode) :
    Decidable (Nearest targetId nodes kn) := inferInstanceAs (Decidable (_ ∧ _))

/-- **The nearest node that was named was contacted.** -/
def LookupState.ContactsNearest (targetId : KadId) (st : LookupState) : Prop :=
  ∀ kn, Nearest targetId st.named kn → ∃ x ∈ st.contacted, x.id = kn.id

/-- The nearest node that a lookup hears of is one of those it starts with, or named in the
first round in front of a newcomer. -/
def NamesNearestEarly (env : LookupEnv) (selfNode : KadNode) (targetId : KadId)
    (closest : List KadNode) : Prop :=
  ∀ kn, Nearest targetId (heardOf env selfNode closest) kn →
    ∃ x ∈ closest ++ namedEarly env selfNode closest, x.id = kn.id

/-- The limit of 60 seconds is not reached. -/
def LookupEnv.InTime (env : LookupEnv) : Prop := ∀ round, late env round = false

section

variable {env : LookupEnv} {selfNode : KadNode} {targetId : KadId} {closest : List KadNode}

/-- The nodes that the second round asks. -/
def second (env : LookupEnv) (selfNode : KadNode) (targetId : KadId) (closest : List KadNode) :
    List KadNode :=
  ((init closest).turn env selfNode targetId 0).alphaClosest

theorem discovered_first (env : LookupEnv) (selfNode : KadNode) (closest : List KadNode) :
    ((init closest).harvest env selfNode 0).discovered = namedEarly env selfNode closest := by
  refine (discovered_harvest (init closest)).trans (if_neg ?_)
  rintro ⟨y, hy, -⟩
  cases hy

theorem second_eq (env : LookupEnv) (selfNode : KadNode) (targetId : KadId)
    (closest : List KadNode) : second env selfNode targetId closest =
      (env.std.sort (distanceOrder targetId) (namedEarly env selfNode closest)).take ALPHA := by
  rw [← discovered_first]
  rfl

theorem mem_namedEarly_of_mem_second {kn : KadNode}
    (h : kn ∈ second env selfNode targetId closest) : kn ∈ namedEarly env selfNode closest := by
  rw [second_eq] at h
  exact (env.std.perm _ _).mem_iff.mp (List.mem_of_mem_take h)

theorem length_second (env : LookupEnv) (selfNode : KadNode) (targetId : KadId)
    (closest : List KadNode) : (second env selfNode targetId closest).length =
    min ALPHA (namedEarly env selfNode closest).length := by
  rw [second_eq, List.length_take, StdSort.length_sort]

/-- Where nobody is asked first, nobody is asked. -/
theorem second_nil (env : LookupEnv) (selfNode : KadNode) (targetId : KadId) :
    second env selfNode targetId [] = [] := by
  rw [← List.length_eq_zero_iff, length_second]
  rfl

/-- The nearest node that is named early is asked in the second round. -/
theorem exists_nearest_mem_second (targetId : KadId) {kn : KadNode}
    (h : kn ∈ namedEarly env selfNode closest) :
    ∃ x ∈ second env selfNode targetId closest,
      ∀ y ∈ namedEarly env selfNode closest, (distanceOrder targetId).lt y x = false := by
  rw [second_eq]
  exact env.std.exists_least_mem_take (distanceOrder targetId) h (by decide)

/-- **The two rounds of a lookup.** -/
theorem lookupLoop_spec (selfNode : KadNode) (targetId : KadId) (closest : List KadNode)
    (htime : env.InTime) :
    (lookupLoop env selfNode targetId 0 (init closest)).contacted =
        closest ++ second env selfNode targetId closest ∧
      (lookupLoop env selfNode targetId 0 (init closest)).named =
        heardOf env selfNode closest := by
  obtain ⟨hcontacted, hnamed⟩ := turn_spec env selfNode targetId 0 (init closest)
  rw [heardOf, ← length_second env selfNode targetId]
  by_cases hnil : closest = []
  · subst hnil
    rw [lookupLoop_of_nil rfl, second_nil]
    exact ⟨rfl, rfl⟩
  · have hnew : ∀ kn ∈ second env selfNode targetId closest, kn.lastSeen = 0 :=
      fun kn hkn => lastSeen_of_mem_namedIn (mem_namedEarly_of_mem_second hkn)
    obtain ⟨hcontacted', hnamed'⟩ := lookupLoop_of_newcomers selfNode targetId (htime 1) hnew
    rw [lookupLoop_of_ne_nil (htime 0) hnil]
    exact ⟨hcontacted'.trans (congrArg (· ++ _) hcontacted),
      hnamed'.trans (congrArg (· ++ _) hnamed)⟩

/-- Nodes at one distance have one id. -/
theorem distanceOrder_equiv_iff {x y : KadNode} :
    (distanceOrder targetId).Equiv x y ↔ x.id = y.id := by
  constructor
  · intro h
    have hval : (x.id - targetId).val = (y.id - targetId).val :=
      KadId.val_inj.mpr (KadId.order_equiv_iff.mp h)
    rw [KadId.val_sub, KadId.val_sub] at hval
    exact KadId.val_inj.mp (Nat.xor_left_inj.mp hval)
  · intro h
    have hdistance : x.id - targetId = y.id - targetId := by rw [h]
    exact KadId.order_equiv_iff.mpr hdistance

/-- What is named early is heard of. -/
theorem mem_heardOf_of_mem_namedEarly {kn : KadNode} (h : kn ∈ namedEarly env selfNode closest) :
    kn ∈ heardOf env selfNode closest := by
  obtain ⟨i, hi, hkn⟩ := List.mem_flatMap.mp h
  refine List.mem_append_left _ (List.mem_flatMap.mpr ⟨i, ?_, hkn⟩)
  rw [List.mem_range] at hi ⊢
  exact lt_of_lt_of_le hi (List.takeWhile_prefix _).length_le

/-- A lookup contacts the nearest node that it hears of exactly where it is named early. -/
theorem contactsNearest_lookupLoop_iff (htime : env.InTime) :
    (lookupLoop env selfNode targetId 0 (init closest)).ContactsNearest targetId ↔
      NamesNearestEarly env selfNode targetId closest := by
  obtain ⟨hcontacted, hnamed⟩ := lookupLoop_spec selfNode targetId closest htime
  rw [ContactsNearest, NamesNearestEarly, hcontacted, hnamed]
  constructor
  · intro h kn hkn
    obtain ⟨x, hx, hid⟩ := h kn hkn
    refine ⟨x, ?_, hid⟩
    rcases List.mem_append.mp hx with hx | hx
    · exact List.mem_append_left _ hx
    · exact List.mem_append_right _ (mem_namedEarly_of_mem_second hx)
  · intro h kn hkn
    obtain ⟨x, hx, hid⟩ := h kn hkn
    rcases List.mem_append.mp hx with hx | hx
    · exact ⟨x, List.mem_append_left _ hx, hid⟩
    · -- the second round asks a node that is as near as `x`
      obtain ⟨y, hy, hleast⟩ := exists_nearest_mem_second targetId hx
      have hheard := mem_heardOf_of_mem_namedEarly (mem_namedEarly_of_mem_second hy)
      have hequiv : (distanceOrder targetId).Equiv kn x := distanceOrder_equiv_iff.mpr hid.symm
      refine ⟨y, List.mem_append_right _ hy, distanceOrder_equiv_iff.mp ⟨hkn.2 y hheard, ?_⟩⟩
      exact (distanceOrder targetId).incomp kn x y hequiv.1 (hleast x hx)

end

/-! ### The task -/

namespace NodesLookupTask

variable {db : BerkeleyDB} {ε : Type}

/-- The table behind the lookup, with the number of nodes that it did not have. -/
def afterLookup (env : LookupEnv) (st : LookupState) (t : KadRoutingTable) :
    KadRoutingTable × ℕ :=
  st.probed.elems.foldl
    (fun r kn =>
      if st.failed.contains kn.id then ((r.1.removeNode env.std kn.id).1, r.2)
      else
        let pushed := r.1.pushNode env.std (env.now kn) kn
        (pushed.1, if pushed.2 then r.2 else r.2 + 1)) (t, 0)

/-- `doNodesLookup`: the variables at its end, and the number that it returns. -/
def doNodesLookup (env : LookupEnv) (targetId : KadId) :
    Prog ε (LocalNode db) (LookupState × ℕ) := do
  LocalNode.lock
  let ktable := (← Prog.get).ktable
  LocalNode.unlock
  let st := (init (ktable.getClosestTo env.std targetId ALPHA)).lookupLoop env ktable.selfNode
    targetId 0
  LocalNode.lock
  let r := afterLookup env st (← Prog.get).ktable
  Prog.modify fun n => { n with ktable := r.1 }
  LocalNode.unlock
  pure (st, r.2)

/-- With the mutex free, a lookup comes to its end. -/
theorem doNodesLookup_of_free (env : LookupEnv) (targetId : KadId) {n : LocalNode db}
    (hfree : n.Free) :
    (doNodesLookup env targetId : Prog ε (LocalNode db) _) n =
      let st := (init (n.ktable.getClosestTo env.std targetId ALPHA)).lookupLoop env
        n.ktable.selfNode targetId 0
      let r := afterLookup env st n.ktable
      ([], .returned (st, r.2) { n with ktable := r.1 }) := by
  obtain ⟨mutex, ktable, searchesDB, detached⟩ := n
  have hmutex : mutex = false := hfree
  subst hmutex
  rfl

/-- **When a lookup ends, it has contacted the nearest node that was named exactly where this
node is one of the first ones, or was named in the first round in front of a newcomer.** -/
theorem ends_doNodesLookup_iff (env : LookupEnv) (targetId : KadId) {n : LocalNode db}
    (hfree : n.Free) (htime : env.InTime) :
    Prog.Ends (doNodesLookup env targetId : Prog ε _ _) n
        (fun r _ => r.1.ContactsNearest targetId) (fun _ => False) ↔
      NamesNearestEarly env n.ktable.selfNode targetId
        (n.ktable.getClosestTo env.std targetId ALPHA) := by
  rw [← contactsNearest_lookupLoop_iff htime, Prog.Ends, Prog.outcome,
    doNodesLookup_of_free env targetId hfree]

end NodesLookupTask

/-- A node that knows a single other one, which it has seen again. -/
def introducedNode : LocalNode BerkeleyDB.inMemory where
  mutex := false
  ktable := KadRoutingTable.reached StdSort.insertion (KadId.ofNat 2)
    [.pushNode 0 (KadNode.new (KadId.ofNat 1) [97]),
      .pushNode 1000 (KadNode.new (KadId.ofNat 1) [97])]
  searchesDB := ⟨∅, some []⟩
  detached := []

/-- That one names a node, and this node names a nearer one. -/
def LookupEnv.chain : LookupEnv where
  std := StdSort.insertion
  reply round _ :=
    if round = 0 then some ⟨(∅ : NearestMap).set (KadId.ofNat 7) [98]⟩
    else some ⟨(∅ : NearestMap).set (KadId.ofNat 3) [99]⟩
  startTime := 0
  time _ := 0
  now _ := 0

theorem LookupEnv.inTime_chain : LookupEnv.chain.InTime := fun _ => rfl

/-- The lookup starts with the node that is known. -/
theorem getClosestTo_introduced :
    introducedNode.ktable.getClosestTo StdSort.insertion (KadId.ofNat 3) ALPHA =
      [⟨KadId.ofNat 1, [97], 1000, 0⟩] := by
  decide +kernel

/-- The nearer one is not contacted. -/
theorem NodesLookupTask.chain_not_contacted :
    ¬ Prog.Ends (NodesLookupTask.doNodesLookup LookupEnv.chain (KadId.ofNat 3) :
        Prog Empty _ _) introducedNode (fun r _ => r.1.ContactsNearest (KadId.ofNat 3))
        (fun _ => False) := by
  have hfree : introducedNode.Free := rfl
  rw [Prog.Ends, Prog.outcome, NodesLookupTask.doNodesLookup_of_free _ _ hfree]
  refine (contactsNearest_lookupLoop_iff LookupEnv.inTime_chain).not.mpr fun h => ?_
  rw [show LookupEnv.chain.std = StdSort.insertion from rfl, getClosestTo_introduced] at h
  obtain ⟨x, hx, hid⟩ := h (KadNode.new (KadId.ofNat 3) [99]) (by decide +kernel)
  revert hid
  revert x
  decide +kernel

/-- It is named in the second round. -/
theorem NodesLookupTask.ends_doNodesLookup_chain :
    Prog.Ends (NodesLookupTask.doNodesLookup LookupEnv.chain (KadId.ofNat 3) :
        Prog Empty _ _) introducedNode (fun r _ => r.1.ContactsNearest (KadId.ofNat 3))
        (fun _ => False) ↔
      NamesNearestEarly LookupEnv.chain introducedNode.ktable.selfNode (KadId.ofNat 3)
        (introducedNode.ktable.getClosestTo StdSort.insertion (KadId.ofNat 3) ALPHA) :=
  NodesLookupTask.ends_doNodesLookup_iff LookupEnv.chain (KadId.ofNat 3) rfl
    LookupEnv.inTime_chain

end SniffDogSniff
