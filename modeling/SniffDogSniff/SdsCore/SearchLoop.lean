import SniffDogSniff.Base.OrdSet
import SniffDogSniff.SdsCore.LocalNode

/-!
# The loop of the search

`LocalNode::doSearch` asks the nodes in a set, which is ordered by nothing but the
time at which they were seen.  The futures of the calls are kept by id and collected
whenever there are `ALPHA` of them, and the replies put more nodes into the set while
it is walked over.

## Main definitions

* `SearchState` — the variables of the search, with the calls that were started and
  the ones whose outcome was collected.
* `SearchState.visit`, `SearchState.searchLoop`.
* `SearchState.Accounts` — the outcome of every call is collected and recorded.
* `SearchState.FillsBatches`, `SearchState.visits` — nodes that fall into batches, and
  the nodes that the loop will visit.

## Main results

* `inv_visit`, `searchLoop_induction` — the invariant of a round, and the rule for
  the loop.
* `not_collectsAll_of_lost` — a call that is lost stays lost.
* `collectsAll_of_closed`, `collectsAll_of_open` — **the loop collects everything
  exactly where the nodes that it will visit fill their batches.**
-/

namespace SniffDogSniff

namespace SearchState

/-! ### Sets of nodes -/

/-- How far an iterator still can go: the nodes in front of it were seen earlier. -/
def range : Option KadNode → ℕ
  | none => 2 ^ 64
  | some kn => (kn.lastSeen.toInt + 2 ^ 63).toNat

theorem order_of_mem_after {s : OrdSet KadNode.order} {a kn : KadNode}
    (h : kn ∈ s.after (some a)) : KadNode.order.lt a kn = true := (List.mem_filter.mp h).2

theorem range_lt_of_mem_after {s : OrdSet KadNode.order} {pos : Option KadNode} {kn : KadNode}
    (h : kn ∈ s.after pos) : range (some kn) < range pos := by
  have hlow := Int64.le_toInt kn.lastSeen
  cases pos with
  | none =>
    have hhigh := Int64.toInt_lt kn.lastSeen
    simp only [range]
    omega
  | some a =>
    have hlt := KadNode.order_lt_iff.mp (order_of_mem_after h)
    simp only [range]
    omega

/-- Behind a node that was not seen after time 0 there are only such nodes. -/
theorem lastSeen_le_of_after_eq_cons {s : OrdSet KadNode.order} {pos : Option KadNode}
    {kn : KadNode} {l : List KadNode} (h : s.after pos = kn :: l) (hkn : kn.lastSeen.toInt ≤ 0) :
    ∀ y ∈ l, y.lastSeen.toInt ≤ 0 := by
  intro y hy
  have hlt := KadNode.order_lt_iff.mp
    (order_of_mem_after (OrdSet.after_some_of_after_eq_cons h ▸ hy))
  omega

/-- A node that has not been seen comes behind the nodes that were seen after time 0. -/
theorem order_lt_iff_of_lastSeen_zero {kn z : KadNode} (hz : z.lastSeen = 0) :
    KadNode.order.lt kn z = true ↔ 0 < kn.lastSeen.toInt := by
  rw [KadNode.order_lt_iff, hz]
  rfl

/-- Nodes that have not been seen do not get in when there is one. -/
theorem insertAll_of_exists {s : OrdSet KadNode.order} {zs : List KadNode}
    (hzs : ∀ z ∈ zs, z.lastSeen = 0) (h : ∃ y ∈ s.elems, y.lastSeen = 0) :
    s.insertAll zs = s := by
  obtain ⟨y, hy, hzero⟩ := h
  refine OrdSet.insertAll_of_equiv fun z hz => ⟨y, hy, ?_⟩
  rw [KadNode.order_equiv_iff, hzs z hz, hzero]

/-- So only the first one does. -/
theorem insertAll_cons {s : OrdSet KadNode.order} {z : KadNode} {zs : List KadNode}
    (hzs : ∀ x ∈ z :: zs, x.lastSeen = 0) (hnone : ∀ y ∈ s.elems, y.lastSeen ≠ 0) :
    s.insertAll (z :: zs) = s.insert z ∧ ∃ y ∈ (s.insert z).elems, y.lastSeen = 0 := by
  have hz := hzs z List.mem_cons_self
  have hmem : z ∈ (s.insert z).elems := by
    rw [OrdSet.mem_insert]
    refine Or.inr ⟨fun b hb heq => hnone b hb ?_, rfl⟩
    rw [← KadNode.order_equiv_iff.mp heq, hz]
  refine ⟨?_, z, hmem, hz⟩
  exact insertAll_of_exists (fun x hx => hzs x (List.mem_cons_of_mem _ hx)) ⟨z, hmem, hz⟩

/-- They come before everything that was seen before time 0. -/
theorem after_insertAll_of_le {kn : KadNode} (hkn : kn.lastSeen.toInt ≤ 0) {zs : List KadNode}
    (hzs : ∀ z ∈ zs, z.lastSeen = 0) (s : OrdSet KadNode.order) :
    (s.insertAll zs).after (some kn) = s.after (some kn) := by
  induction zs generalizing s with
  | nil => rfl
  | cons z zs ih =>
    have hlt : ¬ KadNode.order.lt kn z = true :=
      (order_lt_iff_of_lastSeen_zero (hzs z List.mem_cons_self)).not.mpr (Int.not_lt.mpr hkn)
    rw [OrdSet.insertAll, List.foldl_cons]
    refine (ih (fun x hx => hzs x (List.mem_cons_of_mem _ hx)) _).trans ?_
    rw [OrdSet.after_insert, if_neg hlt]

/-! ### Sets of ids -/

theorem mem_insert_self (s : OrdSet KadId.order) (id : KadId) : id ∈ (s.insert id).elems := by
  obtain ⟨b, hb, heq⟩ := s.exists_equiv_mem_insert id
  obtain rfl := KadId.order_equiv_iff.mp heq
  exact hb

theorem subset_insert (s : OrdSet KadId.order) (id : KadId) : s.elems ⊆ (s.insert id).elems :=
  fun _ h => OrdSet.mem_insert.mpr (Or.inl h)

end SearchState

/-! ### The state of a search -/

section

variable [Hashing]

/-- What the search meets. -/
structure SearchEnv where
  std : StdSort
  /-- What a search in the own store meets. -/
  db : KadNode → Surroundings
  /-- The outcome of the call to a node: its reply, or an exception. -/
  reply : KadNode → Option FindResultsReply
  /-- The clock when a node is pushed. -/
  now : KadNode → Int64
  /-- What the external search engines find. -/
  crawled : List SearchEntry

/-- The variables of `doSearch`. -/
structure SearchState where
  targetNodes : OrdSet KadNode.order
  /-- The futures by the ids of their nodes. -/
  futures : OrdMap KadId.order KadNode
  results : List SearchEntry
  probedEmpty : OrdSet KadId.order
  failed : OrdSet KadId.order
  /-- The nodes to which a call was started, in this order. -/
  started : List KadNode
  /-- The nodes whose outcome was collected. -/
  collected : List KadNode

namespace SearchState

/-- The state in front of the search. -/
def init : SearchState := ⟨∅, ∅, [], ∅, ∅, [], []⟩

/-- The nodes that a reply names. -/
def namedIn (reply : FindResultsReply) : List KadNode :=
  reply.nearest.entries.map fun p => KadNode.new p.1 p.2

/-- Collect one future. -/
def collect (env : SearchEnv) (st : SearchState) (e : KadId × KadNode) : SearchState :=
  match env.reply e.2 with
  | none => { st with failed := st.failed.insert e.1, collected := st.collected ++ [e.2] }
  | some reply =>
      if reply.hasResults then
        { st with results := st.results ++ reply.results, collected := st.collected ++ [e.2] }
      else
        { st with
          probedEmpty := st.probedEmpty.insert e.1
          targetNodes := st.targetNodes.insertAll (namedIn reply)
          collected := st.collected ++ [e.2] }

/-- Collect all futures, by ascending ids, and clear them. -/
def harvest (env : SearchEnv) (st : SearchState) : SearchState :=
  { st.futures.entries.foldl (collect env) st with futures := ∅ }

/-- Start the call to a node. -/
def start (st : SearchState) (kn : KadNode) : SearchState :=
  { st with futures := st.futures.set kn.id kn, started := st.started ++ [kn] }

/-- The body of the loop. -/
def visit (env : SearchEnv) (st : SearchState) (kn : KadNode) : SearchState :=
  if ALPHA ≤ (st.start kn).futures.size then (st.start kn).harvest env else st.start kn

/-- The loop, from the node on that was visited last. -/
def searchLoop (env : SearchEnv) (st : SearchState) (pos : Option KadNode) : SearchState :=
  match hnext : (st.targetNodes.after pos).head? with
  | none => st
  | some kn =>
      have : range (some kn) < range pos := range_lt_of_mem_after (List.mem_of_head? hnext)
      searchLoop env (st.visit env kn) (some kn)
termination_by range pos

theorem searchLoop_of_nil {env : SearchEnv} {st : SearchState} {pos : Option KadNode}
    (h : st.targetNodes.after pos = []) : searchLoop env st pos = st := by
  rw [searchLoop]
  split
  · rfl
  · next kn hnext =>
    rw [h] at hnext
    cases hnext

theorem searchLoop_of_cons {env : SearchEnv} {st : SearchState} {pos : Option KadNode}
    {kn : KadNode} {l : List KadNode} (h : st.targetNodes.after pos = kn :: l) :
    searchLoop env st pos = searchLoop env (st.visit env kn) (some kn) := by
  rw [searchLoop]
  split
  · next hnext =>
    rw [h] at hnext
    cases hnext
  · next kn' hnext =>
    rw [h] at hnext
    rw [Option.some.inj hnext]

/-! ### What is recorded -/

/-- The outcome of the call to a node is recorded. -/
def Recorded (env : SearchEnv) (st : SearchState) (kn : KadNode) : Prop :=
  match env.reply kn with
  | none => kn.id ∈ st.failed.elems
  | some reply =>
      if reply.hasResults = true then reply.results <:+: st.results
      else kn.id ∈ st.probedEmpty.elems

/-- **The outcome of every call is collected and recorded.** -/
def Accounts (env : SearchEnv) (st : SearchState) : Prop :=
  ∀ kn ∈ st.started, kn ∈ st.collected ∧ Recorded env st kn

/-- What was recorded before is still recorded. -/
structure Keeps (st st' : SearchState) : Prop where
  results : st.results <+: st'.results
  probedEmpty : st.probedEmpty.elems ⊆ st'.probedEmpty.elems
  failed : st.failed.elems ⊆ st'.failed.elems

theorem Keeps.refl (st : SearchState) : Keeps st st :=
  ⟨List.prefix_rfl, List.Subset.refl _, List.Subset.refl _⟩

theorem Keeps.trans {st st' st'' : SearchState} (h : Keeps st st') (h' : Keeps st' st'') :
    Keeps st st'' :=
  ⟨h.results.trans h'.results, List.Subset.trans h.probedEmpty h'.probedEmpty,
    List.Subset.trans h.failed h'.failed⟩

theorem Keeps.recorded {env : SearchEnv} {st st' : SearchState} (h : Keeps st st') {kn : KadNode}
    (hkn : Recorded env st kn) : Recorded env st' kn := by
  unfold Recorded at hkn ⊢
  split
  · next hreply =>
    rw [hreply] at hkn
    exact h.failed hkn
  · next reply hreply =>
    rw [hreply] at hkn
    dsimp only at hkn
    split
    · next hr =>
      rw [if_pos hr] at hkn
      exact hkn.trans h.results.isInfix
    · next hr =>
      rw [if_neg hr] at hkn
      exact h.probedEmpty hkn

theorem keeps_collect (env : SearchEnv) (st : SearchState) (e : KadId × KadNode) :
    Keeps st (st.collect env e) := by
  rw [SearchState.collect]
  split
  · exact ⟨List.prefix_rfl, List.Subset.refl _, subset_insert _ _⟩
  · split
    · exact ⟨List.prefix_append _ _, List.Subset.refl _, List.Subset.refl _⟩
    · exact ⟨List.prefix_rfl, subset_insert _ _, List.Subset.refl _⟩

/-- A collected outcome is recorded. -/
theorem recorded_collect (env : SearchEnv) (st : SearchState) (kn : KadNode) :
    Recorded env (st.collect env (kn.id, kn)) kn := by
  rw [SearchState.collect, Recorded]
  cases env.reply kn with
  | none => exact mem_insert_self _ _
  | some reply =>
    dsimp only
    by_cases hr : reply.hasResults = true
    · rw [if_pos hr, if_pos hr]
      exact (List.suffix_append _ _).isInfix
    · rw [if_neg hr, if_neg hr]
      exact mem_insert_self _ _

/-! ### What a batch does -/

/-- The nodes that the replies of some nodes name, where they have no results. -/
def named (env : SearchEnv) (nodes : List KadNode) : List KadNode :=
  nodes.flatMap fun kn =>
    match env.reply kn with
    | none => []
    | some reply => if reply.hasResults then [] else namedIn reply

theorem named_cons (env : SearchEnv) (kn : KadNode) (nodes : List KadNode) :
    named env (kn :: nodes) = named env [kn] ++ named env nodes := by
  simp only [named, List.flatMap_cons, List.flatMap_nil, List.append_nil]

/-- A named node has not been seen. -/
theorem lastSeen_of_mem_named {env : SearchEnv} {nodes : List KadNode} {z : KadNode}
    (hz : z ∈ named env nodes) : z.lastSeen = 0 := by
  obtain ⟨kn, -, hz⟩ := List.mem_flatMap.mp hz
  split at hz
  · cases hz
  · split at hz
    · cases hz
    · obtain ⟨p, -, rfl⟩ := List.mem_map.mp hz
      rfl

/-- The nodes of the futures. -/
def pending (st : SearchState) : List KadNode := st.futures.entries.map (·.2)

/-- Futures are kept by the ids of their nodes. -/
def Keyed (st : SearchState) : Prop := ∀ e ∈ st.futures.entries, e.1 = e.2.id

theorem targetNodes_collect (env : SearchEnv) (st : SearchState) (e : KadId × KadNode) :
    (st.collect env e).targetNodes = st.targetNodes.insertAll (named env [e.2]) := by
  rw [SearchState.collect, named, List.flatMap_singleton]
  cases env.reply e.2 with
  | none => rfl
  | some reply =>
    dsimp only
    split <;> rfl

theorem started_collect (env : SearchEnv) (st : SearchState) (e : KadId × KadNode) :
    (st.collect env e).started = st.started := by
  rw [SearchState.collect]
  split
  · rfl
  · split <;> rfl

theorem collected_collect (env : SearchEnv) (st : SearchState) (e : KadId × KadNode) :
    (st.collect env e).collected = st.collected ++ [e.2] := by
  rw [SearchState.collect]
  split
  · rfl
  · split <;> rfl

/-- What the collection of a list of futures does. -/
theorem foldl_collect (env : SearchEnv) (es : List (KadId × KadNode)) (st : SearchState) :
    (es.foldl (collect env) st).targetNodes =
        st.targetNodes.insertAll (named env (es.map (·.2))) ∧
      (es.foldl (collect env) st).started = st.started ∧
      (es.foldl (collect env) st).collected = st.collected ++ es.map (·.2) ∧
      Keeps st (es.foldl (collect env) st) := by
  induction es generalizing st with
  | nil => exact ⟨rfl, rfl, (List.append_nil _).symm, Keeps.refl st⟩
  | cons e es ih =>
    obtain ⟨htargets, hstarted, hcollected, hkeeps⟩ := ih (st.collect env e)
    rw [List.foldl_cons, htargets, hstarted, hcollected, targetNodes_collect, started_collect,
      collected_collect]
    refine ⟨?_, rfl, ?_, (keeps_collect env st e).trans hkeeps⟩
    · rw [OrdSet.insertAll, OrdSet.insertAll, OrdSet.insertAll, ← List.foldl_append,
        List.map_cons, ← named_cons]
    · rw [List.append_assoc, List.map_cons, List.singleton_append]

theorem recorded_foldl_collect (env : SearchEnv) {es : List (KadId × KadNode)}
    (hkeyed : ∀ e ∈ es, e.1 = e.2.id) (st : SearchState) :
    ∀ kn ∈ es.map (·.2), Recorded env (es.foldl (collect env) st) kn := by
  induction es generalizing st with
  | nil => intro kn hkn; cases hkn
  | cons e es ih =>
    intro kn hkn
    rw [List.foldl_cons]
    rcases List.mem_cons.mp hkn with rfl | hkn
    · obtain ⟨id, node⟩ := e
      have hid : id = node.id := hkeyed _ List.mem_cons_self
      subst hid
      exact (foldl_collect env es _).2.2.2.recorded (recorded_collect env st node)
    · exact ih (fun e he => hkeyed e (List.mem_cons_of_mem _ he)) _ kn hkn

/-! ### The loop -/

/-- What holds of the calls between two rounds: what was started comes from nodes
that were passed, and what was collected is recorded. -/
structure Inv (env : SearchEnv) (st : SearchState) (pos : Option KadNode) : Prop where
  keyed : Keyed st
  pending : ∀ kn ∈ st.pending, kn ∈ st.started ∧ kn ∉ st.collected
  collected : ∀ kn ∈ st.collected, kn ∈ st.started ∧ Recorded env st kn
  passed : ∀ kn ∈ st.started, ∃ a, pos = some a ∧ KadNode.order.lt a kn = false

/-- The node that comes next was not there before. -/
theorem Inv.not_mem_started {env : SearchEnv} {st : SearchState} {pos : Option KadNode}
    (h : Inv env st pos) {kn : KadNode} (hkn : kn ∈ st.targetNodes.after pos) :
    kn ∉ st.started := by
  intro hmem
  obtain ⟨a, rfl, hlt⟩ := h.passed kn hmem
  rw [order_of_mem_after hkn] at hlt
  cases hlt

theorem mem_pending_start {st : SearchState} {kn x : KadNode} (h : x ∈ (st.start kn).pending) :
    x ∈ st.pending ∨ x = kn := by
  obtain ⟨e, he, rfl⟩ := List.mem_map.mp h
  rcases OrdMap.mem_alter_iff.mp he with ⟨he, -⟩ | ⟨e', -, -, rfl⟩ | ⟨-, rfl⟩
  · exact Or.inl (List.mem_map_of_mem he)
  · exact Or.inr rfl
  · exact Or.inr rfl

theorem inv_start {env : SearchEnv} {st : SearchState} {pos : Option KadNode}
    (h : Inv env st pos) {kn : KadNode} (hkn : kn ∈ st.targetNodes.after pos) :
    Inv env (st.start kn) (some kn) := by
  have hnew := h.not_mem_started hkn
  refine ⟨?_, ?_, ?_, ?_⟩
  · intro e he
    rcases OrdMap.mem_alter_iff.mp he with ⟨he, -⟩ | ⟨e', -, heq, rfl⟩ | ⟨-, rfl⟩
    · exact h.keyed e he
    · exact (KadId.order_equiv_iff.mp heq).symm
    · rfl
  · intro x hx
    rcases mem_pending_start hx with hx | rfl
    · exact ⟨List.mem_append_left _ (h.pending x hx).1, (h.pending x hx).2⟩
    · exact ⟨List.mem_append_right _ (List.mem_singleton_self _),
        fun hc => hnew (h.collected x hc).1⟩
  · intro x hx
    exact ⟨List.mem_append_left _ (h.collected x hx).1, (h.collected x hx).2⟩
  · intro x hx
    refine ⟨kn, rfl, ?_⟩
    rcases List.mem_append.mp hx with hx | hx
    · obtain ⟨a, rfl, hlt⟩ := h.passed x hx
      cases hkx : KadNode.order.lt kn x with
      | false => rfl
      | true =>
        rw [KadNode.order.trans _ _ _ (order_of_mem_after hkn) hkx] at hlt
        cases hlt
    · rw [List.mem_singleton.mp hx]
      exact KadNode.order.irrefl kn

/-- The collection of a batch, in terms of its nodes. -/
theorem harvest_spec (env : SearchEnv) (st : SearchState) :
    (st.harvest env).futures = ∅ ∧
      (st.harvest env).targetNodes = st.targetNodes.insertAll (named env st.pending) ∧
      (st.harvest env).started = st.started ∧
      (st.harvest env).collected = st.collected ++ st.pending := by
  obtain ⟨htargets, hstarted, hcollected, -⟩ := foldl_collect env st.futures.entries st
  exact ⟨rfl, htargets, hstarted, hcollected⟩

theorem inv_harvest {env : SearchEnv} {st : SearchState} {pos : Option KadNode}
    (h : Inv env st pos) : Inv env (st.harvest env) pos := by
  obtain ⟨-, -, hstarted, hcollected⟩ := harvest_spec env st
  have hkeeps : Keeps st (st.harvest env) :=
    have hfold := (foldl_collect env st.futures.entries st).2.2.2
    ⟨hfold.results, hfold.probedEmpty, hfold.failed⟩
  refine ⟨fun e he => (nomatch he), fun kn hkn => (nomatch hkn), ?_, ?_⟩
  · intro kn hkn
    rw [hcollected] at hkn
    rw [hstarted]
    rcases List.mem_append.mp hkn with hkn | hkn
    · exact ⟨(h.collected kn hkn).1, hkeeps.recorded (h.collected kn hkn).2⟩
    · exact ⟨(h.pending kn hkn).1, recorded_foldl_collect env h.keyed st kn hkn⟩
  · rw [hstarted]
    exact h.passed

theorem inv_visit {env : SearchEnv} {st : SearchState} {pos : Option KadNode}
    (h : Inv env st pos) {kn : KadNode} (hkn : kn ∈ st.targetNodes.after pos) :
    Inv env (st.visit env kn) (some kn) := by
  rw [visit]
  split
  · exact inv_harvest (inv_start h hkn)
  · exact inv_start h hkn

/-- **What a round keeps, the loop keeps.** -/
theorem searchLoop_induction (env : SearchEnv) {P : SearchState → Option KadNode → Prop}
    (hstep : ∀ st pos kn, P st pos → kn ∈ st.targetNodes.after pos →
      P (st.visit env kn) (some kn)) (st : SearchState) (pos : Option KadNode) (h : P st pos) :
    ∃ pos', P (searchLoop env st pos) pos' := by
  induction st, pos using searchLoop.induct env with
  | case1 st pos hnext =>
    rw [searchLoop_of_nil (List.head?_eq_none_iff.mp hnext)]
    exact ⟨pos, h⟩
  | case2 st pos kn hnext hlt ih =>
    obtain ⟨l, hl⟩ := List.head?_eq_some_iff.mp hnext
    rw [searchLoop_of_cons hl]
    exact ih (hstep st pos kn h (hl ▸ List.mem_cons_self))

/-! ### Lost calls -/

/-- A call was started, and its future is gone without having been collected. -/
def Lost (st : SearchState) (kn : KadNode) : Prop :=
  kn ∈ st.started ∧ kn ∉ st.collected ∧ kn ∉ st.pending

/-- No call is. -/
def NoneLost (st : SearchState) : Prop := ∀ kn, ¬ Lost st kn

/-- Every outcome is collected. -/
def CollectsAll (st : SearchState) : Prop := ∀ kn ∈ st.started, kn ∈ st.collected

theorem lost_harvest {env : SearchEnv} {st : SearchState} {kn : KadNode} (h : Lost st kn) :
    Lost (st.harvest env) kn := by
  obtain ⟨-, -, hstarted, hcollected⟩ := harvest_spec env st
  refine ⟨hstarted ▸ h.1, ?_, fun hmem => (nomatch hmem)⟩
  rw [hcollected, List.mem_append]
  rintro (hmem | hmem)
  · exact h.2.1 hmem
  · exact h.2.2 hmem

theorem lost_visit {env : SearchEnv} {st : SearchState} {kn x : KadNode}
    (h : Lost (st.start x) kn) : Lost (st.visit env x) kn := by
  rw [visit]
  split
  · exact lost_harvest h
  · exact h

/-- A lost call stays lost. -/
theorem not_collectsAll_of_lost {env : SearchEnv} {st : SearchState} {pos : Option KadNode}
    (hinv : Inv env st pos) {kn : KadNode} (h : Lost st kn) :
    ¬ CollectsAll (searchLoop env st pos) := by
  obtain ⟨pos', -, hlost⟩ := searchLoop_induction env
    (P := fun st pos => Inv env st pos ∧ Lost st kn) (fun st pos x h hx => by
      refine ⟨inv_visit h.1 hx, lost_visit ⟨List.mem_append_left _ h.2.1, h.2.2.1, ?_⟩⟩
      intro hmem
      rcases mem_pending_start hmem with hmem | rfl
      · exact h.2.2.2 hmem
      · exact h.1.not_mem_started hx h.2.1) st pos ⟨hinv, h⟩
  exact fun hall => hlost.2.1 (hall kn hlost.1)

/-- A second call for an id loses the first one. -/
theorem exists_lost_of_contains (env : SearchEnv) {st : SearchState} {pos : Option KadNode}
    (hinv : Inv env st pos) {kn : KadNode} (hkn : kn ∈ st.targetNodes.after pos)
    (h : st.futures.contains kn.id = true) : ∃ old, Lost (st.visit env kn) old := by
  obtain ⟨e, he, heq⟩ := OrdMap.contains_iff.mp h
  have hold : e.2 ∈ st.pending := List.mem_map_of_mem he
  have hne : e.2 ≠ kn := fun heq => hinv.not_mem_started hkn (heq ▸ (hinv.pending _ hold).1)
  refine ⟨e.2, lost_visit ⟨List.mem_append_left _ (hinv.pending _ hold).1,
    (hinv.pending _ hold).2, ?_⟩⟩
  intro hmem
  obtain ⟨e', he', hnode⟩ := List.mem_map.mp hmem
  rcases OrdMap.mem_alter_iff.mp he' with ⟨he', hno⟩ | ⟨e'', -, -, rfl⟩ | ⟨-, rfl⟩
  · -- an entry with the old node has its id, so it has been replaced
    have hid : kn.id = e'.1 := by
      rw [hinv.keyed e' he', hnode, ← hinv.keyed e he]
      exact KadId.order_equiv_iff.mp heq
    exact hno (KadId.order_equiv_iff.mpr hid)
  · exact hne hnode.symm
  · exact hne hnode.symm

theorem not_collectsAll_of_contains (env : SearchEnv) {st : SearchState} {pos : Option KadNode}
    (hinv : Inv env st pos) {kn : KadNode} (hkn : kn ∈ st.targetNodes.after pos)
    (h : st.futures.contains kn.id = true) :
    ¬ CollectsAll (searchLoop env (st.visit env kn) (some kn)) := by
  obtain ⟨old, hlost⟩ := exists_lost_of_contains env hinv hkn h
  exact not_collectsAll_of_lost (inv_visit hinv hkn) hlost

/-- A first call for an id loses none. -/
theorem noneLost_start {st : SearchState} (h : NoneLost st) {kn : KadNode}
    (hnew : st.futures.contains kn.id = false) : NoneLost (st.start kn) := by
  have hdistinct : ∀ e ∈ st.futures.entries, ¬ KadId.order.Equiv kn.id e.1 := by
    intro e he heq
    rw [OrdMap.contains_iff.mpr ⟨e, he, heq⟩] at hnew
    cases hnew
  rintro x ⟨hstarted, hcollected, hpending⟩
  rcases List.mem_append.mp hstarted with hx | hx
  · refine h x ⟨hx, hcollected, fun hmem => hpending ?_⟩
    obtain ⟨e, he, rfl⟩ := List.mem_map.mp hmem
    exact List.mem_map_of_mem (OrdMap.mem_alter_iff.mpr (Or.inl ⟨he, hdistinct e he⟩))
  · rw [List.mem_singleton.mp hx] at hpending
    exact hpending (List.mem_map.mpr
      ⟨(kn.id, kn), OrdMap.mem_alter_iff.mpr (Or.inr (Or.inr ⟨hdistinct, rfl⟩)), rfl⟩)

theorem noneLost_harvest {env : SearchEnv} {st : SearchState} (h : NoneLost st) :
    NoneLost (st.harvest env) := by
  obtain ⟨-, -, hstarted, hcollected⟩ := harvest_spec env st
  rintro x ⟨hx, hnot, -⟩
  rw [hstarted] at hx
  rw [hcollected, List.mem_append, not_or] at hnot
  exact h x ⟨hx, hnot⟩

theorem noneLost_visit (env : SearchEnv) {st : SearchState} (h : NoneLost st) {kn : KadNode}
    (hnew : st.futures.contains kn.id = false) : NoneLost (st.visit env kn) := by
  rw [visit]
  split
  · exact noneLost_harvest (noneLost_start h hnew)
  · exact noneLost_start h hnew

/-- Where no call is lost, everything is collected exactly when no future is left. -/
theorem collectsAll_iff {env : SearchEnv} {st : SearchState} {pos : Option KadNode}
    (hinv : Inv env st pos) (h : NoneLost st) : CollectsAll st ↔ st.futures.entries = [] := by
  constructor
  · intro hall
    by_contra hne
    obtain ⟨e, he⟩ := List.exists_mem_of_ne_nil _ hne
    have hpending := hinv.pending e.2 (List.mem_map_of_mem he)
    exact hpending.2 (hall _ hpending.1)
  · intro hnil kn hkn
    by_contra hnot
    refine h kn ⟨hkn, hnot, ?_⟩
    rw [pending, hnil]
    exact fun hmem => (nomatch hmem)

/-! ### Batches -/

/-- The nodes of a list, visited one after the other, fill the batch that the futures
are the beginning of and further ones, and there are no two nodes of one id in a
batch. -/
def FillsBatches (futures : OrdMap KadId.order KadNode) : List KadNode → Prop
  | [] => futures.entries = []
  | kn :: l =>
      futures.contains kn.id = false ∧
        if (futures.set kn.id kn).size < ALPHA then FillsBatches (futures.set kn.id kn) l
        else FillsBatches ∅ l

omit [Hashing] in
theorem not_fillsBatches_of_contains {futures : OrdMap KadId.order KadNode} {kn : KadNode}
    (h : futures.contains kn.id = true) (l : List KadNode) : ¬ FillsBatches futures (kn :: l) := by
  rintro ⟨hnew, -⟩
  rw [h] at hnew
  cases hnew

/-- The targets that the loop will visit, when none of those before was seen at time
0: a named node, which enters at this time, is one of them if it is named while the
loop is at nodes that were seen later. -/
def visits (env : SearchEnv) (futures : OrdMap KadId.order KadNode) : List KadNode → List KadNode
  | [] => []
  | kn :: l =>
      if kn.lastSeen.toInt ≤ 0 then kn :: l
      else if (futures.set kn.id kn).size < ALPHA then kn :: visits env (futures.set kn.id kn) l
      else
        match (named env ((futures.set kn.id kn).entries.map (·.2))).head? with
        | none => kn :: visits env ∅ l
        | some z => kn :: OrdSet.insertList KadNode.order z l

theorem visit_of_lt {env : SearchEnv} {st : SearchState} {kn : KadNode}
    (h : (st.futures.set kn.id kn).size < ALPHA) : st.visit env kn = st.start kn :=
  if_neg (Nat.not_le.mpr h)

theorem visit_of_not_lt {env : SearchEnv} {st : SearchState} {kn : KadNode}
    (h : ¬ (st.futures.set kn.id kn).size < ALPHA) :
    st.visit env kn = (st.start kn).harvest env :=
  if_pos (Nat.le_of_not_lt h)

/-- The targets after a batch. -/
theorem targetNodes_harvest_start (env : SearchEnv) (st : SearchState) (kn : KadNode) :
    ((st.start kn).harvest env).targetNodes = st.targetNodes.insertAll
      (named env ((st.futures.set kn.id kn).entries.map (·.2))) := (harvest_spec env _).2.1

section

variable {env : SearchEnv} {st : SearchState} {kn : KadNode}

variable (env kn) in
/-- Nothing enters where there is a node that was not seen, nor where none is named. -/
theorem targetNodes_harvest_of_exists (h : ∃ y ∈ st.targetNodes.elems, y.lastSeen = 0) :
    ((st.start kn).harvest env).targetNodes = st.targetNodes := by
  rw [targetNodes_harvest_start]
  exact insertAll_of_exists (fun z hz => lastSeen_of_mem_named hz) h

theorem targetNodes_harvest_of_nil
    (h : named env ((st.futures.set kn.id kn).entries.map (·.2)) = []) :
    ((st.start kn).harvest env).targetNodes = st.targetNodes := by
  rw [targetNodes_harvest_start, h]
  rfl

/-- Else the first one that is named does. -/
theorem targetNodes_harvest_of_cons {z : KadNode} {zs : List KadNode}
    (hnone : ∀ y ∈ st.targetNodes.elems, y.lastSeen ≠ 0)
    (h : named env ((st.futures.set kn.id kn).entries.map (·.2)) = z :: zs) :
    ((st.start kn).harvest env).targetNodes = st.targetNodes.insert z ∧
      ∃ y ∈ (st.targetNodes.insert z).elems, y.lastSeen = 0 := by
  rw [targetNodes_harvest_start, h]
  exact insertAll_cons (fun x hx => lastSeen_of_mem_named (h ▸ hx)) hnone

end

/-- Where no named node can come next any more, the nodes that are left have to fill
their batches. -/
theorem collectsAll_of_closed (env : SearchEnv) (l : List KadNode) :
    ∀ (st : SearchState) (pos : Option KadNode), st.targetNodes.after pos = l → Inv env st pos →
      NoneLost st →
      ((∃ y ∈ st.targetNodes.elems, y.lastSeen = 0) ∨ ∀ kn ∈ l, kn.lastSeen.toInt ≤ 0) →
      (CollectsAll (searchLoop env st pos) ↔ FillsBatches st.futures l) := by
  induction l with
  | nil =>
    intro st pos hafter hinv hnone _
    rw [searchLoop_of_nil hafter]
    exact collectsAll_iff hinv hnone
  | cons kn l ih =>
    intro st pos hafter hinv hnone hclosed
    have hkn : kn ∈ st.targetNodes.after pos := hafter ▸ List.mem_cons_self
    rw [searchLoop_of_cons hafter, FillsBatches]
    by_cases hdup : st.futures.contains kn.id = true
    · exact iff_of_false (not_collectsAll_of_contains env hinv hkn hdup)
        (not_fillsBatches_of_contains hdup l)
    · have hnew : st.futures.contains kn.id = false := by simpa using hdup
      have hstep := ih (st.visit env kn) (some kn)
      have hinv' := inv_visit hinv hkn
      have hnone' := noneLost_visit env hnone hnew
      have hrest := OrdSet.after_some_of_after_eq_cons hafter
      simp only [hnew, true_and]
      by_cases hsize : (st.futures.set kn.id kn).size < ALPHA
      · rw [if_pos hsize]
        rw [visit_of_lt hsize] at hstep hinv' hnone' ⊢
        refine hstep hrest hinv' hnone' ?_
        exact hclosed.imp id fun hle y hy => hle y (List.mem_cons_of_mem _ hy)
      · rw [if_neg hsize]
        rw [visit_of_not_lt hsize] at hstep hinv' hnone' ⊢
        rcases hclosed with hzero | hle
        · have htargets := targetNodes_harvest_of_exists env kn hzero
          exact hstep (htargets ▸ hrest) hinv' hnone' (Or.inl (htargets ▸ hzero))
        · refine hstep ?_ hinv' hnone' (Or.inr fun y hy => hle y (List.mem_cons_of_mem _ hy))
          rw [targetNodes_harvest_start, after_insertAll_of_le (hle kn List.mem_cons_self) fun _ hz =>
            lastSeen_of_mem_named hz]
          exact hrest

/-- **As long as no target was seen at time 0, the nodes that the loop will visit have
to fill their batches.** -/
theorem collectsAll_of_open (env : SearchEnv) (l : List KadNode) :
    ∀ (st : SearchState) (pos : Option KadNode), st.targetNodes.after pos = l → Inv env st pos →
      NoneLost st → (∀ y ∈ st.targetNodes.elems, y.lastSeen ≠ 0) →
      (CollectsAll (searchLoop env st pos) ↔
        FillsBatches st.futures (visits env st.futures l)) := by
  induction l with
  | nil =>
    intro st pos hafter hinv hnone _
    rw [searchLoop_of_nil hafter]
    exact collectsAll_iff hinv hnone
  | cons kn l ih =>
    intro st pos hafter hinv hnone hopen
    have hkn : kn ∈ st.targetNodes.after pos := hafter ▸ List.mem_cons_self
    have hrest := OrdSet.after_some_of_after_eq_cons hafter
    rw [visits]
    by_cases hle : kn.lastSeen.toInt ≤ 0
    · rw [if_pos hle]
      refine collectsAll_of_closed env (kn :: l) st pos hafter hinv hnone (Or.inr ?_)
      intro y hy
      rcases List.mem_cons.mp hy with rfl | hy
      · exact hle
      · exact lastSeen_le_of_after_eq_cons hafter hle y hy
    rw [if_neg hle]
    by_cases hdup : st.futures.contains kn.id = true
    · have hfalse := not_fillsBatches_of_contains hdup
      rw [searchLoop_of_cons hafter]
      refine iff_of_false (not_collectsAll_of_contains env hinv hkn hdup) ?_
      split
      · exact hfalse _
      · split <;> exact hfalse _
    have hnew : st.futures.contains kn.id = false := by simpa using hdup
    have hinv' := inv_visit hinv hkn
    have hnone' := noneLost_visit env hnone hnew
    rw [searchLoop_of_cons hafter]
    by_cases hsize : (st.futures.set kn.id kn).size < ALPHA
    · rw [visit_of_lt hsize] at hinv' hnone' ⊢
      rw [if_pos hsize, FillsBatches, if_pos hsize]
      simp only [hnew, true_and]
      exact ih (st.start kn) (some kn) hrest hinv' hnone' hopen
    · rw [visit_of_not_lt hsize] at hinv' hnone' ⊢
      rw [if_neg hsize]
      cases hnamed : named env ((st.futures.set kn.id kn).entries.map (·.2)) with
      | nil =>
        have htargets := targetNodes_harvest_of_nil hnamed
        rw [List.head?_nil, FillsBatches, if_neg hsize]
        simp only [hnew, true_and]
        exact ih _ (some kn) (htargets ▸ hrest) hinv' hnone' (htargets ▸ hopen)
      | cons z zs =>
        obtain ⟨htargets, hzero⟩ := targetNodes_harvest_of_cons hopen hnamed
        rw [List.head?_cons, FillsBatches, if_neg hsize]
        simp only [hnew, true_and]
        -- the node has not been seen, and the loop is still at nodes that were
        have hz : z.lastSeen = 0 := lastSeen_of_mem_named (hnamed ▸ List.mem_cons_self)
        have hlt : KadNode.order.lt kn z = true :=
          (order_lt_iff_of_lastSeen_zero hz).mpr (Int.not_le.mp hle)
        refine collectsAll_of_closed env _ _ (some kn) ?_ hinv' hnone' (Or.inl (htargets ▸ hzero))
        rw [htargets, OrdSet.after_insert, if_pos hlt, hrest]

end SearchState

end

end SniffDogSniff
