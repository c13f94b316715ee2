import SniffDogSniff.SdsCore.SearchLoop

/-!
# Searching the network

The search asks the nodes that are closest to the hash of the query, three at a time.
What the loop does with them depends on nothing but how they fall into batches.

## Main definitions

* `InTriples` — a list falls into triples of nodes with three different ids.
* `entering` — the node that the replies put among those that are still to be asked.
* `LocalNode.doSearch`; `LocalNode.targets` — the search, and the nodes that it
  starts with.
* `LocalNode.ownResultsOf` — what the search finds in the own store.
* `LocalNode.SearchSettles` — its nodes fall into triples, with the entering node.

## Main results

* `fillsBatches_visits_iff` — the batches of the loop are the triples.
* `doSearch_of_ready` — what a search does while nobody holds the mutex.
* `post_doSearch_iff` — **a search accounts for every call that it starts exactly
  where its nodes fall into triples.**
-/

namespace SniffDogSniff

open SearchState

/-! ### Triples -/

/-- The list falls into triples of nodes with three different ids. -/
def InTriples : List KadNode → Prop
  | [] => True
  | a :: b :: c :: l => (b.id ≠ a.id ∧ c.id ≠ b.id ∧ c.id ≠ a.id) ∧ InTriples l
  | _ => False

/-- The futures of three nodes. -/
def batchOf (a b c : KadNode) : OrdMap KadId.order KadNode :=
  (((∅ : OrdMap KadId.order KadNode).set a.id a).set b.id b).set c.id c

/-- The futures of one node, and of two. -/
theorem contains_one_iff {a : KadNode} {id : KadId} :
    ((∅ : OrdMap KadId.order KadNode).set a.id a).contains id = true ↔ id = a.id := by
  rw [OrdMap.contains_set_iff, KadId.order_equiv_iff]
  exact or_iff_left Bool.noConfusion

theorem contains_two_iff {a b : KadNode} {id : KadId} :
    (((∅ : OrdMap KadId.order KadNode).set a.id a).set b.id b).contains id = true ↔
      id = b.id ∨ id = a.id := by
  rw [OrdMap.contains_set_iff, KadId.order_equiv_iff, contains_one_iff]

theorem size_one (a : KadNode) : ((∅ : OrdMap KadId.order KadNode).set a.id a).size = 1 := rfl

theorem size_two {a b : KadNode} (hba : b.id ≠ a.id) :
    (((∅ : OrdMap KadId.order KadNode).set a.id a).set b.id b).size = 2 := by
  have hnew := contains_one_iff.not.mpr hba
  rw [OrdMap.size_set_of_not_contains (by simpa using hnew), size_one]

theorem size_batchOf {a b c : KadNode} (h : b.id ≠ a.id ∧ c.id ≠ b.id ∧ c.id ≠ a.id) :
    (batchOf a b c).size = 3 := by
  have hnew := contains_two_iff.not.mpr (not_or.mpr h.2)
  rw [batchOf, OrdMap.size_set_of_not_contains (by simpa using hnew), size_two h.1]

/-- One batch, and then further ones. -/
theorem fillsBatches_triple (a b c : KadNode) (l : List KadNode) :
    FillsBatches ∅ (a :: b :: c :: l) ↔
      (b.id ≠ a.id ∧ c.id ≠ b.id ∧ c.id ≠ a.id) ∧ FillsBatches ∅ l := by
  rw [FillsBatches, size_one, if_pos (by decide), FillsBatches]
  constructor
  · rintro ⟨-, hb, h⟩
    have hba : b.id ≠ a.id := by
      intro heq
      rw [contains_one_iff.mpr heq] at hb
      cases hb
    rw [size_two hba, if_pos (by decide), FillsBatches] at h
    obtain ⟨hc, h⟩ := h
    have hcab : ¬ (c.id = b.id ∨ c.id = a.id) := by
      intro heq
      rw [contains_two_iff.mpr heq] at hc
      cases hc
    have hthree := size_batchOf ⟨hba, not_or.mp hcab⟩
    rw [batchOf] at hthree
    rw [hthree, if_neg (by decide)] at h
    exact ⟨⟨hba, not_or.mp hcab⟩, h⟩
  · rintro ⟨hids, h⟩
    have hthree := size_batchOf hids
    rw [batchOf] at hthree
    have hb := contains_one_iff.not.mpr hids.1
    have hc := contains_two_iff.not.mpr (not_or.mpr hids.2)
    refine ⟨rfl, by simpa using hb, ?_⟩
    rw [size_two hids.1, if_pos (by decide), FillsBatches, hthree, if_neg (by decide)]
    exact ⟨by simpa using hc, h⟩

theorem not_fillsBatches_one (a : KadNode) : ¬ FillsBatches ∅ [a] := by
  rw [FillsBatches, size_one, if_pos (by decide), FillsBatches]
  rintro ⟨-, h⟩
  cases h

theorem not_fillsBatches_two (a b : KadNode) : ¬ FillsBatches ∅ [a, b] := by
  rw [FillsBatches, size_one, if_pos (by decide), FillsBatches]
  rintro ⟨-, hb, h⟩
  have hba : b.id ≠ a.id := by
    intro heq
    rw [contains_one_iff.mpr heq] at hb
    cases hb
  have htwo := size_two hba
  rw [htwo, if_pos (by decide), FillsBatches] at h
  rw [OrdMap.size, h] at htwo
  cases htwo

/-- A list without a triple in front has one node or two, if any. -/
theorem short_of_no_triple {l : List KadNode} (hnil : l = [] → False)
    (htriple : ∀ a b c l', l = a :: b :: c :: l' → False) :
    (∃ a, l = [a]) ∨ ∃ a b, l = [a, b] := by
  cases l with
  | nil => exact absurd rfl hnil
  | cons a l =>
    cases l with
    | nil => exact Or.inl ⟨a, rfl⟩
    | cons b l =>
      cases l with
      | nil => exact Or.inr ⟨a, b, rfl⟩
      | cons c l => exact absurd rfl (htriple a b c l)

/-- The batches of a list without growth are its triples. -/
theorem fillsBatches_iff_inTriples (l : List KadNode) : FillsBatches ∅ l ↔ InTriples l := by
  induction l using InTriples.induct with
  | case1 => exact iff_of_true rfl trivial
  | case2 a b c l ih => rw [fillsBatches_triple, ih, InTriples]
  | case3 l hnil htriple =>
    rcases short_of_no_triple hnil htriple with ⟨a, rfl⟩ | ⟨a, b, rfl⟩
    · exact iff_of_false (not_fillsBatches_one a) id
    · exact iff_of_false (not_fillsBatches_two a b) id

/-! ### A node that has not been seen -/

/-- What enters comes behind a node that was seen after time 0. -/
theorem insertList_cons_of_not_le {kn z : KadNode} (hz : z.lastSeen = 0)
    (hkn : ¬ kn.lastSeen.toInt ≤ 0) (l : List KadNode) :
    OrdSet.insertList KadNode.order z (kn :: l) =
      kn :: OrdSet.insertList KadNode.order z l := by
  have hlt : KadNode.order.lt kn z = true :=
    (order_lt_iff_of_lastSeen_zero hz).mpr (Int.not_le.mp hkn)
  rw [OrdSet.insertList, Comparator.asymm hlt, hlt]
  rfl

section

variable {a b c : KadNode} {l : List KadNode}

/-- The nodes in front of a node were seen later. -/
theorem seen_of_triple (hs : (a :: b :: c :: l).Pairwise fun a b => KadNode.order.lt a b) :
    c.lastSeen.toInt < b.lastSeen.toInt ∧ b.lastSeen.toInt < a.lastSeen.toInt := by
  rw [List.pairwise_cons, List.pairwise_cons] at hs
  exact ⟨KadNode.order_lt_iff.mp (hs.2.1 c List.mem_cons_self),
    KadNode.order_lt_iff.mp (hs.1 b List.mem_cons_self)⟩

theorem insertList_triple {z : KadNode} (hz : z.lastSeen = 0)
    (hs : (a :: b :: c :: l).Pairwise fun a b => KadNode.order.lt a b)
    (hc : ¬ c.lastSeen.toInt ≤ 0) :
    OrdSet.insertList KadNode.order z (a :: b :: c :: l) =
      a :: b :: c :: OrdSet.insertList KadNode.order z l := by
  obtain ⟨hcb, hba⟩ := seen_of_triple hs
  rw [insertList_cons_of_not_le hz (by omega), insertList_cons_of_not_le hz (by omega),
    insertList_cons_of_not_le hz hc]

end

section

variable [Hashing]

/-- The first node that is named in the replies of a triple, while the nodes were seen
after time 0. -/
def entering (env : SearchEnv) : List KadNode → Option KadNode
  | a :: b :: c :: l =>
      if c.lastSeen.toInt ≤ 0 then none
      else
        match (named env ((batchOf a b c).entries.map (·.2))).head? with
        | some z => some z
        | none => entering env l
  | _ => none

/-- The nodes, with the one that enters. -/
def withEntering (env : SearchEnv) (nodes : List KadNode) : List KadNode :=
  match entering env nodes with
  | none => nodes
  | some z => OrdSet.insertList KadNode.order z nodes

theorem lastSeen_of_entering {env : SearchEnv} {l : List KadNode} {z : KadNode}
    (h : entering env l = some z) : z.lastSeen = 0 := by
  induction l using InTriples.induct with
  | case1 => cases h
  | case2 a b c l ih =>
    rw [entering] at h
    split at h
    · cases h
    · split at h
      · next z' hz' =>
        cases h
        exact lastSeen_of_mem_named (List.mem_of_head? hz')
      · exact ih h
  | case3 l hnil htriple =>
    rw [entering] at h
    · cases h
    · exact htriple

section

variable {env : SearchEnv} {a b c : KadNode} {l : List KadNode}

theorem withEntering_of_le (hc : c.lastSeen.toInt ≤ 0) :
    withEntering env (a :: b :: c :: l) = a :: b :: c :: l := by
  rw [withEntering, entering, if_pos hc]

theorem withEntering_of_none (hs : (a :: b :: c :: l).Pairwise fun a b => KadNode.order.lt a b)
    (hc : ¬ c.lastSeen.toInt ≤ 0)
    (hnamed : (named env ((batchOf a b c).entries.map (·.2))).head? = none) :
    withEntering env (a :: b :: c :: l) = a :: b :: c :: withEntering env l := by
  have hentering : entering env (a :: b :: c :: l) = entering env l := by
    rw [entering, if_neg hc, hnamed]
  rw [withEntering, withEntering, hentering]
  cases hl : entering env l with
  | none => rfl
  | some z => exact insertList_triple (lastSeen_of_entering hl) hs hc

theorem withEntering_of_some (hs : (a :: b :: c :: l).Pairwise fun a b => KadNode.order.lt a b)
    (hc : ¬ c.lastSeen.toInt ≤ 0) {z : KadNode}
    (hnamed : (named env ((batchOf a b c).entries.map (·.2))).head? = some z) :
    withEntering env (a :: b :: c :: l) =
      a :: b :: c :: OrdSet.insertList KadNode.order z l := by
  have hentering : entering env (a :: b :: c :: l) = some z := by
    rw [entering, if_neg hc, hnamed]
  rw [withEntering, hentering]
  exact insertList_triple (lastSeen_of_entering hentering) hs hc

/-- A triple stays in front. -/
theorem exists_withEntering (env : SearchEnv)
    (hs : (a :: b :: c :: l).Pairwise fun a b => KadNode.order.lt a b) :
    ∃ l', withEntering env (a :: b :: c :: l) = a :: b :: c :: l' := by
  by_cases hc : c.lastSeen.toInt ≤ 0
  · exact ⟨_, withEntering_of_le hc⟩
  cases hnamed : (named env ((batchOf a b c).entries.map (·.2))).head? with
  | none => exact ⟨_, withEntering_of_none hs hc hnamed⟩
  | some z => exact ⟨_, withEntering_of_some hs hc hnamed⟩

end

theorem exists_visits_cons (env : SearchEnv) (futures : OrdMap KadId.order KadNode)
    (kn : KadNode) (l : List KadNode) : ∃ l', visits env futures (kn :: l) = kn :: l' := by
  rw [visits]
  split
  · exact ⟨_, rfl⟩
  · split
    · exact ⟨_, rfl⟩
    · split
      · exact ⟨_, rfl⟩
      · exact ⟨_, rfl⟩

/-- A batch that is not full changes nothing. -/
theorem visits_one (env : SearchEnv) (a : KadNode) : visits env ∅ [a] = [a] := by
  rw [visits, size_one, if_pos (show 1 < ALPHA by decide)]
  split <;> rfl

theorem visits_two (env : SearchEnv) (a b : KadNode) : visits env ∅ [a, b] = [a, b] := by
  have hsize : (((∅ : OrdMap KadId.order KadNode).set a.id a).set b.id b).size < ALPHA := by
    have hle := OrdMap.size_set_le ((∅ : OrdMap KadId.order KadNode).set a.id a) b.id b
    rw [size_one] at hle
    exact Nat.lt_succ_of_le hle
  rw [visits, size_one, if_pos (show 1 < ALPHA by decide), visits, if_pos hsize]
  split
  · rfl
  · split <;> rfl

/-- **The batches of the loop are the triples of the targets**, with the node that
enters. -/
theorem fillsBatches_visits_iff (env : SearchEnv) (l : List KadNode)
    (hs : l.Pairwise fun a b => KadNode.order.lt a b = true) :
    FillsBatches ∅ (visits env ∅ l) ↔ InTriples (withEntering env l) := by
  induction l using InTriples.induct with
  | case1 => exact iff_of_true rfl trivial
  | case2 a b c l ih =>
    obtain ⟨hcb, hba⟩ := seen_of_triple hs
    -- at a node that was not seen after time 0, the rest is visited as it is
    have hplain : c.lastSeen.toInt ≤ 0 → (FillsBatches ∅ (a :: b :: c :: l) ↔
        InTriples (withEntering env (a :: b :: c :: l))) := by
      intro hc
      rw [withEntering_of_le hc]
      exact fillsBatches_iff_inTriples _
    rw [visits]
    by_cases ha : a.lastSeen.toInt ≤ 0
    · rw [if_pos ha]
      exact hplain (by omega)
    rw [if_neg ha, size_one, if_pos (by decide)]
    by_cases hb : b.lastSeen.toInt ≤ 0
    · rw [visits, if_pos hb]
      exact hplain (by omega)
    by_cases hab : b.id = a.id
    · obtain ⟨l₁, hvisits⟩ :=
        exists_visits_cons env ((∅ : OrdMap KadId.order KadNode).set a.id a) b (c :: l)
      obtain ⟨l₂, hwith⟩ := exists_withEntering env hs
      rw [hvisits, hwith]
      refine iff_of_false ?_ fun h => h.1.1 hab
      rintro ⟨-, h⟩
      rw [size_one, if_pos (by decide), FillsBatches, contains_one_iff.mpr hab] at h
      cases h.1
    rw [visits, if_neg hb, size_two hab, if_pos (by decide)]
    by_cases hc : c.lastSeen.toInt ≤ 0
    · rw [visits, if_pos hc]
      exact hplain hc
    by_cases hids : c.id = b.id ∨ c.id = a.id
    · obtain ⟨l₁, hvisits⟩ := exists_visits_cons env
        (((∅ : OrdMap KadId.order KadNode).set a.id a).set b.id b) c l
      obtain ⟨l₂, hwith⟩ := exists_withEntering env hs
      rw [hvisits, hwith, fillsBatches_triple, InTriples]
      have hdup : ¬ (b.id ≠ a.id ∧ c.id ≠ b.id ∧ c.id ≠ a.id) := by tauto
      exact iff_of_false (fun h => hdup h.1) fun h => hdup h.1
    have hthree := size_batchOf ⟨hab, not_or.mp hids⟩
    rw [batchOf] at hthree
    rw [visits, if_neg hc, hthree, if_neg (by decide)]
    cases hnamed : (named env ((batchOf a b c).entries.map (·.2))).head? with
    | none =>
      have hrest := List.pairwise_cons.mp (List.pairwise_cons.mp (List.pairwise_cons.mp hs).2).2
      rw [withEntering_of_none hs hc hnamed, InTriples, ← ih hrest.2, ← fillsBatches_triple]
      rw [batchOf] at hnamed
      rw [hnamed]
    | some z =>
      rw [withEntering_of_some hs hc hnamed, ← fillsBatches_iff_inTriples]
      rw [batchOf] at hnamed
      rw [hnamed]
  | case3 l hnil htriple =>
    rcases short_of_no_triple hnil htriple with ⟨a, rfl⟩ | ⟨a, b, rfl⟩
    · rw [visits_one]
      exact iff_of_false (not_fillsBatches_one a) id
    · rw [visits_two]
      exact iff_of_false (not_fillsBatches_two a b) id

/-! ### The search -/

namespace LocalNode

variable {db : BerkeleyDB} {ε : Type}

/-- The loop over the closest nodes, which searches the own store where it meets the
own node. -/
def gather (env : SearchEnv) (selfNodeId : KadId) (query : Bytes) (st : SearchState) :
    List KadNode → Prog ε (LocalNode db) SearchState
  | [] => pure st
  | kn :: nodes =>
      if kn.id = selfNodeId then do
        let found ← onSearchesDB (SearchEntriesDB.doSearch (env.db kn) query)
        gather env selfNodeId query { st with results := st.results ++ found } nodes
      else gather env selfNodeId query { st with targetNodes := st.targetNodes.insert kn } nodes

/-- The table after the search. -/
def afterSearch (env : SearchEnv) (st : SearchState) (t : KadRoutingTable) : KadRoutingTable :=
  st.targetNodes.elems.foldl
    (fun t kn => if st.failed.contains kn.id then (t.removeNode env.std kn.id).1
      else (t.pushNode env.std (env.now kn) kn).1) t

/-- `doSearch`: the variables at its end, with the results.  The thread that is left
behind and sends the results on is not part of it. -/
def doSearch (env : SearchEnv) (query : Bytes) : Prog ε (LocalNode db) SearchState := do
  let selfNodeId := (← Prog.get).ktable.selfNode.id
  lock
  let nodes := (← Prog.get).ktable.getKClosestTo env.std (SimHash.ofString query).id
  let st ← gather env selfNodeId query SearchState.init nodes
  unlock
  -- futures that are left when the loop ends are dropped here
  let st := st.searchLoop env none
  lock
  Prog.modify fun n => { n with ktable := afterSearch env st n.ktable }
  unlock
  pure (if st.results.isEmpty then { st with results := env.crawled } else st)

/-- The nodes that the search starts with. -/
def targets (std : StdSort) (n : LocalNode db) (query : Bytes) : OrdSet KadNode.order :=
  (∅ : OrdSet KadNode.order).insertAll
    ((n.ktable.getKClosestTo std (SimHash.ofString query).id).filter
      fun kn => decide (kn.id ≠ n.ktable.selfNode.id))

/-- The own store is open, if the search gets to it. -/
def StoreReady (n : LocalNode db) (nodes : List KadNode) : Prop :=
  (∃ kn ∈ nodes, kn.id = n.ktable.selfNode.id) → n.searchesDB.dbp ≠ none

/-- What the own store gives to the loop over some nodes. -/
def ownResults (env : SearchEnv) (query : Bytes) (n : LocalNode db) (nodes : List KadNode) :
    List SearchEntry :=
  nodes.flatMap fun kn =>
    if kn.id = n.ktable.selfNode.id then n.searchesDB.found (env.db kn) query else []

theorem gather_of_ready (env : SearchEnv) (query : Bytes) {n : LocalNode db}
    {nodes : List KadNode} (hready : n.StoreReady nodes) (st : SearchState) :
    (gather env n.ktable.selfNode.id query st nodes : Prog ε (LocalNode db) _) n =
      ([], .returned { st with
        results := st.results ++ n.ownResults env query nodes
        targetNodes := st.targetNodes.insertAll
          (nodes.filter fun kn => decide (kn.id ≠ n.ktable.selfNode.id)) } n) := by
  induction nodes generalizing st with
  | nil =>
    rw [ownResults, List.flatMap_nil, List.append_nil]
    rfl
  | cons kn nodes ih =>
    have hready' : n.StoreReady nodes := fun ⟨kn', hkn', hid⟩ =>
      hready ⟨kn', List.mem_cons_of_mem _ hkn', hid⟩
    rw [gather]
    by_cases hself : kn.id = n.ktable.selfNode.id
    · have hfound := SearchEntriesDB.doSearch_eq_found (ε := ε) (env.db kn) query
        (hready ⟨kn, List.mem_cons_self, hself⟩)
      have hrun : (onSearchesDB (SearchEntriesDB.doSearch (env.db kn) query) :
          Prog ε (LocalNode db) _) n =
            ([], .returned (n.searchesDB.found (env.db kn) query) n) := by
        simp only [onSearchesDB, Prog.zoom, hfound]
      rw [if_pos hself, Prog.bind_of_returned_nil hrun, ih hready', List.filter_cons,
        if_neg (by simp [hself]), ownResults, ownResults, List.flatMap_cons, if_pos hself,
        List.append_assoc]
    · rw [if_neg hself, ih hready', List.filter_cons, if_pos (by simp [hself]), ownResults,
        ownResults, List.flatMap_cons, if_neg hself]
      rfl

theorem gather_of_not_ready (env : SearchEnv) (query : Bytes) {n : LocalNode db}
    {nodes : List KadNode} (hready : ¬ n.StoreReady nodes) (st : SearchState) :
    (gather env n.ktable.selfNode.id query st nodes : Prog ε (LocalNode db) _) n =
      ([], .undefined) := by
  have hdbp : n.searchesDB.dbp = none := by
    by_contra hne
    exact hready fun _ => hne
  induction nodes generalizing st with
  | nil => exact absurd (fun ⟨kn, hkn, _⟩ => (nomatch hkn)) hready
  | cons kn nodes ih =>
    rw [gather]
    by_cases hself : kn.id = n.ktable.selfNode.id
    · have hrun : (onSearchesDB (SearchEntriesDB.doSearch (env.db kn) query) :
          Prog ε (LocalNode db) _) n = ([], .undefined) := by
        simp only [onSearchesDB, Prog.zoom, SearchEntriesDB.doSearch_of_none _ _ hdbp]
      rw [if_pos hself]
      show Prog.andThen (onSearchesDB (SearchEntriesDB.doSearch (env.db kn) query) n) _ = _
      rw [hrun]
      rfl
    · rw [if_neg hself]
      refine ih (fun hrest => hready ?_) _
      rintro ⟨kn', hkn', hid⟩
      rcases List.mem_cons.mp hkn' with rfl | hkn'
      · exact absurd hid hself
      · exact hrest ⟨kn', hkn', hid⟩

/-- What the loop over the closest nodes returns. -/
theorem returns_gather (env : SearchEnv) (query : Bytes) {n : LocalNode db}
    (nodes : List KadNode) (st : SearchState) :
    Prog.Returns (gather env n.ktable.selfNode.id query st nodes : Prog ε (LocalNode db) _) n
      fun st' n' => n' = n ∧ ∃ results, st' =
        { st with
          results := results
          targetNodes := st.targetNodes.insertAll
            (nodes.filter fun kn => decide (kn.id ≠ n.ktable.selfNode.id)) } := by
  by_cases hready : n.StoreReady nodes
  · rw [Prog.Returns, Prog.outcome, gather_of_ready env query hready st]
    exact ⟨rfl, _, rfl⟩
  · rw [Prog.Returns, Prog.outcome, gather_of_not_ready env query hready st]
    trivial

/-- The state in front of the loop: no call was started. -/
def entered (targetNodes : OrdSet KadNode.order) (results : List SearchEntry) : SearchState :=
  { SearchState.init with targetNodes := targetNodes, results := results }

/-- The own results of a search: those of the loop over the closest nodes. -/
def ownResultsOf (env : SearchEnv) (query : Bytes) (n : LocalNode db) : List SearchEntry :=
  n.ownResults env query (n.ktable.getKClosestTo env.std (SimHash.ofString query).id)

/-- **A search while nobody holds the mutex.** -/
theorem doSearch_of_ready (env : SearchEnv) (query : Bytes) {n : LocalNode db} (hfree : n.Free)
    (hready : n.StoreReady (n.ktable.getKClosestTo env.std (SimHash.ofString query).id)) :
    (doSearch env query : Prog ε (LocalNode db) _) n =
      let st := (entered (targets env.std n query) (n.ownResultsOf env query)).searchLoop env none
      ([], .returned (if st.results.isEmpty then { st with results := env.crawled } else st)
        { n with ktable := afterSearch env st n.ktable }) := by
  obtain ⟨mutex, ktable, searchesDB, detached⟩ := n
  have hmutex : mutex = false := hfree
  subst hmutex
  have hgather := gather_of_ready (ε := ε) env query (n := ⟨true, ktable, searchesDB, detached⟩)
    hready SearchState.init
  have hrun : (doSearch env query : Prog ε _ _) ⟨false, ktable, searchesDB, detached⟩ = _ :=
    Prog.get_bind _ _
  rw [Prog.bind_of_returned_nil (m := lock) rfl, Prog.get_bind,
    Prog.bind_of_returned_nil hgather] at hrun
  exact hrun

/-! ### What the search accounts for -/

/-- The nodes that the loop visits: the targets, with the node that enters where none
of them was seen at time 0. -/
def visited (env : SearchEnv) (nodes : List KadNode) : List KadNode :=
  if ∃ kn ∈ nodes, kn.lastSeen = 0 then nodes else withEntering env nodes

/-- The nodes that the search visits fall into triples. -/
def SearchSettles (env : SearchEnv) (n : LocalNode db) (query : Bytes) : Prop :=
  n.StoreReady (n.ktable.getKClosestTo env.std (SimHash.ofString query).id) →
    InTriples (visited env (targets env.std n query).elems)

theorem inv_entered (env : SearchEnv) (targetNodes : OrdSet KadNode.order)
    (results : List SearchEntry) : Inv env (entered targetNodes results) none where
  keyed := fun _ he => nomatch he
  pending := fun _ hkn => nomatch hkn
  collected := fun _ hkn => nomatch hkn
  passed := fun _ hkn => nomatch hkn

/-- The loop collects everything exactly where its nodes fall into triples. -/
theorem collectsAll_searchLoop_iff (env : SearchEnv) (targetNodes : OrdSet KadNode.order)
    (results : List SearchEntry) :
    CollectsAll ((entered targetNodes results).searchLoop env none) ↔
      InTriples (visited env targetNodes.elems) := by
  have hinv := inv_entered env targetNodes results
  have hnone : NoneLost (entered targetNodes results) := fun _ h => nomatch h.1
  rw [visited]
  split
  · next hzero =>
    rw [← fillsBatches_iff_inTriples]
    exact collectsAll_of_closed env _ _ none rfl hinv hnone (Or.inl hzero)
  · next hzero =>
    push Not at hzero
    rw [← fillsBatches_visits_iff env _ targetNodes.sorted]
    exact collectsAll_of_open env _ _ none rfl hinv hnone hzero

/-- The crawler is asked only where there are no results to lose. -/
theorem accounts_crawled_iff {env : SearchEnv} {st : SearchState} {pos : Option KadNode}
    (hinv : Inv env st pos) :
    Accounts env (if st.results.isEmpty then { st with results := env.crawled } else st) ↔
      CollectsAll st := by
  have hrecorded : CollectsAll st → Accounts env st :=
    fun h kn hkn => ⟨h kn hkn, (hinv.collected kn (h kn hkn)).2⟩
  split
  · next hempty =>
    have hkeeps : Keeps st { st with results := env.crawled } := by
      refine ⟨?_, List.Subset.refl _, List.Subset.refl _⟩
      rw [List.isEmpty_iff.mp hempty]
      exact List.nil_prefix
    constructor
    · exact fun h kn hkn => (h kn hkn).1
    · exact fun h kn hkn => ⟨h kn hkn, hkeeps.recorded (hrecorded h kn hkn).2⟩
  · exact ⟨fun h kn hkn => (h kn hkn).1, hrecorded⟩

/-- The search, from the loop on. -/
theorem post_doSearch_of_ready {env : SearchEnv} {query : Bytes} {n : LocalNode db}
    (hfree : n.Free)
    (hready : n.StoreReady (n.ktable.getKClosestTo env.std (SimHash.ofString query).id)) :
    Prog.Post (doSearch env query : Prog ε _ _) n (fun st _ => st.Accounts env)
        (fun _ => False) ↔
      InTriples (visited env (targets env.std n query).elems) := by
  obtain ⟨pos, hinv⟩ := searchLoop_induction env (fun _ _ _ h hkn => inv_visit h hkn) _ _
    (inv_entered env (targets env.std n query) (n.ownResultsOf env query))
  rw [Prog.Post, Prog.outcome, doSearch_of_ready env query hfree hready,
    ← collectsAll_searchLoop_iff env _ (n.ownResultsOf env query), ← accounts_crawled_iff hinv]

/-- **The search accounts for every call that it starts exactly where the nodes that it
visits fall into triples.** -/
theorem post_doSearch_iff (env : SearchEnv) (query : Bytes) {n : LocalNode db}
    (hfree : n.Free) :
    Prog.Post (doSearch env query : Prog ε _ _) n (fun st _ => st.Accounts env)
        (fun _ => False) ↔
      SearchSettles env n query := by
  by_cases hready : n.StoreReady (n.ktable.getKClosestTo env.std (SimHash.ofString query).id)
  · rw [post_doSearch_of_ready hfree hready, SearchSettles]
    exact ⟨fun h _ => h, fun h => h hready⟩
  · -- nothing is promised of a search in a store that is not open
    have hready' : ¬ StoreReady { n with mutex := true }
        (n.ktable.getKClosestTo env.std (SimHash.ofString query).id) := hready
    have hgather := gather_of_not_ready (ε := ε) env query hready' SearchState.init
    refine iff_of_true ?_ fun h => absurd h hready
    rw [doSearch, Prog.post_bind, Prog.post_get, Prog.post_bind, post_lock hfree,
      Prog.post_bind, Prog.post_get, Prog.post_bind, Prog.Post, Prog.outcome, hgather]
    exact trivial

end LocalNode

end

/-- A node that knows a single other one. -/
def acquaintedNode : LocalNode BerkeleyDB.inMemory where
  mutex := false
  ktable := KadRoutingTable.reached StdSort.insertion (KadId.ofNat 2)
    [.pushNode 0 (KadNode.new (KadId.ofNat 1) [97])]
  searchesDB := ⟨∅, some []⟩
  detached := []

/-- No call gets an answer. -/
def SearchEnv.unanswered [Hashing] : SearchEnv where
  std := StdSort.insertion
  db := fun _ => Surroundings.zero
  reply := fun _ => none
  now := fun _ => 0
  crawled := []

/-- The search starts with that node alone. -/
theorem elems_targets_acquainted :
    letI := Hashing.blank
    (LocalNode.targets StdSort.insertion acquaintedNode [97]).elems =
      [KadNode.new (KadId.ofNat 1) [97]] := by
  decide +kernel

/-- And it ends without the outcome of the call to it. -/
theorem LocalNode.acquainted_not_settled :
    letI := Hashing.blank
    ¬ Prog.Post (LocalNode.doSearch SearchEnv.unanswered [97] : Prog Empty _ _) acquaintedNode
      (fun st _ => st.Accounts SearchEnv.unanswered) (fun _ => False) := by
  let _ := Hashing.blank
  have hready : acquaintedNode.StoreReady (acquaintedNode.ktable.getKClosestTo
      SearchEnv.unanswered.std (SimHash.ofString [97]).id) := fun _ hnone => nomatch hnone
  have hfree : acquaintedNode.Free := rfl
  have hvisited : LocalNode.visited SearchEnv.unanswered
      (LocalNode.targets SearchEnv.unanswered.std acquaintedNode [97]).elems =
        [KadNode.new (KadId.ofNat 1) [97]] := by
    show LocalNode.visited _ (LocalNode.targets StdSort.insertion acquaintedNode [97]).elems = _
    rw [elems_targets_acquainted]
    exact if_pos ⟨_, List.mem_singleton_self _, rfl⟩
  rw [LocalNode.post_doSearch_of_ready hfree hready, hvisited]
  exact id

/-- One node is no triple. -/
theorem LocalNode.post_doSearch_acquainted :
    letI := Hashing.blank
    Prog.Post (LocalNode.doSearch SearchEnv.unanswered [97] : Prog Empty _ _) acquaintedNode
        (fun st _ => st.Accounts SearchEnv.unanswered) (fun _ => False) ↔
      acquaintedNode.SearchSettles SearchEnv.unanswered [97] :=
  letI := Hashing.blank
  LocalNode.post_doSearch_iff SearchEnv.unanswered [97] rfl

end SniffDogSniff
