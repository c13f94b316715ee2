import SniffDogSniff.SdsCore.DoSearch

/-!
# What a search pushes

When a search ends it pushes all nodes of its set for which no call is known to have
failed.  They are the nodes of the own table that it started with, and at most one more:
the first node that the replies to a full batch name, if none of the others was seen at
time 0.  This node may be behind the iterator, where it is not asked at all, and even in
front of it, the outcome of the call to it is looked at only if its batch gets full.

## Main definitions

* `SearchState.settled` — the nodes whose outcomes are collected.
* `SearchState.entrant` — the node that enters.

## Main results

* `searchLoop_of_closed`, `searchLoop_of_open` — what is collected, and what is in the set
  when the loop ends.
* `mem_targetNodes_search_iff`, `collected_search`, `contains_failed_search_iff` — **the same for a
  whole search**, with the ids that have failed.
-/

namespace SniffDogSniff

namespace SearchState

section

variable [Hashing]

/-- The nodes whose outcomes are collected when some nodes are visited, with the futures
that are there before. -/
def settled (futures : OrdMap KadId.order KadNode) : List KadNode → List KadNode
  | [] => []
  | kn :: l =>
      if (futures.set kn.id kn).size < ALPHA then settled (futures.set kn.id kn) l
      else (futures.set kn.id kn).entries.map (·.2) ++ settled ∅ l

/-- The first node that the replies to a full batch name. -/
def entrant (env : SearchEnv) (futures : OrdMap KadId.order KadNode) :
    List KadNode → Option KadNode
  | [] => none
  | kn :: l =>
      if (futures.set kn.id kn).size < ALPHA then entrant env (futures.set kn.id kn) l
      else
        match (named env ((futures.set kn.id kn).entries.map (·.2))).head? with
        | some z => some z
        | none => entrant env ∅ l

/-- What is collected after a batch. -/
theorem collected_harvest_start (env : SearchEnv) (st : SearchState) (kn : KadNode) :
    ((st.start kn).harvest env).collected =
      st.collected ++ (st.futures.set kn.id kn).entries.map (·.2) :=
  (harvest_spec env _).2.2.2

/-- With a node that was not seen in the set, nothing enters it. -/
theorem searchLoop_of_closed (env : SearchEnv) (l : List KadNode) :
    ∀ (st : SearchState) (pos : Option KadNode), st.targetNodes.after pos = l →
      (∃ y ∈ st.targetNodes.elems, y.lastSeen = 0) →
      (searchLoop env st pos).targetNodes = st.targetNodes ∧
        (searchLoop env st pos).collected = st.collected ++ settled st.futures l := by
  induction l with
  | nil =>
    intro st pos hafter _
    rw [searchLoop_of_nil hafter]
    exact ⟨rfl, (List.append_nil _).symm⟩
  | cons kn l ih =>
    intro st pos hafter hzero
    have hrest := OrdSet.after_some_of_after_eq_cons hafter
    rw [searchLoop_of_cons hafter, settled]
    by_cases hsize : (st.futures.set kn.id kn).size < ALPHA
    · rw [visit_of_lt hsize, if_pos hsize]
      exact ih (st.start kn) (some kn) hrest hzero
    · have htargets := targetNodes_harvest_of_exists env kn hzero
      rw [visit_of_not_lt hsize, if_neg hsize]
      obtain ⟨hsame, hcollected⟩ :=
        ih ((st.start kn).harvest env) (some kn) (htargets ▸ hrest) (htargets ▸ hzero)
      refine ⟨hsame.trans htargets, hcollected.trans ?_⟩
      rw [collected_harvest_start, List.append_assoc]
      rfl

/-- Nodes that were not seen after time 0 are visited as they are. -/
theorem visits_of_le {env : SearchEnv} {futures : OrdMap KadId.order KadNode}
    {l : List KadNode} (h : ∀ kn ∈ l, kn.lastSeen.toInt ≤ 0) : visits env futures l = l := by
  cases l with
  | nil => rfl
  | cons kn l => rw [visits, if_pos (h kn List.mem_cons_self)]

/-- The first node that a full batch names enters, and whether the iterator will meet it
depends on where it is. -/
theorem searchLoop_of_named (env : SearchEnv) {st : SearchState} {kn z : KadNode}
    {l zs : List KadNode} (hrest : st.targetNodes.after (some kn) = l)
    (hopen : ∀ y ∈ st.targetNodes.elems, y.lastSeen ≠ 0)
    (hnamed : named env ((st.futures.set kn.id kn).entries.map (·.2)) = z :: zs) :
    (searchLoop env ((st.start kn).harvest env) (some kn)).targetNodes =
        st.targetNodes.insert z ∧
      (searchLoop env ((st.start kn).harvest env) (some kn)).collected =
        st.collected ++ ((st.futures.set kn.id kn).entries.map (·.2) ++ settled ∅
          (if kn.lastSeen.toInt ≤ 0 then l else OrdSet.insertList KadNode.order z l)) := by
  obtain ⟨htargets, hzero⟩ := targetNodes_harvest_of_cons hopen hnamed
  obtain ⟨hsame, hrun⟩ := searchLoop_of_closed env _ ((st.start kn).harvest env) (some kn) rfl
    (htargets ▸ hzero)
  have hfutures : ((st.start kn).harvest env).futures = ∅ := rfl
  have hz : z.lastSeen = 0 := lastSeen_of_mem_named (hnamed ▸ List.mem_cons_self)
  have hlt : KadNode.order.lt kn z = true ↔ 0 < kn.lastSeen.toInt :=
    order_lt_iff_of_lastSeen_zero hz
  refine ⟨hsame.trans htargets, ?_⟩
  rw [hrun, collected_harvest_start, hfutures, List.append_assoc, htargets, OrdSet.after_insert,
    hrest]
  by_cases hle : kn.lastSeen.toInt ≤ 0
  · rw [if_neg (hlt.not.mpr (Int.not_lt.mpr hle)), if_pos hle]
  · rw [if_pos (hlt.mpr (Int.not_le.mp hle)), if_neg hle]

/-- **As long as no node of the set was seen at time 0**, the first node that is named
enters it. -/
theorem searchLoop_of_open (env : SearchEnv) (l : List KadNode) :
    ∀ (st : SearchState) (pos : Option KadNode), st.targetNodes.after pos = l →
      (∀ y ∈ st.targetNodes.elems, y.lastSeen ≠ 0) →
      (searchLoop env st pos).targetNodes = st.targetNodes.insertAll
          (entrant env st.futures l).toList ∧
        (searchLoop env st pos).collected =
          st.collected ++ settled st.futures (visits env st.futures l) := by
  induction l with
  | nil =>
    intro st pos hafter _
    rw [searchLoop_of_nil hafter]
    exact ⟨rfl, (List.append_nil _).symm⟩
  | cons kn l ih =>
    intro st pos hafter hopen
    have hrest := OrdSet.after_some_of_after_eq_cons hafter
    have hplain : ∀ futures, kn.lastSeen.toInt ≤ 0 → visits env futures l = l :=
      fun futures hle => visits_of_le (lastSeen_le_of_after_eq_cons hafter hle)
    rw [searchLoop_of_cons hafter, entrant, visits]
    by_cases hsize : (st.futures.set kn.id kn).size < ALPHA
    · -- the batch is not full
      obtain ⟨htargets, hcollected⟩ := ih (st.start kn) (some kn) hrest hopen
      have hfutures : (st.start kn).futures = st.futures.set kn.id kn := rfl
      rw [hfutures] at htargets hcollected
      rw [visit_of_lt hsize, if_pos hsize, if_pos hsize]
      refine ⟨htargets, hcollected.trans ?_⟩
      split
      · next hle => rw [settled, if_pos hsize, hplain _ hle]; rfl
      · rw [settled, if_pos hsize]; rfl
    have hcollected := collected_harvest_start env st kn
    rw [visit_of_not_lt hsize, if_neg hsize, if_neg hsize]
    cases hnamed : named env ((st.futures.set kn.id kn).entries.map (·.2)) with
    | nil =>
      have hsame := targetNodes_harvest_of_nil hnamed
      obtain ⟨hend, hrun⟩ := ih _ (some kn) (hsame ▸ hrest) (hsame ▸ hopen)
      have hfutures : ((st.start kn).harvest env).futures = ∅ := rfl
      rw [hsame, hfutures] at hend
      rw [hfutures, hcollected, List.append_assoc] at hrun
      refine ⟨hend, hrun.trans ?_⟩
      split
      · next hle => rw [settled, if_neg hsize, hplain _ hle]
      · rw [List.head?_nil, settled, if_neg hsize]
    | cons z zs =>
      obtain ⟨htargets, hrun⟩ := searchLoop_of_named env hrest hopen hnamed
      refine ⟨htargets, hrun.trans ?_⟩
      rw [List.head?_cons]
      split
      · next hle => rw [settled, if_neg hsize]
      · rw [settled, if_neg hsize]

/-! ### What has failed -/

/-- An id has failed because a call to a node with this id threw. -/
def Failures (env : SearchEnv) (st : SearchState) : Prop :=
  ∀ id ∈ st.failed.elems, ∃ kn ∈ st.collected, env.reply kn = none ∧ kn.id = id

theorem failures_foldl_collect {env : SearchEnv} {es : List (KadId × KadNode)}
    (hkeyed : ∀ e ∈ es, e.1 = e.2.id) {st : SearchState} (h : Failures env st) :
    Failures env (es.foldl (collect env) st) := by
  induction es generalizing st with
  | nil => exact h
  | cons e es ih =>
    refine ih (fun e he => hkeyed e (List.mem_cons_of_mem _ he)) ?_
    have hid := hkeyed e List.mem_cons_self
    intro id hmem
    rw [collected_collect]
    rw [SearchState.collect] at hmem
    have hold : id ∈ st.failed.elems →
        ∃ kn ∈ st.collected ++ [e.2], env.reply kn = none ∧ kn.id = id := by
      intro hmem
      obtain ⟨kn, hkn, hfailed⟩ := h id hmem
      exact ⟨kn, List.mem_append_left _ hkn, hfailed⟩
    split at hmem
    · next hnone =>
      rcases OrdSet.mem_insert.mp hmem with hmem | ⟨-, rfl⟩
      · exact hold hmem
      · exact ⟨e.2, List.mem_append_right _ (List.mem_singleton_self _), hnone, hid.symm⟩
    · split at hmem
      · exact hold hmem
      · exact hold hmem

theorem failures_visit {env : SearchEnv} {st : SearchState} {pos : Option KadNode}
    (hinv : Inv env st pos) (h : Failures env st) {kn : KadNode}
    (hkn : kn ∈ st.targetNodes.after pos) : Failures env (st.visit env kn) := by
  have hstart : Failures env (st.start kn) := h
  rw [visit]
  split
  · exact failures_foldl_collect (inv_start hinv hkn).keyed hstart
  · exact hstart

/-! ### A whole search -/

theorem lastSeen_of_entrant {env : SearchEnv} {futures : OrdMap KadId.order KadNode}
    {l : List KadNode} {z : KadNode} (h : entrant env futures l = some z) : z.lastSeen = 0 := by
  induction l generalizing futures with
  | nil => cases h
  | cons kn l ih =>
    rw [entrant] at h
    split at h
    · exact ih h
    · split at h
      · next z' hz' =>
        cases h
        exact lastSeen_of_mem_named (List.mem_of_head? hz')
      · exact ih h

/-- The nodes that a search with some targets visits. -/
def asked (env : SearchEnv) (targetNodes : OrdSet KadNode.order) : List KadNode :=
  if ∃ kn ∈ targetNodes.elems, kn.lastSeen = 0 then targetNodes.elems
  else visits env ∅ targetNodes.elems

/-- The node that enters a search with some targets. -/
def entrantOf (env : SearchEnv) (targetNodes : OrdSet KadNode.order) : Option KadNode :=
  if ∃ kn ∈ targetNodes.elems, kn.lastSeen = 0 then none
  else entrant env ∅ targetNodes.elems

section

variable (env : SearchEnv) (targetNodes : OrdSet KadNode.order) (results : List SearchEntry)

theorem targetNodes_search :
    ((LocalNode.entered targetNodes results).searchLoop env none).targetNodes =
      targetNodes.insertAll (entrantOf env targetNodes).toList := by
  rw [entrantOf]
  split
  · next hzero =>
    exact (searchLoop_of_closed env _ (LocalNode.entered targetNodes results) none rfl hzero).1
  · next hzero =>
    push Not at hzero
    exact (searchLoop_of_open env _ (LocalNode.entered targetNodes results) none rfl hzero).1

theorem mem_targetNodes_search_iff {kn : KadNode} :
    kn ∈ ((LocalNode.entered targetNodes results).searchLoop env none).targetNodes.elems ↔
      kn ∈ targetNodes.elems ∨ entrantOf env targetNodes = some kn := by
  rw [targetNodes_search]
  cases hentrant : entrantOf env targetNodes with
  | none => exact (or_iff_left (by simp)).symm
  | some z =>
    rw [entrantOf] at hentrant
    split at hentrant
    · cases hentrant
    next hzero =>
    push Not at hzero
    have hnew : ∀ b ∈ targetNodes.elems, ¬ KadNode.order.Equiv z b := by
      intro b hb heq
      exact hzero b hb ((KadNode.order_equiv_iff.mp heq).symm.trans (lastSeen_of_entrant hentrant))
    rw [Option.toList_some, OrdSet.insertAll, List.foldl_cons, List.foldl_nil, OrdSet.mem_insert]
    refine or_congr_right ⟨fun h => congrArg some h.2.symm, fun h => ⟨hnew, ?_⟩⟩
    exact (Option.some.inj h).symm

theorem collected_search :
    ((LocalNode.entered targetNodes results).searchLoop env none).collected =
      settled ∅ (asked env targetNodes) := by
  rw [asked]
  split
  · next hzero =>
    exact (searchLoop_of_closed env _ (LocalNode.entered targetNodes results) none rfl hzero).2
  · next hzero =>
    push Not at hzero
    exact (searchLoop_of_open env _ (LocalNode.entered targetNodes results) none rfl hzero).2

/-- **The ids that have failed** are those of the calls whose exceptions were collected. -/
theorem contains_failed_search_iff {id : KadId} :
    ((LocalNode.entered targetNodes results).searchLoop env none).failed.contains id = true ↔
      ∃ kn ∈ settled ∅ (asked env targetNodes), env.reply kn = none ∧ kn.id = id := by
  obtain ⟨pos, hinv, hfailed⟩ := searchLoop_induction env
    (P := fun st pos => Inv env st pos ∧ Failures env st)
    (fun _ _ _ h hkn => ⟨inv_visit h.1 hkn, failures_visit h.1 h.2 hkn⟩) _ _
    ⟨LocalNode.inv_entered env targetNodes results, fun _ hid => nomatch hid⟩
  rw [← collected_search env targetNodes results, OrdSet.contains_iff]
  constructor
  · rintro ⟨b, hb, heq⟩
    obtain ⟨kn, hkn, hnone, rfl⟩ := hfailed b hb
    exact ⟨kn, hkn, hnone, (KadId.order_equiv_iff.mp heq).symm⟩
  · rintro ⟨kn, hkn, hnone, rfl⟩
    have hrecorded := (hinv.collected kn hkn).2
    rw [Recorded, hnone] at hrecorded
    exact ⟨kn.id, hrecorded, Comparator.Equiv.refl kn.id⟩

end

end

end SearchState

end SniffDogSniff
