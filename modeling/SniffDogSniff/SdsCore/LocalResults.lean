import SniffDogSniff.SdsCore.SearchPushes

/-!
# What a search finds in the own store

`findResults` looks into the own store first.  `doSearch` does so when it meets the own
node among the closest ones, and the table never holds the own node.  So what is in the
own store is found where a reply brings it, or, if no reply brings anything, where the
external search engines do.

## Main definitions

* `SearchState.replied` — the results of the replies of some nodes.
* `LocalNode.Brings` — an entry comes into the results of a search.

## Main results

* `SearchState.results_search` — the results when the loop ends.
* `ends_doSearch_iff` — **what the own store finds is among the results exactly where it
  is brought.**
* `brings_iff_of_reached` — in a table that is reached, from elsewhere.
-/

namespace SniffDogSniff

section

variable [Hashing]

/-! ### The replies -/

namespace SearchState

/-- The results of the replies of some nodes. -/
def replied (env : SearchEnv) (nodes : List KadNode) : List SearchEntry :=
  nodes.flatMap fun kn =>
    match env.reply kn with
    | none => []
    | some reply => if reply.hasResults then reply.results else []

theorem results_collect (env : SearchEnv) (st : SearchState) (e : KadId × KadNode) :
    (st.collect env e).results = st.results ++ replied env [e.2] := by
  rw [SearchState.collect, replied, List.flatMap_singleton]
  cases env.reply e.2 with
  | none => exact (List.append_nil _).symm
  | some reply =>
    dsimp only
    split
    · rfl
    · exact (List.append_nil _).symm

/-- The results are what was there at first, with what the collected replies bring. -/
def Gathers (env : SearchEnv) (own : List SearchEntry) (st : SearchState) : Prop :=
  st.results = own ++ replied env st.collected

section

variable {env : SearchEnv} {own : List SearchEntry} {st : SearchState}

theorem Gathers.collect (h : Gathers env own st) (e : KadId × KadNode) :
    Gathers env own (st.collect env e) := by
  rw [Gathers, results_collect, collected_collect, h, replied, replied, replied,
    List.flatMap_append, List.append_assoc]

theorem Gathers.visit (h : Gathers env own st) (kn : KadNode) :
    Gathers env own (st.visit env kn) := by
  have hstart : Gathers env own (st.start kn) := h
  rw [SearchState.visit]
  split
  · have hfold : Gathers env own ((st.start kn).futures.entries.foldl (SearchState.collect env)
        (st.start kn)) :=
      List.foldlRecOn _ _ hstart fun _ hst e _ => hst.collect e
    exact hfold
  · exact hstart

/-- **The results when the loop ends.** -/
theorem results_search (env : SearchEnv) (targetNodes : OrdSet KadNode.order)
    (own : List SearchEntry) :
    ((LocalNode.entered targetNodes own).searchLoop env none).results =
      own ++ replied env (settled ∅ (asked env targetNodes)) := by
  have hentered : Gathers env own (LocalNode.entered targetNodes own) :=
    (List.append_nil own).symm
  obtain ⟨-, hresults⟩ := searchLoop_induction env (P := fun st _ => Gathers env own st)
    (fun _ _ kn h _ => h.visit kn) _ none hentered
  rw [hresults, collected_search]

end

end SearchState

/-! ### The search -/

namespace LocalNode

open SearchState

variable {db : BerkeleyDB} {ε : Type}

/-- An entry comes from the own store or with a reply, or both bring nothing and it comes
from the external search engines. -/
def Brings (env : SearchEnv) (query : Bytes) (n : LocalNode db) (se : SearchEntry) : Prop :=
  let others := replied env (settled ∅ (asked env (targets env.std n query)))
  se ∈ n.ownResultsOf env query ∨ se ∈ others ∨
    (n.ownResultsOf env query = [] ∧ others = [] ∧ se ∈ env.crawled)

/-- The external search engines are asked only where there are no results. -/
theorem mem_results_search_iff (env : SearchEnv) (query : Bytes) (n : LocalNode db)
    {st : SearchState}
    (hst : st = (entered (targets env.std n query) (n.ownResultsOf env query)).searchLoop env none)
    (se : SearchEntry) :
    se ∈ (if st.results.isEmpty then { st with results := env.crawled } else st).results ↔
      n.Brings env query se := by
  have hresults := results_search env (targets env.std n query) (n.ownResultsOf env query)
  rw [← hst] at hresults
  rw [Brings]
  split
  · next hempty =>
    rw [List.isEmpty_iff, hresults, List.append_eq_nil_iff] at hempty
    obtain ⟨hown, hothers⟩ := hempty
    simp [hown, hothers]
  · next hempty =>
    rw [List.isEmpty_iff, hresults, List.append_eq_nil_iff] at hempty
    rw [hresults, List.mem_append]
    refine or_congr_right ⟨Or.inl, ?_⟩
    rintro (h | ⟨hown, hothers, -⟩)
    · exact h
    · exact absurd ⟨hown, hothers⟩ hempty

/-- With an open store. -/
theorem ends_doSearch_of_open (sur : Surroundings) (env : SearchEnv) (query : Bytes)
    {n : LocalNode db} (hdbp : n.searchesDB.dbp ≠ none) :
    Prog.Returns (SearchEntriesDB.doSearch sur query : Prog ε _ _) n.searchesDB (fun entries _ =>
        Prog.Ends (doSearch env query : Prog ε _ _) { n with mutex := false }
          (fun st _ => ∀ se ∈ entries, se ∈ st.results) fun _ => False) ↔
      ∀ se ∈ n.searchesDB.found sur query, n.Brings env query se := by
  have hfree : { n with mutex := false : LocalNode db }.Free := rfl
  rw [Prog.Returns, Prog.outcome, SearchEntriesDB.doSearch_eq_found sur query hdbp]
  simp only [Prog.Ends, Prog.outcome, doSearch_of_ready env query hfree fun _ => hdbp]
  exact forall₂_congr fun se _ => mem_results_search_iff env query _ rfl se

/-- **The own node is not among the closest ones** in a table that is reached. -/
theorem ownResultsOf_of_reached (env : SearchEnv) (query : Bytes) {n : LocalNode db}
    {std : StdSort} {selfId : KadId} {calls : List KadRoutingTable.Call}
    (h : n.ktable = KadRoutingTable.reached std selfId calls) : n.ownResultsOf env query = [] := by
  refine List.flatMap_eq_nil_iff.mpr fun kn hkn => if_neg ?_
  rw [h] at hkn ⊢
  obtain ⟨k, hk⟩ := KadRoutingTable.exists_mem_of_mem_getClosestTo hkn
  exact ((KadRoutingTable.wellFormed_reached std selfId calls).2 k kn hk).1

/-- So an entry comes from elsewhere. -/
theorem brings_iff_of_reached (env : SearchEnv) (query : Bytes) {n : LocalNode db}
    {std : StdSort} {selfId : KadId} {calls : List KadRoutingTable.Call}
    (h : n.ktable = KadRoutingTable.reached std selfId calls) (se : SearchEntry) :
    n.Brings env query se ↔
      let others := replied env (settled ∅ (asked env (targets env.std n query)))
      se ∈ others ∨ (others = [] ∧ se ∈ env.crawled) := by
  rw [Brings, ownResultsOf_of_reached env query h]
  simp

/-- **What the own store finds is among the results of a search exactly where it is
brought**, whatever memory the store meets; where the table is reached, nothing comes from the
own store. -/
theorem ends_doSearch_iff (sur : Surroundings) (env : SearchEnv) (query : Bytes)
    (n : LocalNode db) :
    (Prog.Returns (SearchEntriesDB.doSearch sur query : Prog ε _ _) n.searchesDB
        (fun entries _ => Prog.Ends (doSearch env query : Prog ε _ _) { n with mutex := false }
          (fun st _ => ∀ se ∈ entries, se ∈ st.results) fun _ => False) ↔
      ∀ se ∈ n.searchesDB.found sur query, n.Brings env query se) ∧
    ∀ std selfId calls, n.ktable = KadRoutingTable.reached std selfId calls → ∀ se,
      (n.Brings env query se ↔
        let others := replied env (settled ∅ (asked env (targets env.std n query)))
        se ∈ others ∨ (others = [] ∧ se ∈ env.crawled)) := by
  refine ⟨?_, fun std selfId calls h se => brings_iff_of_reached env query h se⟩
  by_cases hdbp : n.searchesDB.dbp = none
  · rw [Prog.Returns, Prog.outcome, SearchEntriesDB.doSearch_of_none sur query hdbp,
      SearchEntriesDB.found_of_none sur query hdbp]
    exact iff_of_true trivial fun _ hse => absurd hse List.not_mem_nil
  · exact ends_doSearch_of_open sur env query hdbp

end LocalNode

end

/-- A node that knows no other one, with the record of an entry in its store. -/
def hermitNode : LocalNode BerkeleyDB.inMemory where
  mutex := false
  ktable := KadRoutingTable.reached StdSort.insertion (KadId.ofNat 2) []
  searchesDB :=
    letI := Hashing.blank
    let se := SearchEntry.new [97] [97] .SITE ∅
    ⟨∅, some [(se.hash, se.encode)]⟩
  detached := []

/-- Memory with the letter "a" in the second byte behind the record. -/
def letterBehind : Surroundings :=
  { Surroundings.zero with heap := fun _ i => if i = 26 then 97 else 0 }

/-- The own store finds an entry, and the search does not. -/
theorem LocalNode.not_ends_doSearch :
    letI := Hashing.blank
    ¬ ∀ (sur : Surroundings) (env : SearchEnv) (query : Bytes) (n : LocalNode BerkeleyDB.inMemory),
      Prog.Returns (SearchEntriesDB.doSearch sur query : Prog Empty _ _) n.searchesDB
        fun entries _ =>
          Prog.Ends (LocalNode.doSearch env query : Prog Empty _ _) { n with mutex := false }
            (fun st _ => ∀ se ∈ entries, se ∈ st.results) fun _ => False := by
  let _ := Hashing.blank
  intro h
  have hends (n : LocalNode BerkeleyDB.inMemory) (hdbp : n.searchesDB.dbp ≠ none) :=
    (LocalNode.ends_doSearch_of_open letterBehind SearchEnv.unanswered [97] hdbp).mp
      (h letterBehind SearchEnv.unanswered [97] n)
  have hopen : hermitNode.searchesDB.dbp ≠ none := Option.some_ne_none _
  have hfound : (hermitNode.searchesDB.found letterBehind [97]).length = 1 := by decide +kernel
  obtain ⟨se, hse⟩ := List.exists_mem_of_length_pos (hfound ▸ Nat.one_pos)
  rcases (LocalNode.brings_iff_of_reached _ _ rfl se).mp
    (hends hermitNode hopen se hse) with hse | hse
  · obtain ⟨kn, -, hkn⟩ := List.mem_flatMap.mp hse
    cases hkn
  · exact absurd hse.2 List.not_mem_nil

end SniffDogSniff
