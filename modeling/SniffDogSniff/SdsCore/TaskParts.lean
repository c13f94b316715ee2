import SniffDogSniff.SdsCore.NodeRuns
import SniffDogSniff.SdsCore.StoreCalls

/-!
# The parts of the tasks

A publication and a search each have a first part, up to their calls, that runs under the
mutex.  What a part leaves behind is told by what it returns, by the table and the threads,
which it does not touch, and by the records that it puts into the store.

No entry that is read from the store has a title, so neither have the entries that the
store gives to a publication or to a search.

## Main definitions

* `EntriesPublishTask.broadcast`, `EntriesPublishTask.beginPublish`, `LocalNode.beginSearch`
  — the first parts, as programs.
* `SearchEntriesDB.Puts`, `SearchEntriesDB.StoredFrom` — records of some entries are put.
* `LocalNode.Alike` — the table and the threads are the same.

## Main results

* `publishResults_eq_bind`, `doSearch_eq_bind` — the tasks are their parts.
* `leaves_broadcast`, `leaves_beginPublish`, `leaves_beginSearch`, `leaves_storeResult` —
  what the parts leave behind.
-/

namespace SniffDogSniff

section

variable [Hashing]

/-! ### The store -/

namespace SearchEntriesDB

section

variable {db : BerkeleyDB} {ε : Type} {S T : SearchEntry → Prop}

/-- Records of entries that satisfy `S` are put, one after the other, under any keys. -/
inductive Puts (S : SearchEntry → Prop) (st : db.State) : db.State → Prop
  | nothing : Puts S st st
  | put (st' : db.State) (key : Bytes) (se : SearchEntry) (h : Puts S st st') (hse : S se) :
      Puts S st (db.put st' key se.encode).1

theorem Puts.trans {st st' st'' : db.State} (h : Puts S st st') (h' : Puts S st' st'') :
    Puts S st st'' := by
  induction h' with
  | nothing => exact h
  | put st₂ key se _ hse ih => exact .put st₂ key se ih hse

theorem Puts.mono {st st' : db.State} (h : Puts S st st') (hST : ∀ se, S se → T se) :
    Puts T st st' := by
  induction h with
  | nothing => exact .nothing
  | put st₂ key se _ hse ih => exact .put st₂ key se ih (hST se hse)

/-- The store has got records of entries that satisfy `S`, if any. -/
def StoredFrom (S : SearchEntry → Prop) (s s' : SearchEntriesDB db) : Prop :=
  ∀ st', s'.dbp = some st' → ∃ st, s.dbp = some st ∧ Puts S st st'

theorem storedFrom_of_dbp_eq {s s' : SearchEntriesDB db} (h : s'.dbp = s.dbp) :
    StoredFrom S s s' :=
  fun st' hst' => ⟨st', h ▸ hst', .nothing⟩

theorem StoredFrom.trans {s s' s'' : SearchEntriesDB db} (h : StoredFrom S s s')
    (h' : StoredFrom S s' s'') : StoredFrom S s s'' := by
  intro st'' hst''
  obtain ⟨st', hst', hputs'⟩ := h' st'' hst''
  obtain ⟨st, hst, hputs⟩ := h st' hst'
  exact ⟨st, hst, hputs.trans hputs'⟩

theorem StoredFrom.mono {s s' : SearchEntriesDB db} (h : StoredFrom S s s')
    (hST : ∀ se, S se → T se) : StoredFrom T s s' := by
  intro st' hst'
  obtain ⟨st, hst, hputs⟩ := h st' hst'
  exact ⟨st, hst, hputs.mono hST⟩

omit [Hashing] in
theorem leaves_modified (now : Int64) {s : SearchEntriesDB db}
    {R : Unit → SearchEntriesDB db → Prop} {E : SearchEntriesDB db → Prop} (h : R () s) :
    Prog.Leaves (modified now : Prog ε _ Unit) s R E := by
  rw [modified, Prog.leaves_bind, Prog.leaves_get]
  split
  · exact Prog.leaves_undefined
  · exact h

/-- **What `insertResult` leaves behind.** -/
theorem leaves_insertResult (env : Surroundings) (se : SearchEntry) (s : SearchEntriesDB db) :
    Prog.Leaves (insertResult env se : Prog ε _ Unit) s
      (fun _ => StoredFrom (· = se) s) (StoredFrom (· = se) s) := by
  rw [insertResult, Prog.leaves_bind, Prog.leaves_get]
  cases hst : s.dbp with
  | none => exact storedFrom_of_dbp_eq rfl
  | some st =>
    dsimp only
    split
    · exact storedFrom_of_dbp_eq rfl
    · obtain ⟨buf, hwrite, hbytes⟩ := exists_write se (env.heap 0)
      rw [Prog.leaves_bind, Prog.leaves_modify, hwrite, Prog.ofOption, pure_bind]
      cases env.key with
      | none => exact Prog.leaves_undefined
      | some key =>
        rw [Prog.ofOption, pure_bind, Prog.leaves_bind, Prog.leaves_modify, hbytes]
        have hput : StoredFrom (· = se) s ⟨s.timestamps.set se.hash env.now,
            some (db.put st key se.encode).1⟩ := by
          intro st' hst'
          rw [← Option.some.inj hst']
          exact ⟨st, hst, .put st key se .nothing rfl⟩
        split
        · exact hput
        · exact leaves_modified env.later hput

/-- **What `doSearch` leaves behind.** -/
theorem leaves_doSearch (sur : Surroundings) (query : Bytes) (s : SearchEntriesDB db) :
    Prog.Leaves (doSearch sur query : Prog ε _ _) s
      (fun found s' => (∀ se ∈ found, se.title = []) ∧ s' = s) (fun s' => s' = s) := by
  by_cases hdbp : s.dbp = none
  · rw [Prog.Leaves, Prog.outcome, doSearch_of_none sur query hdbp]
    trivial
  · rw [Prog.Leaves, Prog.outcome, doSearch_eq_found sur query hdbp]
    exact ⟨fun se hse => title_of_mem_found hse, rfl⟩

end

section

variable {db : LookupDB} {ε : Type}

theorem title_of_getByHash {heap : ℕ → UInt8} {st : db.State} {hash : Bytes} {se : SearchEntry}
    (h : getByHash heap st hash = some se) : se.title = [] := by
  rw [getByHash] at h
  split at h
  · exact title_of_readRecord h
  · rw [← Option.some.inj h]
    rfl

/-- **What `getEntriesForBroadcast` leaves behind.** -/
theorem leaves_getEntriesForBroadcast (sur : Surroundings)
    (s : SearchEntriesDB db.toBerkeleyDB) :
    Prog.Leaves (getEntriesForBroadcast sur : Prog ε _ _) s
      (fun due s' => (∀ se ∈ due, se.title = []) ∧ s'.dbp = s.dbp) (fun s' => s'.dbp = s.dbp) := by
  rw [getEntriesForBroadcast, Prog.leaves_bind, Prog.leaves_get]
  obtain ⟨timestamps, dbp⟩ := s
  cases dbp with
  | none => exact ⟨fun se hse => absurd hse List.not_mem_nil, rfl⟩
  | some st =>
    rw [Prog.leaves_bind]
    refine Prog.leaves_ofOption fun due hdue => ?_
    rw [Prog.leaves_bind, Prog.leaves_modify, Prog.leaves_bind]
    refine leaves_modified sur.later ⟨fun se hse => ?_, rfl⟩
    obtain ⟨e, -, he⟩ := Prog.exists_of_mem_mapM hdue se hse
    exact title_of_getByHash he

end

end SearchEntriesDB

/-! ### The parts of the tasks -/

namespace EntriesPublishTask

variable {db : LookupDB} {ε : Type}

/-- `execute`, up to the call of `publishResults`: the entries of the own store that are
due, and those of the crawler. -/
def broadcast (sur : Surroundings) (crawled : List SearchEntry) :
    Prog ε (LocalNode db.toBerkeleyDB) (List SearchEntry) := do
  LocalNode.lock
  let due ← LocalNode.onSearchesDB (SearchEntriesDB.getEntriesForBroadcast sur)
  LocalNode.unlock
  pure (due ++ crawled)

/-- `publishResults`, up to its calls: the entries that are left for other nodes. -/
def beginPublish (env : PublishEnv) (results : List SearchEntry) :
    Publish db.toBerkeleyDB (OrdMap KadNode.order (List SearchEntry)) := do
  let selfNode := (← Prog.get).ktable.selfNode
  LocalNode.lock
  let m := publishMap env.std (← Prog.get).ktable results
  match m.find? selfNode with
  | none => do
      LocalNode.unlock
      pure m
  | some own => do
      insertAll env 0 own.2
      LocalNode.unlock
      pure (m.erase selfNode)

/-- **A publication is its two parts.** -/
theorem publishResults_eq_bind (env : PublishEnv) (results : List SearchEntry) :
    (publishResults env results : Publish db.toBerkeleyDB Unit) =
      beginPublish env results >>= fun m => (do
        let failed ← deliver env [] ∅ m.entries
        LocalNode.lock
        Prog.modify fun n => { n with ktable := update env failed m.entries n.ktable }
        LocalNode.unlock) := by
  simp only [publishResults, beginPublish, bind_assoc]
  congr 1
  funext n
  congr 1
  funext u
  congr 1
  funext n'
  cases (publishMap env.std n'.ktable results).find? n.ktable.selfNode with
  | none => rfl
  | some own =>
    simp only [bind_assoc]
    rfl

end EntriesPublishTask

namespace LocalNode

variable {db : BerkeleyDB} {ε : Type}

/-- `doSearch`, up to its calls: the state in front of the loop. -/
def beginSearch (env : SearchEnv) (query : Bytes) : Prog ε (LocalNode db) SearchState := do
  let selfNodeId := (← Prog.get).ktable.selfNode.id
  lock
  let nodes := (← Prog.get).ktable.getKClosestTo env.std (SimHash.ofString query).id
  let st ← gather env selfNodeId query SearchState.init nodes
  unlock
  pure st

/-- **A search is its two parts.** -/
theorem doSearch_eq_bind (env : SearchEnv) (query : Bytes) :
    (doSearch env query : Prog ε (LocalNode db) SearchState) =
      beginSearch env query >>= fun st => (do
        let st := st.searchLoop env none
        lock
        Prog.modify fun n => { n with ktable := afterSearch env st n.ktable }
        unlock
        pure (if st.results.isEmpty then { st with results := env.crawled } else st)) := by
  simp only [doSearch, beginSearch, bind_assoc, pure_bind]

end LocalNode

/-! ### What the parts leave behind -/

namespace LocalNode

section

variable {db : BerkeleyDB} {ε : Type}

/-- The table and the threads are the same. -/
def Alike (n n' : LocalNode db) : Prop := n'.ktable = n.ktable ∧ n'.detached = n.detached

omit [Hashing] in
theorem leaves_lock {n : LocalNode db} {R : Unit → LocalNode db → Prop}
    {E : LocalNode db → Prop} (h : R () { n with mutex := true }) :
    Prog.Leaves (lock : Prog ε _ _) n R E := by
  rw [lock, Prog.leaves_bind, Prog.leaves_get]
  split
  · exact Prog.leaves_stuck
  · exact h

theorem leaves_storeResult (env : Surroundings) (se : SearchEntry) (n : LocalNode db) :
    Prog.Leaves (storeResult env se : Prog ε _ _) n
      (fun _ n' => n.Alike n' ∧ SearchEntriesDB.StoredFrom (· = se) n.searchesDB n'.searchesDB)
      (fun n' => n.Alike n' ∧
        SearchEntriesDB.StoredFrom (· = se) n.searchesDB n'.searchesDB) := by
  rw [storeResult, Prog.leaves_bind]
  refine leaves_lock ?_
  rw [Prog.leaves_bind, onSearchesDB, Prog.leaves_zoom]
  refine (SearchEntriesDB.leaves_insertResult env se n.searchesDB).mono ?_ ?_
  · exact fun _ s hs => ⟨⟨rfl, rfl⟩, hs⟩
  · exact fun s hs => ⟨⟨rfl, rfl⟩, hs⟩

/-- The loop over the closest nodes. -/
theorem leaves_gather (env : SearchEnv) (selfNodeId : KadId) (query : Bytes) (n : LocalNode db)
    {P : KadNode → Prop} (nodes : List KadNode) (hnodes : ∀ kn ∈ nodes, P kn) :
    ∀ st : SearchState, (∀ kn ∈ st.targetNodes.elems, P kn) →
      (∀ se ∈ st.results, se.title = []) →
      Prog.Leaves (gather env selfNodeId query st nodes : Prog ε _ _) n
        (fun st' n' => n' = n ∧ (∀ kn ∈ st'.targetNodes.elems, P kn) ∧
          ∀ se ∈ st'.results, se.title = []) (fun n' => n' = n) := by
  induction nodes with
  | nil => exact fun st htargets hresults => ⟨rfl, htargets, hresults⟩
  | cons kn nodes ih =>
    intro st htargets hresults
    have hnodes' := fun x hx => hnodes x (List.mem_cons_of_mem _ hx)
    rw [gather]
    split
    · rw [Prog.leaves_bind, onSearchesDB, Prog.leaves_zoom]
      refine (SearchEntriesDB.leaves_doSearch (env.db kn) query n.searchesDB).mono ?_ ?_
      · rintro found s ⟨hfound, rfl⟩
        refine ih hnodes' _ htargets fun se hse => ?_
        rcases List.mem_append.mp hse with hse | hse
        · exact hresults se hse
        · exact hfound se hse
      · rintro s rfl
        rfl
    · refine ih hnodes' _ (fun x hx => ?_) hresults
      rcases OrdSet.mem_insert.mp hx with hx | ⟨-, rfl⟩
      · exact htargets x hx
      · exact hnodes x List.mem_cons_self

/-- **The first part of a search**: the targets are in the table, and what is found has no
title. -/
theorem leaves_beginSearch (env : SearchEnv) (query : Bytes) (n : LocalNode db) :
    Prog.Leaves (beginSearch env query : Prog ε _ _) n
      (fun st n' => n.Alike n' ∧ n'.searchesDB = n.searchesDB ∧
        (∀ kn ∈ st.targetNodes.elems, ∃ h, kn ∈ (n.ktable.buckets h).entries) ∧
        ∀ se ∈ st.results, se.title = [])
      (fun n' => n.Alike n' ∧ n'.searchesDB = n.searchesDB) := by
  rw [beginSearch, Prog.leaves_bind, Prog.leaves_get, Prog.leaves_bind]
  refine leaves_lock ?_
  rw [Prog.leaves_bind, Prog.leaves_get, Prog.leaves_bind]
  refine (leaves_gather env _ query _ (P := fun kn => ∃ h, kn ∈ (n.ktable.buckets h).entries) _
    (fun kn hkn => KadRoutingTable.exists_mem_of_mem_getClosestTo hkn) SearchState.init
    (fun _ hkn => nomatch hkn) fun _ hse => nomatch hse).mono ?_ ?_
  · rintro st n' ⟨rfl, htargets, hresults⟩
    exact ⟨⟨rfl, rfl⟩, rfl, htargets, hresults⟩
  · rintro n' rfl
    exact ⟨⟨rfl, rfl⟩, rfl⟩

end

end LocalNode

namespace EntriesPublishTask

section

variable {db : LookupDB} {ε : Type}

/-- **The start of a publication**: what the own store gives has no title. -/
theorem leaves_broadcast (sur : Surroundings) (crawled : List SearchEntry)
    (n : LocalNode db.toBerkeleyDB) :
    Prog.Leaves (broadcast sur crawled : Prog ε _ _) n
      (fun results n' => n.Alike n' ∧ n'.searchesDB.dbp = n.searchesDB.dbp ∧
        ∀ se ∈ results, se.title = [] ∨ se ∈ crawled)
      (fun n' => n.Alike n' ∧ n'.searchesDB.dbp = n.searchesDB.dbp) := by
  rw [broadcast, Prog.leaves_bind]
  refine LocalNode.leaves_lock ?_
  rw [Prog.leaves_bind, LocalNode.onSearchesDB, Prog.leaves_zoom]
  refine (SearchEntriesDB.leaves_getEntriesForBroadcast sur n.searchesDB).mono ?_ ?_
  · rintro due s ⟨hdue, hdbp⟩
    refine ⟨⟨rfl, rfl⟩, hdbp, fun se hse => ?_⟩
    exact (List.mem_append.mp hse).imp (hdue se) id
  · exact fun s hdbp => ⟨⟨rfl, rfl⟩, hdbp⟩

end

section

variable {db : BerkeleyDB}

theorem leaves_insertAll (env : PublishEnv) (i : ℕ) (rr : List SearchEntry) (n : LocalNode db) :
    Prog.Leaves (insertAll env i rr : Publish db Unit) n
      (fun _ n' => n.Alike n' ∧
        SearchEntriesDB.StoredFrom (· ∈ rr) n.searchesDB n'.searchesDB)
      (fun n' => n.Alike n' ∧
        SearchEntriesDB.StoredFrom (· ∈ rr) n.searchesDB n'.searchesDB) := by
  induction rr generalizing i n with
  | nil => exact ⟨⟨rfl, rfl⟩, SearchEntriesDB.storedFrom_of_dbp_eq rfl⟩
  | cons se rr ih =>
    rw [insertAll, Prog.leaves_bind, Prog.leaves_note, Prog.leaves_bind, LocalNode.onSearchesDB,
      Prog.leaves_zoom]
    have hfirst : ∀ s, SearchEntriesDB.StoredFrom (· = se) n.searchesDB s →
        SearchEntriesDB.StoredFrom (· ∈ se :: rr) n.searchesDB s :=
      fun s hs => hs.mono fun se' hse' => hse' ▸ List.mem_cons_self
    have hrest : ∀ s s' : SearchEntriesDB db, SearchEntriesDB.StoredFrom (· ∈ rr) s s' →
        SearchEntriesDB.StoredFrom (· ∈ se :: rr) s s' :=
      fun s s' hs => hs.mono fun se' hse' => List.mem_cons_of_mem _ hse'
    refine (SearchEntriesDB.leaves_insertResult (env.db i) se n.searchesDB).mono ?_ ?_
    · intro u s hs
      refine (ih (i + 1) { n with searchesDB := s }).mono ?_ ?_
      · exact fun _ n' h => ⟨h.1, (hfirst s hs).trans (hrest _ _ h.2)⟩
      · exact fun n' h => ⟨h.1, (hfirst s hs).trans (hrest _ _ h.2)⟩
    · exact fun s hs => ⟨⟨rfl, rfl⟩, hfirst s hs⟩

/-- The groups of a publication are nodes of the table with entries that are published. -/
theorem of_mem_publishMap_table {std : StdSort} {t : KadRoutingTable} {results : List SearchEntry}
    {g : KadNode × List SearchEntry} (hg : g ∈ (publishMap std t results).entries) :
    (∃ h, g.1 ∈ (t.buckets h).entries) ∧ ∀ se ∈ g.2, se ∈ results := by
  obtain ⟨hassigned, hentries⟩ := of_mem_publishMap hg
  obtain ⟨se, -, hkn⟩ := mem_assigned.mp hassigned
  refine ⟨KadRoutingTable.exists_mem_of_mem_getClosestTo hkn, fun se hse => ?_⟩
  obtain ⟨-, -, hmem, -⟩ := hentries se hse
  exact hmem

end

section

variable {db : LookupDB}

/-- **The first part of a publication**: the groups are nodes of the table with entries that
are published, and only such entries go to the own store. -/
theorem leaves_beginPublish (env : PublishEnv) (results : List SearchEntry)
    (n : LocalNode db.toBerkeleyDB) :
    Prog.Leaves (beginPublish env results) n
      (fun m n' => (n.Alike n' ∧
        SearchEntriesDB.StoredFrom (· ∈ results) n.searchesDB n'.searchesDB) ∧
        ∀ g ∈ m.entries, (∃ h, g.1 ∈ (n.ktable.buckets h).entries) ∧ ∀ se ∈ g.2, se ∈ results)
      (fun n' => n.Alike n' ∧
        SearchEntriesDB.StoredFrom (· ∈ results) n.searchesDB n'.searchesDB) := by
  rw [beginPublish, Prog.leaves_bind, Prog.leaves_get, Prog.leaves_bind]
  refine LocalNode.leaves_lock ?_
  rw [Prog.leaves_bind, Prog.leaves_get]
  dsimp only
  split
  · refine ⟨⟨⟨rfl, rfl⟩, SearchEntriesDB.storedFrom_of_dbp_eq rfl⟩, ?_⟩
    exact fun g hg => of_mem_publishMap_table hg
  · next own hown =>
    have hmem := of_mem_publishMap_table (List.mem_of_find?_eq_some hown)
    rw [Prog.leaves_bind]
    refine (leaves_insertAll env 0 own.2 _).mono ?_ ?_
    · rintro u n' ⟨halike, hstored⟩
      refine ⟨⟨halike, hstored.mono hmem.2⟩, fun g hg => ?_⟩
      exact of_mem_publishMap_table (OrdMap.mem_erase.mp hg).1
    · rintro n' ⟨halike, hstored⟩
      exact ⟨halike, hstored.mono hmem.2⟩

end

end EntriesPublishTask

end

end SniffDogSniff
