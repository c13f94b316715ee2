import SniffDogSniff.SdsCore.LocalNode

/-!
# Publishing entries

`EntriesPublishTask` sends every entry to the nodes that are closest to its hash.
It collects the entries of each node in a map whose keys are the nodes, and the
order of nodes looks at nothing but the time at which they were seen.  What the map
has for the own node goes to the own store.

## Main definitions

* `PublishEvent` — a client is opened for a node, an entry is sent to a node, an
  entry goes to the own store.
* `EntriesPublishTask.publishMap`, `EntriesPublishTask.publishResults`.
* `EntriesPublishTask.Publishes` — every entry is sent to exactly its nodes.
* `EntriesPublishTask.SeenApart` — the nodes were seen at different times, and the
  own node at none of them.

## Main results

* `deliver_eq` — what is sent for the groups of a map, and what has failed.
* `publishes_iff_seenApart` — **every entry is sent to exactly its nodes precisely
  where they were seen apart.**
-/

namespace SniffDogSniff

section

variable [Hashing]

/-- What happens while entries are published. -/
inductive PublishEvent
  /-- A client is opened for the address of a node. -/
  | opened (kn : KadNode)
  /-- `storeResult` of an entry is called on that client. -/
  | stored (kn : KadNode) (se : SearchEntry)
  /-- An entry goes to the own store. -/
  | inserted (se : SearchEntry)

/-- What the task meets. -/
structure PublishEnv where
  std : StdSort
  /-- What the `i`-th insertion into the own store meets. -/
  db : ℕ → Surroundings
  /-- The call to a node that throws, if one does: 0 for the ping, and from 1 on for
  the calls of `storeResult`. -/
  failure : KadNode → Option ℕ
  /-- The clock when a node is pushed. -/
  now : KadNode → Int64

namespace EntriesPublishTask

variable {db : BerkeleyDB}

/-- A program of the task. -/
abbrev Publish (db : BerkeleyDB) := Prog PublishEvent (LocalNode db)

/-- The entries of each node, as `publishResults` collects them. -/
def publishMap (std : StdSort) (t : KadRoutingTable) (results : List SearchEntry) :
    OrdMap KadNode.order (List SearchEntry) :=
  results.foldl
    (fun m se => (t.getKClosestTo std se.simHash.id).foldl
      (fun m kn => m.alter kn [] (· ++ [se])) m) ∅

/-- The own store takes entries, from the `i`-th insertion on. -/
def insertAll (env : PublishEnv) : ℕ → List SearchEntry → Publish db Unit
  | _, [] => pure ()
  | i, se :: rr => do
      Prog.note (.inserted se)
      LocalNode.onSearchesDB (SearchEntriesDB.insertResult (env.db i) se)
      insertAll env (i + 1) rr

/-- The entries for which the asynchronous task for a node calls `storeResult`. -/
def calls (env : PublishEnv) (e : KadNode × List SearchEntry) : List SearchEntry :=
  match env.failure e.1 with
  | none => e.2
  | some k => e.2.take k

/-- What that task does. -/
def sent (env : PublishEnv) (e : KadNode × List SearchEntry) : List PublishEvent :=
  .opened e.1 :: (calls env e).map (.stored e.1)

/-- One of its calls throws. -/
def threw (env : PublishEnv) (e : KadNode × List SearchEntry) : Bool :=
  match env.failure e.1 with
  | none => false
  | some k => decide (k ≤ e.2.length)

/-- The ids whose futures throw when they are collected. -/
def harvest (futures : OrdMap KadId.order Bool) : List KadId :=
  (futures.entries.filter (·.2)).map (·.1)

/-- The loops over the map, which start tasks until `ALPHA` futures are there and
collect them then.  The tasks of a batch run at the same time; here, what one does
comes after what the one before it does. -/
def deliver (env : PublishEnv) (failed : List KadId) (futures : OrdMap KadId.order Bool) :
    List (KadNode × List SearchEntry) → Publish db (List KadId)
  | [] => pure (failed ++ harvest futures)
  | e :: es => do
      Prog.noteAll (sent env e)
      let futures := futures.set e.1.id (threw env e)
      if futures.size < ALPHA then deliver env failed futures es
      else deliver env (failed ++ harvest futures) ∅ es

/-- The table afterwards. -/
def update (env : PublishEnv) (failed : List KadId) (es : List (KadNode × List SearchEntry))
    (t : KadRoutingTable) : KadRoutingTable :=
  es.foldl
    (fun t e => if e.1.id ∈ failed then (t.removeNode env.std e.1.id).1
      else (t.pushNode env.std (env.now e.1) e.1).1) t

/-- `publishResults`, once the own node is out of the map. -/
def publishToNodes (env : PublishEnv) (m : OrdMap KadNode.order (List SearchEntry)) :
    Publish db Unit := do
  LocalNode.unlock
  let failed ← deliver env [] ∅ m.entries
  LocalNode.lock
  Prog.modify fun n => { n with ktable := update env failed m.entries n.ktable }
  LocalNode.unlock

/-- `publishResults`. -/
def publishResults (env : PublishEnv) (results : List SearchEntry) : Publish db Unit := do
  let selfNode := (← Prog.get).ktable.selfNode
  LocalNode.lock
  let m := publishMap env.std (← Prog.get).ktable results
  match m.find? selfNode with
  | none => publishToNodes env m
  -- the group of any node that was seen at the same time is found as well
  | some own => do
      insertAll env 0 own.2
      publishToNodes env (m.erase selfNode)

/-! ### Events -/

/-- The ids that have failed at the end of these loops. -/
def failedIds (env : PublishEnv) (failed : List KadId) (futures : OrdMap KadId.order Bool) :
    List (KadNode × List SearchEntry) → List KadId
  | [] => failed ++ harvest futures
  | e :: es =>
      let futures := futures.set e.1.id (threw env e)
      if futures.size < ALPHA then failedIds env failed futures es
      else failedIds env (failed ++ harvest futures) ∅ es

/-- The groups of a map are dealt with one after the other, whatever the batches
are. -/
theorem deliver_eq (env : PublishEnv) :
    ∀ (es : List (KadNode × List SearchEntry)) (failed : List KadId)
      (futures : OrdMap KadId.order Bool) (n : LocalNode db),
      deliver env failed futures es n =
        (es.flatMap (sent env), .returned (failedIds env failed futures es) n) := by
  intro es
  induction es with
  | nil => exact fun failed futures n => rfl
  | cons e es ih =>
    intro failed futures n
    rw [deliver, Prog.bind_of_returned (m := Prog.noteAll _) rfl, failedIds, List.flatMap_cons]
    split
    · rw [ih]
    · rw [ih]

/-- The map groups the entries by the nodes that are closest to them. -/
theorem publishMap_eq_group (std : StdSort) (t : KadRoutingTable) (results : List SearchEntry) :
    publishMap std t results = OrdMap.group KadNode.order (results.flatMap fun se =>
      (t.getKClosestTo std se.simHash.id).map fun kn => (kn, se)) := by
  rw [OrdMap.group, List.foldl_flatMap]
  simp only [List.foldl_map]
  rfl

theorem opened_mem_sent_iff {env : PublishEnv} {g : KadNode × List SearchEntry} {kn : KadNode} :
    .opened kn ∈ sent env g ↔ kn = g.1 := by
  simp [sent]

theorem stored_mem_sent_iff {env : PublishEnv} {g : KadNode × List SearchEntry} {kn : KadNode}
    {se : SearchEntry} : .stored kn se ∈ sent env g ↔ kn = g.1 ∧ se ∈ calls env g := by
  simp only [sent, List.mem_cons, reduceCtorEq, List.mem_map, PublishEvent.stored.injEq, false_or]
  constructor
  · rintro ⟨se', hse', rfl, rfl⟩
    exact ⟨rfl, hse'⟩
  · rintro ⟨rfl, hse⟩
    exact ⟨se, hse, rfl, rfl⟩

theorem inserted_not_mem_sent {env : PublishEnv} {g : KadNode × List SearchEntry}
    {se : SearchEntry} : .inserted se ∉ sent env g := by
  simp [sent]

theorem mem_of_mem_calls {env : PublishEnv} {g : KadNode × List SearchEntry} {se : SearchEntry}
    (h : se ∈ calls env g) : se ∈ g.2 := by
  rw [calls] at h
  split at h
  · exact h
  · exact List.mem_of_mem_take h

theorem notes_insertAll (env : PublishEnv) (i : ℕ) (rr : List SearchEntry) :
    (insertAll env i rr : Publish db Unit).Notes fun e => ∃ se, e = .inserted se := by
  induction rr generalizing i with
  | nil => exact Prog.notes_pure ()
  | cons se rr ih =>
    refine Prog.Notes.bind (Prog.notes_note ⟨se, rfl⟩) fun _ => ?_
    refine Prog.Notes.bind ?_ fun _ => ih (i + 1)
    exact (SearchEntriesDB.silent_insertResult (env.db i) se).zoom.mono fun _ h => h.elim

/-- The own store does not touch the table. -/
theorem returns_insertAll (env : PublishEnv) (i : ℕ) (rr : List SearchEntry) (n : LocalNode db) :
    Prog.Returns (insertAll env i rr : Publish db Unit) n fun _ n' => n'.ktable = n.ktable := by
  induction rr generalizing i n with
  | nil => exact rfl
  | cons se rr ih =>
    rw [insertAll, Prog.returns_bind, Prog.returns_note, Prog.returns_bind,
      LocalNode.onSearchesDB, Prog.returns_zoom]
    exact Prog.returns_of_forall fun _ s => ih (i + 1) { n with searchesDB := s }

/-- The table behind the deliveries. -/
theorem returns_publishToNodes (env : PublishEnv) (m : OrdMap KadNode.order (List SearchEntry))
    (n : LocalNode db) :
    Prog.Returns (publishToNodes env m : Publish db Unit) n fun _ n' =>
      n'.ktable = update env (failedIds env [] ∅ m.entries) m.entries n.ktable := by
  have hrun := deliver_eq env m.entries [] ∅ { n with mutex := false }
  rw [publishToNodes, Prog.returns_bind, LocalNode.unlock, Prog.returns_modify, Prog.returns_bind,
    Prog.Returns, Prog.outcome, hrun]
  show Prog.Returns _ _ _
  rw [Prog.returns_bind]
  refine LocalNode.returns_lock ?_
  exact rfl

/-- What is sent is the groups of the map. -/
theorem events_publishToNodes (env : PublishEnv) (m : OrdMap KadNode.order (List SearchEntry))
    (n : LocalNode db) :
    (publishToNodes env m : Publish db Unit).events n = m.entries.flatMap (sent env) := by
  have hrun := deliver_eq env m.entries [] ∅ { n with mutex := false }
  -- updating the table behind the deliveries sends nothing
  have hend : Prog.Silent (do
      LocalNode.lock
      Prog.modify fun n : LocalNode db =>
        { n with ktable := update env (failedIds env [] ∅ m.entries) m.entries n.ktable }
      LocalNode.unlock : Publish db Unit) :=
    LocalNode.silent_lock.bind fun _ => (Prog.notes_modify _).bind fun _ => Prog.notes_modify _
  rw [publishToNodes, Prog.events, Prog.bind_of_returned_nil (m := LocalNode.unlock) rfl,
    Prog.bind_of_returned hrun, hend.run]
  exact List.append_nil _

/-- With the mutex free, the map is made, and then the own node is looked up in it. -/
theorem publishResults_of_free (env : PublishEnv) (results : List SearchEntry) {n : LocalNode db}
    (hfree : n.Free) :
    publishResults env results n =
      (match (publishMap env.std n.ktable results).find? n.ktable.selfNode with
        | none => publishToNodes env (publishMap env.std n.ktable results)
        | some own => do
            insertAll env 0 own.2
            publishToNodes env ((publishMap env.std n.ktable results).erase n.ktable.selfNode))
        { n with mutex := true } := by
  have hlock : (LocalNode.lock : Publish db Unit) n = ([], .returned () { n with mutex := true }) := by
    obtain ⟨mutex, ktable, searchesDB, detached⟩ := n
    have hmutex : mutex = false := hfree
    subst hmutex
    rfl
  rw [publishResults, Prog.get_bind, Prog.bind_of_returned_nil hlock, Prog.get_bind]

/-- Nothing is sent but groups that the own node is not taken for. -/
theorem mem_events_publishResults {env : PublishEnv} {results : List SearchEntry}
    {n : LocalNode db} (hfree : n.Free) {e : PublishEvent}
    (he : e ∈ (publishResults env results).events n) :
    (∃ se, e = .inserted se) ∨ ∃ g ∈ (publishMap env.std n.ktable results).entries,
      ¬ KadNode.order.Equiv n.ktable.selfNode g.1 ∧ e ∈ sent env g := by
  have hrun := congrArg Prod.fst (publishResults_of_free env results hfree)
  rw [Prog.events, hrun] at he
  cases hfind : (publishMap env.std n.ktable results).find? n.ktable.selfNode with
  | none =>
    rw [hfind] at he
    have hevents := events_publishToNodes env (publishMap env.std n.ktable results)
      { n with mutex := true }
    rw [Prog.events] at hevents
    simp only at he
    rw [hevents] at he
    obtain ⟨g, hg, heg⟩ := List.mem_flatMap.mp he
    refine Or.inr ⟨g, hg, ?_, heg⟩
    simpa using List.find?_eq_none.mp hfind g hg
  | some own =>
    rw [hfind] at he
    refine (Prog.Notes.bind (P := fun e => (∃ se, e = .inserted se) ∨
      ∃ g ∈ (publishMap env.std n.ktable results).entries,
        ¬ KadNode.order.Equiv n.ktable.selfNode g.1 ∧ e ∈ sent env g)
      ((notes_insertAll env 0 own.2).mono fun _ h => Or.inl h) fun _ => ?_) _ e he
    intro s e he
    have hevents := events_publishToNodes env
      ((publishMap env.std n.ktable results).erase n.ktable.selfNode) s
    rw [Prog.events] at hevents
    rw [hevents] at he
    obtain ⟨g, hg, heg⟩ := List.mem_flatMap.mp he
    rw [OrdMap.mem_erase] at hg
    exact Or.inr ⟨g, hg.1, hg.2, heg⟩

/-! ### Delivery -/

/-- The nodes that entries are assigned to. -/
def assigned (std : StdSort) (t : KadRoutingTable) (results : List SearchEntry) : List KadNode :=
  results.flatMap fun se => t.getKClosestTo std se.simHash.id

/-- **Every entry is sent to exactly its nodes.** -/
structure Publishes (env : PublishEnv) (n : LocalNode db) (results : List SearchEntry) : Prop where
  /-- A client is opened for every node that is closest to an entry, and unless the
  node fails, it is sent the entry. -/
  sent : ∀ se ∈ results, ∀ kn ∈ n.ktable.getKClosestTo env.std se.simHash.id,
    .opened kn ∈ (publishResults env results).events n ∧
      (env.failure kn = none → .stored kn se ∈ (publishResults env results).events n)
  /-- No other node is sent it. -/
  exact : ∀ kn se, .stored kn se ∈ (publishResults env results).events n →
    se ∈ results ∧ kn ∈ n.ktable.getKClosestTo env.std se.simHash.id
  /-- The own store takes it only if the own node is one of them. -/
  own : ∀ se, .inserted se ∈ (publishResults env results).events n →
    ∃ kn ∈ n.ktable.getKClosestTo env.std se.simHash.id, n.ktable.selfNode.eqv kn = true

/-- The nodes were seen at different times, and the own node at none of them. -/
def SeenApart (std : StdSort) (t : KadRoutingTable) (results : List SearchEntry) : Prop :=
  (∀ a ∈ assigned std t results, a.lastSeen ≠ t.selfNode.lastSeen) ∧
    ∀ a ∈ assigned std t results, ∀ b ∈ assigned std t results, a.lastSeen = b.lastSeen → a = b

theorem mem_assigned {std : StdSort} {t : KadRoutingTable} {results : List SearchEntry}
    {kn : KadNode} : kn ∈ assigned std t results ↔
      ∃ se ∈ results, kn ∈ t.getKClosestTo std se.simHash.id :=
  List.mem_flatMap

/-- What is in the map was assigned to nodes that were seen with its key. -/
theorem of_mem_publishMap {std : StdSort} {t : KadRoutingTable} {results : List SearchEntry}
    {g : KadNode × List SearchEntry} (hg : g ∈ (publishMap std t results).entries) :
    g.1 ∈ assigned std t results ∧ ∀ se ∈ g.2, ∃ kn, kn.lastSeen = g.1.lastSeen ∧
      se ∈ results ∧ kn ∈ t.getKClosestTo std se.simHash.id := by
  rw [publishMap_eq_group] at hg
  obtain ⟨⟨p, hp, hkey⟩, hvalues⟩ := OrdMap.of_mem_group hg
  have hpair : ∀ p : KadNode × SearchEntry, p ∈ (results.flatMap fun se =>
      (t.getKClosestTo std se.simHash.id).map fun kn => (kn, se)) →
        p.2 ∈ results ∧ p.1 ∈ t.getKClosestTo std p.2.simHash.id := by
    intro p hp
    obtain ⟨se, hse, hp⟩ := List.mem_flatMap.mp hp
    obtain ⟨kn, hkn, rfl⟩ := List.mem_map.mp hp
    exact ⟨hse, hkn⟩
  refine ⟨?_, fun se hse => ?_⟩
  · rw [← hkey]
    exact mem_assigned.mpr ⟨p.2, hpair p hp⟩
  · obtain ⟨p', hp', heq, rfl⟩ := hvalues se hse
    exact ⟨p'.1, KadNode.order_equiv_iff.mp heq, hpair p' hp'⟩

/-- Every entry is in the map, under a node that was seen with its own. -/
theorem exists_mem_publishMap {std : StdSort} {t : KadRoutingTable} {results : List SearchEntry}
    {se : SearchEntry} (hse : se ∈ results) {kn : KadNode}
    (hkn : kn ∈ t.getKClosestTo std se.simHash.id) :
    ∃ g ∈ (publishMap std t results).entries, kn.lastSeen = g.1.lastSeen ∧ se ∈ g.2 := by
  rw [publishMap_eq_group]
  have hp : (kn, se) ∈ results.flatMap fun se =>
      (t.getKClosestTo std se.simHash.id).map fun kn => (kn, se) :=
    List.mem_flatMap.mpr ⟨se, hse, List.mem_map_of_mem hkn⟩
  obtain ⟨g, hg, heq, hmem⟩ := OrdMap.exists_mem_group (c := KadNode.order) hp
  exact ⟨g, hg, KadNode.order_equiv_iff.mp heq, hmem⟩

theorem seenApart_of_publishes {env : PublishEnv} {results : List SearchEntry}
    {n : LocalNode db} (hfree : n.Free) (h : Publishes env n results) :
    SeenApart env.std n.ktable results := by
  -- a node that is opened is a key of the map, and not taken for the own node
  have hkey : ∀ kn ∈ assigned env.std n.ktable results,
      ∃ g ∈ (publishMap env.std n.ktable results).entries,
        ¬ KadNode.order.Equiv n.ktable.selfNode g.1 ∧ kn = g.1 := by
    intro kn hkn
    obtain ⟨se, hse, hkn⟩ := mem_assigned.mp hkn
    rcases mem_events_publishResults hfree (h.sent se hse kn hkn).1 with
      ⟨se', hne⟩ | ⟨g, hg, hself, hmem⟩
    · cases hne
    · exact ⟨g, hg, hself, opened_mem_sent_iff.mp hmem⟩
  constructor
  · intro a ha heq
    obtain ⟨g, -, hself, rfl⟩ := hkey a ha
    exact hself (KadNode.order_equiv_iff.mpr heq.symm)
  · intro a ha b hb heq
    obtain ⟨g, hg, -, rfl⟩ := hkey a ha
    obtain ⟨g', hg', -, rfl⟩ := hkey b hb
    exact congrArg Prod.fst (OrdMap.eq_of_equiv hg hg' (KadNode.order_equiv_iff.mpr heq))

theorem publishes_of_seenApart {env : PublishEnv} {results : List SearchEntry}
    {n : LocalNode db} (hfree : n.Free) (h : SeenApart env.std n.ktable results) :
    Publishes env n results := by
  obtain ⟨hself, happart⟩ := h
  have hnone : (publishMap env.std n.ktable results).find? n.ktable.selfNode = none := by
    apply List.find?_eq_none.mpr
    intro g hg
    have hne := hself g.1 (of_mem_publishMap hg).1
    simpa [KadNode.order_equiv_iff] using hne.symm
  have hevents : (publishResults env results).events n =
      (publishMap env.std n.ktable results).entries.flatMap (sent env) := by
    rw [Prog.events, publishResults_of_free env results hfree, hnone]
    exact events_publishToNodes env _ _
  refine ⟨?_, ?_, ?_⟩
  · intro se hse kn hkn
    obtain ⟨g, hg, heq, hmem⟩ := exists_mem_publishMap hse hkn
    have hkn' : kn = g.1 := happart kn (mem_assigned.mpr ⟨se, hse, hkn⟩) g.1
      (of_mem_publishMap hg).1 heq
    rw [hevents]
    refine ⟨List.mem_flatMap.mpr ⟨g, hg, opened_mem_sent_iff.mpr hkn'⟩, fun hfailure => ?_⟩
    refine List.mem_flatMap.mpr ⟨g, hg, stored_mem_sent_iff.mpr ⟨hkn', ?_⟩⟩
    rw [calls, ← hkn', hfailure]
    exact hmem
  · intro kn se he
    rw [hevents] at he
    obtain ⟨g, hg, hmem⟩ := List.mem_flatMap.mp he
    obtain ⟨rfl, hse⟩ := stored_mem_sent_iff.mp hmem
    obtain ⟨kn', heq, hse', hkn'⟩ := (of_mem_publishMap hg).2 se (mem_of_mem_calls hse)
    have hsame : kn' = g.1 := happart kn' (mem_assigned.mpr ⟨se, hse', hkn'⟩) g.1
      (of_mem_publishMap hg).1 heq
    exact ⟨hse', hsame ▸ hkn'⟩
  · intro se he
    rw [hevents] at he
    obtain ⟨g, -, hmem⟩ := List.mem_flatMap.mp he
    exact absurd hmem inserted_not_mem_sent

/-- **Every entry is sent to exactly its nodes precisely where these were seen
apart.** -/
theorem publishes_iff_seenApart (env : PublishEnv) (results : List SearchEntry)
    {n : LocalNode db} (hfree : n.Free) :
    Publishes env n results ↔ SeenApart env.std n.ktable results :=
  ⟨seenApart_of_publishes hfree, publishes_of_seenApart hfree⟩

end EntriesPublishTask

end

/-- A node that knows a single other one, which it has not seen yet. -/
def newcomerNode : LocalNode BerkeleyDB.inMemory where
  mutex := false
  ktable := KadRoutingTable.reached StdSort.insertion (KadId.ofNat 0)
    [.pushNode 0 (KadNode.new (KadId.ofNat 1) [97])]
  searchesDB := ⟨∅, some []⟩
  detached := []

/-- No call fails. -/
def PublishEnv.calm : PublishEnv where
  std := StdSort.insertion
  db := fun _ => Surroundings.zero
  failure := fun _ => none
  now := fun _ => 0

/-- An entry next to the other node. -/
def newcomerEntry [Hashing] : SearchEntry :=
  SearchEntry.ofFields ⟨KadId.ofNat 1⟩ [97] [97] .SITE ∅

/-- The table gives the other node, which was seen at time 0 like the own one. -/
theorem mem_getKClosestTo_newcomer :
    KadNode.new (KadId.ofNat 1) [97] ∈
      newcomerNode.ktable.getKClosestTo StdSort.insertion (KadId.ofNat 1) := by
  decide +kernel

/-- So the entry next to it stays in the own store. -/
theorem EntriesPublishTask.newcomer_not_publishes :
    letI := Hashing.blank
    ¬ EntriesPublishTask.Publishes PublishEnv.calm newcomerNode [newcomerEntry] := by
  let _ := Hashing.blank
  intro h
  have hfree : newcomerNode.Free := rfl
  have hassigned : KadNode.new (KadId.ofNat 1) [97] ∈ EntriesPublishTask.assigned
      StdSort.insertion newcomerNode.ktable [newcomerEntry] :=
    EntriesPublishTask.mem_assigned.mpr
      ⟨newcomerEntry, List.mem_singleton_self _, mem_getKClosestTo_newcomer⟩
  have hself : newcomerNode.ktable.selfNode.lastSeen = 0 := by decide +kernel
  exact (EntriesPublishTask.seenApart_of_publishes hfree h).1 _ hassigned hself.symm

/-- That node was not seen apart from the own one, and that is all there is to it. -/
theorem EntriesPublishTask.publishes_newcomer :
    letI := Hashing.blank
    EntriesPublishTask.Publishes PublishEnv.calm newcomerNode [newcomerEntry] ↔
      EntriesPublishTask.SeenApart PublishEnv.calm.std newcomerNode.ktable [newcomerEntry] :=
  letI := Hashing.blank
  EntriesPublishTask.publishes_iff_seenApart PublishEnv.calm [newcomerEntry] rfl

end SniffDogSniff
