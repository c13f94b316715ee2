import SniffDogSniff.SdsCore.EntriesPublishTask
import SniffDogSniff.SdsCore.NodesLookupTask
import SniffDogSniff.SdsCore.SearchPushes

/-!
# Runs of a node

The table of a node is changed at the end of four tasks: the threads that answer a ping,
the lookups, the publications and the searches.  Each task reads the table under the
mutex, makes its calls while all others go on, and changes the table under the mutex
again.  A run has these parts in any order.

A node that others only tell of is not to get into the table before it has answered a
call to its own address.  The pings and the lookups push nothing that has not answered,
and what a publication pushes comes from the table.  A search pushes a node that it was
told of, whatever became of the call to it, unless it has seen the call fail.

## Main definitions

* `Task`, `TaskEnd`, `Task.ending` — a task between its two parts, what it has met in
  between, and its second part.
* `RunningNode`, `NodeEvent`, `RunningNode.step` — the runs.
* `RunningNode.Vouches`, `RunningNode.PushesVouched` — everything in the table, and
  everything that is pushed, was there at the start or has answered a call.
* `RunningNode.Settles` — the node that a search is told of has answered or failed.

## Main results

* `entries_ending` — what the end of a task brings into the table.
* `returns_doNodesLookup`, `returns_doSearch`, `returns_publishResults`,
  `returns_pingThread` — the programs are runs that nothing comes between.
* `pushesVouched_iff_settles` — what one event pushes.
* `vouches_iff_settles` — **nothing gets into the table unvouched precisely in the runs
  whose searches settle.**
-/

namespace SniffDogSniff

open KadRoutingTable (Call)

/-! ### The loop at the end of a task -/

namespace KadRoutingTable

/-- The calls of the loop: the nodes that have failed are removed, the others pushed. -/
def endCalls (failed : KadId → Bool) (now : KadNode → Int64) (nodes : List KadNode) : List Call :=
  nodes.map fun kn => if failed kn.id then .removeNode kn.id else .pushNode (now kn) kn

/-- The nodes that it pushes. -/
def notFailed (failed : KadId → Bool) (nodes : List KadNode) : List KadNode :=
  nodes.filter fun kn => !failed kn.id

theorem mem_notFailed_iff {failed : KadId → Bool} {nodes : List KadNode} {kn : KadNode} :
    kn ∈ notFailed failed nodes ↔ kn ∈ nodes ∧ failed kn.id = false := by
  rw [notFailed, List.mem_filter, Bool.not_eq_true']

theorem mem_notFailed_of_push {failed : KadId → Bool} {now : KadNode → Int64}
    {nodes : List KadNode} {time : Int64} {kn : KadNode}
    (h : .pushNode time kn ∈ endCalls failed now nodes) : kn ∈ notFailed failed nodes := by
  obtain ⟨kn', hmem, hcall⟩ := List.mem_map.mp h
  split at hcall
  · cases hcall
  · next hfailed =>
    cases hcall
    exact mem_notFailed_iff.mpr ⟨hmem, by simpa using hfailed⟩

/-- What the loop brings into the table. -/
theorem entries_endCalls {P : KadId → Bytes → Prop} (std : StdSort) (t : KadRoutingTable)
    (failed : KadId → Bool) (now : KadNode → Int64) (nodes : List KadNode)
    (ht : ∀ h, ∀ kn ∈ (t.buckets h).entries, P kn.id kn.address)
    (hpush : ∀ kn ∈ notFailed failed nodes, P kn.id kn.address) :
    ∀ h, ∀ kn ∈ ((Runs.run (step std) t (endCalls failed now nodes)).buckets h).entries,
      P kn.id kn.address :=
  entries_run std t _ ht fun _ kn hkn => hpush kn (mem_notFailed_of_push hkn)

end KadRoutingTable

open KadRoutingTable (endCalls notFailed mem_notFailed_iff entries_endCalls)

/-- The loops of the three tasks that have one. -/
theorem fst_afterLookup (env : LookupEnv) (st : LookupState) (t : KadRoutingTable) :
    (NodesLookupTask.afterLookup env st t).1 = Runs.run (KadRoutingTable.step env.std) t
      (endCalls st.failed.contains env.now st.probed.elems) := by
  have hfold : ∀ (nodes : List KadNode) (r : KadRoutingTable × ℕ),
      (nodes.foldl (fun r kn =>
        if st.failed.contains kn.id then ((r.1.removeNode env.std kn.id).1, r.2)
        else ((r.1.pushNode env.std (env.now kn) kn).1,
          if (r.1.pushNode env.std (env.now kn) kn).2 then r.2 else r.2 + 1)) r).1 =
        Runs.run (KadRoutingTable.step env.std) r.1 (endCalls st.failed.contains env.now nodes) := by
    intro nodes
    induction nodes with
    | nil => exact fun r => rfl
    | cons kn nodes ih =>
      intro r
      rw [List.foldl_cons, ih, endCalls, endCalls, List.map_cons, Runs.run_cons]
      split <;> rfl
  exact hfold st.probed.elems (t, 0)

section

variable [Hashing]

theorem update_eq (env : PublishEnv) (failed : List KadId)
    (es : List (KadNode × List SearchEntry)) (t : KadRoutingTable) :
    EntriesPublishTask.update env failed es t = Runs.run (KadRoutingTable.step env.std) t
      (endCalls (fun id => decide (id ∈ failed)) env.now (es.map (·.1))) := by
  induction es generalizing t with
  | nil => rfl
  | cons e es ih =>
    rw [EntriesPublishTask.update, List.foldl_cons, ← EntriesPublishTask.update, ih,
      List.map_cons, endCalls, endCalls, List.map_cons, Runs.run_cons]
    split
    · next hfailed => rw [if_pos (decide_eq_true hfailed)]; rfl
    · next hfailed => rw [if_neg (by simpa using hfailed)]; rfl

theorem afterSearch_eq (env : SearchEnv) (st : SearchState) (t : KadRoutingTable) :
    LocalNode.afterSearch env st t = Runs.run (KadRoutingTable.step env.std) t
      (endCalls st.failed.contains env.now st.targetNodes.elems) := by
  rw [LocalNode.afterSearch, Runs.run, endCalls, List.foldl_map]
  congr 1
  funext t kn
  split <;> rfl

/-! ### Tasks -/

/-- A task between its two parts, with what its first part leaves to the second. -/
inductive Task
  /-- A thread that is to ping a node, before it has looked for the node in the table. -/
  | toPing (kn : KadNode)
  /-- The same thread, when the node was not there. -/
  | pinging (kn : KadNode)
  | lookup (selfNode : KadNode) (targetId : KadId) (alphaClosest : List KadNode)
  | publish (m : OrdMap KadNode.order (List SearchEntry))
  | search (targetNodes : OrdSet KadNode.order) (results : List SearchEntry)

/-- What a task has met when it comes to its second part. -/
inductive TaskEnd
  | ping (answers : Bool) (now : Int64)
  | lookup (env : LookupEnv)
  | publish (env : PublishEnv)
  | search (env : SearchEnv)

/-- What the second part of a task does. -/
structure Ending where
  ktable : KadRoutingTable
  /-- The nodes that it pushes. -/
  pushed : List KadNode
  /-- The addresses at which the task has seen a call complete. -/
  completed : List Bytes

/-- The second part of a task. -/
def Task.ending (std : StdSort) (t : KadRoutingTable) : Task → TaskEnd → Option Ending
  | .pinging kn, .ping answers now =>
      if answers then some ⟨(t.pushNode std now kn).1, [kn], [kn.address]⟩
      else some ⟨t, [], []⟩
  | .lookup selfNode targetId alphaClosest, .lookup env =>
      let st := (LookupState.init alphaClosest).lookupLoop env selfNode targetId 0
      some
        { ktable := (NodesLookupTask.afterLookup env st t).1
          pushed := notFailed st.failed.contains st.probed.elems
          completed := st.answered.map (·.address) }
  | .publish m, .publish env =>
      let failed := EntriesPublishTask.failedIds env [] ∅ m.entries
      some
        { ktable := EntriesPublishTask.update env failed m.entries t
          pushed := notFailed (fun id => decide (id ∈ failed)) (m.entries.map (·.1))
          completed := (m.entries.filter fun e => decide (env.failure e.1 ≠ some 0)).map
            (·.1.address) }
  | .search targetNodes results, .search env =>
      let st := (LocalNode.entered targetNodes results).searchLoop env none
      some
        { ktable := LocalNode.afterSearch env st t
          pushed := notFailed st.failed.contains st.targetNodes.elems
          completed := (st.collected.filter fun kn => (env.reply kn).isSome).map (·.address) }
  | _, _ => none

/-- The nodes that a search starts with. -/
def searchTargets (std : StdSort) (t : KadRoutingTable) (query : Bytes) :
    OrdSet KadNode.order :=
  (∅ : OrdSet KadNode.order).insertAll
    ((t.getKClosestTo std (SimHash.ofString query).id).filter
      fun kn => decide (kn.id ≠ t.selfNode.id))

/-- The nodes of the table that a task will push. -/
def Task.nodes : Task → List KadNode
  | .publish m => m.entries.map (·.1)
  | .search targetNodes _ => targetNodes.elems
  | _ => []

/-- The ways in which a task ends. -/
inductive Task.Ended (std : StdSort) (t : KadRoutingTable) : Task → TaskEnd → Ending → Prop
  | answered (kn : KadNode) (now : Int64) :
      Ended std t (.pinging kn) (.ping true now) ⟨(t.pushNode std now kn).1, [kn], [kn.address]⟩
  | unanswered (kn : KadNode) (now : Int64) :
      Ended std t (.pinging kn) (.ping false now) ⟨t, [], []⟩
  | lookup (selfNode : KadNode) (targetId : KadId) (alphaClosest : List KadNode)
      (env : LookupEnv) (st : LookupState)
      (hst : st = (LookupState.init alphaClosest).lookupLoop env selfNode targetId 0) :
      Ended std t (.lookup selfNode targetId alphaClosest) (.lookup env)
        ⟨(NodesLookupTask.afterLookup env st t).1,
          notFailed st.failed.contains st.probed.elems, st.answered.map (·.address)⟩
  | publish (m : OrdMap KadNode.order (List SearchEntry)) (env : PublishEnv)
      (failed : List KadId) (completed : List Bytes) :
      Ended std t (.publish m) (.publish env)
        ⟨EntriesPublishTask.update env failed m.entries t,
          notFailed (fun id => decide (id ∈ failed)) (m.entries.map (·.1)), completed⟩
  | search (targetNodes : OrdSet KadNode.order) (results : List SearchEntry) (env : SearchEnv)
      (st : SearchState) (hst : st = (LocalNode.entered targetNodes results).searchLoop env none) :
      Ended std t (.search targetNodes results) (.search env)
        ⟨LocalNode.afterSearch env st t, notFailed st.failed.contains st.targetNodes.elems,
          (st.collected.filter fun kn => (env.reply kn).isSome).map (·.address)⟩

/-- **Everything the end of a task can be.** -/
theorem Task.ending_cases {std : StdSort} {t : KadRoutingTable} {task : Task} {how : TaskEnd}
    {r : Ending} (hr : task.ending std t how = some r) : task.Ended std t how r := by
  rw [Task.ending.eq_def] at hr
  split at hr
  · next kn answers now =>
    cases answers
    · cases hr
      exact .unanswered kn now
    · cases hr
      exact .answered kn now
  · cases hr
    exact .lookup _ _ _ _ _ rfl
  · cases hr
    exact .publish _ _ _ _
  · cases hr
    exact .search _ _ _ _ rfl
  · cases hr

/-- **What the end of a task brings into the table** is what it pushes. -/
theorem entries_ending {P : KadId → Bytes → Prop} {std : StdSort} {t : KadRoutingTable}
    {task : Task} {how : TaskEnd} {r : Ending} (hr : task.Ended std t how r)
    (ht : ∀ h, ∀ kn ∈ (t.buckets h).entries, P kn.id kn.address)
    (hpush : ∀ kn ∈ r.pushed, P kn.id kn.address) :
    ∀ h, ∀ kn ∈ (r.ktable.buckets h).entries, P kn.id kn.address := by
  cases hr with
  | answered kn now =>
    refine KadRoutingTable.entries_run std t [.pushNode now kn] ht ?_
    intro now' kn' hmem
    cases List.mem_singleton.mp hmem
    exact hpush kn (List.mem_singleton_self _)
  | unanswered kn now => exact ht
  | lookup selfNode targetId alphaClosest env st hst =>
    simp only [fst_afterLookup]
    exact entries_endCalls env.std t _ env.now _ ht hpush
  | publish m env failed completed =>
    simp only [update_eq]
    exact entries_endCalls env.std t _ env.now _ ht hpush
  | search targetNodes results env st hst =>
    simp only [afterSearch_eq]
    exact entries_endCalls env.std t _ env.now _ ht hpush

/-! ### Runs -/

/-- A node, with the tasks that are between their two parts. -/
structure RunningNode where
  ktable : KadRoutingTable
  tasks : List Task
  /-- The addresses at which a call was completed. -/
  completed : List Bytes

/-- What changes the table or the tasks of a node. -/
inductive NodeEvent
  | setSelfNodeAddress (address : Bytes)
  /-- A ping comes in. -/
  | ping (id : KadId) (address : Bytes)
  /-- The thread that answers it looks for the node in the table. -/
  | checks (i : ℕ)
  | beginLookup (targetId : KadId)
  | beginPublish (results : List SearchEntry)
  /-- A search, with what it has found in the own store. -/
  | beginSearch (query : Bytes) (found : List SearchEntry)
  /-- A call completes whose outcome no task looks at in its second part: the ping in
  front of a call that throws, a call of a search that is not collected, and the calls
  that send the results of a search on. -/
  | completes (address : Bytes)
  /-- The second part of a task. -/
  | ends (i : ℕ) (how : TaskEnd)

namespace RunningNode

/-- A node that has been started with a table. -/
def started (t : KadRoutingTable) : RunningNode := ⟨t, [], []⟩

/-- The end of the `i`-th task. -/
def ending (std : StdSort) (s : RunningNode) (i : ℕ) (how : TaskEnd) : Option Ending :=
  s.tasks[i]?.bind fun task => task.ending std s.ktable how

/-- One event. -/
def step (std : StdSort) (s : RunningNode) : NodeEvent → RunningNode
  | .setSelfNodeAddress address => { s with ktable := s.ktable.setSelfNodeAddress address }
  | .ping id address =>
      -- a ping by the own id is fatal
      if s.ktable.selfNode.id = id then s
      else { s with tasks := s.tasks ++ [.toPing (KadNode.new id address)] }
  | .checks i =>
      match s.tasks[i]? with
      | some (.toPing kn) =>
          if s.ktable.hasNode kn then { s with tasks := s.tasks.eraseIdx i }
          else { s with tasks := s.tasks.set i (.pinging kn) }
      | _ => s
  | .beginLookup targetId =>
      { s with tasks := s.tasks ++
        [.lookup s.ktable.selfNode targetId (s.ktable.getClosestTo std targetId ALPHA)] }
  | .beginPublish results =>
      { s with tasks := s.tasks ++
        [.publish ((EntriesPublishTask.publishMap std s.ktable results).erase
          s.ktable.selfNode)] }
  | .beginSearch query found =>
      { s with tasks := s.tasks ++ [.search (searchTargets std s.ktable query) found] }
  | .completes address => { s with completed := s.completed ++ [address] }
  | .ends i how =>
      match s.ending std i how with
      | none => s
      | some r => ⟨r.ktable, s.tasks.eraseIdx i, s.completed ++ r.completed⟩

/-- The nodes that an event pushes. -/
def pushed (std : StdSort) (s : RunningNode) : NodeEvent → List KadNode
  | .ends i how =>
      match s.ending std i how with
      | none => []
      | some r => r.pushed
  | _ => []

/-- The node was there at the start, or a call to its address was completed. -/
def Vouched (known : KadId → Bytes → Prop) (s : RunningNode) (kn : KadNode) : Prop :=
  known kn.id kn.address ∨ kn.address ∈ s.completed

/-- **Every node in the table is vouched for.** -/
def Vouches (known : KadId → Bytes → Prop) (s : RunningNode) : Prop :=
  ∀ h, ∀ kn ∈ (s.ktable.buckets h).entries, s.Vouched known kn

/-- **Every node that is pushed is.** -/
def PushesVouched (std : StdSort) (known : KadId → Bytes → Prop) (s : RunningNode)
    (e : NodeEvent) : Prop :=
  ∀ kn ∈ s.pushed std e, (s.step std e).Vouched known kn

/-- The node that a search is told of is vouched for already, or a call to its address is
answered in a full batch, or one to its id fails there. -/
def EntrantSettles (known : KadId → Bytes → Prop) (s : RunningNode) (env : SearchEnv)
    (targetNodes : OrdSet KadNode.order) : Prop :=
  ∀ z, SearchState.entrantOf env targetNodes = some z → s.Vouched known z ∨
    ∃ kn ∈ SearchState.settled ∅ (SearchState.asked env targetNodes),
      (env.reply kn = none ∧ kn.id = z.id) ∨ (env.reply kn ≠ none ∧ kn.address = z.address)

/-- A search that ends settles the node that it is told of. -/
def Settles (known : KadId → Bytes → Prop) (s : RunningNode) : NodeEvent → Prop
  | .ends i (.search env) => ∀ targetNodes results,
      s.tasks[i]? = some (.search targetNodes results) → s.EntrantSettles known env targetNodes
  | _ => True

/-- What holds between two events: the tasks have nothing to push but what is vouched for, or
will be. -/
structure Inv (known : KadId → Bytes → Prop) (s : RunningNode) : Prop where
  table : s.Vouches known
  tasks : ∀ task ∈ s.tasks, ∀ kn ∈ task.nodes, s.Vouched known kn

variable {std : StdSort} {known : KadId → Bytes → Prop} {s s' : RunningNode} {kn : KadNode}

theorem Vouched.mono (h : s.Vouched known kn) (hsub : s.completed ⊆ s'.completed) :
    s'.Vouched known kn := h.imp id fun hmem => hsub hmem

/-- What was completed stays so. -/
theorem completed_subset_step (std : StdSort) (s : RunningNode) (e : NodeEvent) :
    s.completed ⊆ (s.step std e).completed := by
  cases e with
  | setSelfNodeAddress address => exact List.Subset.refl _
  | ping id address =>
    rw [step]
    split
    · exact List.Subset.refl _
    · exact List.Subset.refl _
  | checks i =>
    rw [step]
    split
    · split
      · exact List.Subset.refl _
      · exact List.Subset.refl _
    · exact List.Subset.refl _
  | beginLookup targetId => exact List.Subset.refl _
  | beginPublish results => exact List.Subset.refl _
  | beginSearch query found => exact List.Subset.refl _
  | completes address => exact List.subset_append_left _ _
  | ends i how =>
    rw [step]
    split
    · exact List.Subset.refl _
    · exact List.subset_append_left _ _

/-! ### What a task starts with -/

theorem vouched_of_mem_publishMap (h : s.Vouches known) {results : List SearchEntry}
    {g : KadNode × List SearchEntry}
    (hg : g ∈ (EntriesPublishTask.publishMap std s.ktable results).entries) :
    s.Vouched known g.1 := by
  obtain ⟨se, -, hkn⟩ := EntriesPublishTask.mem_assigned.mp
    (EntriesPublishTask.of_mem_publishMap hg).1
  obtain ⟨k, hk⟩ := KadRoutingTable.exists_mem_of_mem_getClosestTo hkn
  exact h k g.1 hk

theorem vouched_of_mem_searchTargets (h : s.Vouches known) {query : Bytes}
    (hkn : kn ∈ (searchTargets std s.ktable query).elems) : s.Vouched known kn := by
  rcases OrdSet.mem_of_mem_insertAll hkn with hkn | hkn
  · cases hkn
  · obtain ⟨k, hk⟩ := KadRoutingTable.exists_mem_of_mem_getClosestTo (List.mem_filter.mp hkn).1
    exact h k kn hk

/-! ### One event -/

/-- What the end of a task has to push. -/
theorem pushesVouched_ends_iff {i : ℕ} {how : TaskEnd} {r : Ending}
    (hr : s.ending std i how = some r) :
    s.PushesVouched std known (.ends i how) ↔
      ∀ kn ∈ r.pushed, known kn.id kn.address ∨ kn.address ∈ s.completed ++ r.completed := by
  rw [PushesVouched, pushed, step, hr]
  rfl

/-- A new task keeps the invariant if its nodes are in the table. -/
theorem Inv.begin (h : s.Inv known) {task : Task} (htask : ∀ kn ∈ task.nodes, s.Vouched known kn) :
    Inv known { s with tasks := s.tasks ++ [task] } := by
  refine ⟨h.table, fun task' hmem => ?_⟩
  rcases List.mem_append.mp hmem with hmem | hmem
  · exact h.tasks task' hmem
  · rw [List.mem_singleton.mp hmem]
    exact htask

/-- **An event that pushes only nodes that are vouched for keeps the invariant.** -/
theorem inv_step (h : s.Inv known) {e : NodeEvent} (hpush : s.PushesVouched std known e) :
    (s.step std e).Inv known := by
  cases e with
  | setSelfNodeAddress address => exact ⟨h.table, h.tasks⟩
  | ping id address =>
    rw [step]
    split
    · exact h
    · exact h.begin fun kn hkn => nomatch hkn
  | checks i =>
    rw [step]
    split
    · next kn hi =>
      split
      · exact ⟨h.table, fun task hmem => h.tasks task (List.mem_of_mem_eraseIdx hmem)⟩
      · refine ⟨h.table, fun task hmem => ?_⟩
        rcases List.mem_or_eq_of_mem_set hmem with hmem | rfl
        · exact h.tasks task hmem
        · exact fun kn hkn => nomatch hkn
    · exact h
  | beginLookup targetId => exact h.begin fun kn hkn => nomatch hkn
  | beginPublish results =>
    refine h.begin fun kn hkn => ?_
    obtain ⟨g, hg, rfl⟩ := List.mem_map.mp hkn
    exact vouched_of_mem_publishMap h.table (OrdMap.mem_erase.mp hg).1
  | beginSearch query found => exact h.begin fun kn hkn => vouched_of_mem_searchTargets h.table hkn
  | completes address =>
    have hsub := completed_subset_step std s (.completes address)
    exact ⟨fun k kn hkn => (h.table k kn hkn).mono hsub,
      fun task hmem kn hkn => (h.tasks task hmem kn hkn).mono hsub⟩
  | ends i how =>
    have hsub := completed_subset_step std s (.ends i how)
    rw [step] at hsub ⊢
    cases hending : s.ending std i how with
    | none => exact h
    | some r =>
      rw [hending] at hsub
      obtain ⟨task, -, hr⟩ := Option.bind_eq_some_iff.mp hending
      constructor
      · refine entries_ending (P := fun id address => known id address ∨
          address ∈ s.completed ++ r.completed) (Task.ending_cases hr) ?_
          ((pushesVouched_ends_iff hending).mp hpush)
        exact fun k kn hkn => (h.table k kn hkn).mono hsub
      · intro task' hmem kn hkn
        exact (h.tasks task' (List.mem_of_mem_eraseIdx hmem) kn hkn).mono hsub

/-- An address at which a search has seen a call complete. -/
theorem mem_completed_search_iff {env : SearchEnv} {targetNodes : OrdSet KadNode.order}
    {results : List SearchEntry} {address : Bytes} :
    address ∈ (((LocalNode.entered targetNodes results).searchLoop env none).collected.filter
        fun kn => (env.reply kn).isSome).map (·.address) ↔
      ∃ kn ∈ SearchState.settled ∅ (SearchState.asked env targetNodes),
        env.reply kn ≠ none ∧ kn.address = address := by
  simp only [SearchState.collected_search, List.mem_map, List.mem_filter, Option.isSome_iff_ne_none,
    and_assoc]

/-- **A search pushes nothing unvouched** exactly where it settles the node that it is told
of. -/
theorem search_vouched_iff {env : SearchEnv} {targetNodes : OrdSet KadNode.order}
    (results : List SearchEntry) (h : ∀ kn ∈ targetNodes.elems, s.Vouched known kn)
    {st : SearchState} (hst : st = (LocalNode.entered targetNodes results).searchLoop env none) :
    (∀ kn ∈ notFailed st.failed.contains st.targetNodes.elems,
      known kn.id kn.address ∨ kn.address ∈ s.completed ++
        (st.collected.filter fun kn => (env.reply kn).isSome).map (·.address)) ↔
      s.EntrantSettles known env targetNodes := by
  subst hst
  constructor
  · intro hpush z hz
    by_cases hfailed : ((LocalNode.entered targetNodes results).searchLoop env none).failed.contains
        z.id = true
    · obtain ⟨kn, hkn, hnone, hid⟩ :=
        (SearchState.contains_failed_search_iff env targetNodes results).mp hfailed
      exact Or.inr ⟨kn, hkn, Or.inl ⟨hnone, hid⟩⟩
    · have hmem : z ∈
          ((LocalNode.entered targetNodes results).searchLoop env none).targetNodes.elems :=
        (SearchState.mem_targetNodes_search_iff env targetNodes results).mpr (Or.inr hz)
      rcases hpush z (mem_notFailed_iff.mpr ⟨hmem, by simpa using hfailed⟩) with hknown | haddr
      · exact Or.inl (Or.inl hknown)
      · rcases List.mem_append.mp haddr with haddr | haddr
        · exact Or.inl (Or.inr haddr)
        · obtain ⟨kn, hkn, hanswered⟩ := mem_completed_search_iff.mp haddr
          exact Or.inr ⟨kn, hkn, Or.inr hanswered⟩
  · intro hsettles kn hkn
    obtain ⟨hmem, hfailed⟩ := mem_notFailed_iff.mp hkn
    have hold : s.Vouched known kn → _ := Or.imp id (List.mem_append_left
      ((((LocalNode.entered targetNodes results).searchLoop env none).collected.filter
        fun kn => (env.reply kn).isSome).map (·.address)))
    rcases (SearchState.mem_targetNodes_search_iff env targetNodes results).mp hmem with
      hkn | hentrant
    · exact hold (h kn hkn)
    rcases hsettles kn hentrant with hvouched | ⟨x, hx, ⟨hnone, hid⟩ | hanswered⟩
    · exact hold hvouched
    · -- its id has failed, so it is not pushed
      rw [(SearchState.contains_failed_search_iff env targetNodes results).mpr
        ⟨x, hx, hnone, hid⟩] at hfailed
      cases hfailed
    · exact Or.inr (List.mem_append_right _ (mem_completed_search_iff.mpr ⟨x, hx, hanswered⟩))

/-- **An event pushes nothing unvouched** exactly where a search that ends settles the node
that it is told of. -/
theorem pushesVouched_iff_settles (h : s.Inv known) (e : NodeEvent) :
    s.PushesVouched std known e ↔ s.Settles known e := by
  cases e with
  | ends i how =>
    cases hending : s.ending std i how with
    | none =>
      refine iff_of_true ?_ ?_
      · intro kn hkn
        rw [pushed, hending] at hkn
        cases hkn
      · -- a search does come to an end
        cases how with
        | search env =>
          intro targetNodes results htask
          rw [ending, htask] at hending
          cases hending
        | ping answers now => trivial
        | lookup env => trivial
        | publish env => trivial
    | some r =>
      obtain ⟨task, htask, hr⟩ := Option.bind_eq_some_iff.mp hending
      have hmem : task ∈ s.tasks := List.mem_of_getElem? htask
      rw [pushesVouched_ends_iff hending]
      cases Task.ending_cases hr with
      | answered kn now =>
        refine iff_of_true (fun kn' hkn => Or.inr (List.mem_append_right _ ?_)) trivial
        rw [List.mem_singleton.mp hkn]
        exact List.mem_singleton_self _
      | unanswered kn now => exact iff_of_true (fun kn' hkn => nomatch hkn) trivial
      | lookup selfNode targetId alphaClosest env st hst =>
        refine iff_of_true (fun kn hkn => Or.inr (List.mem_append_right _ ?_)) trivial
        obtain ⟨hprobed, hfailed⟩ := mem_notFailed_iff.mp hkn
        have hanswers : st.Answers := hst ▸ LookupState.answers_lookupLoop env selfNode targetId 0 _
          fun kn hkn => nomatch hkn
        rcases hanswers kn hprobed with hanswered | hfailed'
        · exact List.mem_map_of_mem hanswered
        · rw [hfailed'] at hfailed
          cases hfailed
      | publish m env failed completed =>
        refine iff_of_true (fun kn hkn => ?_) trivial
        have hkn' : kn ∈ notFailed (fun id => decide (id ∈ failed)) (m.entries.map (·.1)) := hkn
        exact (h.tasks _ hmem kn (mem_notFailed_iff.mp hkn').1).imp id (List.mem_append_left _)
      | search targetNodes results env st hst =>
        rw [search_vouched_iff results (h.tasks _ hmem) hst]
        constructor
        · intro hsettles targetNodes' results' htask'
          cases htask.symm.trans htask'
          exact hsettles
        · exact fun hsettles => hsettles targetNodes results htask
  | setSelfNodeAddress address => exact iff_of_true (fun kn hkn => nomatch hkn) trivial
  | ping id address => exact iff_of_true (fun kn hkn => nomatch hkn) trivial
  | checks i => exact iff_of_true (fun kn hkn => nomatch hkn) trivial
  | beginLookup targetId => exact iff_of_true (fun kn hkn => nomatch hkn) trivial
  | beginPublish results => exact iff_of_true (fun kn hkn => nomatch hkn) trivial
  | beginSearch query found => exact iff_of_true (fun kn hkn => nomatch hkn) trivial
  | completes address => exact iff_of_true (fun kn hkn => nomatch hkn) trivial

/-! ### The programs -/

section

variable {db : BerkeleyDB} {ε : Type} {n : LocalNode db}

/-- A lookup that nothing comes between. -/
theorem returns_doNodesLookup (env : LookupEnv) (targetId : KadId) :
    Prog.Returns (NodesLookupTask.doNodesLookup env targetId : Prog ε _ _) n fun _ n' =>
      n'.ktable = (Runs.run (step env.std) (started n.ktable)
        [.beginLookup targetId, .ends 0 (.lookup env)]).ktable := by
  rw [NodesLookupTask.doNodesLookup, Prog.returns_bind]
  refine LocalNode.returns_lock ?_
  simp only [Prog.returns_bind, Prog.returns_get, LocalNode.unlock, Prog.returns_modify]
  refine LocalNode.returns_lock ?_
  exact rfl

/-- A search that nothing comes between, for what it finds in the own store. -/
theorem returns_doSearch (env : SearchEnv) (query : Bytes) :
    Prog.Returns (LocalNode.doSearch env query : Prog ε _ _) n fun _ n' =>
      ∃ found, n'.ktable = (Runs.run (step env.std) (started n.ktable)
        [.beginSearch query found, .ends 0 (.search env)]).ktable := by
  rw [LocalNode.doSearch, Prog.returns_bind, Prog.returns_get, Prog.returns_bind]
  refine LocalNode.returns_lock ?_
  rw [Prog.returns_bind, Prog.returns_get, Prog.returns_bind]
  refine (LocalNode.returns_gather (n := { n with mutex := true }) env query _ _).mono ?_
  rintro st n' ⟨rfl, found, rfl⟩
  simp only [Prog.returns_bind, LocalNode.unlock, Prog.returns_modify]
  refine LocalNode.returns_lock ?_
  exact ⟨found, rfl⟩

/-- A publication that nothing comes between. -/
theorem returns_publishResults (env : PublishEnv) (results : List SearchEntry) :
    Prog.Returns (EntriesPublishTask.publishResults env results) n fun _ n' =>
      n'.ktable = (Runs.run (step env.std) (started n.ktable)
        [.beginPublish results, .ends 0 (.publish env)]).ktable := by
  rw [EntriesPublishTask.publishResults, Prog.returns_bind, Prog.returns_get, Prog.returns_bind]
  refine LocalNode.returns_lock ?_
  rw [Prog.returns_bind, Prog.returns_get]
  have hend : ∀ n' : LocalNode db, n'.ktable = n.ktable →
      Prog.Returns (EntriesPublishTask.publishToNodes env
        ((EntriesPublishTask.publishMap env.std n.ktable results).erase n.ktable.selfNode)) n'
        fun _ n'' => n''.ktable = (Runs.run (step env.std) (started n.ktable)
          [.beginPublish results, .ends 0 (.publish env)]).ktable := by
    intro n' hsame
    refine (EntriesPublishTask.returns_publishToNodes env _ n').mono fun _ n'' h => ?_
    rw [h, hsame]
    rfl
  dsimp only
  split
  · next hfind =>
    rw [← OrdMap.erase_of_find?_eq_none hfind]
    exact hend { n with mutex := true } rfl
  · next own hfind =>
    rw [Prog.returns_bind]
    refine (EntriesPublishTask.returns_insertAll env 0 own.2 { n with mutex := true }).mono ?_
    exact fun _ n' hsame => hend n' hsame

/-- A detached thread that nothing comes between. -/
theorem returns_pingThread (std : StdSort) {i : ℕ} {kn : KadNode}
    (hi : n.detached[i]? = some kn) (answers : Bool) (now : Int64) :
    Prog.Returns (LocalNode.pingThread std i answers now : Prog ε _ _) n fun _ n' =>
      n'.ktable = (Runs.run (step std) ⟨n.ktable, [.toPing kn], []⟩
        [.checks 0, .ends 0 (.ping answers now)]).ktable := by
  rw [LocalNode.pingThread, Prog.returns_bind, Prog.returns_get, hi]
  simp only [Prog.returns_bind, Prog.returns_modify]
  have hchecks : step std ⟨n.ktable, [.toPing kn], []⟩ (.checks 0) =
      if n.ktable.hasNode kn then ⟨n.ktable, [], []⟩ else ⟨n.ktable, [.pinging kn], []⟩ := rfl
  rw [Runs.run_cons, hchecks]
  by_cases hhas : n.ktable.hasNode kn = true
  · rw [hhas]
    exact rfl
  · rw [if_neg hhas, Bool.eq_false_iff.mpr hhas, Bool.false_or]
    cases answers with
    | false => exact rfl
    | true =>
      simp only [Bool.not_true, Bool.false_eq_true, if_false, Prog.returns_bind]
      refine LocalNode.returns_lock ?_
      exact rfl

end

/-! ### Whole runs -/

/-- A node of the configured peers, or of the table that a run starts with. -/
def IsKnown (peers : List (KadId × Bytes)) (t : KadRoutingTable) (id : KadId) (address : Bytes) :
    Prop :=
  (id, address) ∈ peers ∨ ∃ h, ∃ kn ∈ (t.buckets h).entries, kn.id = id ∧ kn.address = address

theorem inv_started (peers : List (KadId × Bytes)) (t : KadRoutingTable) :
    (started t).Inv (IsKnown peers t) where
  table h kn hkn := Or.inl (Or.inr ⟨h, kn, hkn, rfl, rfl⟩)
  tasks _ hmem := nomatch hmem

/-- **In every run, nothing that has not answered a call is pushed or gets into the table,
precisely where every search settles the node that it is told of.** -/
theorem vouches_iff_settles (std : StdSort) (peers : List (KadId × Bytes)) (t : KadRoutingTable)
    (events : List NodeEvent) :
    Runs.Always (step std) (Vouches (IsKnown peers t)) (started t) events ∧
        Runs.Along (step std) (PushesVouched std (IsKnown peers t)) (started t) events ↔
      Runs.Along (step std) (Settles (IsKnown peers t)) (started t) events := by
  have hinv := inv_started peers t
  -- the invariant goes along with the pushes
  have hiff : Runs.Always (step std) (Inv (IsKnown peers t)) (started t) events ∧
      Runs.Along (step std) (PushesVouched std (IsKnown peers t)) (started t) events ↔
        Runs.Along (step std) (Settles (IsKnown peers t)) (started t) events := by
    refine Runs.always_and_along_iff (fun s e h => ?_) events (started t) hinv
    rw [← pushesVouched_iff_settles h e]
    exact ⟨And.right, fun hpush => ⟨inv_step h hpush, hpush⟩⟩
  constructor
  · rintro ⟨-, hpushes⟩
    exact hiff.mp ⟨Runs.always_of_along (fun s e h hpush => inv_step h hpush) _ _ hinv hpushes,
      hpushes⟩
  · intro hsettles
    obtain ⟨halways, hpushes⟩ := hiff.mpr hsettles
    exact ⟨halways.mono fun _ h => h.table, hpushes⟩

end RunningNode

end

/-- A table with three nodes, which were seen at different times. -/
def acquaintances : KadRoutingTable :=
  KadRoutingTable.reached StdSort.insertion (KadId.ofNat 2)
    [.pushNode 0 (KadNode.new (KadId.ofNat 1) [97]),
      .pushNode 1000 (KadNode.new (KadId.ofNat 1) [97]),
      .pushNode 0 (KadNode.new (KadId.ofNat 4) [98]),
      .pushNode 2000 (KadNode.new (KadId.ofNat 4) [98]),
      .pushNode 0 (KadNode.new (KadId.ofNat 8) [99]),
      .pushNode 3000 (KadNode.new (KadId.ofNat 8) [99])]

/-- The three tell of a fourth one, and the call to that one throws. -/
def SearchEnv.hearsay [Hashing] : SearchEnv where
  std := StdSort.insertion
  db := fun _ => Surroundings.zero
  reply kn :=
    if kn.id = KadId.ofNat 16 then none
    else some ⟨⟨(∅ : NearestMap).set (KadId.ofNat 16) [100]⟩, []⟩
  now := fun _ => 0
  crawled := []

/-- The search starts with the three. -/
theorem elems_searchTargets_acquaintances :
    letI := Hashing.blank
    (searchTargets StdSort.insertion acquaintances [97]).elems =
      [⟨KadId.ofNat 8, [99], 3000, 0⟩, ⟨KadId.ofNat 4, [98], 2000, 0⟩,
        ⟨KadId.ofNat 1, [97], 1000, 0⟩] := by
  decide +kernel

/-- They are the nodes whose outcomes are collected. -/
theorem settled_hearsay :
    letI := Hashing.blank
    SearchState.settled ∅ (SearchState.asked SearchEnv.hearsay
        (searchTargets StdSort.insertion acquaintances [97])) =
      [⟨KadId.ofNat 1, [97], 1000, 0⟩, ⟨KadId.ofNat 4, [98], 2000, 0⟩,
        ⟨KadId.ofNat 8, [99], 3000, 0⟩] := by
  decide +kernel

theorem entrantOf_hearsay :
    letI := Hashing.blank
    SearchState.entrantOf SearchEnv.hearsay
        (searchTargets StdSort.insertion acquaintances [97]) =
      some (KadNode.new (KadId.ofNat 16) [100]) := by
  decide +kernel

/-- The fourth one has the address that no call was made to. -/
theorem not_isKnown_hearsay : ¬ RunningNode.IsKnown [] acquaintances (KadId.ofNat 16) [100] := by
  rintro (h | ⟨h, kn, hkn, hid, -⟩)
  · cases h
  · revert h kn
    decide +kernel

/-- With the pushes of the search, it is in the table. -/
theorem mem_acquaintances_pushed :
    ∃ h, ∃ kn ∈ ((Runs.run (KadRoutingTable.step StdSort.insertion) acquaintances
      [.pushNode 0 ⟨KadId.ofNat 8, [99], 3000, 0⟩, .pushNode 0 ⟨KadId.ofNat 4, [98], 2000, 0⟩,
        .pushNode 0 ⟨KadId.ofNat 1, [97], 1000, 0⟩,
        .pushNode 0 (KadNode.new (KadId.ofNat 16) [100])]).buckets h).entries,
      kn.id = KadId.ofNat 16 ∧ kn.address = [100] := by
  decide +kernel

/-- These are the pushes of the search. -/
theorem afterSearch_hearsay :
    letI := Hashing.blank
    LocalNode.afterSearch SearchEnv.hearsay
        ((LocalNode.entered (searchTargets StdSort.insertion acquaintances [97]) []).searchLoop
          SearchEnv.hearsay none) acquaintances =
      Runs.run (KadRoutingTable.step StdSort.insertion) acquaintances
        [.pushNode 0 ⟨KadId.ofNat 8, [99], 3000, 0⟩, .pushNode 0 ⟨KadId.ofNat 4, [98], 2000, 0⟩,
          .pushNode 0 ⟨KadId.ofNat 1, [97], 1000, 0⟩,
          .pushNode 0 (KadNode.new (KadId.ofNat 16) [100])] := by
  let _ := Hashing.blank
  -- none of the calls that were collected threw
  have hfailed : ((LocalNode.entered (searchTargets StdSort.insertion acquaintances [97])
      []).searchLoop SearchEnv.hearsay none).failed.contains = fun _ => false := by
    funext id
    rw [← Bool.not_eq_true, SearchState.contains_failed_search_iff, settled_hearsay]
    rintro ⟨kn, hkn, hnone, -⟩
    revert kn
    decide +kernel
  have htargets : ((searchTargets StdSort.insertion acquaintances [97]).insertAll
      [KadNode.new (KadId.ofNat 16) [100]]).elems =
        OrdSet.insertList KadNode.order (KadNode.new (KadId.ofNat 16) [100])
          (searchTargets StdSort.insertion acquaintances [97]).elems := rfl
  rw [afterSearch_eq, hfailed, SearchState.targetNodes_search, entrantOf_hearsay,
    Option.toList_some, htargets, elems_searchTargets_acquaintances]
  rfl

/-- A search brings the fourth one into the table, though it has answered no call. -/
theorem RunningNode.hearsay_not_vouches :
    letI := Hashing.blank
    ¬ Runs.Always (RunningNode.step StdSort.insertion)
      (RunningNode.Vouches (RunningNode.IsKnown [] acquaintances))
      (RunningNode.started acquaintances)
      [.beginSearch [97] [], .ends 0 (.search SearchEnv.hearsay)] := by
  let _ := Hashing.blank
  rintro ⟨-, -, hend⟩
  obtain ⟨h, kn, hkn, hid, haddr⟩ := mem_acquaintances_pushed
  rw [← afterSearch_hearsay] at hkn
  rcases hend h kn hkn with hknown | hcompleted
  · rw [hid, haddr] at hknown
    exact not_isKnown_hearsay hknown
  · -- only calls to the three were completed
    obtain ⟨x, hx, -, hxaddr⟩ := RunningNode.mem_completed_search_iff.mp hcompleted
    have hx' : x ∈ SearchState.settled ∅ (SearchState.asked SearchEnv.hearsay
        (searchTargets StdSort.insertion acquaintances [97])) := hx
    rw [settled_hearsay] at hx'
    rw [haddr] at hxaddr
    revert x
    decide +kernel

end SniffDogSniff
