import SniffDogSniff.Kademlia.OwnEntries
import SniffDogSniff.P2P.NodeNetwork

/-!
# Whom the nodes know

In a network in which every node runs this program, nodes are told of other nodes by
pings, by the answers of `findNode`, and by what `findNode` answers to the stub of
`findResults`.  Searches put nodes into the table that have not answered a call
themselves.  Still, nobody is made up on the way: whatever id is mentioned with an
address anywhere in a run was mentioned with it somewhere at the start.

## Main definitions

* `KadRoutingTable.Kept` — what pushes and removals keep.
* `NetNode.Within`, `NetState.Within` — all that is mentioned satisfies a predicate.
* `NetState.Mentions` — a node, its table, its threads or tasks, or an answer mentions an
  id with an address.

## Main results

* `within_step` — an event keeps to a predicate that its addresses are clean under.
* `mentions_run` — **what is mentioned after a run was mentioned at the start.**
-/

namespace SniffDogSniff

open SdsBytesBuf

/-! ### What the tasks leave alone -/

/-- A property of tables that pushes and removals keep. -/
def KadRoutingTable.Kept (Q : KadRoutingTable → Prop) : Prop :=
  ∀ std t call, (∀ address, call ≠ .setSelfNodeAddress address) → Q t →
    Q (KadRoutingTable.step std t call)

namespace KadRoutingTable

variable {Q : KadRoutingTable → Prop}

theorem kept_wellFormed : Kept WellFormed :=
  fun std t call _ ht => wellFormed_step std t call ht

theorem kept_selfNode (kn : KadNode) : Kept fun t => t.selfNode = kn :=
  fun std t _ hcall ht => (t.selfNode_step std hcall).trans ht

theorem kept_selfId (id : KadId) : Kept fun t => t.selfNode.id = id :=
  fun std t _ hcall ht => (congrArg KadNode.id (t.selfNode_step std hcall)).trans ht

theorem Kept.kept_run (hQ : Kept Q) (std : StdSort) {t : KadRoutingTable} (ht : Q t)
    {calls : List Call} (hcalls : ∀ call ∈ calls, ∀ address, call ≠ .setSelfNodeAddress address) :
    Q (Runs.run (step std) t calls) :=
  Runs.run_induction_of_mem (fun t call hcall ht => hQ std t call hcall ht) calls hcalls ht

/-- The loop at the end of a task. -/
theorem Kept.kept_endCalls (hQ : Kept Q) (std : StdSort) {t : KadRoutingTable} (ht : Q t)
    (failed : KadId → Bool) (now : KadNode → Int64) (nodes : List KadNode) :
    Q (Runs.run (step std) t (endCalls failed now nodes)) := by
  refine hQ.kept_run std ht ?_
  rintro call hmem address rfl
  obtain ⟨kn, -, hkn⟩ := List.mem_map.mp hmem
  split at hkn <;> cases hkn

end KadRoutingTable

/-- **What pushes and removals keep is kept by the end of a task.** -/
theorem KadRoutingTable.Kept.kept_ending [Hashing] {Q : KadRoutingTable → Prop} (hQ : Kept Q)
    {std : StdSort} {t : KadRoutingTable} {task : Task} {how : TaskEnd} {r : Ending}
    (hr : task.Ended std t how r) (ht : Q t) : Q r.ktable := by
  cases hr with
  | answered kn now =>
    have hpush : ∀ address, KadRoutingTable.Call.pushNode now kn ≠ .setSelfNodeAddress address :=
      nofun
    exact hQ std t _ hpush ht
  | unanswered kn now => exact ht
  | lookup selfNode targetId alphaClosest env st hst =>
    simp only [fst_afterLookup]
    exact hQ.kept_endCalls _ ht _ _ _
  | publish m env failed completed =>
    simp only [update_eq]
    exact hQ.kept_endCalls _ ht _ _ _
  | search targetNodes results env st hst =>
    simp only [afterSearch_eq]
    exact hQ.kept_endCalls _ ht _ _ _

/-! ### What the tasks push -/

section

variable {P : KadId → Bytes → Prop}

/-- The nodes of a lookup satisfy `P`. -/
structure LookupState.Within (P : KadId → Bytes → Prop) (st : LookupState) : Prop where
  alphaClosest : ∀ kn ∈ st.alphaClosest, P kn.id kn.address
  discovered : ∀ kn ∈ st.discovered, P kn.id kn.address
  probed : ∀ kn ∈ st.probed.elems, P kn.id kn.address

namespace LookupState

variable {env : LookupEnv} {selfNode : KadNode} {round : ℕ}

theorem forall_foldl_discover (probed : OrdSet KadNode.order) (nearest : List (KadId × Bytes))
    (hnearest : ∀ p ∈ nearest, P p.1 p.2) :
    ∀ discovered : List KadNode, (∀ kn ∈ discovered, P kn.id kn.address) →
      ∀ kn ∈ nearest.foldl (discover selfNode probed) discovered, P kn.id kn.address := by
  induction nearest with
  | nil => exact fun discovered h => h
  | cons p nearest ih =>
    intro discovered h
    refine ih (fun q hq => hnearest q (List.mem_cons_of_mem _ hq)) _ ?_
    rw [discover]
    split
    · exact h
    split
    · exact h
    · intro kn hkn
      rcases List.mem_append.mp hkn with hkn | hkn
      · exact h kn hkn
      · rw [List.mem_singleton.mp hkn]
        exact hnearest p List.mem_cons_self

theorem within_collect (hreply : ∀ i reply, env.reply round i = some reply →
      ∀ p ∈ reply.nearest.entries, P p.1 p.2) {st : LookupState} (h : st.Within P)
    {e : KadNode × ℕ} (he : P e.1.id e.1.address) : (st.collect env selfNode round e).Within P := by
  have hprobed : ∀ kn ∈ (st.probed.insert e.1).elems, P kn.id kn.address := by
    intro kn hkn
    rcases OrdSet.mem_insert.mp hkn with hkn | ⟨-, rfl⟩
    · exact h.probed kn hkn
    · exact he
  rw [collect]
  split
  · exact ⟨h.alphaClosest, h.discovered, hprobed⟩
  · next reply heq =>
    exact ⟨h.alphaClosest, forall_foldl_discover _ _ (hreply _ _ heq) _ h.discovered, hprobed⟩

theorem within_turn (hreply : ∀ i reply, env.reply round i = some reply →
      ∀ p ∈ reply.nearest.entries, P p.1 p.2) {st : LookupState} (h : st.Within P)
    (targetId : KadId) : (st.turn env selfNode targetId round).Within P := by
  have hfold : ∀ (es : List (KadNode × ℕ)) (st : LookupState), st.Within P →
      (∀ e ∈ es, P e.1.id e.1.address) →
        (es.foldl (collect env selfNode round) st).Within P := by
    intro es
    induction es with
    | nil => exact fun st h _ => h
    | cons e es ih =>
      intro st h hes
      exact ih _ (within_collect hreply h (hes e List.mem_cons_self))
        fun e' he' => hes e' (List.mem_cons_of_mem _ he')
  have hharvest : (st.harvest env selfNode round).Within P := by
    refine hfold _ _ ⟨h.alphaClosest, fun _ hkn => (nomatch hkn), h.probed⟩ fun e he => ?_
    exact h.alphaClosest e.1 (List.fst_mem_of_mem_zipIdx he)
  have hsorted : ∀ kn ∈ (st.turn env selfNode targetId round).discovered, P kn.id kn.address :=
    fun kn hkn => hharvest.discovered kn (mem_discovered_turn_iff.mp hkn)
  exact ⟨fun kn hkn => hsorted kn (List.mem_of_mem_take hkn), hsorted, hharvest.probed⟩

/-- **A lookup asks nobody but the nodes that it starts with and the nodes that it is told
of.** -/
theorem within_lookupLoop (hreply : ∀ round i reply, env.reply round i = some reply →
      ∀ p ∈ reply.nearest.entries, P p.1 p.2) (targetId : KadId) {st : LookupState}
    (h : st.Within P) : (lookupLoop env selfNode targetId round st).Within P := by
  induction round, st using lookupLoop.induct env selfNode targetId with
  | case1 round st hnil =>
    rw [lookupLoop_of_nil hnil]
    exact h
  | case2 round st hne hlt hlate =>
    rw [lookupLoop, dif_neg hne, if_pos hlate]
    exact within_turn (hreply round) h targetId
  | case3 round st hne hlt hlate ih =>
    rw [lookupLoop, dif_neg hne, if_neg hlate]
    exact ih (within_turn (hreply round) h targetId)

end LookupState

section

variable [Hashing]

/-- The node that enters a search is named by an answer to it. -/
theorem SearchState.exists_reply_of_entrant {env : SearchEnv} {l : List KadNode} {z : KadNode} :
    ∀ {futures : OrdMap KadId.order KadNode}, entrant env futures l = some z →
      ∃ kn reply, env.reply kn = some reply ∧ z ∈ namedIn reply := by
  induction l with
  | nil => exact fun h => (nomatch h)
  | cons kn l ih =>
    intro futures h
    rw [entrant] at h
    split at h
    · exact ih h
    · split at h
      · next z' hz' =>
        cases h
        obtain ⟨x, -, hx⟩ := List.mem_flatMap.mp (List.mem_of_head? hz')
        split at hx
        · cases hx
        · next reply hreply =>
          split at hx
          · cases hx
          · exact ⟨x, reply, hreply, hx⟩
      · exact ih h

/-- **A search ends with the nodes that it starts with and nodes that it is told of.** -/
theorem SearchState.forall_targetNodes_search {env : SearchEnv}
    {targetNodes : OrdSet KadNode.order} {results : List SearchEntry}
    (htargets : ∀ kn ∈ targetNodes.elems, P kn.id kn.address)
    (hreply : ∀ kn reply, env.reply kn = some reply →
      ∀ p ∈ reply.nearest.entries, P p.1 p.2) :
    ∀ kn ∈ ((LocalNode.entered targetNodes results).searchLoop env none).targetNodes.elems,
      P kn.id kn.address := by
  intro kn hkn
  rcases (mem_targetNodes_search_iff env targetNodes results).mp hkn with hkn | hentrant
  · exact htargets kn hkn
  · rw [entrantOf] at hentrant
    split at hentrant
    · cases hentrant
    · obtain ⟨x, reply, hx, hz⟩ := exists_reply_of_entrant hentrant
      obtain ⟨p, hp, rfl⟩ := List.mem_map.mp hz
      exact hreply x reply hx p hp

variable {db : BerkeleyDB}

omit [Hashing] in
/-- What is handed out is in the table. -/
theorem exists_of_mem_handedOut {std : StdSort} {n : LocalNode db} {id : KadId}
    {p : KadId × Bytes} (hp : p ∈ (handedOut std n id).entries) :
    ∃ h, ∃ kn ∈ (n.ktable.buckets h).entries, kn.id = p.1 ∧ kn.address = p.2 := by
  have hfold : ∀ (nodes : List KadNode) (m : NearestMap),
      p ∈ (nodes.foldl (fun nearest kn => nearest.set kn.id kn.address) m).entries →
        p ∈ m.entries ∨ ∃ kn ∈ nodes, kn.id = p.1 ∧ kn.address = p.2 := by
    intro nodes
    induction nodes with
    | nil => exact fun m h => Or.inl h
    | cons kn nodes ih =>
      intro m h
      rcases ih _ h with h | ⟨x, hx, hid⟩
      · rcases OrdMap.mem_of_mem_set h with ⟨hkey, hvalue⟩ | ⟨hold, -⟩
        · have hid : kn.id = p.1 := hkey.elim Eq.symm
            fun ⟨_, _, _, hequiv⟩ => KadId.order_equiv_iff.mp hequiv
          exact Or.inr ⟨kn, List.mem_cons_self, hid, hvalue.symm⟩
        · exact Or.inl hold
      · exact Or.inr ⟨x, List.mem_cons_of_mem _ hx, hid⟩
  rcases hfold _ ∅ hp with hp | ⟨kn, hkn, heq⟩
  · cases hp
  · obtain ⟨h, hmem⟩ := KadRoutingTable.exists_mem_of_mem_getClosestTo hkn
    exact ⟨h, kn, hmem, heq⟩

end

end

/-! ### The nodes -/

section

variable [Hashing] {db : LookupDB} {P : KadId → Bytes → Prop}

/-- The nodes that a message names. -/
def Message.named : Message → List (KadId × Bytes)
  | findNodeReply m => m.nearest.entries
  | findResultsReply m => m.nearest.entries
  | _ => []

namespace NetNode

/-- All that a node mentions satisfies `P`. -/
structure Within (P : KadId → Bytes → Prop) (x : NetNode db) : Prop where
  own : P x.node.ktable.selfNode.id x.node.ktable.selfNode.address
  table : ∀ h, ∀ kn ∈ (x.node.ktable.buckets h).entries, P kn.id kn.address
  detached : ∀ kn ∈ x.node.detached, P kn.id kn.address
  activities : ∀ a ∈ x.activities, ∀ kn ∈ a.nodes, P kn.id kn.address

/-- A node mentions an id with an address. -/
def Mentions (x : NetNode db) (id : KadId) (address : Bytes) : Prop :=
  ∃ kn : KadNode, (kn.id = id ∧ kn.address = address) ∧
    (kn = x.node.ktable.selfNode ∨ (∃ h, kn ∈ (x.node.ktable.buckets h).entries) ∨
      kn ∈ x.node.detached ∨ ∃ a ∈ x.activities, kn ∈ a.nodes)

variable {x : NetNode db}

theorem Within.dead (h : x.Within P) : { x with alive := false }.Within P :=
  ⟨h.own, h.table, h.detached, h.activities⟩

theorem Within.erase (h : x.Within P) (k : ℕ) :
    { x with activities := x.activities.eraseIdx k }.Within P :=
  ⟨h.own, h.table, h.detached, fun a ha => h.activities a (List.mem_of_mem_eraseIdx ha)⟩

/-- More activities. -/
theorem Within.append (h : x.Within P) {as : List Activity}
    (has : ∀ a ∈ as, ∀ kn ∈ a.nodes, P kn.id kn.address) :
    { x with activities := x.activities ++ as }.Within P := by
  refine ⟨h.own, h.table, h.detached, fun a ha => ?_⟩
  exact (List.mem_append.mp ha).elim (h.activities a) (has a)

/-- The table and the threads may be those of another state. -/
theorem Within.alike (h : x.Within P) {n : LocalNode db.toBerkeleyDB} (hn : x.node.Alike n) :
    { x with node := n }.Within P := by
  obtain ⟨hktable, hdetached⟩ := hn
  refine ⟨?_, ?_, ?_, h.activities⟩
  · rw [hktable]
    exact h.own
  · rw [hktable]
    exact h.table
  · rw [hdetached]
    exact h.detached

/-- A part of a task that leaves the table and the threads alone. -/
theorem Within.within_perform {ε α : Type} {m : Prog ε (LocalNode db.toBerkeleyDB) α}
    {next : α → List Activity} (hx : x.Within P)
    (h : Prog.Leaves m x.node
      (fun a n => x.node.Alike n ∧ ∀ b ∈ next a, ∀ kn ∈ b.nodes, P kn.id kn.address)
      (fun n => x.node.Alike n)) : (x.perform m next).Within P := by
  refine perform_induction hx (fun _ => Within.dead) (h.mono ?_ ?_)
  · exact fun a n hn => (hx.alike hn.1).append hn.2
  · exact fun n hn => hx.alike hn

theorem Within.within_checks (hx : x.Within P) (k : ℕ) : (x.checks k).Within P := by
  rw [checks]
  split
  · exact hx
  · next kn hkn =>
    have hmem := hx.detached kn (List.mem_of_getElem? hkn)
    refine Within.append (x := { x with
      node := { x.node with detached := x.node.detached.eraseIdx k } }) ?_ fun a ha => ?_
    · exact ⟨hx.own, hx.table, fun y hy => hx.detached y (List.mem_of_mem_eraseIdx hy),
        hx.activities⟩
    · split at ha
      · cases ha
      · intro y hy
        rw [List.mem_singleton.mp ha] at hy
        rw [List.mem_singleton.mp hy]
        exact hmem

/-- **Serving a call**: a ping tells of the node that made it. -/
theorem Within.within_serves (hx : x.Within P) {c : Call} (hc : c.Sendable) (hclean : c.SentCleanly)
    (hping : ∀ id address, c = .ping id address → P id address) {net : Network}
    {cenv : ClientEnv} {senv : ServerEnv} (hsize : (c.args cenv).encode.length < 2 ^ 64) :
    (NetState.serves x c net cenv senv).Within P := by
  rw [NetState.serves, sent_connect hc]
  have hchanged : ∀ n, Changed x.node c n → { x with node := n }.Within P := by
    intro n hn
    cases hn with
    | nothing => exact hx
    | pinged id address =>
      refine ⟨hx.own, hx.table, fun kn hkn => ?_, hx.activities⟩
      rcases List.mem_append.mp hkn with hkn | hkn
      · exact hx.detached kn hkn
      · rw [List.mem_singleton.mp hkn]
        exact hping id address rfl
    | stored se se' s mutex hwire hs => exact hx.alike ⟨rfl, rfl⟩
  generalize hm : SdsP2PServer.handleRequest senv
    (net.deliver MessageRequestHeader.word.width (c.request cenv)) = m
  refine perform_induction hx (fun _ => Within.dead) ?_
  refine (leaves_handleRequest hclean hsize hm x.node).mono ?_ hchanged
  exact fun _ n hn => (hchanged n hn).append fun a ha => nomatch ha

/-- The messages that a stub can be told name nodes of the table. -/
theorem Within.within_told (hx : x.Within P) {std : StdSort} {c : Call} {m : Message}
    (h : Told std x.node c m) : ∀ p ∈ m.named, P p.1 p.2 := by
  have hhanded : ∀ id, ∀ p ∈ (handedOut std x.node id).entries, P p.1 p.2 := by
    intro id p hp
    obtain ⟨h, kn, hkn, hid, haddress⟩ := exists_of_mem_handedOut hp
    exact hid ▸ haddress ▸ hx.table h kn hkn
  cases h with
  | pong id address reply => exact fun p hp => nomatch hp
  | nodes id => exact hhanded id
  | noResults query id => exact hhanded id

/-- The outcomes of the calls of a task name nobody else. -/
def OutcomesWithin (P : KadId → Bytes → Prop) : Task → TaskEnd → Prop
  | .lookup _ _ _, .lookup env => ∀ round i reply, env.reply round i = some reply →
      ∀ p ∈ reply.nearest.entries, P p.1 p.2
  | .search _ _, .search env => ∀ kn reply, env.reply kn = some reply →
      ∀ p ∈ reply.nearest.entries, P p.1 p.2
  | _, _ => True

/-- **What the end of a task pushes, and what it leaves behind.** -/
theorem within_ended {std : StdSort} {t : KadRoutingTable} {task : Task} {how : TaskEnd}
    {r : Ending} (hr : task.Ended std t how r)
    (hnodes : ∀ kn ∈ (Activity.task task).nodes, P kn.id kn.address)
    (houtcomes : OutcomesWithin P task how) :
    (∀ kn ∈ r.pushed, P kn.id kn.address) ∧
      ∀ a ∈ leftBehind task how, ∀ kn ∈ a.nodes, P kn.id kn.address := by
  cases hr with
  | answered kn now => exact ⟨hnodes, fun a ha => nomatch ha⟩
  | unanswered kn now => exact ⟨fun kn hkn => (nomatch hkn), fun a ha => nomatch ha⟩
  | lookup selfNode targetId alphaClosest env st hst =>
    have hinit : (LookupState.init alphaClosest).Within P :=
      ⟨fun kn hkn => hnodes kn (List.mem_cons_of_mem _ hkn), fun _ hkn => (nomatch hkn),
        fun _ hkn => nomatch hkn⟩
    have hst' : st.Within P := hst ▸ LookupState.within_lookupLoop houtcomes targetId hinit
    exact ⟨fun kn hkn => hst'.probed kn (KadRoutingTable.mem_notFailed_iff.mp hkn).1,
      fun a ha => nomatch ha⟩
  | publish m env failed completed =>
    refine ⟨fun kn hkn => ?_, fun a ha => nomatch ha⟩
    have hkn' : kn ∈ KadRoutingTable.notFailed (fun id => decide (id ∈ failed))
      (m.entries.map (·.1)) := hkn
    exact hnodes kn (KadRoutingTable.mem_notFailed_iff.mp hkn').1
  | search targetNodes results env st hst =>
    subst hst
    have htargets := (SearchState.forall_targetNodes_search hnodes houtcomes :
      ∀ kn ∈ ((LocalNode.entered targetNodes results).searchLoop env none).targetNodes.elems,
        P kn.id kn.address)
    refine ⟨fun kn hkn => htargets kn (KadRoutingTable.mem_notFailed_iff.mp hkn).1, ?_⟩
    intro a ha
    rw [leftBehind, List.mem_singleton] at ha
    rw [ha]
    exact htargets

/-- **The end of a task**, where its calls name nobody else. -/
theorem Within.within_ends (hx : x.Within P) (std : StdSort) {k : ℕ} {how : TaskEnd}
    (houtcomes : ∀ task, x.activities[k]? = some (.task task) → OutcomesWithin P task how) :
    (x.ends std k how).Within P := by
  rw [ends]
  split
  · next task htask =>
    split
    · exact hx
    · split
      · exact hx
      · next r hr =>
        have hended := Task.ending_cases hr
        obtain ⟨hpushed, hleft⟩ := within_ended hended
          (hx.activities _ (List.mem_of_getElem? htask)) (houtcomes task htask)
        refine Within.append (x := { x with
          node := { x.node with ktable := r.ktable }
          activities := x.activities.eraseIdx k }) ⟨?_, ?_, hx.detached, ?_⟩ hleft
        · rw [(KadRoutingTable.kept_selfNode _).kept_ending hended rfl]
          exact hx.own
        · exact entries_ending hended hx.table hpushed
        · exact fun a ha => hx.activities a (List.mem_of_mem_eraseIdx ha)
  · exact hx

end NetNode

/-! ### The network -/

namespace NetState

variable {ι : Type} {s : NetState ι db}

/-- All that is mentioned in the network satisfies `P`. -/
structure Within (P : KadId → Bytes → Prop) (s : NetState ι db) : Prop where
  nodes : ∀ i, (s.nodes i).Within P
  answers : ∀ a ∈ s.answers, ∀ p ∈ a.reply.named, P p.1 p.2

/-- A task whose answers were given to it. -/
theorem Within.outcomesWithin (h : s.Within P) {i : ι} {a : Option Activity} {how : TaskEnd}
    (huses : s.UsesAnswers i a how) {task : Task} (ha : a = some (.task task)) :
    NetNode.OutcomesWithin P task how := by
  subst ha
  cases task with
  | lookup selfNode targetId alphaClosest =>
    cases how with
    | lookup env => exact fun round n reply hreply => h.answers _ (huses round n reply hreply)
    | ping answers now => trivial
    | publish env => trivial
    | search env => trivial
  | search targetNodes results =>
    cases how with
    | search env =>
      intro kn reply hreply
      obtain ⟨query, hmem⟩ := huses kn reply hreply
      exact h.answers _ hmem
    | ping answers now => trivial
    | publish env => trivial
    | lookup env => trivial
  | toPing kn => trivial
  | pinging kn => trivial
  | publish m => trivial

section

variable {i j : ι} {k : ℕ} {c : Call} {net : Network} {cenv : ClientEnv} {senv : ServerEnv}

/-- A ping tells the own node. -/
theorem Within.of_ping (h : s.Within P) (he : s.Admissible (.exchange i k c j net cenv senv))
    (id : KadId) (address : Bytes) (hc : c = .ping id address) : P id address := by
  subst hc
  obtain ⟨⟨a, -, heq | hcalls⟩, -⟩ := he
  · cases heq
    exact (h.nodes i).own
  · exact (Activity.not_callsFor_ping hcalls).elim

theorem sendable_of_admissible (he : s.Admissible (.exchange i k c j net cenv senv)) :
    c.Sendable := by
  obtain ⟨⟨a, -, hcall⟩, -⟩ := he
  exact hcall.sendable

theorem Within.sentCleanly (hP : ∀ id address, P id address → CleanString address)
    (h : s.Within P) (he : s.Admissible (.exchange i k c j net cenv senv)) : c.SentCleanly := by
  cases c with
  | ping id address => exact hP id address (h.of_ping he id address rfl)
  | findNode id => trivial
  | storeResult se => trivial
  | findResults query => trivial

/-- What the stub of a call decodes, while all addresses are clean. -/
theorem Within.told (hP : ∀ id address, P id address → CleanString address)
    (h : s.Within P) (he : s.Admissible (.exchange i k c j net cenv senv)) {m : Message}
    (hm : m ∈ decoded (s.nodes j) c net cenv senv) : Told senv.std (s.nodes j).node c m := by
  refine told_of_mem_decoded net senv cenv _ (sendable_of_admissible he) he.2 (fun id p hp => ?_) hm
  obtain ⟨b, kn, hkn, hid, haddress⟩ := exists_of_mem_handedOut hp
  exact haddress ▸ (hP kn.id kn.address ((h.nodes j).table b kn hkn)).readable

end

variable [DecidableEq ι]

theorem within_onNode (h : s.Within P) (i : ι) (f : NetNode db → NetNode db)
    (hf : (f (s.nodes i)).Within P) : (s.onNode i f).Within P := by
  rw [onNode]
  split
  · refine ⟨fun j => ?_, h.answers⟩
    by_cases hj : j = i
    · subst hj
      simp only [Function.update_self]
      exact hf
    · simp only [Function.update_of_ne hj]
      exact h.nodes j
  · exact h

/-- **A call and its answer**, while all addresses are clean. -/
theorem within_exchange (hP : ∀ id address, P id address → CleanString address)
    (h : s.Within P) {i j : ι} {k : ℕ} {c : Call} {net : Network} {cenv : ClientEnv}
    {senv : ServerEnv} (he : s.Admissible (.exchange i k c j net cenv senv)) :
    (s.step (.exchange i k c j net cenv senv)).Within P := by
  rw [step]
  split
  · refine ⟨fun j' => ?_, fun b hb => ?_⟩
    · by_cases hj : j' = j
      · subst hj
        simp only [Function.update_self]
        exact (h.nodes j').within_serves (sendable_of_admissible he) (h.sentCleanly hP he)
          (h.of_ping he) he.2.1
      · simp only [Function.update_of_ne hj]
        exact h.nodes j'
    · rcases List.mem_append.mp hb with hb | hb
      · exact h.answers b hb
      · obtain ⟨m, hm, rfl⟩ := List.mem_map.mp hb
        exact (h.nodes j).within_told (h.told hP he hm)
  · exact h

/-- **An event tells of nobody else**, while all addresses are clean. -/
theorem within_step (hP : ∀ id address, P id address → CleanString address) (h : s.Within P)
    {e : NetEvent ι} (he : s.Admissible e) : (s.step e).Within P := by
  cases e with
  | exchange i k c j net cenv senv => exact within_exchange hP h he
  | checks i k =>
    rw [step]
    exact within_onNode h i _ ((h.nodes i).within_checks k)
  | beginLookup i std targetId =>
    rw [step]
    refine within_onNode h i _ ((h.nodes i).within_perform ?_)
    rw [Prog.leaves_bind]
    refine LocalNode.leaves_lock ⟨⟨rfl, rfl⟩, fun a ha kn hkn => ?_⟩
    rw [List.mem_singleton.mp ha] at hkn
    rcases List.mem_cons.mp hkn with rfl | hkn
    · exact (h.nodes i).own
    · obtain ⟨b, hmem⟩ := KadRoutingTable.exists_mem_of_mem_getClosestTo hkn
      exact (h.nodes i).table b kn hmem
  | broadcast i sur crawled =>
    rw [step]
    refine within_onNode h i _ ((h.nodes i).within_perform ?_)
    refine (EntriesPublishTask.leaves_broadcast sur crawled _).mono ?_ fun _ hn => hn.1
    rintro results n ⟨hn, -⟩
    refine ⟨hn, fun a ha kn hkn => ?_⟩
    split at ha
    · cases ha
    · rw [List.mem_singleton.mp ha] at hkn
      cases hkn
  | beginPublish i k env =>
    rw [step]
    refine within_onNode h i _ ?_
    split
    · next results hresults =>
      split
      · exact h.nodes i
      · refine ((h.nodes i).erase k).within_perform ?_
        refine (EntriesPublishTask.leaves_beginPublish env results _).mono ?_ fun _ hn => hn.1
        rintro m n ⟨⟨hn, -⟩, hgroups⟩
        refine ⟨hn, fun a ha kn hkn => ?_⟩
        rw [List.mem_singleton.mp ha] at hkn
        obtain ⟨g, hg, rfl⟩ := List.mem_map.mp hkn
        obtain ⟨⟨b, hmem⟩, -⟩ := hgroups g hg
        exact (h.nodes i).table b g.1 hmem
    · exact h.nodes i
  | beginSearch i env query =>
    rw [step]
    refine within_onNode h i _ ((h.nodes i).within_perform ?_)
    refine (LocalNode.leaves_beginSearch env query _).mono ?_ fun _ hn => hn.1
    rintro st n ⟨hn, -, htargets, -⟩
    refine ⟨hn, fun a ha kn hkn => ?_⟩
    rw [List.mem_singleton.mp ha] at hkn
    obtain ⟨b, hmem⟩ := htargets kn hkn
    exact (h.nodes i).table b kn hmem
  | ends i k std how =>
    rw [step]
    exact within_onNode h i _ ((h.nodes i).within_ends std fun _ => h.outcomesWithin he)
  | finishes i k =>
    rw [step]
    refine within_onNode h i _ ?_
    split
    · exact (h.nodes i).erase k
    · exact h.nodes i
  | inserts i sur se =>
    rw [step]
    refine within_onNode h i _ ((h.nodes i).within_perform ?_)
    refine Prog.Leaves.mono (R := fun _ n => (s.nodes i).node.Alike n)
      (E := (s.nodes i).node.Alike) ?_ (fun _ n hn => ⟨hn, fun a ha => nomatch ha⟩)
      fun _ hn => hn
    rw [Prog.leaves_tryCatch fun _ => (), Prog.leaves_bind]
    exact (LocalNode.leaves_storeResult sur se _).mono (fun _ _ hn => hn.1) fun _ hn => hn.1

/-- An id is mentioned with an address by a node, or by an answer. -/
def Mentions (s : NetState ι db) (id : KadId) (address : Bytes) : Prop :=
  (∃ i, (s.nodes i).Mentions id address) ∨ ∃ a ∈ s.answers, (id, address) ∈ a.reply.named

omit [DecidableEq ι] in
theorem within_iff :
    s.Within P ↔ ∀ id address, s.Mentions id address → P id address := by
  constructor
  · rintro ⟨hnodes, hanswers⟩ id address (⟨i, kn, ⟨rfl, rfl⟩, hkn⟩ | ⟨a, ha, hp⟩)
    · rcases hkn with rfl | ⟨h, hkn⟩ | hkn | ⟨a, ha, hkn⟩
      · exact (hnodes i).own
      · exact (hnodes i).table h kn hkn
      · exact (hnodes i).detached kn hkn
      · exact (hnodes i).activities a ha kn hkn
    · exact hanswers a ha _ hp
  · intro h
    refine ⟨fun i => ⟨?_, ?_, ?_, ?_⟩, fun a ha p hp => h _ _ (Or.inr ⟨a, ha, hp⟩)⟩
    · exact h _ _ (Or.inl ⟨i, _, ⟨rfl, rfl⟩, Or.inl rfl⟩)
    · exact fun b kn hkn => h _ _ (Or.inl ⟨i, kn, ⟨rfl, rfl⟩, Or.inr (Or.inl ⟨b, hkn⟩)⟩)
    · exact fun kn hkn => h _ _ (Or.inl ⟨i, kn, ⟨rfl, rfl⟩, Or.inr (Or.inr (Or.inl hkn))⟩)
    · exact fun a ha kn hkn =>
        h _ _ (Or.inl ⟨i, kn, ⟨rfl, rfl⟩, Or.inr (Or.inr (Or.inr ⟨a, ha, hkn⟩))⟩)

/-- **Nobody is made up**: what is mentioned after a run was mentioned at the start, where
the addresses are clean at the start. -/
theorem mentions_run (hclean : ∀ id address, s.Mentions id address → CleanString address)
    {events : List (NetEvent ι)} (hrun : Runs.Along step Admissible s events) {id : KadId}
    {address : Bytes} (h : (Runs.run step s events).Mentions id address) :
    s.Mentions id address := by
  have hall : Runs.Always step (Within s.Mentions) s events :=
    Runs.always_of_along (fun _ _ hs he => within_step hclean hs he) events s
      (within_iff.mpr fun _ _ h => h) hrun
  exact within_iff.mp hall.last id address h

end NetState

end

/-! ### Two nodes -/

/-- A node with an empty table and store. -/
def NetNode.lone [Hashing] (id : KadId) (address : Bytes) (activities : List Activity) :
    NetNode LookupDB.inMap where
  node :=
    { mutex := false
      ktable := (KadRoutingTable.init id).setSelfNodeAddress address
      searchesDB := ⟨∅, some OrdMap.empty⟩
      detached := [] }
  alive := true
  activities := activities

/-- One node is about to ping the other one. -/
def NetState.aboutToPing [Hashing] : NetState Bool LookupDB.inMap where
  nodes i :=
    if i then NetNode.lone (KadId.ofNat 1) [97] [.task (.toPing (KadNode.new (KadId.ofNat 2) [98]))]
    else NetNode.lone (KadId.ofNat 2) [98] []
  answers := []

/-- The ping, and the end of the task. -/
def NetEvent.pinged [Hashing] : List (NetEvent Bool) :=
  [.exchange true 0 (.ping (KadId.ofNat 1) [97]) false Network.bytewise ClientEnv.zero
      ServerEnv.zero, .ends true 0 StdSort.insertion (.ping true 0)]

theorem NetState.exchangeFits_lone [Hashing] (id : KadId) (address : Bytes) (as : List Activity)
    (c : Call) (hc : (c.args ClientEnv.zero).encode.length < 2 ^ 64) :
    ExchangeFits ServerEnv.zero ClientEnv.zero (NetNode.lone id address as).node c := by
  refine ⟨hc, fun target => ?_⟩
  have hnone : (handedOut ServerEnv.zero.std (NetNode.lone id address as).node target).entries =
      [] := by
    refine List.eq_nil_iff_forall_not_mem.mpr fun p hp => ?_
    obtain ⟨h, kn, hkn, -⟩ := exists_of_mem_handedOut hp
    cases hkn
  rw [FindNodeReply.encode, hnone, List.flatMap_nil, List.append_nil,
    Bytes.Word.uint32.length_encode]
  decide

/-- The node that has pinged knows itself, as it did in front of the ping. -/
theorem NetState.mentions_run_pinged :
    letI := Hashing.blank
    (Runs.run step aboutToPing NetEvent.pinged).Mentions (KadId.ofNat 1) [97] ∧
      NetState.aboutToPing.Mentions (KadId.ofNat 1) [97] := by
  let _ := Hashing.blank
  have hclean : ∀ id address, aboutToPing.Mentions id address → CleanString address := by
    refine within_iff.mp ⟨fun i => ?_, fun a ha => nomatch ha⟩
    cases i
    · exact ⟨by decide, fun _ _ hkn => (nomatch hkn), fun _ hkn => (nomatch hkn),
        fun _ ha => nomatch ha⟩
    · refine ⟨by decide, fun _ _ hkn => (nomatch hkn), fun _ hkn => (nomatch hkn), ?_⟩
      intro a ha kn hkn
      rw [List.mem_singleton.mp ha] at hkn
      rw [List.mem_singleton.mp hkn]
      decide
  have hrun : Runs.Along step Admissible aboutToPing NetEvent.pinged :=
    ⟨⟨⟨_, rfl, Or.inl rfl⟩, exchangeFits_lone _ _ _ _ (by decide)⟩, trivial, trivial⟩
  have hmentions : (Runs.run step aboutToPing NetEvent.pinged).Mentions (KadId.ofNat 1) [97] :=
    Or.inl ⟨true, _, ⟨rfl, rfl⟩, Or.inl rfl⟩
  exact ⟨hmentions, mentions_run hclean hrun hmentions⟩

end SniffDogSniff
