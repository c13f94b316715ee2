import SniffDogSniff.P2P.Exchange

/-!
# A network of nodes

Nodes that run this program, and the calls that they make to each other.  Each node has
its own table and store under its own mutex, and the tasks that are under way: a lookup,
a publication, a search, the threads that pings and searches leave behind.  A call is
served by some node at one moment; the answer may be used later, or lost, and between the
two anything may happen at any node.  A task uses no answer that was not given to it.

Connections that break inside of a message are not part of it.

## Main definitions

* `Activity` — what a node is busy with between two parts of a task.
* `NetNode`, `NetState` — a node, and the network with the answers that were given.
* `NetEvent`, `NetState.step` — the runs.
* `NetState.Admissible` — calls and answers belong to tasks that are under way.

## Main results

* `perform_induction` — the rule for a part of a task.
-/

namespace SniffDogSniff

section

variable [Hashing]

/-! ### Nodes -/

/-- What a node is busy with. -/
inductive Activity
  /-- A task between its two parts. -/
  | task (task : Task)
  /-- Entries are to be published. -/
  | toPublish (results : List SearchEntry)
  /-- The thread that a search leaves behind, which sends its results on. -/
  | republish (targetNodes : OrdSet KadNode.order) (probedEmpty : OrdSet KadId.order)
      (results : List SearchEntry)

namespace Activity

/-- The nodes that are mentioned. -/
def nodes : Activity → List KadNode
  | task (.toPing kn) => [kn]
  | task (.pinging kn) => [kn]
  | task (.lookup selfNode _ alphaClosest) => selfNode :: alphaClosest
  | task (.publish m) => m.entries.map (·.1)
  | task (.search targetNodes _) => targetNodes.elems
  | toPublish _ => []
  | republish targetNodes _ _ => targetNodes.elems

/-- The entries that are carried along. -/
def entries : Activity → List SearchEntry
  | task (.publish m) => m.entries.flatMap (·.2)
  | task (.search _ results) => results
  | task _ => []
  | toPublish results => results
  | republish _ _ results => results

/-- The calls that are made, other than the ping that goes in front of them. -/
def CallsFor : Activity → Call → Prop
  | task (.lookup _ targetId _), c => c = .findNode targetId
  | task (.publish m), c => ∃ g ∈ m.entries, ∃ se ∈ g.2, c = .storeResult se
  | task (.search _ _), c => ∃ query, 0 ∉ query ∧ c = .findResults query
  | republish _ _ results, c => ∃ se ∈ results, c = .storeResult se
  | _, _ => False

/-- The calls that may be made; a ping tells the own node. -/
def MayCall (selfNode : KadNode) (a : Activity) (c : Call) : Prop :=
  c = .ping selfNode.id selfNode.address ∨ a.CallsFor c

theorem not_callsFor_ping {a : Activity} {id : KadId} {address : Bytes} :
    ¬ a.CallsFor (.ping id address) := by
  intro h
  cases a with
  | task t =>
    cases t with
    | search targetNodes results =>
      obtain ⟨_, _, heq⟩ := h
      cases heq
    | lookup selfNode targetId alphaClosest => cases h
    | publish m =>
      obtain ⟨_, _, _, _, heq⟩ := h
      cases heq
    | toPing kn => exact h
    | pinging kn => exact h
  | toPublish results => exact h
  | republish targetNodes probedEmpty results =>
    obtain ⟨_, _, heq⟩ := h
    cases heq

/-- A call does not have a NUL in its query. -/
theorem MayCall.sendable {selfNode : KadNode} {a : Activity} {c : Call}
    (h : a.MayCall selfNode c) : c.Sendable := by
  rintro query rfl
  rcases h with hping | hcalls
  · cases hping
  · cases a with
    | task t =>
      cases t with
      | search targetNodes results =>
        obtain ⟨query', hnul, heq⟩ := hcalls
        rw [Call.findResults.inj heq]
        exact hnul
      | lookup selfNode targetId alphaClosest => cases hcalls
      | publish m =>
        obtain ⟨_, _, _, _, heq⟩ := hcalls
        cases heq
      | toPing kn => exact hcalls.elim
      | pinging kn => exact hcalls.elim
    | toPublish results => exact hcalls.elim
    | republish targetNodes probedEmpty results =>
      obtain ⟨_, _, heq⟩ := hcalls
      cases heq

end Activity

/-- A node of the network. -/
structure NetNode (db : LookupDB) where
  node : LocalNode db.toBerkeleyDB
  /-- Its process has not ended. -/
  alive : Bool
  activities : List Activity

namespace NetNode

variable {db : LookupDB} {ε α : Type}

/-- A thread goes through a part of its work.  It goes on with other activities, or waits
for the mutex; nobody catches what it throws. -/
def perform (x : NetNode db) (m : Prog ε (LocalNode db.toBerkeleyDB) α)
    (next : α → List Activity) : NetNode db :=
  match m.outcome x.node with
  | .returned a n => { x with node := n, activities := x.activities ++ next a }
  | .threw _ n => { x with node := n, alive := false }
  | .aborted => { x with alive := false }
  | .undefined => { x with alive := false }
  | .stuck => x

/-- **The rule for a part of a task.** -/
theorem perform_induction {Q : NetNode db → Prop} {x : NetNode db}
    {m : Prog ε (LocalNode db.toBerkeleyDB) α} {next : α → List Activity} (hx : Q x)
    (hdead : ∀ y, Q y → Q { y with alive := false })
    (h : Prog.Leaves m x.node
      (fun a n => Q { x with node := n, activities := x.activities ++ next a })
      fun n => Q { x with node := n }) : Q (x.perform m next) := by
  rw [perform]
  rw [Prog.Leaves] at h
  cases hm : m.outcome x.node with
  | returned a n =>
    rw [hm] at h
    exact h
  | threw what n =>
    rw [hm] at h
    exact hdead _ h
  | aborted => exact hdead _ hx
  | undefined => exact hdead _ hx
  | stuck => exact hx

/-- The thread that a ping has left behind looks for its node in the table. -/
def checks (x : NetNode db) (k : ℕ) : NetNode db :=
  match x.node.detached[k]? with
  | none => x
  | some kn =>
      { x with
        node := { x.node with detached := x.node.detached.eraseIdx k }
        activities := x.activities ++
          if x.node.ktable.hasNode kn then [] else [.task (.pinging kn)] }

/-- What the second part of a task leaves to be done. -/
def leftBehind : Task → TaskEnd → List Activity
  | .search targetNodes results, .search env =>
      let st := (LocalNode.entered targetNodes results).searchLoop env none
      [.republish st.targetNodes st.probedEmpty
        (if st.results.isEmpty then env.crawled else st.results)]
  | _, _ => []

/-- The second part of the `k`-th activity, which waits where the mutex is locked. -/
def ends (std : StdSort) (x : NetNode db) (k : ℕ) (how : TaskEnd) : NetNode db :=
  match x.activities[k]? with
  | some (.task task) =>
      if x.node.mutex then x
      else
        match task.ending std x.node.ktable how with
        | none => x
        | some r =>
            { x with
              node := { x.node with ktable := r.ktable }
              activities := x.activities.eraseIdx k ++ leftBehind task how }
  | _ => x

end NetNode

/-! ### The network -/

/-- An answer that a node was given to a call. -/
structure Answer (ι : Type) where
  caller : ι
  call : Call
  reply : Message

/-- The network: its nodes, and the answers that were given so far. -/
structure NetState (ι : Type) (db : LookupDB) where
  nodes : ι → NetNode db
  answers : List (Answer ι)

/-- What happens in the network. -/
inductive NetEvent (ι : Type)
  /-- An activity of node `i` makes a call that node `j` serves. -/
  | exchange (i : ι) (k : ℕ) (c : Call) (j : ι) (net : Network) (cenv : ClientEnv)
      (senv : ServerEnv)
  | checks (i : ι) (k : ℕ)
  | beginLookup (i : ι) (std : StdSort) (targetId : KadId)
  /-- The task that publishes entries starts, with those of the crawler. -/
  | broadcast (i : ι) (sur : Surroundings) (crawled : List SearchEntry)
  | beginPublish (i : ι) (k : ℕ) (env : PublishEnv)
  | beginSearch (i : ι) (env : SearchEnv) (query : Bytes)
  /-- The second part of a task. -/
  | ends (i : ι) (k : ℕ) (std : StdSort) (how : TaskEnd)
  /-- The thread that sends results on is done. -/
  | finishes (i : ι) (k : ℕ)
  /-- An entry comes in from the user interface, which catches what the store throws. -/
  | inserts (i : ι) (sur : Surroundings) (se : SearchEntry)

namespace NetState

variable {ι : Type} [DecidableEq ι] {db : LookupDB}

/-- Change one node, if it is alive. -/
def onNode (s : NetState ι db) (i : ι) (f : NetNode db → NetNode db) : NetState ι db :=
  if (s.nodes i).alive then { s with nodes := Function.update s.nodes i (f (s.nodes i)) } else s

/-- What the stub of a call makes of the answer of a node. -/
def decoded (x : NetNode db) (c : Call) (net : Network) (cenv : ClientEnv) (senv : ServerEnv) :
    List Message :=
  c.decoded cenv (connect net senv x.node)

/-- The node serves what the stub of a call has sent. -/
def serves (x : NetNode db) (c : Call) (net : Network) (cenv : ClientEnv) (senv : ServerEnv) :
    NetNode db :=
  x.perform (SdsP2PServer.handleRequest senv (net.deliver MessageRequestHeader.word.width
    (c.sent cenv (connect net senv x.node)))) fun _ => []

/-- One event. -/
def step (s : NetState ι db) : NetEvent ι → NetState ι db
  | .exchange i _ c j net cenv senv =>
      if (s.nodes i).alive && (s.nodes j).alive then
        { nodes := Function.update s.nodes j (serves (s.nodes j) c net cenv senv)
          answers := s.answers ++ (decoded (s.nodes j) c net cenv senv).map fun m => ⟨i, c, m⟩ }
      else s
  | .checks i k => s.onNode i fun x => x.checks k
  | .beginLookup i std targetId => s.onNode i fun x =>
      x.perform (ε := Empty) (do
        LocalNode.lock
        let ktable := (← Prog.get).ktable
        LocalNode.unlock
        pure ktable) fun ktable =>
          [.task (.lookup ktable.selfNode targetId (ktable.getClosestTo std targetId ALPHA))]
  | .broadcast i sur crawled => s.onNode i fun x =>
      x.perform (ε := Empty) (EntriesPublishTask.broadcast sur crawled) fun results =>
        if results.isEmpty then [] else [.toPublish results]
  | .beginPublish i k env => s.onNode i fun x =>
      match x.activities[k]? with
      | some (.toPublish results) =>
          -- it waits in front of the mutex
          if x.node.mutex then x
          else
            { x with activities := x.activities.eraseIdx k }.perform
              (EntriesPublishTask.beginPublish env results) fun m => [.task (.publish m)]
      | _ => x
  | .beginSearch i env query => s.onNode i fun x =>
      x.perform (ε := Empty) (LocalNode.beginSearch env query) fun st =>
        [.task (.search st.targetNodes st.results)]
  | .ends i k std how => s.onNode i fun x => x.ends std k how
  | .finishes i k => s.onNode i fun x =>
      match x.activities[k]? with
      | some (.republish _ _ _) => { x with activities := x.activities.eraseIdx k }
      | _ => x
  | .inserts i sur se => s.onNode i fun x =>
      x.perform (ε := Empty) (Prog.tryCatch
        (do
          let _ ← LocalNode.storeResult sur se
          pure ())
        fun _ => pure ()) fun _ => []

/-- The answers that the end of a task uses were given to it. -/
def UsesAnswers (s : NetState ι db) (i : ι) : Option Activity → TaskEnd → Prop
  | some (.task (.lookup _ targetId _)), .lookup env => ∀ round n reply,
      env.reply round n = some reply → ⟨i, .findNode targetId, .findNodeReply reply⟩ ∈ s.answers
  | some (.task (.search _ _)), .search env => ∀ kn reply, env.reply kn = some reply →
      ∃ query, ⟨i, .findResults query, .findResultsReply reply⟩ ∈ s.answers
  | _, _ => True

/-- The calls are made by activities that make them, and the answers are their own. -/
def Admissible (s : NetState ι db) : NetEvent ι → Prop
  | .exchange i k c j _ cenv senv =>
      (∃ a, (s.nodes i).activities[k]? = some a ∧
        a.MayCall (s.nodes i).node.ktable.selfNode c) ∧
      ExchangeFits senv cenv (s.nodes j).node c
  | .ends i k _ how => s.UsesAnswers i ((s.nodes i).activities[k]?) how
  | _ => True

end NetState

end

end SniffDogSniff
