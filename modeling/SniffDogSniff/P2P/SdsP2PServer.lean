import SniffDogSniff.Base.Runs
import SniffDogSniff.P2P.Transport
import SniffDogSniff.SdsCore.LocalNode

/-!
# The server

The server takes one request at a time from a connection: a header, a payload of
the announced size, and then the handler for the function code.  A handler reads
its arguments from the payload, calls the local node and writes its reply.  The
handler of `storeResult` catches what the local node throws and answers with an
error; the server goes on.

## Main definitions

* `ServerEvent` — the arguments a handler runs with, the reply it encodes, the
  bytes that are sent.
* `SdsP2PServer.ping`, …, `SdsP2PServer.dispatch`, `SdsP2PServer.handleRequest`.
* `ServerState`, `SdsP2PServer.step` — a server under requests and the threads
  that pings leave behind.

## Main results

* `free_dispatch_iff` — a request ends with the mutex free exactly where it does
  not store an entry that the store does not accept.
* `lock_free_iff` — **so for the operations of the node, and all along a run.**
-/

namespace SniffDogSniff

open Bytes SdsBytesBuf

section

variable [Hashing]

/-- What happens while a request is handled. -/
inductive ServerEvent
  /-- A handler has read its arguments. -/
  | called (args : Message)
  /-- A handler encodes its reply. -/
  | replied (reply : Message)
  /-- These bytes go to the client. -/
  | sent (bytes : Bytes)

/-- What the server meets while it handles a request. -/
structure ServerEnv where
  std : StdSort
  fresh : Fresh
  db : Surroundings
  /-- The memory behind the buffer of the arguments. -/
  argsMem : ℕ → UInt8
  /-- The memory behind the buffer of the reply. -/
  replyMem : ℕ → UInt8

namespace SdsP2PServer

variable {db : BerkeleyDB}

/-- A program of the server. -/
abbrev Server (db : BerkeleyDB) := Prog ServerEvent (LocalNode db)

/-! ### The handlers -/

def ping (env : ServerEnv) (args reply : SdsBytesBuf) : Server db (UInt8 × SdsBytesBuf) := do
  let pingArgs := (PingArgs.read env.fresh).value args
  Prog.note (.called (.pingArgs pingArgs))
  let _ ← LocalNode.ping pingArgs.id (cstr pingArgs.address)
  let pingReply : PingReply := ⟨pingArgs.nonce⟩
  Prog.note (.replied (.pingReply pingReply))
  let reply ← Prog.ofOption (pingReply.write reply) Prog.stuck
  pure (ERR_NULL, reply)

def findNode (env : ServerEnv) (args reply : SdsBytesBuf) : Server db (UInt8 × SdsBytesBuf) := do
  let findArgs := (FindNodeArgs.read env.fresh).value args
  Prog.note (.called (.findNodeArgs findArgs))
  let nearest ← LocalNode.findNode env.std findArgs.targetId
  let findReply : FindNodeReply := ⟨nearest⟩
  Prog.note (.replied (.findNodeReply findReply))
  let reply ← Prog.ofOption (findReply.write reply) Prog.stuck
  pure (ERR_NULL, reply)

def storeResult (env : ServerEnv) (args reply : SdsBytesBuf) :
    Server db (UInt8 × SdsBytesBuf) := do
  let storeArgs := (StoreResultArgs.read ⟨SearchEntry.default⟩).value args
  Prog.note (.called (.storeResultArgs storeArgs))
  Prog.tryCatch
    (do
      let _ ← LocalNode.storeResult env.db storeArgs.se
      pure (ERR_NULL, reply))
    fun _ => pure (ERR_TYPE_ARGUMENT, reply)

def findResults (env : ServerEnv) (args reply : SdsBytesBuf) :
    Server db (UInt8 × SdsBytesBuf) := do
  let findArgs := FindResultsArgs.read.value args
  Prog.note (.called (.findResultsArgs findArgs))
  let found ← LocalNode.findResults env.std env.db (cstr findArgs.query)
  let findReply : FindResultsReply := ⟨⟨found.1⟩, found.2⟩
  Prog.note (.replied (.findResultsReply findReply))
  let reply ← Prog.ofOption (findReply.write reply) Prog.stuck
  pure (ERR_NULL, reply)

/-- The switch of `handleRequest`: the error code and the reply. -/
def dispatch (env : ServerEnv) (funcode : UInt8) (args reply : SdsBytesBuf) :
    Server db (UInt8 × SdsBytesBuf) :=
  if funcode = FUNC_PING then ping env args reply
  else if funcode = FUNC_FIND_NODE then findNode env args reply
  else if funcode = FUNC_STORE_RESULT then storeResult env args reply
  else if funcode = FUNC_FIND_RESULTS then findResults env args reply
  else pure (ERR_NOFUNCT, reply)

section

variable (env : ServerEnv) (args reply : SdsBytesBuf)

theorem dispatch_func_ping :
    (dispatch env FUNC_PING args reply : Server db _) = ping env args reply := if_pos rfl

theorem dispatch_func_findNode :
    (dispatch env FUNC_FIND_NODE args reply : Server db _) = findNode env args reply := by
  rw [dispatch, if_neg (by decide), if_pos rfl]

theorem dispatch_func_storeResult :
    (dispatch env FUNC_STORE_RESULT args reply : Server db _) = storeResult env args reply := by
  rw [dispatch, if_neg (by decide), if_neg (by decide), if_pos rfl]

theorem dispatch_func_findResults :
    (dispatch env FUNC_FIND_RESULTS args reply : Server db _) = findResults env args reply := by
  rw [dispatch, if_neg (by decide), if_neg (by decide), if_neg (by decide), if_pos rfl]

end

/-! ### Requests -/

/-- The end of `handleRequest`: send the header and, without an error, the reply. -/
def sendReply (header : MessageResponseHeader) (reply : SdsBytesBuf) : Server db ℤ := do
  Prog.note (.sent (MessageResponseHeader.word.encode header ++
    if 0 < reply.size ∧ header.errcode = ERR_NULL then reply.bytes else []))
  pure header.errcode.toNat

/-- The answer to a request that did not arrive. -/
def recvFailed : MessageResponseHeader := ⟨0, ERR_RECV_REQUEST, 0, 0⟩

/-- `handleRequest`, for what `recv` returns. -/
def handleRequest (env : ServerEnv) : List Recv → Server db ℤ
  | [] => pure (-1)
  | r :: rs =>
      if r = some [] then pure (-1)
      else
        match r.bind MessageRequestHeader.word.decode? with
        | none => sendReply recvFailed (SdsBytesBuf.empty env.replyMem)
        | some req => do
            let argsBuf := SdsBytesBuf.empty env.argsMem
            let received ←
              if 0 < req.datasize then
                recvLoop rs req.datasize (argsBuf.allocate req.datasize.toNat)
              else pure (0, argsBuf)
            -- the loop has ended before, or beyond, the announced size
            if received.1 ≠ 0 then sendReply recvFailed (SdsBytesBuf.empty env.replyMem)
            else
              let reply ← dispatch env req.funcode received.2.rewind
                (SdsBytesBuf.empty env.replyMem)
              sendReply ⟨req.funcode, reply.1, req.id,
                if reply.1 = ERR_NULL then UInt64.ofNat reply.2.size else 0⟩ reply.2

/-! ### The mutex -/

/-- The request does not store an entry that the store does not accept. -/
def Harmless (env : ServerEnv) (n : LocalNode db) (funcode : UInt8) (args : SdsBytesBuf) : Prop :=
  funcode = FUNC_STORE_RESULT →
    n.searchesDB.Accepts env.db ((StoreResultArgs.read ⟨SearchEntry.default⟩).value args).se

/-- A writer returns and does not touch the node. -/
theorem post_ofOption_write {w : Write} {bs : Bytes} (hw : Writes w bs) {reply : SdsBytesBuf}
    (hreply : reply.AtEnd) {n : LocalNode db} {R : SdsBytesBuf → LocalNode db → Prop}
    {E : LocalNode db → Prop} (hR : ∀ buf, R buf n) :
    Prog.Post (Prog.ofOption (w reply) Prog.stuck : Server db SdsBytesBuf) n R E := by
  obtain ⟨buf, hbuf, -⟩ := hw reply hreply
  rw [hbuf]
  exact hR buf

theorem free_ping (env : ServerEnv) (args : SdsBytesBuf) {reply : SdsBytesBuf}
    (hreply : reply.AtEnd) {n : LocalNode db} (hfree : n.Free) :
    Prog.PostState (ping env args reply) n LocalNode.Free := by
  simp only [ping, Prog.PostState, Prog.post_bind, Prog.post_note]
  refine (LocalNode.free_ping _ _ hfree).mono ?_ fun _ h => h
  intro _ n' hfree'
  exact post_ofOption_write (PingReply.writes_write _) hreply fun _ => hfree'

theorem free_findNode (env : ServerEnv) (args : SdsBytesBuf) {reply : SdsBytesBuf}
    (hreply : reply.AtEnd) {n : LocalNode db} (hfree : n.Free) :
    Prog.PostState (findNode env args reply) n LocalNode.Free := by
  simp only [findNode, Prog.PostState, Prog.post_bind, Prog.post_note]
  refine (LocalNode.free_findNode env.std _ hfree).mono ?_ fun _ h => h
  intro _ n' hfree'
  exact post_ofOption_write (FindNodeReply.writes_write _) hreply fun _ => hfree'

theorem free_findResults (env : ServerEnv) (args : SdsBytesBuf) {reply : SdsBytesBuf}
    (hreply : reply.AtEnd) {n : LocalNode db} (hfree : n.Free) :
    Prog.PostState (findResults env args reply) n LocalNode.Free := by
  simp only [findResults, Prog.PostState, Prog.post_bind, Prog.post_note]
  refine (LocalNode.free_findResults env.std env.db _ hfree).mono ?_ fun _ h => h
  intro _ n' hfree'
  exact post_ofOption_write (FindResultsReply.writes_write _) hreply fun _ => hfree'

/-- The handler catches the exception, but the mutex stays as it is. -/
theorem free_storeResult_iff (env : ServerEnv) (args reply : SdsBytesBuf) {n : LocalNode db}
    (hfree : n.Free) :
    Prog.PostState (storeResult env args reply) n LocalNode.Free ↔
      n.searchesDB.Accepts env.db
        ((StoreResultArgs.read ⟨SearchEntry.default⟩).value args).se := by
  rw [← LocalNode.free_storeResult_iff (ε := ServerEvent) env.db _ hfree, storeResult,
    Prog.PostState, Prog.post_bind, Prog.post_note]
  refine (Prog.post_tryCatch fun _ => (ERR_TYPE_ARGUMENT, reply)).trans ?_
  rw [Prog.PostState, Prog.post_bind]
  rfl

/-- **A request ends with the mutex free exactly where it is harmless.** -/
theorem free_dispatch_iff (env : ServerEnv) (funcode : UInt8) (args : SdsBytesBuf)
    {reply : SdsBytesBuf} (hreply : reply.AtEnd) {n : LocalNode db} (hfree : n.Free) :
    Prog.PostState (dispatch env funcode args reply) n LocalNode.Free ↔
      Harmless env n funcode args := by
  by_cases hstore : funcode = FUNC_STORE_RESULT
  · subst hstore
    refine (free_storeResult_iff env args reply hfree).trans ?_
    exact ⟨fun h _ => h, fun h => h rfl⟩
  -- the other handlers call operations that end with the mutex free
  · refine iff_of_true ?_ fun h => absurd h hstore
    rw [dispatch]
    split
    · exact free_ping env args hreply hfree
    split
    · exact free_findNode env args hreply hfree
    split
    · exact free_findResults env args hreply hfree
    · exact hfree

/-- The handler of `storeResult` lets nothing through. -/
theorem outcome_storeResult_ne_threw (env : ServerEnv) (args reply : SdsBytesBuf)
    (n n' : LocalNode db) (what : String) :
    (storeResult env args reply).outcome n ≠ .threw what n' := by
  intro h
  have hcatch : (Prog.tryCatch (do
      let _ ← (LocalNode.storeResult env.db
        ((StoreResultArgs.read ⟨SearchEntry.default⟩).value args).se : Server db ℤ)
      pure (ERR_NULL, reply)) fun _ => pure (ERR_TYPE_ARGUMENT, reply)).outcome n =
        .threw what n' := h
  simp only [Prog.outcome, Prog.tryCatch] at hcatch
  split at hcatch
  · cases hcatch
  · rename_i hne
    exact hne _ _ _ (Prod.ext rfl hcatch)

end SdsP2PServer

/-! ### Runs -/

/-- A server between two requests. -/
inductive ServerState (db : BerkeleyDB)
  | running (n : LocalNode db)
  /-- It waits for the mutex. -/
  | waiting
  /-- The process has ended. -/
  | gone

/-- What comes after a piece of the server's work; nobody catches what it throws. -/
def ServerState.ofOutcome {db : BerkeleyDB} {α : Type} : Outcome (LocalNode db) α → ServerState db
  | .returned _ n => running n
  | .threw _ _ => gone
  | .aborted => gone
  | .undefined => gone
  | .stuck => waiting

/-- The next call of `lock` returns, if there is one. -/
def ServerState.CanLock {db : BerkeleyDB} : ServerState db → Prop
  | running n => n.Free
  | waiting => False
  | gone => True

/-- What a server does next. -/
inductive ServerStep
  /-- It dispatches a request with the arguments in a buffer. -/
  | request (env : ServerEnv) (funcode : UInt8) (args : SdsBytesBuf)
  /-- A thread that a ping has left behind goes through its work. -/
  | pingThread (std : StdSort) (i : ℕ) (answers : Bool) (now : Int64)

namespace SdsP2PServer

variable {db : BerkeleyDB}

/-- One step; a thread that finds the mutex locked has to wait, the server does
not. -/
def step : ServerState db → ServerStep → ServerState db
  | .running n, .request env funcode args =>
      .ofOutcome ((dispatch env funcode args (SdsBytesBuf.empty env.replyMem)).outcome n)
  | .running n, .pingThread std i answers now =>
      if n.mutex then .running n
      else .ofOutcome ((LocalNode.pingThread std i answers now : Server db Unit).outcome n)
  | .waiting, _ => .waiting
  | .gone, _ => .gone

/-- The step does not store an entry that the store does not accept. -/
def HarmlessStep : ServerState db → ServerStep → Prop
  | .running n, .request env funcode args => Harmless env n funcode args
  | _, _ => True

theorem canLock_of_post {α : Type} {m : Server db α} {n : LocalNode db}
    (h : Prog.PostState m n LocalNode.Free) : (ServerState.ofOutcome (m.outcome n)).CanLock := by
  unfold Prog.PostState Prog.Post at h
  cases ho : m.outcome n with
  | returned a n' =>
    rw [ho] at h
    exact h
  | threw what n' => trivial
  | aborted => trivial
  | undefined => trivial
  | stuck =>
    rw [ho] at h
    exact h

theorem post_of_canLock {α : Type} {m : Server db α} {n : LocalNode db}
    (hne : ∀ what n', m.outcome n ≠ .threw what n')
    (h : (ServerState.ofOutcome (m.outcome n)).CanLock) :
    Prog.PostState m n LocalNode.Free := by
  unfold Prog.PostState Prog.Post
  cases ho : m.outcome n with
  | returned a n' =>
    rw [ho] at h
    exact h
  | threw what n' => exact absurd ho (hne what n')
  | aborted => trivial
  | undefined => trivial
  | stuck =>
    rw [ho] at h
    exact h

/-- **From a state in which the mutex can be taken, a step leads to another one
exactly where it is harmless.** -/
theorem canLock_step_iff (s : ServerState db) (e : ServerStep) (hs : s.CanLock) :
    (step s e).CanLock ↔ HarmlessStep s e := by
  cases s with
  | running n =>
    have hfree : n.Free := hs
    cases e with
    | request env funcode args =>
      have hpost := free_dispatch_iff env funcode args (atEnd_empty env.replyMem) hfree
      refine ⟨fun h => ?_, fun h => canLock_of_post (hpost.mpr h)⟩
      by_cases hstore : funcode = FUNC_STORE_RESULT
      · subst hstore
        exact hpost.mp (post_of_canLock (fun what n' =>
          outcome_storeResult_ne_threw env args _ n n' what) h)
      · exact fun h => absurd h hstore
    | pingThread std i answers now =>
      refine iff_of_true ?_ trivial
      have hmutex : n.mutex = false := hfree
      rw [step, if_neg (by simp [hmutex])]
      exact canLock_of_post (LocalNode.free_pingThread std i answers now hfree)
  | waiting => exact hs.elim
  | gone => exact iff_of_true trivial trivial

/-- **The mutex comes back.**  `findNode` and `findResults` end with the mutex
free; `storeResult` does exactly where the store accepts the entry; and in a run
of a server the next `lock` can be taken after every step exactly when all steps
are harmless. -/
theorem lock_free_iff (n : LocalNode db) (hfree : n.Free) :
    (∀ std id, Prog.PostState (LocalNode.findNode std id : Server db _) n LocalNode.Free) ∧
    (∀ std env query,
      Prog.PostState (LocalNode.findResults std env query : Server db _) n LocalNode.Free) ∧
    (∀ env se, Prog.PostState (LocalNode.storeResult env se : Server db _) n LocalNode.Free ↔
      n.searchesDB.Accepts env se) ∧
    ∀ steps, Runs.Always step ServerState.CanLock (.running n) steps ↔
      Runs.Along step HarmlessStep (.running n) steps := by
  refine ⟨?_, ?_, ?_, ?_⟩
  · exact fun std id => LocalNode.free_findNode std id hfree
  · exact fun std env query => LocalNode.free_findResults std env query hfree
  · exact fun env se => LocalNode.free_storeResult_iff env se hfree
  · intro steps
    have hinv : ∀ (s : ServerState db) (e : ServerStep), (fun _ : ServerState db => True) s →
        (fun _ : ServerState db => True) (step s e) := fun _ _ _ => trivial
    exact Runs.always_iff_along hinv (fun s e _ hs => canLock_step_iff s e hs) steps (.running n)
      trivial hfree

end SdsP2PServer

end

/-- A node with an open and empty store. -/
def openNode : LocalNode BerkeleyDB.inMemory where
  mutex := false
  ktable := KadRoutingTable.init (KadId.ofNat 0)
  searchesDB := ⟨∅, some []⟩
  detached := []

/-- An entry with a url of the given length. -/
def entryOfLength [Hashing] (n : ℕ) : SearchEntry :=
  SearchEntry.ofFields ⟨KadId.ofNat 0⟩ [97] (List.replicate n 97) .SITE ∅

/-- An oversized entry leaves the mutex of an open node locked. -/
theorem SdsP2PServer.not_free_of_lt [Hashing] {n : ℕ} (h : MAX_SEARCH_ENTRY_SIZE < n) :
    ¬ Prog.PostState (LocalNode.storeResult Surroundings.zero (entryOfLength n) :
      Server BerkeleyDB.inMemory ℤ) openNode LocalNode.Free := by
  have hfree : openNode.Free := rfl
  rw [LocalNode.free_storeResult_iff _ _ hfree]
  intro haccepts
  have hlong : MAX_SEARCH_ENTRY_SIZE < (entryOfLength n).url.length := by
    rwa [entryOfLength, SearchEntry.ofFields, List.length_replicate]
  have hsize := (haccepts [] rfl).1
  rw [SearchEntry.hasValidSize_of_lt hlong] at hsize
  cases hsize

/-- A url of 20137 bytes is one too many, whatever else there is. -/
theorem SdsP2PServer.openNode_not_free :
    letI := Hashing.blank
    ¬ Prog.PostState (LocalNode.storeResult Surroundings.zero (entryOfLength 20137) :
      Server BerkeleyDB.inMemory ℤ) openNode LocalNode.Free :=
  letI := Hashing.blank
  SdsP2PServer.not_free_of_lt (by decide)

/-- The open node has its mutex free, so all of this is about it. -/
theorem SdsP2PServer.lock_free_openNode :
    letI := Hashing.blank
    (∀ std id, Prog.PostState (LocalNode.findNode std id : Server BerkeleyDB.inMemory _) openNode
      LocalNode.Free) ∧
    (∀ std env query, Prog.PostState
      (LocalNode.findResults std env query : Server BerkeleyDB.inMemory _) openNode
        LocalNode.Free) ∧
    (∀ env se, Prog.PostState (LocalNode.storeResult env se : Server BerkeleyDB.inMemory _)
      openNode LocalNode.Free ↔ openNode.searchesDB.Accepts env se) ∧
    ∀ steps, Runs.Always step ServerState.CanLock (.running openNode) steps ↔
      Runs.Along step HarmlessStep (.running openNode) steps :=
  letI := Hashing.blank
  SdsP2PServer.lock_free_iff openNode rfl

end SniffDogSniff
