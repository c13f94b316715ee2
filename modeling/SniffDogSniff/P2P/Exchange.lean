import SniffDogSniff.P2P.Agreement
import SniffDogSniff.SdsCore.TaskParts

/-!
# One call between two nodes

What a call does to the node that serves it, and what the stub that made it makes of the
answer.  The stub of `findResults` sends the function code of `findNode`, so the node that
serves it looks for the nodes around an id and not for entries, and the stub finds no
entry behind the nodes.

## Main definitions

* `Call.SentCleanly` — the address that a ping tells can be read.
* `OnWire` — an entry and what its bytes are read as.
* `Changed` — everything that serving a call can do to a node.
* `Told` — everything that a stub can be told.

## Main results

* `leaves_handleRequest` — what is left behind by a call that is served.
* `told_of_mem_decoded` — what a stub decodes.
-/

namespace SniffDogSniff

open Bytes SdsBytesBuf

section

variable [Hashing] {db : BerkeleyDB}

/-! ### The node that serves a call -/

/-- The address that a ping tells is clean. -/
def Call.SentCleanly : Call → Prop
  | .ping _ address => CleanString address
  | _ => True

/-- What the bytes of an entry are read as, whatever the memory behind them is. -/
def OnWire (se se' : SearchEntry) : Prop :=
  ∃ args : SdsBytesBuf, args.At se.encode ∧
    ((StoreResultArgs.read ⟨SearchEntry.default⟩).value args).se = se'

/-- Everything that serving a call can do to a node. -/
inductive Changed (n : LocalNode db) : Call → LocalNode db → Prop
  | nothing (c : Call) : Changed n c n
  | pinged (id : KadId) (address : Bytes) :
      Changed n (.ping id address) { n with detached := n.detached ++ [KadNode.new id address] }
  /-- The mutex is left locked where the store throws. -/
  | stored (se se' : SearchEntry) (s : SearchEntriesDB db) (mutex : Bool)
      (hwire : OnWire se se')
      (hs : SearchEntriesDB.StoredFrom (· = se') n.searchesDB s) :
      Changed n (.storeResult se) { n with searchesDB := s, mutex := mutex }

/-- The reply is written where the handler has come so far. -/
theorem leaves_replying {α : Type} (args : Message) {m : SdsP2PServer.Server db α}
    (f : α → Message) (reply : SdsBytesBuf) {n : LocalNode db} {P : LocalNode db → Prop}
    (hm : Prog.Leaves m n (fun _ => P) P) :
    Prog.Leaves (replying args m f reply) n (fun _ => P) P := by
  rw [replying, Prog.leaves_bind, Prog.leaves_note, Prog.leaves_bind]
  refine hm.mono (fun x n' h => ?_) fun n' h => h
  rw [Prog.leaves_bind, Prog.leaves_note, Prog.leaves_bind]
  exact Prog.leaves_ofOption fun _ _ => h

/-- The handler of `findNode` on any arguments. -/
theorem findNode_eq_replying (env : ServerEnv) (args reply : SdsBytesBuf) :
    (SdsP2PServer.findNode env args reply : SdsP2PServer.Server db _) =
      replying (.findNodeArgs ((FindNodeArgs.read env.fresh).value args))
        (LocalNode.findNode env.std ((FindNodeArgs.read env.fresh).value args).targetId)
        (fun nearest => .findNodeReply ⟨nearest⟩) reply := rfl

theorem leaves_findNode (env : ServerEnv) (args reply : SdsBytesBuf) {n : LocalNode db}
    {P : LocalNode db → Prop} (hP : P n) :
    Prog.Leaves (SdsP2PServer.findNode env args reply) n (fun _ => P) P := by
  rw [findNode_eq_replying]
  refine leaves_replying _ _ reply ?_
  rw [Prog.Leaves, Prog.outcome]
  by_cases hfree : n.Free
  · rw [LocalNode.findNode_of_free env.std _ hfree]
    exact hP
  · rw [LocalNode.findNode_of_not_free env.std _ hfree]
    trivial

theorem leaves_ping (env : ServerEnv) {args : PingArgs} (hargs : CleanString args.address)
    (reply : SdsBytesBuf) {a : SdsBytesBuf} (ha : a.At args.encode) (n : LocalNode db) :
    Prog.Leaves (SdsP2PServer.dispatch env FUNC_PING a reply) n
      (fun _ => Changed n (.ping args.id args.address)) (Changed n (.ping args.id args.address)) := by
  rw [dispatch_ping env hargs reply ha, cstr_of_not_mem hargs.2]
  refine leaves_replying _ _ reply ?_
  rw [LocalNode.ping, Prog.leaves_bind, Prog.leaves_get]
  split
  · exact Prog.leaves_abort
  · exact .pinged args.id args.address

theorem leaves_storeResult (env : ServerEnv) (se : SearchEntry) (reply : SdsBytesBuf)
    {a : SdsBytesBuf} (ha : a.At se.encode) (n : LocalNode db) :
    Prog.Leaves (SdsP2PServer.storeResult env a reply) n
      (fun _ => Changed n (.storeResult se)) (Changed n (.storeResult se)) := by
  rw [SdsP2PServer.storeResult, Prog.leaves_bind, Prog.leaves_note]
  refine (Prog.leaves_tryCatch fun _ => (ERR_TYPE_ARGUMENT, reply)).mpr ?_
  have hchanged : ∀ n' : LocalNode db, (n.Alike n' ∧ SearchEntriesDB.StoredFrom
      (· = ((StoreResultArgs.read ⟨SearchEntry.default⟩).value a).se) n.searchesDB
        n'.searchesDB) → Changed n (.storeResult se) n' := by
    rintro ⟨mutex, ktable, s, detached⟩ ⟨⟨hktable, hdetached⟩, hs⟩
    obtain rfl : ktable = n.ktable := hktable
    obtain rfl : detached = n.detached := hdetached
    exact .stored se _ s mutex ⟨a, ha, rfl⟩ hs
  rw [Prog.leaves_bind]
  exact (LocalNode.leaves_storeResult env.db _ n).mono (fun _ => hchanged) hchanged

theorem leaves_dispatch (env : ServerEnv) (cenv : ClientEnv) {c : Call} (hc : c.SentCleanly)
    (reply : SdsBytesBuf) {a : SdsBytesBuf} (ha : a.At (c.args cenv).encode) (n : LocalNode db) :
    Prog.Leaves (SdsP2PServer.dispatch env c.funcode a reply) n (fun _ => Changed n c)
      (Changed n c) := by
  cases c with
  | ping id address =>
    exact @leaves_ping _ _ env ⟨cenv.fresh.nonce, id, address⟩ hc reply _ ha n
  | findNode id =>
    rw [Call.funcode, SdsP2PServer.dispatch_func_findNode]
    exact leaves_findNode env a reply (.nothing _)
  | storeResult se =>
    rw [Call.funcode, SdsP2PServer.dispatch_func_storeResult]
    exact leaves_storeResult env se reply ha n
  | findResults query =>
    rw [Call.funcode, SdsP2PServer.dispatch_func_findNode]
    exact leaves_findNode env a reply (.nothing _)

/-- **What a call that is served leaves behind.** -/
theorem leaves_handleRequest {net : Network} {env : ServerEnv} {cenv : ClientEnv} {c : Call}
    (hc : c.SentCleanly) (hsize : (c.args cenv).encode.length < 2 ^ 64)
    {m : SdsP2PServer.Server db ℤ} (hm : SdsP2PServer.handleRequest env
      (net.deliver MessageRequestHeader.word.width (c.request cenv)) = m) (n : LocalNode db) :
    Prog.Leaves m n (fun _ => Changed n c) (Changed n c) := by
  have hhandle := handleRequest_request net env n c.funcode cenv.requestId
    (encode_args_ne_nil cenv c) hsize
  rw [← Call.request, hm] at hhandle
  obtain ⟨a, ha, hrun⟩ := hhandle
  rw [Prog.leaves_congr hrun, Prog.leaves_bind]
  refine (leaves_dispatch env cenv hc _ ha n).mono (fun r n' h => ?_) fun n' h => h
  rw [SdsP2PServer.sendReply, Prog.leaves_bind, Prog.leaves_note]
  exact h

/-! ### The stub -/

/-- Everything that a stub can be told by a node: a search is told of nodes only. -/
inductive Told (std : StdSort) (n : LocalNode db) : Call → Message → Prop
  | pong (id : KadId) (address : Bytes) (reply : PingReply) :
      Told std n (.ping id address) (.pingReply reply)
  | nodes (id : KadId) : Told std n (.findNode id) (.findNodeReply ⟨handedOut std n id⟩)
  | noResults (query : Bytes) (id : KadId) :
      Told std n (.findResults query) (.findResultsReply ⟨⟨handedOut std n id⟩, []⟩)

/-- The sizes of what is sent are numbers that a `size_t` can hold. -/
def ExchangeFits (senv : ServerEnv) (cenv : ClientEnv) (n : LocalNode db) (c : Call) : Prop :=
  (c.args cenv).encode.length < 2 ^ 64 ∧
    ∀ id, (FindNodeReply.mk (handedOut senv.std n id)).encode.length < 2 ^ 64

/-- A call to a server depends on the bytes that the server sends. -/
theorem run_connect_serve {c : Call} (hc : c.Sendable) (net : Network) (senv : ServerEnv)
    (cenv : ClientEnv) (n : LocalNode db) {events : List ServerEvent}
    (hevents : serve net senv n (c.request cenv) = events)
    {run : List ClientEvent × Outcome Unit ℤ}
    (hrun : c.onResponse cenv (receive net (events.flatMap ServerEvent.bytes)) () = run) :
    (c.run cenv (connect net senv n)) () =
      ([.sent (requestHeader c.funcode cenv.requestId (c.args cenv).encode),
        .sent (c.args cenv).encode] ++ run.1, run.2) := by
  have hconnect := run_connect hc cenv (connect net senv n).answer
  have hanswer : (connect net senv n).answer (c.request cenv) =
      receive net (events.flatMap ServerEvent.bytes) := by
    simp only [connect, hevents]
  have heta : connect net senv n = ⟨true, true, (connect net senv n).answer⟩ := by
    simp only [connect]
  rw [← heta, hanswer, hrun] at hconnect
  exact hconnect

/-- What is sent to a server is the request. -/
theorem sent_connect {c : Call} (hc : c.Sendable) (net : Network) (senv : ServerEnv)
    (cenv : ClientEnv) (n : LocalNode db) : c.sent cenv (connect net senv n) = c.request cenv := by
  have hrun := run_connect_serve hc net senv cenv n rfl rfl
  have hquiet := List.flatMap_eq_nil_iff.mpr (notes_onResponse cenv c (receive net
    ((serve net senv n (c.request cenv)).flatMap ServerEvent.bytes)) ())
  rw [Call.sent, Prog.events, hrun, List.flatMap_append, hquiet]
  simp [ClientEvent.bytes, Call.request]

/-- What is decoded is what the stub makes of the response. -/
theorem decoded_connect {c : Call} (hc : c.Sendable) (net : Network) (senv : ServerEnv)
    (cenv : ClientEnv) (n : LocalNode db) {events : List ServerEvent}
    (hevents : serve net senv n (c.request cenv) = events)
    {run : List ClientEvent × Outcome Unit ℤ}
    (hrun : c.onResponse cenv (receive net (events.flatMap ServerEvent.bytes)) () = run) :
    c.decoded cenv (connect net senv n) = run.1.filterMap ClientEvent.decoded? := by
  rw [Call.decoded, Prog.events, run_connect_serve hc net senv cenv n hevents hrun]
  rfl

/-- The stub of `ping` decodes nothing else than the reply to a ping. -/
theorem notes_ping (cenv : ClientEnv) (id : KadId) (address : Bytes) (rs : List Recv) :
    ((Call.ping id address).onResponse cenv rs).Notes fun e =>
      ∃ reply, e.decoded? = some (.pingReply reply) := by
  refine Prog.Notes.bind ?_ ?_
  · exact (SdsP2PClient.silent_recvReply cenv _ rs).mono fun _ h => h.elim
  · rintro ⟨ret, r⟩
    dsimp only [Call.finish]
    split
    · exact Prog.notes_throw _
    refine Prog.Notes.bind (Prog.notes_note ⟨_, rfl⟩) fun _ => ?_
    split
    · exact Prog.notes_throw _
    · exact Prog.notes_pure _

/-- The one of `storeResult` decodes nothing. -/
theorem silent_storeResult (cenv : ClientEnv) (se : SearchEntry) (rs : List Recv) :
    ((Call.storeResult se).onResponse cenv rs).Silent :=
  (SdsP2PClient.silent_recvReply cenv _ rs).bind fun _ => Prog.notes_pure _

/-- Where nothing is sent, nothing is decoded. -/
theorem decoded_of_quiet {c : Call} (hc : c.Sendable) (net : Network) (senv : ServerEnv)
    (cenv : ClientEnv) (n : LocalNode db)
    (h : (serve net senv n (c.request cenv)).flatMap ServerEvent.bytes = []) :
    c.decoded cenv (connect net senv n) = [] := by
  have hresponse : c.onResponse cenv (receive net
      ((serve net senv n (c.request cenv)).flatMap ServerEvent.bytes)) () =
      c.finish cenv (ERR_RECV_REQUEST.toNat, SdsBytesBuf.empty cenv.replyMem) () := by
    rw [h]
    rfl
  rw [decoded_connect hc net senv cenv n rfl hresponse,
    (finish_of_ne cenv c (by decide) _).1]
  rfl

/-- What a stub makes of a reply that is sent. -/
theorem decoded_of_sent {c : Call} (hc : c.Sendable) (net : Network) (senv : ServerEnv)
    (cenv : ClientEnv) (n : LocalNode db) {reply : Message} (hne : reply.encode ≠ [])
    (hsize : reply.encode.length < 2 ^ 64)
    (h : (serve net senv n (c.request cenv)).flatMap ServerEvent.bytes =
      MessageResponseHeader.word.encode ⟨c.funcode, ERR_NULL, cenv.requestId,
        UInt64.ofNat reply.encode.length⟩ ++ reply.encode) :
    ∃ r : SdsBytesBuf, r.At reply.encode ∧ c.decoded cenv (connect net senv n) =
      (c.finish cenv (ERR_NULL.toNat, r) ()).1.filterMap ClientEvent.decoded? := by
  obtain ⟨r, hr, hrecv⟩ := SdsP2PClient.recvReply_of_payload cenv net c.funcode hne hsize
  refine ⟨r, hr, decoded_connect hc net senv cenv n rfl ?_⟩
  rw [h, receive, if_neg (List.append_ne_nil_of_right_ne_nil _ hne), Call.onResponse,
    Prog.bind_of_returned_nil hrecv]

/-- **The handler of `findNode` answers with nodes**, or not at all. -/
theorem decoded_of_findNode (net : Network) (senv : ServerEnv) (cenv : ClientEnv)
    (n : LocalNode db) {c : Call} (hc : c.Sendable) (hfuncode : c.funcode = FUNC_FIND_NODE)
    (hfits : ExchangeFits senv cenv n c) :
    c.decoded cenv (connect net senv n) = [] ∨ ∃ a r : SdsBytesBuf,
      a.At (c.args cenv).encode ∧
      r.At (FindNodeReply.mk (handedOut senv.std n
        ((FindNodeArgs.read senv.fresh).value a).targetId)).encode ∧
      c.decoded cenv (connect net senv n) =
        (c.finish cenv (ERR_NULL.toNat, r) ()).1.filterMap ClientEvent.decoded? := by
  obtain ⟨a, ha, hserve⟩ := serve_request net senv n c.funcode cenv.requestId
    (encode_args_ne_nil cenv c) hfits.1
  have hdispatch : SdsP2PServer.dispatch senv c.funcode a (SdsBytesBuf.empty senv.replyMem) =
      (replying (.findNodeArgs ((FindNodeArgs.read senv.fresh).value a))
        (LocalNode.findNode senv.std ((FindNodeArgs.read senv.fresh).value a).targetId)
        (fun nearest => .findNodeReply ⟨nearest⟩) (SdsBytesBuf.empty senv.replyMem) :
          SdsP2PServer.Server db _) := by
    rw [hfuncode, SdsP2PServer.dispatch_func_findNode, findNode_eq_replying]
  rw [hdispatch, ← Call.request] at hserve
  by_cases hfree : n.Free
  · right
    refine ⟨a, ?_⟩
    generalize (FindNodeArgs.read senv.fresh).value a = args at hserve ⊢
    let reply : FindNodeReply := ⟨handedOut senv.std n args.targetId⟩
    have hne : (Message.findNodeReply reply).encode ≠ [] :=
      List.append_ne_nil_of_left_ne_nil (Word.encode_ne_nil _ _) _
    obtain ⟨buf, hbytes, hrun⟩ := replying_of_returned (.findNodeArgs args)
      (fun nearest => .findNodeReply ⟨nearest⟩) senv.replyMem
      (LocalNode.findNode_of_free (ε := ServerEvent) senv.std args.targetId hfree)
    have hsize : buf.size = (Message.findNodeReply reply).encode.length := by
      rw [← length_bytes, hbytes]
      rfl
    have hpos : 0 < buf.size := hsize ▸ List.length_pos_iff.mpr hne
    rw [Prog.events, Prog.outcome, hrun, response, if_pos rfl, if_pos ⟨hpos, rfl⟩, hsize] at hserve
    obtain ⟨r, hr, hdecoded⟩ := decoded_of_sent hc net senv cenv n hne (hfits.2 args.targetId) (by
      rw [hserve, hbytes]
      simp [ServerEvent.bytes, reply, handedOut])
    exact ⟨r, ha, hr, hdecoded⟩
  · left
    generalize (FindNodeArgs.read senv.fresh).value a = args at hserve
    obtain ⟨o, hrun, hfails⟩ := replying_of_fails (.findNodeArgs args)
      (fun nearest => .findNodeReply ⟨nearest⟩) (SdsBytesBuf.empty senv.replyMem)
      (LocalNode.findNode_of_not_free (ε := ServerEvent) senv.std args.targetId hfree) trivial
    refine decoded_of_quiet hc net senv cenv n ?_
    rw [hserve, Prog.events, Prog.outcome, hrun, response_of_fails hfails]
    rfl

/-- A reader that wants more than the nodes finds none of it. -/
theorem value_read_findResultsReply {m : NearestMap} (hsize : m.size < 2 ^ 32)
    (hm : ∀ p ∈ m.entries, Readable p.2) (fresh : Fresh) {r : SdsBytesBuf}
    (hr : r.At (FindNodeReply.mk m).encode) :
    (FindResultsReply.read fresh ⟨⟨∅⟩, []⟩).value r = ⟨⟨m⟩, []⟩ := by
  obtain ⟨hvalue, hfinal⟩ := FindNodeReply.reads_read_of_readable (m := ⟨m⟩) hsize hm fresh r []
    (by rwa [List.append_nil])
  have hend : (r.advance (FindNodeReply.mk m).encode.length).At [] := at_advance (by
    rwa [List.append_nil])
  have hcount : readUint32.value (r.advance (FindNodeReply.mk m).encode.length) = 0 := by
    have hshort :
        ¬ Word.uint32.width ≤ (r.advance (FindNodeReply.mk m).encode.length).remaining := by
      rw [remaining_of_at hend]
      decide
    have hnone := read_of_lt hshort
    rw [readUint32, readWord, Traced.value_bind, hnone.2.1]
    rfl
  simp only [FindResultsReply.read, Traced.value_bind, hvalue, hfinal, hcount]
  rfl

/-- **What a stub decodes**, where the addresses that are handed out are readable. -/
theorem told_of_mem_decoded (net : Network) (senv : ServerEnv) (cenv : ClientEnv)
    (n : LocalNode db) {c : Call} (hc : c.Sendable) (hfits : ExchangeFits senv cenv n c)
    (hread : ∀ id, ∀ p ∈ (handedOut senv.std n id).entries, Readable p.2) {m : Message}
    (hm : m ∈ c.decoded cenv (connect net senv n)) : Told senv.std n c m := by
  have hsize : ∀ id, (handedOut senv.std n id).size < 2 ^ 32 :=
    fun id => Nat.lt_of_le_of_lt (size_handedOut_le senv.std n id) (by decide)
  cases c with
  | ping id address =>
    rw [decoded_connect hc net senv cenv n rfl rfl] at hm
    obtain ⟨e, he, hdecoded⟩ := List.mem_filterMap.mp hm
    obtain ⟨reply, hreply⟩ := notes_ping cenv id address _ () e he
    rw [← Option.some.inj (hreply.symm.trans hdecoded)]
    exact .pong id address reply
  | findNode id =>
    rcases decoded_of_findNode net senv cenv n hc rfl hfits with hnil | ⟨a, r, ha, hr, hdecoded⟩
    · rw [hnil] at hm
      cases hm
    · have hid : ((FindNodeArgs.read senv.fresh).value a) = ⟨id⟩ :=
        ((FindNodeArgs.mk id).reads_read senv.fresh a [] (by rwa [List.append_nil])).1
      rw [hid] at hr
      rw [hdecoded, Call.finish, if_neg (not_not.mpr rfl),
        (FindNodeReply.value_read_iff (hsize id) cenv.fresh hr).mpr (hread id)] at hm
      rw [List.mem_singleton.mp hm]
      exact .nodes id
  | storeResult se =>
    rw [decoded_connect hc net senv cenv n rfl rfl] at hm
    obtain ⟨e, he, -⟩ := List.mem_filterMap.mp hm
    exact (silent_storeResult cenv se _ () e he).elim
  | findResults query =>
    rcases decoded_of_findNode net senv cenv n hc rfl hfits with hnil | ⟨a, r, ha, hr, hdecoded⟩
    · rw [hnil] at hm
      cases hm
    · have hzero : ¬ (ERR_NULL.toNat : ℤ) ≠ 0 := by decide
      rw [hdecoded, Call.finish, if_neg hzero,
        value_read_findResultsReply (hsize _) (hread _) cenv.fresh hr] at hm
      rw [List.mem_singleton.mp hm]
      exact .noResults query _

end

end SniffDogSniff
