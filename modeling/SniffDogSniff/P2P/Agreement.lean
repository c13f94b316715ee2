import SniffDogSniff.P2P.SdsP2PClient
import SniffDogSniff.P2P.SdsP2PServer

/-!
# Stubs and handlers

A client whose connection leads to a server: what it sends is delivered there,
the server handles it, and what the server sends is delivered back.

## Main definitions

* `serve`, `connect` — the server on a request, and the connection to it.
* `Agrees` — the handler of the same name runs with the arguments of the call, and
  the reply that the stub decodes is the one that the handler encoded.
* `Served` — the calls and states for which this is so.

## Main results

* `serve_request` — a request is dispatched on a buffer with its payload.
* `agrees_iff_of_replied` — a reply that is sent is left to what the stub makes of it.
* `agrees_iff` — **stub and handler agree for `ping` and `storeResult`, for
  `findNode` where the addresses that are handed out are readable, and never for
  `findResults`.**
-/

namespace SniffDogSniff

open Bytes SdsBytesBuf

section

variable [Hashing] {db : BerkeleyDB}

/-! ### What can be seen -/

namespace ServerEvent

/-- The bytes that go to the client. -/
def bytes : ServerEvent → Bytes
  | sent bytes => bytes
  | _ => []

def called? : ServerEvent → Option Message
  | called args => some args
  | _ => none

def replied? : ServerEvent → Option Message
  | replied reply => some reply
  | _ => none

end ServerEvent

namespace ClientEvent

/-- The bytes that go to the server. -/
def bytes : ClientEvent → Bytes
  | sent bytes => bytes
  | _ => []

def decoded? : ClientEvent → Option Message
  | decoded reply => some reply
  | _ => none

end ClientEvent

/-- The server on the bytes of a request. -/
def serve (net : Network) (env : ServerEnv) (n : LocalNode db) (request : Bytes) :
    List ServerEvent :=
  (SdsP2PServer.handleRequest env
    (net.deliver MessageRequestHeader.word.width request)).events n

/-- What the client receives when these bytes have been sent to it. -/
def receive (net : Network) (sent : Bytes) : List Recv :=
  if sent = [] then [] else net.deliver MessageResponseHeader.word.width sent

/-- A connection to a server. -/
def connect (net : Network) (env : ServerEnv) (n : LocalNode db) : Connection where
  sendsHeader := true
  sendsArgs := true
  answer request := receive net ((serve net env n request).flatMap ServerEvent.bytes)

/-- The bytes that a stub sends during a call. -/
def Call.sent (cenv : ClientEnv) (conn : Connection) (c : Call) : Bytes :=
  ((c.run cenv conn).events ()).flatMap ClientEvent.bytes

/-- The replies that it decodes. -/
def Call.decoded (cenv : ClientEnv) (conn : Connection) (c : Call) : List Message :=
  ((c.run cenv conn).events ()).filterMap ClientEvent.decoded?

/-- Stub and handler agree about a call. -/
structure Agrees (net : Network) (senv : ServerEnv) (cenv : ClientEnv) (n : LocalNode db)
    (c : Call) : Prop where
  /-- The request makes one handler run, the one for these arguments. -/
  called : (serve net senv n (c.sent cenv (connect net senv n))).filterMap
    ServerEvent.called? = [c.args cenv]
  /-- Where the stub decodes a reply or returns without an error, it has decoded what
  the handler encoded. -/
  decoded : c.decoded cenv (connect net senv n) ≠ [] ∨
      (c.run cenv (connect net senv n)).outcome () = .returned ERR_NULL.toNat () →
    c.decoded cenv (connect net senv n) =
      (serve net senv n (c.sent cenv (connect net senv n))).filterMap ServerEvent.replied?

/-! ### The server -/

/-- The header of a request with a payload. -/
def requestHeader (funcode : UInt8) (id : UInt64) (payload : Bytes) : Bytes :=
  MessageRequestHeader.word.encode ⟨funcode, id, UInt64.ofNat payload.length⟩

/-- The response to what `dispatch` ends with. -/
def response (funcode : UInt8) (id : UInt64) :
    Outcome (LocalNode db) (UInt8 × SdsBytesBuf) → List ServerEvent
  | .returned (errcode, reply) _ => [.sent (MessageResponseHeader.word.encode
      ⟨funcode, errcode, id, if errcode = ERR_NULL then UInt64.ofNat reply.size else 0⟩ ++
        if 0 < reply.size ∧ errcode = ERR_NULL then reply.bytes else [])]
  | _ => []

theorem response_of_fails {funcode : UInt8} {id : UInt64}
    {o : Outcome (LocalNode db) (UInt8 × SdsBytesBuf)} (h : o.Fails) :
    response funcode id o = [] := by
  cases o with
  | returned a n => exact h.elim
  | threw what n => rfl
  | aborted => rfl
  | undefined => rfl
  | stuck => rfl

/-- **A request is dispatched on a buffer with its payload**, and then answered. -/
theorem handleRequest_request (net : Network) (env : ServerEnv) (n : LocalNode db)
    (funcode : UInt8) (id : UInt64) {payload : Bytes} (hne : payload ≠ [])
    (hsize : payload.length < 2 ^ 64) :
    ∃ args : SdsBytesBuf, args.At payload ∧
      SdsP2PServer.handleRequest env (net.deliver MessageRequestHeader.word.width
        (requestHeader funcode id payload ++ payload)) n =
      (SdsP2PServer.dispatch env funcode args (SdsBytesBuf.empty env.replyMem) >>=
        fun reply => SdsP2PServer.sendReply ⟨funcode, reply.1, id,
          if reply.1 = ERR_NULL then UInt64.ofNat reply.2.size else 0⟩ reply.2) n := by
  obtain ⟨buf, hbytes, hloop⟩ := net.recvLoop_cut (ε := ServerEvent) (σ := LocalNode db)
    env.argsMem hne hsize
  refine ⟨buf.rewind, hbytes ▸ at_rewind buf, ?_⟩
  rw [requestHeader, Network.deliver_encode, SdsP2PServer.handleRequest,
    if_neg (by simpa using Word.encode_ne_nil _ _), Option.bind_some, Word.decode?_encode]
  simp only
  rw [if_pos (ofNat_length_pos hne hsize), Prog.bind_of_returned_nil (hloop n)]
  rfl

/-- What is noted on the way. -/
theorem serve_request (net : Network) (env : ServerEnv) (n : LocalNode db) (funcode : UInt8)
    (id : UInt64) {payload : Bytes} (hne : payload ≠ []) (hsize : payload.length < 2 ^ 64) :
    ∃ args : SdsBytesBuf, args.At payload ∧
      serve net env n (requestHeader funcode id payload ++ payload) =
        (SdsP2PServer.dispatch env funcode args (SdsBytesBuf.empty env.replyMem)).events n ++
        response funcode id ((SdsP2PServer.dispatch env funcode args
          (SdsBytesBuf.empty env.replyMem)).outcome n) := by
  obtain ⟨args, hargs, hhandle⟩ := handleRequest_request net env n funcode id hne hsize
  refine ⟨args, hargs, ?_⟩
  rw [serve, Prog.events, hhandle]
  simp only [Prog.events, Prog.outcome]
  rcases hrun : SdsP2PServer.dispatch env funcode args (SdsBytesBuf.empty env.replyMem) n
    with ⟨es, o⟩
  rcases o.returned_or_fails with ⟨a, n', rfl⟩ | hfails
  · rw [Prog.bind_of_returned hrun]
    rfl
  · obtain ⟨o', ho', -⟩ := Prog.bind_of_fails hrun hfails
    rw [ho', response_of_fails hfails, List.append_nil]

@[simp] theorem filterMap_called?_response (funcode : UInt8) (id : UInt64)
    (o : Outcome (LocalNode db) (UInt8 × SdsBytesBuf)) :
    (response funcode id o).filterMap ServerEvent.called? = [] := by
  cases o <;> rfl

@[simp] theorem filterMap_replied?_response (funcode : UInt8) (id : UInt64)
    (o : Outcome (LocalNode db) (UInt8 × SdsBytesBuf)) :
    (response funcode id o).filterMap ServerEvent.replied? = [] := by
  cases o <;> rfl

/-- What the handlers that reply have in common. -/
def replying {α : Type} (args : Message) (m : SdsP2PServer.Server db α) (f : α → Message)
    (reply : SdsBytesBuf) : SdsP2PServer.Server db (UInt8 × SdsBytesBuf) := do
  Prog.note (.called args)
  let x ← m
  Prog.note (.replied (f x))
  let reply ← Prog.ofOption ((f x).write reply) Prog.stuck
  pure (ERR_NULL, reply)

/-- Where the work returns, there is a reply. -/
theorem replying_of_returned {α : Type} (args : Message) {m : SdsP2PServer.Server db α}
    (f : α → Message) (mem : ℕ → UInt8) {n n' : LocalNode db} {x : α}
    (hm : m n = ([], .returned x n')) : ∃ buf, buf.bytes = (f x).encode ∧
      replying args m f (SdsBytesBuf.empty mem) n =
        ([.called args, .replied (f x)], .returned (ERR_NULL, buf) n') := by
  obtain ⟨buf, hwrite, -, hbytes⟩ := (f x).writes_write _ (atEnd_empty mem)
  refine ⟨buf, hbytes, ?_⟩
  rw [replying, Prog.note_bind, Prog.bind_of_returned_nil hm, hwrite]
  rfl

/-- Where it does not, there is none. -/
theorem replying_of_fails {α : Type} (args : Message) {m : SdsP2PServer.Server db α}
    (f : α → Message) (reply : SdsBytesBuf) {n : LocalNode db} {o : Outcome (LocalNode db) α}
    (hm : m n = ([], o)) (ho : o.Fails) :
    ∃ o', replying args m f reply n = ([.called args], o') ∧ o'.Fails := by
  obtain ⟨o', hrun, hfails⟩ := Prog.bind_of_fails (f := fun x => do
    Prog.note (.replied (f x))
    let reply ← Prog.ofOption ((f x).write reply) Prog.stuck
    pure (ERR_NULL, reply)) hm ho
  refine ⟨o', ?_, hfails⟩
  rw [replying, Prog.note_bind, hrun]
  rfl

/-- `ping` and `findNode` are of this kind. -/
theorem dispatch_ping (env : ServerEnv) {args : PingArgs} (hargs : CleanString args.address)
    (reply : SdsBytesBuf) {a : SdsBytesBuf} (ha : a.At args.encode) :
    (SdsP2PServer.dispatch env FUNC_PING a reply : SdsP2PServer.Server db _) =
      replying (.pingArgs args) (LocalNode.ping args.id (cstr args.address))
        (fun _ => .pingReply ⟨args.nonce⟩) reply := by
  have hread := (PingArgs.reads_read hargs env.fresh a [] (by rwa [List.append_nil])).1
  rw [SdsP2PServer.dispatch_func_ping, SdsP2PServer.ping, hread]
  rfl

theorem dispatch_findNode (env : ServerEnv) {args : FindNodeArgs} (reply : SdsBytesBuf)
    {a : SdsBytesBuf} (ha : a.At args.encode) :
    (SdsP2PServer.dispatch env FUNC_FIND_NODE a reply : SdsP2PServer.Server db _) =
      replying (.findNodeArgs args) (LocalNode.findNode env.std args.targetId)
        (fun nearest => .findNodeReply ⟨nearest⟩) reply := by
  have hread := (args.reads_read env.fresh a [] (by rwa [List.append_nil])).1
  rw [SdsP2PServer.dispatch_func_findNode, SdsP2PServer.findNode, hread]
  rfl

/-- `storeResult` has no reply, and nothing else is noted. -/
theorem events_dispatch_storeResult (env : ServerEnv) (n : LocalNode db) (args : StoreResultArgs)
    (hargs : args.se.Clean) {a reply : SdsBytesBuf} (ha : a.At args.encode) :
    (SdsP2PServer.dispatch env FUNC_STORE_RESULT a reply).events n =
      [.called (.storeResultArgs args)] := by
  have hread := (StoreResultArgs.reads_read hargs ⟨SearchEntry.default⟩ a []
    (by rwa [List.append_nil])).1
  have hsilent : Prog.Silent (Prog.tryCatch (do
      let _ ← (LocalNode.storeResult env.db args.se : SdsP2PServer.Server db ℤ)
      pure (ERR_NULL, reply)) fun _ => pure (ERR_TYPE_ARGUMENT, reply)) :=
    Prog.Notes.tryCatch
      ((LocalNode.silent_storeResult env.db args.se).bind fun _ => Prog.notes_pure _)
      fun _ => Prog.notes_pure _
  rw [SdsP2PServer.dispatch_func_storeResult, SdsP2PServer.storeResult, hread, Prog.events,
    Prog.note_bind, hsilent.run n]
  rfl

/-! ### The client -/

namespace Call

/-- The function code that a stub sends. -/
def funcode : Call → UInt8
  | ping _ _ => FUNC_PING
  | findNode _ => FUNC_FIND_NODE
  | storeResult _ => FUNC_STORE_RESULT
  | findResults _ => FUNC_FIND_NODE

/-- A query has no NUL, since it is passed as a C string. -/
def Sendable (c : Call) : Prop := ∀ query, c = findResults query → 0 ∉ query

/-- The strings are clean. -/
def Clean : Call → Prop
  | ping _ address => CleanString address
  | findNode _ => True
  | storeResult se => se.Clean
  | findResults query => CleanString query

theorem Clean.sendable {c : Call} (hc : c.Clean) : c.Sendable := by
  rintro query rfl
  exact hc.2

/-- What a stub does with the error code and the reply buffer. -/
def finish (env : ClientEnv) : Call → ℤ × SdsBytesBuf → SdsP2PClient.Client ℤ
  | ping _ _, (ret, r) =>
      if ret ≠ ERR_NULL.toNat then SdsP2PClient.throwP2PException ret
      else do
        Prog.note (.decoded (.pingReply (PingReply.read.value r)))
        if (PingReply.read.value r).nonce ≠ env.fresh.nonce then
          Prog.throw "ping reply nonce do not match"
        else pure ret
  | findNode _, (ret, r) =>
      if ret ≠ ERR_NULL.toNat then SdsP2PClient.throwP2PException ret
      else do
        Prog.note (.decoded (.findNodeReply ((FindNodeReply.read env.fresh ⟨∅⟩).value r)))
        pure ERR_NULL.toNat
  | storeResult _, (ret, _) => pure ret
  | findResults _, (ret, r) =>
      if ret ≠ 0 then SdsP2PClient.throwP2PException ret
      else do
        Prog.note (.decoded (.findResultsReply
          ((FindResultsReply.read env.fresh ⟨⟨∅⟩, []⟩).value r)))
        pure ERR_NULL.toNat

/-- What a stub does with a response. -/
def onResponse (env : ClientEnv) (c : Call) (rs : List Recv) : SdsP2PClient.Client ℤ :=
  SdsP2PClient.recvReply env (SdsBytesBuf.empty env.replyMem) rs >>= c.finish env

/-- The bytes of the request. -/
def request (env : ClientEnv) (c : Call) : Bytes :=
  requestHeader c.funcode env.requestId (c.args env).encode ++ (c.args env).encode

end Call

/-- A stub writes its arguments, sends a request and goes on with the response. -/
theorem run_eq {c : Call} (hc : c.Sendable) (env : ClientEnv) (conn : Connection) :
    ∃ a : SdsBytesBuf, a.bytes = (c.args env).encode ∧ c.run env conn =
      SdsP2PClient.sendRpcRequest env conn c.funcode a (SdsBytesBuf.empty env.replyMem) >>=
        c.finish env := by
  obtain ⟨a, hwrite, -, hbytes⟩ := (c.args env).writes_write _ (atEnd_empty env.argsMem)
  refine ⟨a, hbytes, ?_⟩
  cases c with
  | ping id address =>
    simp only [Call.args, Message.write] at hwrite
    simp only [Call.run, SdsP2PClient.ping, hwrite, Prog.ofOption]
    rfl
  | findNode id =>
    simp only [Call.args, Message.write] at hwrite
    simp only [Call.run, SdsP2PClient.findNode, hwrite, Prog.ofOption, pure_bind, bind_assoc]
    congr 1
    funext p
    dsimp only [Call.finish]
    split <;> rfl
  | storeResult se =>
    simp only [Call.args, Message.write] at hwrite
    simp only [Call.run, SdsP2PClient.storeResult, hwrite, Prog.ofOption]
    rfl
  | findResults query =>
    have hcstr : cstr query = query := cstr_of_not_mem (hc query rfl)
    simp only [Call.args, Message.write] at hwrite
    simp only [Call.run, SdsP2PClient.findResults, hcstr, hwrite, Prog.ofOption, pure_bind,
      bind_assoc]
    congr 1
    funext p
    dsimp only [Call.finish]
    split <;> rfl

/-- Behind the two sends, everything depends on the response. -/
theorem run_connect {c : Call} (hc : c.Sendable) (env : ClientEnv) (answer : Bytes → List Recv) :
    (c.run env ⟨true, true, answer⟩) () =
      ([.sent (requestHeader c.funcode env.requestId (c.args env).encode),
        .sent (c.args env).encode] ++ (c.onResponse env (answer (c.request env)) ()).1,
        (c.onResponse env (answer (c.request env)) ()).2) := by
  obtain ⟨a, hbytes, hrun⟩ := run_eq hc env ⟨true, true, answer⟩
  have hsize : a.size = (c.args env).encode.length := by rw [← hbytes, length_bytes]
  rw [hrun, SdsP2PClient.sendRpcRequest, if_neg Bool.noConfusion, if_neg Bool.noConfusion, hsize,
    hbytes, bind_assoc, Prog.note_bind, bind_assoc,
    Prog.note_bind]
  rfl

/-- A stub sends nothing more when the response comes. -/
theorem notes_onResponse (env : ClientEnv) (c : Call) (rs : List Recv) :
    (c.onResponse env rs).Notes fun e => e.bytes = [] := by
  refine Prog.Notes.bind ?_ ?_
  · exact (SdsP2PClient.silent_recvReply env _ rs).mono fun _ h => h.elim
  · rintro ⟨ret, r⟩
    cases c with
    | ping id address =>
      dsimp only [Call.finish]
      split
      · exact Prog.notes_throw _
      refine Prog.Notes.bind (Prog.notes_note rfl) fun _ => ?_
      split
      · exact Prog.notes_throw _
      · exact Prog.notes_pure _
    | findNode id =>
      dsimp only [Call.finish]
      split
      · exact Prog.notes_throw _
      · exact Prog.Notes.bind (Prog.notes_note rfl) fun _ => Prog.notes_pure _
    | storeResult se => exact Prog.notes_pure _
    | findResults query =>
      dsimp only [Call.finish]
      split
      · exact Prog.notes_throw _
      · exact Prog.Notes.bind (Prog.notes_note rfl) fun _ => Prog.notes_pure _

/-- **What a call is about**: the request, what the server does with it, and what
the stub does with the response. -/
theorem agrees_iff_response {c : Call} (hc : c.Clean) (net : Network) (senv : ServerEnv)
    (cenv : ClientEnv) (n : LocalNode db) {events : List ServerEvent}
    (hevents : serve net senv n (c.request cenv) = events)
    {run : List ClientEvent × Outcome Unit ℤ}
    (hrun : c.onResponse cenv (receive net (events.flatMap ServerEvent.bytes)) () = run) :
    Agrees net senv cenv n c ↔
      events.filterMap ServerEvent.called? = [c.args cenv] ∧
      (run.1.filterMap ClientEvent.decoded? ≠ [] ∨ run.2 = .returned ERR_NULL.toNat () →
        run.1.filterMap ClientEvent.decoded? = events.filterMap ServerEvent.replied?) := by
  have hconnect := run_connect hc.sendable cenv (connect net senv n).answer
  have hanswer : (connect net senv n).answer (c.request cenv) =
      receive net (events.flatMap ServerEvent.bytes) := by
    simp only [connect, hevents]
  have heta : connect net senv n = ⟨true, true, (connect net senv n).answer⟩ := by
    simp only [connect]
  rw [← heta, hanswer, hrun] at hconnect
  have hquiet : run.1.flatMap ClientEvent.bytes = [] := by
    rw [List.flatMap_eq_nil_iff, ← hrun]
    exact notes_onResponse cenv c _ ()
  have hsent : c.sent cenv (connect net senv n) = c.request cenv := by
    rw [Call.sent, Prog.events, hconnect,
      List.flatMap_append, hquiet]
    simp [ClientEvent.bytes, Call.request]
  have hdecoded : c.decoded cenv (connect net senv n) =
      run.1.filterMap ClientEvent.decoded? := by
    rw [Call.decoded, Prog.events, hconnect]
    rfl
  have houtcome : (c.run cenv (connect net senv n)).outcome () = run.2 := by
    rw [Prog.outcome, hconnect]
  constructor
  · rintro ⟨hcalled, hreply⟩
    rw [hsent, hevents] at hcalled hreply
    rw [hdecoded, houtcome] at hreply
    exact ⟨hcalled, hreply⟩
  · rintro ⟨hcalled, hreply⟩
    refine ⟨by rw [hsent, hevents]; exact hcalled, ?_⟩
    rw [hdecoded, houtcome, hsent, hevents]
    exact hreply

/-! ### One call -/

theorem encode_args_ne_nil (env : ClientEnv) (c : Call) : (c.args env).encode ≠ [] := by
  cases c with
  | ping id address => exact List.append_ne_nil_of_left_ne_nil (Word.encode_ne_nil _ _) _
  | findNode id => exact id.id_ne_nil
  | storeResult se => exact List.append_ne_nil_of_left_ne_nil se.simHash.id.id_ne_nil _
  | findResults query => exact List.append_ne_nil_of_right_ne_nil _ (List.cons_ne_nil _ _)

/-- An error is not returned as success, and nothing is decoded then. -/
theorem finish_of_ne (env : ClientEnv) (c : Call) {ret : ℤ} (h : ret ≠ ERR_NULL.toNat) (r : SdsBytesBuf) :
    (c.finish env (ret, r) ()).1 = [] ∧
      (c.finish env (ret, r) ()).2 ≠ .returned ERR_NULL.toNat () := by
  cases c with
  | ping id address =>
    dsimp only [Call.finish]
    rw [if_pos h]
    exact ⟨rfl, nofun⟩
  | findNode id =>
    dsimp only [Call.finish]
    rw [if_pos h]
    exact ⟨rfl, nofun⟩
  | storeResult se =>
    refine ⟨rfl, fun heq => h ?_⟩
    exact (Outcome.returned.inj heq).1
  | findResults query =>
    have h' : ret ≠ 0 := h
    dsimp only [Call.finish]
    rw [if_pos h']
    exact ⟨rfl, nofun⟩

section

variable {c : Call} (hc : c.Clean) (net : Network) (senv : ServerEnv) (cenv : ClientEnv)
  (n : LocalNode db) (hsize : (c.args cenv).encode.length < 2 ^ 64)

include hc hsize

/-- A call whose handler does not come to its end. -/
theorem agrees_of_fails
    (hdispatch : ∀ a : SdsBytesBuf, a.At (c.args cenv).encode → ∃ o,
      SdsP2PServer.dispatch senv c.funcode a (SdsBytesBuf.empty senv.replyMem) n =
        ([.called (c.args cenv)], o) ∧ o.Fails) : Agrees net senv cenv n c := by
  obtain ⟨a, ha, hserve⟩ := serve_request net senv n c.funcode cenv.requestId
    (encode_args_ne_nil cenv c) hsize
  obtain ⟨o, hrun, hfails⟩ := hdispatch a ha
  rw [Prog.events, Prog.outcome, hrun, response_of_fails hfails, List.append_nil] at hserve
  -- no answer comes, which the stub takes for a request that was not received
  have hresponse : c.onResponse cenv (receive net
      (List.flatMap ServerEvent.bytes [.called (c.args cenv)])) () =
      c.finish cenv (ERR_RECV_REQUEST.toNat, SdsBytesBuf.empty cenv.replyMem) () := rfl
  have herr : (ERR_RECV_REQUEST.toNat : ℤ) ≠ ERR_NULL.toNat := by decide
  obtain ⟨hnone, hne⟩ := finish_of_ne cenv c herr (SdsBytesBuf.empty cenv.replyMem)
  rw [agrees_iff_response hc net senv cenv n hserve hresponse, hnone]
  refine ⟨rfl, ?_⟩
  rintro (h | h)
  · exact absurd rfl h
  · exact absurd h hne

/-- A call whose handler replies: it is left what the stub makes of the reply. -/
theorem agrees_iff_of_replied (reply : Message) (hne : reply.encode ≠ [])
    (hreply : reply.encode.length < 2 ^ 64)
    (hdispatch : ∀ a : SdsBytesBuf, a.At (c.args cenv).encode → ∃ n' buf,
      buf.bytes = reply.encode ∧
      SdsP2PServer.dispatch senv c.funcode a (SdsBytesBuf.empty senv.replyMem) n =
        ([.called (c.args cenv), .replied reply], .returned (ERR_NULL, buf) n')) :
    ∃ r : SdsBytesBuf, r.At reply.encode ∧
      (Agrees net senv cenv n c ↔
        ((c.finish cenv (ERR_NULL.toNat, r) ()).1.filterMap ClientEvent.decoded? ≠ [] ∨
            (c.finish cenv (ERR_NULL.toNat, r) ()).2 = .returned ERR_NULL.toNat () →
          (c.finish cenv (ERR_NULL.toNat, r) ()).1.filterMap ClientEvent.decoded? = [reply])) := by
  obtain ⟨a, ha, hserve⟩ := serve_request net senv n c.funcode cenv.requestId
    (encode_args_ne_nil cenv c) hsize
  obtain ⟨n', buf, hbytes, hrun⟩ := hdispatch a ha
  obtain ⟨r, hr, hrecv⟩ := SdsP2PClient.recvReply_of_payload cenv net c.funcode hne hreply
  refine ⟨r, hr, ?_⟩
  have hbufsize : buf.size = reply.encode.length := by rw [← length_bytes, hbytes]
  have hpos : 0 < buf.size := hbufsize ▸ List.length_pos_iff.mpr hne
  rw [Prog.events, Prog.outcome, hrun, response, if_pos rfl, if_pos ⟨hpos, rfl⟩, hbufsize,
    hbytes] at hserve
  have hresponse : c.onResponse cenv (receive net (List.flatMap ServerEvent.bytes
      ([.called (c.args cenv), .replied reply] ++ [.sent (MessageResponseHeader.word.encode
        ⟨c.funcode, ERR_NULL, cenv.requestId, UInt64.ofNat reply.encode.length⟩ ++
          reply.encode)]))) () = c.finish cenv (ERR_NULL.toNat, r) () := by
    have hsent : List.flatMap ServerEvent.bytes ([.called (c.args cenv), .replied reply] ++
        [.sent (MessageResponseHeader.word.encode
          ⟨c.funcode, ERR_NULL, cenv.requestId, UInt64.ofNat reply.encode.length⟩ ++
            reply.encode)]) = MessageResponseHeader.word.encode
          ⟨c.funcode, ERR_NULL, cenv.requestId, UInt64.ofNat reply.encode.length⟩ ++
            reply.encode := by
      simp [ServerEvent.bytes]
    rw [hsent, receive, if_neg (List.append_ne_nil_of_right_ne_nil _ hne), Call.onResponse,
      Prog.bind_of_returned_nil hrecv]
  rw [agrees_iff_response hc net senv cenv n hserve hresponse]
  have hcalled : List.filterMap ServerEvent.called?
      ([.called (c.args cenv), .replied reply] ++ [.sent (MessageResponseHeader.word.encode
        ⟨c.funcode, ERR_NULL, cenv.requestId, UInt64.ofNat reply.encode.length⟩ ++
          reply.encode)]) = [c.args cenv] := rfl
  exact ⟨fun h => h.2, fun h => ⟨hcalled, h⟩⟩

/-- A call whose handler neither replies nor makes the stub decode anything. -/
theorem agrees_of_silent (hquiet : ∀ rs, (c.onResponse cenv rs).Silent)
    (hdispatch : ∀ a : SdsBytesBuf, a.At (c.args cenv).encode →
      (SdsP2PServer.dispatch senv c.funcode a (SdsBytesBuf.empty senv.replyMem)).events n =
        [.called (c.args cenv)]) : Agrees net senv cenv n c := by
  obtain ⟨a, ha, hserve⟩ := serve_request net senv n c.funcode cenv.requestId
    (encode_args_ne_nil cenv c) hsize
  rw [hdispatch a ha] at hserve
  rw [agrees_iff_response hc net senv cenv n hserve ((hquiet _).run ())]
  constructor
  · rw [List.filterMap_append, filterMap_called?_response]
    rfl
  · intro _
    rw [List.filterMap_append, filterMap_replied?_response]
    rfl

end

/-! ### The four calls -/

theorem agrees_ping (net : Network) (senv : ServerEnv) (cenv : ClientEnv) (n : LocalNode db)
    {id : KadId} {address : Bytes} (hc : CleanString address)
    (hsize : ((Call.ping id address).args cenv).encode.length < 2 ^ 64) :
    Agrees net senv cenv n (.ping id address) := by
  have hclean : (Call.ping id address).Clean := hc
  let args : PingArgs := ⟨cenv.fresh.nonce, id, address⟩
  let reply : PingReply := ⟨cenv.fresh.nonce⟩
  have hdispatch : ∀ a : SdsBytesBuf, a.At args.encode →
      (SdsP2PServer.dispatch senv FUNC_PING a (SdsBytesBuf.empty senv.replyMem) :
        SdsP2PServer.Server db _) = _ := fun a ha => dispatch_ping senv hc _ ha
  have hsilent : (LocalNode.ping id (cstr address) : SdsP2PServer.Server db ℤ).Silent :=
    LocalNode.silent_ping id (cstr address)
  have hping := hsilent.run n
  rcases Outcome.returned_or_fails ((LocalNode.ping id (cstr address)).outcome n) with
    ⟨x, n', hx⟩ | hfails
  · rw [hx] at hping
    obtain ⟨buf, hbytes, hrun⟩ := replying_of_returned (.pingArgs args)
      (fun _ => .pingReply reply) senv.replyMem hping
    have hlength : reply.encode.length < 2 ^ 64 := by
      rw [PingReply.encode, Word.uint64.length_encode]
      decide
    obtain ⟨r, hr, hiff⟩ := agrees_iff_of_replied hclean net senv cenv n hsize
      (.pingReply reply) (Word.encode_ne_nil _ _) hlength
      fun a ha => ⟨n', buf, hbytes, by rw [Call.funcode, hdispatch a ha]; exact hrun⟩
    have hread := (reply.reads_read r [] (by rw [List.append_nil]; exact hr)).1
    refine hiff.mpr fun _ => ?_
    -- the nonce comes back as it was sent
    rw [Call.finish, if_neg (not_not.mpr rfl), hread, if_neg (not_not.mpr rfl)]
    rfl
  · obtain ⟨o, hrun, hfails'⟩ := replying_of_fails (.pingArgs args) (fun _ => .pingReply reply)
      (SdsBytesBuf.empty senv.replyMem) hping hfails
    exact agrees_of_fails hclean net senv cenv n hsize
      fun a ha => ⟨o, by rw [Call.funcode, hdispatch a ha]; exact hrun, hfails'⟩

theorem agrees_storeResult (net : Network) (senv : ServerEnv) (cenv : ClientEnv)
    (n : LocalNode db) {se : SearchEntry} (hc : se.Clean)
    (hsize : ((Call.storeResult se).args cenv).encode.length < 2 ^ 64) :
    Agrees net senv cenv n (.storeResult se) := by
  have hclean : (Call.storeResult se).Clean := hc
  refine agrees_of_silent hclean net senv cenv n hsize ?_ ?_
  · intro rs
    exact (SdsP2PClient.silent_recvReply cenv _ rs).bind fun _ => Prog.notes_pure _
  · intro a ha
    exact events_dispatch_storeResult senv n ⟨se⟩ hc ha

/-- The nodes that `findNode` hands out for an id. -/
def handedOut (std : StdSort) (n : LocalNode db) (id : KadId) : NearestMap :=
  LocalNode.nearestOf (n.ktable.getKClosestTo std id)

omit [Hashing] in
theorem size_handedOut_le (std : StdSort) (n : LocalNode db) (id : KadId) :
    (handedOut std n id).size ≤ KAD_ID_LENGTH := by
  have hset : handedOut std n id = (∅ : NearestMap).setAll
      ((n.ktable.getKClosestTo std id).map fun kn => (kn.id, kn.address)) := by
    rw [OrdMap.setAll, List.foldl_map]
    rfl
  have hle := OrdMap.size_setAll_le
    ((n.ktable.getKClosestTo std id).map fun kn => (kn.id, kn.address)) (∅ : NearestMap)
  rw [← hset, List.length_map] at hle
  refine hle.trans ?_
  rw [show (∅ : NearestMap).size = 0 from rfl, Nat.zero_add]
  exact n.ktable.length_getClosestTo_le std id KAD_ID_LENGTH

/-- **`findNode` agrees exactly where the addresses that it hands out are
readable**; it does not get to them while somebody holds the mutex. -/
theorem agrees_findNode_iff (net : Network) (senv : ServerEnv) (cenv : ClientEnv)
    (n : LocalNode db) {id : KadId}
    (hsize : ((Call.findNode id).args cenv).encode.length < 2 ^ 64)
    (hreply : (FindNodeReply.mk (handedOut senv.std n id)).encode.length < 2 ^ 64) :
    Agrees net senv cenv n (.findNode id) ↔
      (n.Free → ∀ p ∈ (handedOut senv.std n id).entries, Readable p.2) := by
  have hclean : (Call.findNode id).Clean := trivial
  let reply : FindNodeReply := ⟨handedOut senv.std n id⟩
  have hdispatch : ∀ a : SdsBytesBuf, a.At (FindNodeArgs.mk id).encode →
      (SdsP2PServer.dispatch senv FUNC_FIND_NODE a (SdsBytesBuf.empty senv.replyMem) :
        SdsP2PServer.Server db _) = _ := fun a ha => dispatch_findNode senv _ ha
  by_cases hfree : n.Free
  · obtain ⟨buf, hbytes, hrun⟩ := replying_of_returned (.findNodeArgs ⟨id⟩)
      (fun nearest => .findNodeReply ⟨nearest⟩) senv.replyMem
      (LocalNode.findNode_of_free (ε := ServerEvent) senv.std id hfree)
    obtain ⟨r, hr, hiff⟩ := agrees_iff_of_replied hclean net senv cenv n hsize
      (.findNodeReply reply)
      (List.append_ne_nil_of_left_ne_nil (Word.encode_ne_nil _ _) _) hreply
      fun a ha => ⟨n, buf, hbytes, by rw [Call.funcode, hdispatch a ha]; exact hrun⟩
    have hsize32 : reply.nearest.size < 2 ^ 32 :=
      Nat.lt_of_le_of_lt (size_handedOut_le senv.std n id) (by decide)
    have hvalue := FindNodeReply.value_read_iff hsize32 cenv.fresh hr
    rw [hiff, Call.finish, if_neg (not_not.mpr rfl)]
    constructor
    · intro h _
      have hdecoded := h (Or.inr rfl)
      have hmessage := List.head_eq_of_cons_eq hdecoded
      exact hvalue.mp (Message.findNodeReply.inj hmessage)
    · intro h _
      exact congrArg (fun m => [Message.findNodeReply m]) (hvalue.mpr (h hfree))
  · obtain ⟨o, hrun, hfails⟩ := replying_of_fails (.findNodeArgs ⟨id⟩)
      (fun nearest => .findNodeReply ⟨nearest⟩) (SdsBytesBuf.empty senv.replyMem)
      (LocalNode.findNode_of_not_free (ε := ServerEvent) senv.std id hfree) trivial
    refine iff_of_true ?_ fun h => absurd h hfree
    exact agrees_of_fails hclean net senv cenv n hsize
      fun a ha => ⟨o, by rw [Call.funcode, hdispatch a ha]; exact hrun, hfails⟩

/-- **`findResults` never agrees**: the stub sends the function code of `findNode`,
and the handler of that name runs. -/
theorem not_agrees_findResults (net : Network) (senv : ServerEnv) (cenv : ClientEnv)
    (n : LocalNode db) {query : Bytes} (hc : CleanString query)
    (hsize : ((Call.findResults query).args cenv).encode.length < 2 ^ 64) :
    ¬ Agrees net senv cenv n (.findResults query) := by
  have hclean : (Call.findResults query).Clean := hc
  intro hagrees
  obtain ⟨a, -, hserve⟩ := serve_request net senv n FUNC_FIND_NODE cenv.requestId
    (encode_args_ne_nil cenv (.findResults query)) hsize
  rw [agrees_iff_response hclean net senv cenv n hserve rfl] at hagrees
  have hfirst := congrArg List.head? hagrees.1
  rw [SdsP2PServer.dispatch_func_findNode, SdsP2PServer.findNode, Prog.events,
    Prog.note_bind] at hfirst
  cases hfirst

/-- The calls that are served as the stub expects it.  What `findNode` hands out has
to be readable, and gets out while nobody holds the mutex. -/
def Served (senv : ServerEnv) (n : LocalNode db) : Call → Prop
  | .ping _ _ => True
  | .findNode id => n.Free → ∀ p ∈ (handedOut senv.std n id).entries, Readable p.2
  | .storeResult _ => True
  | .findResults _ => False

/-- The sizes of the arguments and of the reply of `findNode` are numbers that a
`size_t` can hold. -/
def Fits (senv : ServerEnv) (cenv : ClientEnv) (n : LocalNode db) (c : Call) : Prop :=
  (c.args cenv).encode.length < 2 ^ 64 ∧
    ∀ id, c = .findNode id → (FindNodeReply.mk (handedOut senv.std n id)).encode.length < 2 ^ 64

/-- **Stub and handler agree exactly about the calls that are served.** -/
theorem agrees_iff (net : Network) (senv : ServerEnv) (cenv : ClientEnv) (n : LocalNode db)
    (c : Call) (hc : c.Clean) (hfits : Fits senv cenv n c) :
    Agrees net senv cenv n c ↔ Served senv n c := by
  obtain ⟨hsize, hreply⟩ := hfits
  cases c with
  | ping id address => exact iff_of_true (agrees_ping net senv cenv n hc hsize) trivial
  | findNode id => exact agrees_findNode_iff net senv cenv n hsize (hreply id rfl)
  | storeResult se => exact iff_of_true (agrees_storeResult net senv cenv n hc hsize) trivial
  | findResults query => exact iff_of_false (not_agrees_findResults net senv cenv n hc hsize) id

end

/-- A network that delivers a payload byte by byte. -/
def Network.bytewise : Network where
  cut bs := bs.map fun b => [b]
  flatten_cut bs := by rw [← List.flatMap_def, List.flatMap_singleton']
  piece_ne_nil bs p hp := by
    obtain ⟨b, -, rfl⟩ := List.mem_map.mp hp
    exact List.cons_ne_nil b []
  length_piece_le bs p hp := by
    obtain ⟨b, -, rfl⟩ := List.mem_map.mp hp
    rw [List.length_singleton]
    decide

/-- A server in front of zeroed memory. -/
def ServerEnv.zero : ServerEnv where
  std := StdSort.insertion
  fresh := Fresh.zero
  db := Surroundings.zero
  argsMem := fun _ => 0
  replyMem := fun _ => 0

/-- A client in front of zeroed memory. -/
def ClientEnv.zero : ClientEnv := ⟨Fresh.zero, 1, fun _ => 0, fun _ => 0⟩

/-- The search for a single letter is answered by the handler of `findNode`. -/
theorem openNode_not_agrees :
    letI := Hashing.blank
    ¬ Agrees Network.bytewise ServerEnv.zero ClientEnv.zero openNode (.findResults [97]) :=
  letI := Hashing.blank
  not_agrees_findResults _ _ _ _ (by decide) (by decide)

/-- A ping with a short address. -/
theorem agrees_iff_openNode :
    letI := Hashing.blank
    Agrees Network.bytewise ServerEnv.zero ClientEnv.zero openNode (.ping (KadId.ofNat 1) [97]) ↔
      Served ServerEnv.zero openNode (.ping (KadId.ofNat 1) [97]) :=
  letI := Hashing.blank
  agrees_iff Network.bytewise ServerEnv.zero ClientEnv.zero openNode (.ping (KadId.ofNat 1) [97])
    (by show CleanString _; decide) ⟨by decide, nofun⟩

end SniffDogSniff
