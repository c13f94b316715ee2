import SniffDogSniff.P2P.Answers

/-!
# Requests that are cut short

A payload may stop before the arguments do.  The readers of the buffer then give less
than they are asked for, or look behind the end, and say nothing of it; the handlers call
the node with whatever the readers leave.  The only refusal there is comes before: it is
for a header that is itself incomplete.

## Main definitions

* `Call.handlerCode` — the function code under which the arguments of a call are taken.
* `TruncatedRequest` — a request with a part of such arguments.
* `SdsP2PServer.Refused` — an error goes to the client, and no handler runs.

## Main results

* `exists_dispatch_eq` — each of the four handlers calls the node, whatever it has read.
* `refused_iff` — **a request that is cut short is refused exactly where its header
  is.**
-/

namespace SniffDogSniff

open Bytes SdsBytesBuf

section

variable [Hashing]

/-- The function code of the handler of the same name. -/
def Call.handlerCode : SniffDogSniff.Call → UInt8
  | ping _ _ => FUNC_PING
  | findNode _ => FUNC_FIND_NODE
  | storeResult _ => FUNC_STORE_RESULT
  | findResults _ => FUNC_FIND_RESULTS

/-- A request whose payload is a front part of the arguments, and not all of them. -/
structure TruncatedRequest where
  env : ClientEnv
  call : SniffDogSniff.Call
  request : Request
  funcode_eq : request.funcode = call.handlerCode
  payload_prefix : request.payload <+: (call.args env).encode
  payload_ne : request.payload ≠ (call.args env).encode

namespace SdsP2PServer

variable {db : BerkeleyDB}

/-- An error goes to the client, without a payload, and the node is left alone. -/
structure Refused (env : ServerEnv) (n : LocalNode db) (rs : List Recv) : Prop where
  /-- The one response carries an error code. -/
  sent : ∃ resp : MessageResponseHeader, resp.errcode ≠ ERR_NULL ∧
    ((handleRequest env rs).events n).filterMap ServerEvent.sent? =
      [MessageResponseHeader.word.encode resp]
  /-- No handler gets to the call of the node. -/
  called : ((handleRequest env rs).events n).filterMap ServerEvent.called? = []
  /-- The server goes on with the node as it was. -/
  node : ∃ ret, (handleRequest env rs).outcome n = .returned ret n

/-! ### The handlers -/

/-- Behind its reader, each of the four handlers calls the node. -/
theorem exists_dispatch_eq (env : ServerEnv) (c : SniffDogSniff.Call) (args reply : SdsBytesBuf) :
    ∃ (m : Message) (rest : Unit → Server db (UInt8 × SdsBytesBuf)),
      dispatch env c.handlerCode args reply = Prog.note (.called m) >>= rest := by
  cases c with
  | ping id address =>
    rw [Call.handlerCode, dispatch_func_ping]
    exact ⟨_, _, rfl⟩
  | findNode id =>
    rw [Call.handlerCode, dispatch_func_findNode]
    exact ⟨_, _, rfl⟩
  | storeResult se =>
    rw [Call.handlerCode, dispatch_func_storeResult]
    exact ⟨_, _, rfl⟩
  | findResults query =>
    rw [Call.handlerCode, dispatch_func_findResults]
    exact ⟨_, _, rfl⟩

/-- So does the server on any arguments of theirs. -/
theorem called_answer_ne_nil (env : ServerEnv) (n : LocalNode db) (c : SniffDogSniff.Call)
    {req : MessageRequestHeader} (hreq : req.funcode = c.handlerCode) (args : SdsBytesBuf) :
    ((answer env req args).events n).filterMap ServerEvent.called? ≠ [] := by
  obtain ⟨m, rest, hdispatch⟩ : ∃ m rest, (dispatch env c.handlerCode args
      (SdsBytesBuf.empty env.replyMem) : Server db _) = Prog.note (.called m) >>= rest :=
    exists_dispatch_eq env c args _
  rw [answer, hreq, hdispatch, bind_assoc, Prog.events,
    Prog.note_bind]
  exact List.cons_ne_nil m _

/-! ### Requests -/

/-- Where the header arrives, a handler runs. -/
theorem not_refused_of_whole (env : ServerEnv) (n : LocalNode db) (t : TruncatedRequest)
    (ps : List Bytes) (hflat : ps.flatten = t.request.payload) (hne : ∀ p ∈ ps, p ≠ []) :
    ¬ Refused env n (some (MessageRequestHeader.word.encode t.request.header) :: ps.map some) := by
  intro h
  have hcalled := h.called
  rw [handleRequest_eq_answer env t.request ps hflat hne] at hcalled
  exact called_answer_ne_nil env n t.call t.funcode_eq _ hcalled

/-- Where it does not, the request is refused. -/
theorem refused_of_short (env : ServerEnv) (n : LocalNode db) {p : Bytes} (hp : p ≠ [])
    (hlt : p.length < MessageRequestHeader.word.width) (rs : List Recv) :
    Refused env n (some p :: rs) := by
  have hrun : (handleRequest env (some p :: rs) : Server db ℤ) =
      sendReply recvFailed (SdsBytesBuf.empty env.replyMem) := handleRequest_of_short env hp hlt rs
  refine ⟨⟨recvFailed, by decide, ?_⟩, ?_, ERR_RECV_REQUEST.toNat, ?_⟩
  · rw [hrun]
    rfl
  · rw [hrun]
    rfl
  · rw [hrun]
    rfl

/-- **A request that is cut short is refused exactly where its header is.** -/
theorem refused_iff (env : ServerEnv) (n : LocalNode db) (t : TruncatedRequest)
    (d : Delivery t.request) : Refused env n (d.pieces.map some) ↔
      d.pieces.head? ≠ some (MessageRequestHeader.word.encode t.request.header) := by
  rcases d.pieces_cases with ⟨ps, hps, hflat⟩ | ⟨p, ps, hps, hp, hlt⟩
  · have hne : ∀ p ∈ ps, p ≠ [] := fun p hmem =>
      d.piece_ne_nil p (hps ▸ List.mem_cons_of_mem _ hmem)
    rw [hps, List.map_cons]
    exact iff_of_false (not_refused_of_whole env n t ps hflat hne) fun h => h rfl
  · rw [hps, List.map_cons, List.head?_cons]
    refine iff_of_true (refused_of_short env n hp hlt _) fun h => ?_
    rw [Option.some.inj h, MessageRequestHeader.word.length_encode] at hlt
    exact lt_irrefl _ hlt

end SdsP2PServer

end

/-- A request for the nodes next to the zero id, without the last byte of the id. -/
def shortRequest : Request := ⟨FUNC_FIND_NODE, 1, (KadId.ofNat 0).id.take 15, by decide⟩

/-- The header and the fifteen bytes arrive in one piece each. -/
def shortWhole : Delivery shortRequest where
  pieces := [MessageRequestHeader.word.encode shortRequest.header, shortRequest.payload]
  flatten_pieces := by decide
  piece_ne_nil := by decide
  length_head_le := by decide
  length_tail_le := by decide

/-- It is a front part of the arguments of `findNode`. -/
def shortFind [Hashing] : TruncatedRequest where
  env := ClientEnv.zero
  call := .findNode (KadId.ofNat 0)
  request := shortRequest
  funcode_eq := rfl
  payload_prefix := List.take_prefix 15 (KadId.ofNat 0).id
  payload_ne := show (KadId.ofNat 0).id.take 15 ≠ (KadId.ofNat 0).id by decide

/-- The open node looks for the nodes next to an id that it has not been given. -/
theorem SdsP2PServer.not_forall_refused :
    letI := Hashing.blank
    ¬ ∀ (env : ServerEnv) (n : LocalNode BerkeleyDB.inMemory) (t : TruncatedRequest)
      (d : Delivery t.request), Refused env n (d.pieces.map some) := by
  let _ := Hashing.blank
  intro h
  exact not_refused_of_whole ServerEnv.zero openNode shortFind [shortRequest.payload] rfl
    (by decide) (h ServerEnv.zero openNode shortFind shortWhole)

end SniffDogSniff
