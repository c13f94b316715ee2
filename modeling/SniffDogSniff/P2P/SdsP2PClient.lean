import SniffDogSniff.P2P.P2PCommon
import SniffDogSniff.P2P.Transport

/-!
# The client

Each call of the client writes its arguments to a buffer, sends a request with
its function code and waits for the response.  An error code makes it throw,
except for `storeResult`, which returns the code; otherwise it reads its reply
from the payload of the response.

## Main definitions

* `Connection` — how the sends end, and what `recv` returns for the bytes sent.
* `ClientEvent` — the bytes that are sent, and the reply that is decoded.
* `SdsP2PClient.sendRpcRequest`; `SdsP2PClient.ping`, …, `SdsP2PClient.findResults`.
* `Call` — the four calls with their arguments.

## Main results

* `recvReply_of_payload` — **a reply that is delivered is in the buffer.**
-/

namespace SniffDogSniff

open Bytes SdsBytesBuf

def p2p_strerror (err : ℤ) : String :=
  if err = ERR_RECV_REQUEST.toNat then "corrupted or bad request"
  else if err = ERR_NOFUNCT.toNat then "function does not exists"
  else if err = ERR_SERIALIZE.toNat then "error packing/unpacking function arguments"
  else if err = ERR_TYPE_ARGUMENT.toNat then "wrong arguments for function"
  else if err = ERR_CONNECTION.toNat then "unable to connect"
  else ""

/-- An open connection. -/
structure Connection where
  /-- The header goes out completely. -/
  sendsHeader : Bool
  /-- So do the arguments. -/
  sendsArgs : Bool
  /-- What the calls of `recv` return when these bytes have been sent. -/
  answer : Bytes → List Recv

/-- What the client meets during a call. -/
structure ClientEnv where
  fresh : Fresh
  /-- The random id of the request. -/
  requestId : UInt64
  /-- The memory behind the buffer of the arguments. -/
  argsMem : ℕ → UInt8
  /-- The memory behind the buffer of the reply. -/
  replyMem : ℕ → UInt8

section

variable [Hashing]

/-- What happens during a call. -/
inductive ClientEvent
  /-- These bytes go to the server. -/
  | sent (bytes : Bytes)
  /-- A reply has been read. -/
  | decoded (reply : Message)

namespace SdsP2PClient

/-- A program of the client; the state is the connection's and does not change. -/
abbrev Client := Prog ClientEvent Unit

/-- The second half of `sendRpcRequest`: receive the response.  A payload that is
cut short changes the code of the response, which is not the one that is returned. -/
def recvReply (env : ClientEnv) (reply : SdsBytesBuf) : List Recv → Client (ℤ × SdsBytesBuf)
  | [] => pure (ERR_RECV_REQUEST.toNat, reply)
  | r :: rs =>
      match r.bind MessageResponseHeader.word.decode? with
      | none => pure (ERR_RECV_REQUEST.toNat, reply)
      | some resp =>
          if resp.errcode ≠ ERR_NULL then pure (resp.errcode.toNat, reply)
          else if resp.id ≠ env.requestId then pure (ERR_REQ_ID.toNat, reply)
          else if 0 < resp.datasize then do
            -- a payload that stays short is not reported
            let received ← recvLoop rs resp.datasize (reply.allocate resp.datasize.toNat)
            pure (ERR_NULL.toNat, received.2.rewind)
          else pure (ERR_NULL.toNat, reply)

theorem silent_recvReply (env : ClientEnv) (reply : SdsBytesBuf) (rs : List Recv) :
    (recvReply env reply rs).Silent := by
  cases rs with
  | nil => exact Prog.notes_pure _
  | cons r rs =>
    rw [recvReply]
    split
    · exact Prog.notes_pure _
    split
    · exact Prog.notes_pure _
    split
    · exact Prog.notes_pure _
    split
    · exact (silent_recvLoop _ _ _).bind fun _ => Prog.notes_pure _
    · exact Prog.notes_pure _

/-- **A reply is in the buffer**, at the front of it. -/
theorem recvReply_of_payload (env : ClientEnv) (net : Network) (funcode : UInt8) {payload : Bytes}
    (hne : payload ≠ []) (hsize : payload.length < 2 ^ 64) :
    ∃ r : SdsBytesBuf, r.At payload ∧
      recvReply env (SdsBytesBuf.empty env.replyMem) (net.deliver MessageResponseHeader.word.width
        (MessageResponseHeader.word.encode
          ⟨funcode, ERR_NULL, env.requestId, UInt64.ofNat payload.length⟩ ++ payload)) () =
        ([], .returned (ERR_NULL.toNat, r) ()) := by
  obtain ⟨buf, hbytes, hloop⟩ := net.recvLoop_cut (ε := ClientEvent) (σ := Unit) env.replyMem
    hne hsize
  refine ⟨buf.rewind, hbytes ▸ at_rewind buf, ?_⟩
  rw [Network.deliver_encode, recvReply, Option.bind_some, Word.decode?_encode]
  simp only
  rw [if_neg (not_not.mpr rfl), if_neg (not_not.mpr rfl), if_pos (ofNat_length_pos hne hsize),
    Prog.bind_of_returned_nil (hloop ())]
  rfl

/-- `sendRpcRequest`: the error code and the reply buffer. -/
def sendRpcRequest (env : ClientEnv) (conn : Connection) (funcode : UInt8)
    (args reply : SdsBytesBuf) : Client (ℤ × SdsBytesBuf) :=
  let req := MessageRequestHeader.word.encode
    ⟨funcode, env.requestId, UInt64.ofNat args.size⟩
  if conn.sendsHeader = false then pure (-2, reply)
  else do
    Prog.note (.sent req)
    if conn.sendsArgs = false then pure (-2, reply)
    else
      Prog.note (.sent args.bytes)
      recvReply env reply (conn.answer (req ++ args.bytes))

/-- `throw SdsP2PException(ret)`. -/
def throwP2PException {α : Type} (ret : ℤ) : Client α :=
  Prog.throw s!"p2p exception: {p2p_strerror ret}"

def ping (env : ClientEnv) (conn : Connection) (id : KadId) (address : Bytes) : Client ℤ := do
  let args : PingArgs := ⟨env.fresh.nonce, id, address⟩
  let a ← Prog.ofOption (args.write (SdsBytesBuf.empty env.argsMem)) Prog.stuck
  let (ret, r) ← sendRpcRequest env conn FUNC_PING a (SdsBytesBuf.empty env.replyMem)
  if ret ≠ ERR_NULL.toNat then throwP2PException ret
  else
    let reply := PingReply.read.value r
    Prog.note (.decoded (.pingReply reply))
    if reply.nonce ≠ args.nonce then Prog.throw "ping reply nonce do not match"
    else pure ret

def findNode (env : ClientEnv) (conn : Connection) (reply : FindNodeReply) (id : KadId) :
    Client (ℤ × FindNodeReply) := do
  let args : FindNodeArgs := ⟨id⟩
  let a ← Prog.ofOption (args.write (SdsBytesBuf.empty env.argsMem)) Prog.stuck
  let (ret, r) ← sendRpcRequest env conn FUNC_FIND_NODE a (SdsBytesBuf.empty env.replyMem)
  if ret ≠ ERR_NULL.toNat then throwP2PException ret
  else
    let reply := (reply.read env.fresh).value r
    Prog.note (.decoded (.findNodeReply reply))
    pure (ERR_NULL.toNat, reply)

def storeResult (env : ClientEnv) (conn : Connection) (se : SearchEntry) : Client ℤ := do
  let args : StoreResultArgs := ⟨se⟩
  let a ← Prog.ofOption (args.write (SdsBytesBuf.empty env.argsMem)) Prog.stuck
  let (ret, _) ← sendRpcRequest env conn FUNC_STORE_RESULT a (SdsBytesBuf.empty env.replyMem)
  pure ret

/-- `findResults`; the source sends it with the function code of `findNode`. -/
def findResults (env : ClientEnv) (conn : Connection) (reply : FindResultsReply) (query : Bytes) :
    Client (ℤ × FindResultsReply) := do
  let args : FindResultsArgs := ⟨cstr query⟩
  let a ← Prog.ofOption (args.write (SdsBytesBuf.empty env.argsMem)) Prog.stuck
  -- not the code of `findResults`
  let (ret, r) ← sendRpcRequest env conn FUNC_FIND_NODE a (SdsBytesBuf.empty env.replyMem)
  if ret ≠ 0 then throwP2PException ret
  else
    let reply := (reply.read env.fresh).value r
    Prog.note (.decoded (.findResultsReply reply))
    pure (ERR_NULL.toNat, reply)

end SdsP2PClient

/-- The calls of the client. -/
inductive Call
  | ping (id : KadId) (address : Bytes)
  | findNode (id : KadId)
  | storeResult (se : SearchEntry)
  | findResults (query : Bytes)

namespace Call

/-- The arguments, as the handler of the same name takes them. -/
def args (env : ClientEnv) : Call → Message
  | ping id address => .pingArgs ⟨env.fresh.nonce, id, address⟩
  | findNode id => .findNodeArgs ⟨id⟩
  | storeResult se => .storeResultArgs ⟨se⟩
  | findResults query => .findResultsArgs ⟨query⟩

/-- Run the call, with a new reply where it takes one; the error code is left. -/
def run (env : ClientEnv) (conn : Connection) : Call → SdsP2PClient.Client ℤ
  | ping id address => SdsP2PClient.ping env conn id address
  | findNode id => do return (← SdsP2PClient.findNode env conn ⟨∅⟩ id).1
  | storeResult se => SdsP2PClient.storeResult env conn se
  | findResults query => do return (← SdsP2PClient.findResults env conn ⟨⟨∅⟩, []⟩ query).1

end Call

end

end SniffDogSniff
