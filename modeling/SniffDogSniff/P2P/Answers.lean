import SniffDogSniff.P2P.Decoding
import SniffDogSniff.P2P.Framing
import SniffDogSniff.SdsCore.StoreRuns

/-!
# Answers

Every request is to be answered: the server goes on, and one response goes to the client,
with the function code and the id of the request and the size of the reply behind it.  For
this the handler has to come to an end, without a look outside of the payload and of the
records of the store, and the connection has to take what is sent: where the client has gone,
`send` raises a signal that ends the process.  The arguments of the peer alone decide about a
ping by the id of the node itself, which is fatal, and about strings that lead outside.

## Main definitions

* `SearchEntriesDB.InsertEnds` — what `insertResult` needs in order to come to an end.
* `SdsP2PServer.HandlerEnds` — what the handler needs for that.
* `Connection` — what becomes of the two calls of `send`.
* `SdsP2PServer.Answered`, `SdsP2PServer.CanAnswer` — a request is answered, and what that
  takes.

## Main results

* `ends_dispatch_iff` — the handler returns exactly where it has what it needs.
* `readsPayload_iff`, `readsRecords_iff` — where it looks at nothing else.
* `answered_iff` — **a request is answered exactly where all that is met.**
-/

namespace SniffDogSniff

open Bytes SdsBytesBuf

section

variable [Hashing] {db : BerkeleyDB}

/-- The bytes of a response. -/
def ServerEvent.sent? : ServerEvent → Option Bytes
  | sent bytes => some bytes
  | _ => none

/-! ### The node -/

section

variable {ε : Type}

omit [Hashing] in
/-- `modified` comes to an end where nothing is of a day's age. -/
theorem SearchEntriesDB.ends_modified_iff (now : Int64) (s : SearchEntriesDB db)
    {E : SearchEntriesDB db → Prop} :
    Prog.Ends (modified now : Prog ε _ _) s (fun _ _ => True) E ↔
      ∀ e ∈ s.timestamps.entries, now.toInt - e.2.toInt < UNIX_DAY := by
  rw [modified, Prog.ends_bind, Prog.ends_get]
  split
  · next h =>
    refine iff_of_false id fun hyoung => ?_
    obtain ⟨e, he, hday⟩ := List.any_eq_true.mp h
    exact absurd (hyoung e he) (not_lt.mpr (of_decide_eq_true hday))
  · next h =>
    refine iff_of_true trivial fun e he => not_le.mp fun hday => ?_
    exact h (List.any_eq_true.mpr ⟨e, he, decide_eq_true hday⟩)

/-- Where the entry is put, a key is read for it, and nothing is of a day's age afterwards. -/
def SearchEntriesDB.InsertEnds (env : Surroundings) (se : SearchEntry) (s : SearchEntriesDB db) :
    Prop :=
  ∀ st, s.dbp = some st → se.hasValidSize = true → ∃ key ∈ env.key,
    (db.put st key se.encode).2 = 0 →
      ∀ e ∈ (s.timestamps.set se.hash env.now).entries, env.later.toInt - e.2.toInt < UNIX_DAY

/-- **`insertResult` comes to an end exactly then.** -/
theorem SearchEntriesDB.ends_insertResult_iff (env : Surroundings) (se : SearchEntry)
    (s : SearchEntriesDB db) :
    Prog.Ends (insertResult env se : Prog ε _ _) s (fun _ _ => True) (fun _ => True) ↔
      s.InsertEnds env se := by
  rw [insertResult, Prog.ends_bind, Prog.ends_get, InsertEnds]
  cases hdbp : s.dbp with
  | none =>
    refine iff_of_true trivial fun st h => ?_
    cases h
  | some st =>
    simp only [Option.some.injEq, forall_eq']
    by_cases hsize : se.hasValidSize = false
    · rw [if_pos hsize]
      refine iff_of_true trivial fun h => ?_
      rw [hsize] at h
      cases h
    · obtain ⟨buf, hwrite, hbytes⟩ := exists_write se (env.heap 0)
      have hvalid : se.hasValidSize = true := by simpa using hsize
      rw [if_neg hsize, forall_prop_of_true hvalid]
      simp only [Prog.ends_bind, Prog.ends_modify, hwrite, Prog.ofOption, Prog.ends_pure, hbytes]
      cases env.key with
      | none =>
        refine iff_of_false id ?_
        rintro ⟨key, hkey, -⟩
        cases hkey
      | some key =>
        simp only [Prog.ends_pure, Option.mem_some_iff, exists_eq_left']
        by_cases herr : (db.put st key se.encode).2 ≠ 0
        · rw [if_pos herr]
          exact iff_of_true trivial fun h => absurd h herr
        · rw [if_neg herr, ends_modified_iff, forall_prop_of_true (not_not.mp herr)]

namespace LocalNode

omit [Hashing] in
theorem ends_ping_iff (id : KadId) (address : Bytes) (n : LocalNode db)
    {R : LocalNode db → Prop} (hR : ∀ n', R n') :
    Prog.Ends (ping id address : Prog ε _ _) n (fun _ => R) (fun _ => False) ↔
      id ≠ n.ktable.selfNode.id := by
  rw [ping, Prog.ends_bind, Prog.ends_get]
  split
  · next h => exact iff_of_false (fun habort => habort) fun hne => hne h.symm
  · next h => exact iff_of_true (hR _) (Ne.symm h)

omit [Hashing] in
theorem ends_findNode_iff (std : StdSort) (id : KadId) (n : LocalNode db)
    {R : NearestMap → LocalNode db → Prop} (hR : ∀ nearest n', R nearest n') :
    Prog.Ends (findNode std id : Prog ε _ _) n R (fun _ => False) ↔ n.Free := by
  rw [findNode, Prog.ends_bind, ends_lock]
  exact ⟨fun h => h.1, fun h => ⟨h, hR _ _⟩⟩

/-- `storeResult` returns or throws where the mutex is free and `insertResult` comes to
an end. -/
theorem ends_storeResult_iff (env : Surroundings) (se : SearchEntry) (n : LocalNode db) :
    Prog.Ends (storeResult env se : Prog ε _ _) n (fun _ _ => True) (fun _ => True) ↔
      n.Free ∧ n.searchesDB.InsertEnds env se := by
  rw [storeResult, Prog.ends_bind, ends_lock, Prog.ends_bind, onSearchesDB, Prog.ends_zoom,
    ← SearchEntriesDB.ends_insertResult_iff (ε := ε)]
  rfl

theorem ends_findResults_iff (std : StdSort) (env : Surroundings) (query : Bytes)
    (n : LocalNode db) {R : NearestMap × List SearchEntry → LocalNode db → Prop}
    (hR : ∀ found n', R found n') :
    Prog.Ends (findResults std env query : Prog ε _ _) n R (fun _ => False) ↔
      n.Free ∧ n.searchesDB.dbp ≠ none := by
  rw [findResults, Prog.ends_bind, ends_lock, Prog.ends_bind, onSearchesDB, Prog.ends_zoom]
  refine and_congr_right fun _ => ?_
  rw [Prog.Ends, Prog.outcome]
  by_cases hdbp : n.searchesDB.dbp = none
  · rw [SearchEntriesDB.doSearch_of_none env query hdbp]
    exact iff_of_false id fun h => h hdbp
  · rw [SearchEntriesDB.doSearch_eq_found env query hdbp]
    refine iff_of_true ?_ hdbp
    show Prog.Ends _ _ _ _
    split
    · exact hR _ _
    · exact hR _ _

end LocalNode

end

/-! ### The handlers -/

namespace SdsP2PServer

/-- A writer comes to an end. -/
theorem ends_ofOption_write {w : Write} {bs : Bytes} (hw : Writes w bs) {reply : SdsBytesBuf}
    (hreply : reply.AtEnd) {n : LocalNode db} {R : SdsBytesBuf → LocalNode db → Prop}
    {E : LocalNode db → Prop} (hR : ∀ buf, R buf n) :
    Prog.Ends (Prog.ofOption (w reply) Prog.stuck : Server db SdsBytesBuf) n R E := by
  obtain ⟨buf, hbuf, -⟩ := hw reply hreply
  rw [hbuf]
  exact hR buf

/-- What the handler of the request needs in order to come to an end. -/
def HandlerEnds (env : ServerEnv) (n : LocalNode db) (funcode : UInt8) (args : SdsBytesBuf) :
    Prop :=
  (funcode = FUNC_PING → ((PingArgs.read env.fresh).value args).id ≠ n.ktable.selfNode.id) ∧
  (funcode = FUNC_FIND_NODE → n.Free) ∧
  (funcode = FUNC_STORE_RESULT → n.Free ∧ n.searchesDB.InsertEnds env.db
    ((StoreResultArgs.read ⟨SearchEntry.default⟩).value args).se) ∧
  (funcode = FUNC_FIND_RESULTS → n.Free ∧ n.searchesDB.dbp ≠ none)

theorem ends_ping_iff (env : ServerEnv) (args : SdsBytesBuf) {reply : SdsBytesBuf}
    (hreply : reply.AtEnd) (n : LocalNode db) :
    Prog.Ends (ping env args reply) n (fun _ _ => True) (fun _ => False) ↔
      ((PingArgs.read env.fresh).value args).id ≠ n.ktable.selfNode.id := by
  simp only [ping, Prog.ends_bind, Prog.ends_note]
  exact LocalNode.ends_ping_iff _ _ n fun n' =>
    ends_ofOption_write (PingReply.writes_write _) hreply fun _ => trivial

theorem ends_findNode_iff (env : ServerEnv) (args : SdsBytesBuf) {reply : SdsBytesBuf}
    (hreply : reply.AtEnd) (n : LocalNode db) :
    Prog.Ends (findNode env args reply) n (fun _ _ => True) (fun _ => False) ↔ n.Free := by
  simp only [findNode, Prog.ends_bind, Prog.ends_note]
  exact LocalNode.ends_findNode_iff env.std _ n fun _ n' =>
    ends_ofOption_write (FindNodeReply.writes_write _) hreply fun _ => trivial

theorem ends_findResults_iff (env : ServerEnv) (args : SdsBytesBuf) {reply : SdsBytesBuf}
    (hreply : reply.AtEnd) (n : LocalNode db) :
    Prog.Ends (findResults env args reply) n (fun _ _ => True) (fun _ => False) ↔
      n.Free ∧ n.searchesDB.dbp ≠ none := by
  simp only [findResults, Prog.ends_bind, Prog.ends_note]
  exact LocalNode.ends_findResults_iff env.std env.db _ n fun _ n' =>
    ends_ofOption_write (FindResultsReply.writes_write _) hreply fun _ => trivial

/-- What `storeResult` throws is caught, and counts as an end. -/
theorem ends_storeResult_iff (env : ServerEnv) (args reply : SdsBytesBuf) (n : LocalNode db) :
    Prog.Ends (storeResult env args reply) n (fun _ _ => True) (fun _ => False) ↔
      n.Free ∧ n.searchesDB.InsertEnds env.db
        ((StoreResultArgs.read ⟨SearchEntry.default⟩).value args).se := by
  rw [← LocalNode.ends_storeResult_iff (ε := ServerEvent), storeResult, Prog.ends_bind,
    Prog.ends_note]
  refine (Prog.ends_tryCatch fun _ => (ERR_TYPE_ARGUMENT, reply)).trans ?_
  rw [Prog.ends_bind]
  rfl

/-- **The handler returns exactly where it has what it needs.** -/
theorem ends_dispatch_iff (env : ServerEnv) (funcode : UInt8) (args : SdsBytesBuf)
    {reply : SdsBytesBuf} (hreply : reply.AtEnd) (n : LocalNode db) :
    Prog.Ends (dispatch env funcode args reply) n (fun _ _ => True) (fun _ => False) ↔
      HandlerEnds env n funcode args := by
  rw [dispatch, HandlerEnds]
  split
  · next h =>
    subst h
    rw [ends_ping_iff env args hreply]
    refine ⟨fun h => ⟨fun _ => h, ?_, ?_, ?_⟩, fun h => h.1 rfl⟩
    all_goals exact fun h => absurd h (by decide)
  split
  · next h =>
    subst h
    rw [ends_findNode_iff env args hreply]
    refine ⟨fun h => ⟨?_, fun _ => h, ?_, ?_⟩, fun h => h.2.1 rfl⟩
    all_goals exact fun h => absurd h (by decide)
  split
  · next h =>
    subst h
    rw [ends_storeResult_iff env args reply]
    refine ⟨fun h => ⟨?_, ?_, fun _ => h, ?_⟩, fun h => h.2.2.1 rfl⟩
    all_goals exact fun h => absurd h (by decide)
  split
  · next h =>
    subst h
    rw [ends_findResults_iff env args hreply]
    refine ⟨fun h => ⟨?_, ?_, ?_, fun _ => h⟩, fun h => h.2.2.2 rfl⟩
    all_goals exact fun h => absurd h (by decide)
  · next hping hnode hstore hresults =>
    exact iff_of_true trivial ⟨fun h => absurd h hping, fun h => absurd h hnode,
      fun h => absurd h hstore, fun h => absurd h hresults⟩

/-! ### Looks -/

/-- The reader of the arguments of a function. -/
def argsKind (funcode : UInt8) : Option MessageKind :=
  if funcode = FUNC_PING then some .pingArgs
  else if funcode = FUNC_FIND_NODE then some .findNodeArgs
  else if funcode = FUNC_STORE_RESULT then some .storeResultArgs
  else if funcode = FUNC_FIND_RESULTS then some .findResultsArgs
  else none

/-- The handler looks at nothing but the payload when it reads its arguments. -/
def ReadsPayload (env : ServerEnv) (r : Request) : Prop :=
  ∀ kind ∈ argsKind r.funcode, ∀ e ∈ (kind.read env.fresh).events (r.argsBuf env.argsMem),
    InBounds r.payload.length e

omit [Hashing] in
theorem bufferSize_argsBuf (r : Request) (mem : ℕ → UInt8) :
    (r.argsBuf mem).bufferSize = r.payload.length := by
  rw [Request.argsBuf]
  split
  · next h =>
    rw [h]
    rfl
  · rfl

/-- **So it does where the layout of the arguments gets through the payload.** -/
theorem readsPayload_iff (env : ServerEnv) (r : Request) :
    ReadsPayload env r ↔ ∀ kind ∈ argsKind r.funcode, (kind.layout r.payload).isSome = true := by
  refine forall_congr' fun kind => forall_congr' fun _ => ?_
  have hstays := kind.follows env.fresh _ _ (r.at_argsBuf env.argsMem)
  rw [← bufferSize_argsBuf r env.argsMem]
  cases hlayout : kind.layout r.payload with
  | some rest =>
    rw [hlayout] at hstays
    exact iff_of_true hstays.1 rfl
  | none =>
    rw [hlayout] at hstays
    obtain ⟨e, he, hout⟩ := hstays
    exact iff_of_false (fun hin => hout (hin e he)) Bool.false_ne_true

/-- `doSearch` looks at nothing but the records when it reads them. -/
def ReadsRecords (sur : Surroundings) (s : SearchEntriesDB db) : Prop :=
  ∀ st records, s.dbp = some st → db.cursor st = .ok records → ∀ r ∈ records.zipIdx,
    ∀ buf ∈ SdsBytesBuf.ofBytes (sur.heap r.2) r.1.2, ∀ e ∈ SearchEntry.default.read.events buf,
      InBounds r.1.2.length e

/-- **It reads every record from its end on, so there must be none.** -/
theorem readsRecords_iff (sur : Surroundings) (s : SearchEntriesDB db) :
    ReadsRecords sur s ↔ ∀ st records, s.dbp = some st → db.cursor st = .ok records →
      records = [] := by
  refine forall_congr' fun st => forall_congr' fun records => forall_congr' fun _ =>
    forall_congr' fun _ => ?_
  constructor
  · intro h
    by_contra hne
    obtain ⟨r, rest, rfl⟩ := List.exists_cons_of_ne_nil hne
    obtain ⟨buf, hbuf, -, hpos, hsize⟩ := SearchEntriesDB.exists_ofBytes_mem (sur.heap 0) r.2
    have hrem := SearchEntriesDB.remaining_of_pos_eq hpos hsize
    obtain ⟨hid, -⟩ := SearchEntriesDB.read_of_remaining_eq_zero hrem
    -- the first string moves the position past the end
    have hmove : Access.moveTo (buf.pos + buf.nextLength + 1) ∈
        SearchEntry.default.read.events buf := by
      refine List.mem_append_right _ (List.mem_append_left _ ?_)
      show _ ∈ readString.events (SearchEntry.default.simHash.read.final buf)
      rw [hid, events_readString]
      exact List.mem_append_right _ List.mem_cons_self
    have hin := h (r, 0) List.mem_cons_self buf hbuf _ hmove
    have hle : buf.pos + buf.nextLength + 1 ≤ r.2.length := hin
    omega
  · rintro rfl r hr
    exact absurd hr List.not_mem_nil

/-! ### Requests -/

/-- What a handler notes is not sent. -/
theorem notes_called (args : Message) :
    (Prog.note (.called args) : Server db Unit).Notes fun e => e.sent? = none :=
  Prog.notes_note (P := fun e : ServerEvent => e.sent? = none) rfl

theorem notes_replied {α : Type} {m : Server db α} (hm : m.Silent) (f : α → Message)
    (w : α → Write) (reply : SdsBytesBuf) :
    Prog.Notes (fun e : ServerEvent => e.sent? = none) (do
      let x ← m
      Prog.note (.replied (f x))
      let reply ← Prog.ofOption (w x reply) Prog.stuck
      pure (ERR_NULL, reply)) := by
  refine (hm.mono fun _ h => h.elim).bind fun x => Prog.Notes.bind ?_ fun _ => ?_
  · exact Prog.notes_note (P := fun e : ServerEvent => e.sent? = none) rfl
  · exact (Prog.notes_ofOption _ Prog.notes_stuck).bind fun _ => Prog.notes_pure _

/-- No handler sends anything by itself. -/
theorem notes_dispatch (env : ServerEnv) (funcode : UInt8) (args reply : SdsBytesBuf) :
    (dispatch env funcode args reply : Server db _).Notes fun e => e.sent? = none := by
  rw [dispatch]
  split
  · refine (notes_called _).bind fun _ => ?_
    exact notes_replied (LocalNode.silent_ping _ _) (fun _ => .pingReply _)
      (fun _ => PingReply.write _) reply
  split
  · refine (notes_called _).bind fun _ => ?_
    exact notes_replied (LocalNode.silent_findNode env.std _)
      (fun nearest => .findNodeReply ⟨nearest⟩) (fun nearest => FindNodeReply.write ⟨nearest⟩) reply
  split
  · refine (notes_called _).bind fun _ => Prog.Notes.tryCatch ?_ fun _ => Prog.notes_pure _
    exact ((LocalNode.silent_storeResult _ _).mono fun _ h => h.elim).bind fun _ =>
      Prog.notes_pure _
  split
  · refine (notes_called _).bind fun _ => ?_
    exact notes_replied (LocalNode.silent_findResults env.std env.db _)
      (fun found => .findResultsReply ⟨⟨found.1⟩, found.2⟩)
      (fun found => FindResultsReply.write ⟨⟨found.1⟩, found.2⟩) reply
  · exact Prog.notes_pure _

/-- The codes that a response can carry. -/
def errorCodes : List UInt8 :=
  [ERR_NULL, ERR_RECV_REQUEST, ERR_REQ_ID, ERR_SERIALIZE, ERR_NOFUNCT, ERR_TYPE_ARGUMENT,
    ERR_CONNECTION]

/-- What a call of `send` comes to. -/
inductive SendResult
  /-- The client gets the bytes. -/
  | taken
  /-- It returns -1, which the server does not look at. -/
  | failed
  /-- The client has closed the connection: a signal that nobody handles ends the process. -/
  | killed
  deriving DecidableEq

/-- What becomes of the header of a response and of the reply behind it. -/
structure Connection where
  header : SendResult
  reply : SendResult

/-- The client gets the header, and the reply if there is one. -/
def Connection.Takes (conn : Connection) (reply : Bytes) : Prop :=
  conn.header = .taken ∧ (reply ≠ [] → conn.reply = .taken)

/-- The server survives the request, without a look at what is not its own, and one response to
it gets to the client, with the size of the reply that is behind the header. -/
structure Answered (net : Network) (conn : Connection) (env : ServerEnv) (n : LocalNode db)
    (r : Request) : Prop where
  payload : ReadsPayload env r
  records : r.funcode = FUNC_FIND_RESULTS → ReadsRecords env.db n.searchesDB
  returns : ∃ ret n', (handleRequest env
    (net.deliver MessageRequestHeader.word.width r.stream)).outcome n = .returned ret n'
  response : ∃ errcode ∈ errorCodes, ∃ reply : Bytes, conn.Takes reply ∧
    ((handleRequest env (net.deliver MessageRequestHeader.word.width r.stream)).events n).filterMap
      ServerEvent.sent? = [MessageResponseHeader.word.encode
        ⟨r.funcode, errcode, r.id, UInt64.ofNat reply.length⟩ ++ reply]

/-- The functions that have a reply. -/
def HasReply (funcode : UInt8) : Prop :=
  funcode = FUNC_PING ∨ funcode = FUNC_FIND_NODE ∨ funcode = FUNC_FIND_RESULTS

/-- What it takes to answer a request. -/
structure CanAnswer (conn : Connection) (env : ServerEnv) (n : LocalNode db) (r : Request) :
    Prop where
  layout : ∀ kind ∈ argsKind r.funcode, (kind.layout r.payload).isSome = true
  records : r.funcode = FUNC_FIND_RESULTS → ∀ st records, n.searchesDB.dbp = some st →
    db.cursor st = .ok records → records = []
  handler : HandlerEnds env n r.funcode (r.argsBuf env.argsMem)
  header : conn.header = .taken
  reply : HasReply r.funcode → conn.reply = .taken

/-- A request that is delivered is answered. -/
theorem handleRequest_deliver (net : Network) (env : ServerEnv) (r : Request) :
    (handleRequest env (net.deliver MessageRequestHeader.word.width r.stream) : Server db ℤ) =
      answer env r.header (r.argsBuf env.argsMem) := by
  rw [Request.stream, Network.deliver_encode]
  exact handleRequest_eq_answer env r _ (net.flatten_cut _) (net.piece_ne_nil _)

/-- The reply that is sent when the handler has returned. -/
def replyBytes (errcode : UInt8) (buf : SdsBytesBuf) : Bytes :=
  if 0 < buf.size ∧ errcode = ERR_NULL then buf.bytes else []

omit [Hashing] in
theorem replyBytes_ne_nil_iff (errcode : UInt8) (buf : SdsBytesBuf) :
    replyBytes errcode buf ≠ [] ↔ 0 < buf.size ∧ errcode = ERR_NULL := by
  rw [replyBytes]
  split
  · next h =>
    refine iff_of_true ?_ h
    rw [← List.length_pos_iff, length_bytes]
    exact h.1
  · next h => exact iff_of_false (fun hne => hne rfl) h

/-- What is sent then. -/
theorem sendReply_run (funcode errcode : UInt8) (id : UInt64) (buf : SdsBytesBuf)
    (n : LocalNode db) :
    sendReply ⟨funcode, errcode, id, if errcode = ERR_NULL then UInt64.ofNat buf.size else 0⟩ buf
        n =
      ([.sent (MessageResponseHeader.word.encode ⟨funcode, errcode, id,
          UInt64.ofNat (replyBytes errcode buf).length⟩ ++ replyBytes errcode buf)],
        .returned errcode.toNat n) := by
  rw [sendReply, replyBytes]
  by_cases herr : errcode = ERR_NULL
  · rw [if_pos herr]
    by_cases hpos : 0 < buf.size
    · rw [if_pos ⟨hpos, herr⟩, length_bytes]
      rfl
    -- an empty reply is not sent, and announced with its size all the same
    · rw [if_neg fun h => hpos h.1, Nat.eq_zero_of_not_pos hpos]
      rfl
  · rw [if_neg herr, if_neg fun h => herr h.2]
    rfl

/-- A writer that appends something leaves something in the buffer. -/
theorem yields_ofOption_write {w : Write} {bs : Bytes} (hw : Writes w bs) (hbs : bs ≠ [])
    (mem : ℕ → UInt8) (f : SdsBytesBuf → Server db (UInt8 × SdsBytesBuf))
    {P : UInt8 × SdsBytesBuf → Prop} (h : ∀ buf, 0 < buf.size → (f buf).Yields P) :
    (Prog.ofOption (w (SdsBytesBuf.empty mem)) Prog.stuck >>= f).Yields P := by
  obtain ⟨buf, hbuf, -, hbytes⟩ := hw _ (atEnd_empty mem)
  rw [hbuf]
  refine h buf ?_
  rw [← length_bytes, hbytes, List.length_append]
  exact Nat.lt_of_lt_of_le (List.length_pos_iff.mpr hbs) (Nat.le_add_left _ _)

/-- **There is a reply exactly for three of the functions.** -/
theorem yields_hasReply (env : ServerEnv) (funcode : UInt8) (args : SdsBytesBuf)
    (mem : ℕ → UInt8) :
    (dispatch env funcode args (SdsBytesBuf.empty mem) : Server db _).Yields
      fun r => (0 < r.2.size ∧ r.1 = ERR_NULL) ↔ HasReply funcode := by
  rw [dispatch]
  split
  · next h =>
    refine Prog.yields_bind fun _ => Prog.yields_bind fun _ => Prog.yields_bind fun _ => ?_
    refine yields_ofOption_write (PingReply.writes_write _) ?_ mem _ fun buf hbuf => ?_
    · exact List.ne_nil_of_length_pos ((Word.uint64.length_encode _).symm ▸ by decide)
    · exact Prog.yields_pure (iff_of_true ⟨hbuf, rfl⟩ (Or.inl h))
  split
  · next h =>
    refine Prog.yields_bind fun _ => Prog.yields_bind fun _ => Prog.yields_bind fun _ => ?_
    refine yields_ofOption_write (FindNodeReply.writes_write _) ?_ mem _ fun buf hbuf => ?_
    · exact List.append_ne_nil_of_left_ne_nil
        (List.ne_nil_of_length_pos ((Word.uint32.length_encode _).symm ▸ by decide)) _
    · exact Prog.yields_pure (iff_of_true ⟨hbuf, rfl⟩ (Or.inr (Or.inl h)))
  split
  · next h =>
    have hnot : ¬ HasReply funcode := by
      rw [h, HasReply]
      decide
    refine Prog.yields_bind fun _ => Prog.Yields.tryCatch (Prog.yields_bind fun _ => ?_) fun _ => ?_
    · exact Prog.yields_pure (iff_of_false (fun h => Nat.lt_irrefl 0 h.1) hnot)
    · exact Prog.yields_pure (iff_of_false (fun h => Nat.lt_irrefl 0 h.1) hnot)
  split
  · next h =>
    refine Prog.yields_bind fun _ => Prog.yields_bind fun _ => Prog.yields_bind fun _ => ?_
    refine yields_ofOption_write (FindResultsReply.writes_write _) ?_ mem _ fun buf hbuf => ?_
    · exact List.append_ne_nil_of_left_ne_nil (List.append_ne_nil_of_left_ne_nil
        (List.ne_nil_of_length_pos ((Word.uint32.length_encode _).symm ▸ by decide)) _) _
    · exact Prog.yields_pure (iff_of_true ⟨hbuf, rfl⟩ (Or.inr (Or.inr h)))
  · next hping hnode hstore hresults =>
    refine Prog.yields_pure (iff_of_false (fun h => Nat.lt_irrefl 0 h.1) ?_)
    rintro (h | h | h)
    · exact hping h
    · exact hnode h
    · exact hresults h

/-- The server returns and sends one response where the handler returns. -/
theorem response_iff_ends (net : Network) (conn : Connection) (env : ServerEnv) (n : LocalNode db)
    (r : Request) :
    ((∃ ret n', (handleRequest env
        (net.deliver MessageRequestHeader.word.width r.stream)).outcome n = .returned ret n') ∧
      ∃ errcode ∈ errorCodes, ∃ reply : Bytes, conn.Takes reply ∧
        ((handleRequest env
          (net.deliver MessageRequestHeader.word.width r.stream)).events n).filterMap
            ServerEvent.sent? = [MessageResponseHeader.word.encode
              ⟨r.funcode, errcode, r.id, UInt64.ofNat reply.length⟩ ++ reply]) ↔
      Prog.Ends (dispatch env r.funcode (r.argsBuf env.argsMem)
        (SdsBytesBuf.empty env.replyMem)) n (fun _ _ => True) (fun _ => False) ∧
      conn.header = .taken ∧ (HasReply r.funcode → conn.reply = .taken) := by
  rw [handleRequest_deliver, Prog.ends_true_iff]
  have hnotes := notes_dispatch env r.funcode (r.argsBuf env.argsMem)
    (SdsBytesBuf.empty env.replyMem) n
  have hyields := yields_dispatch env r.funcode (r.argsBuf env.argsMem)
    (SdsBytesBuf.empty env.replyMem) n
  have hreplies := yields_hasReply env r.funcode (r.argsBuf env.argsMem) env.replyMem n
  simp only [Prog.outcome, Prog.events, answer, Request.header] at hyields hreplies ⊢
  rcases hrun : dispatch env r.funcode (r.argsBuf env.argsMem) (SdsBytesBuf.empty env.replyMem) n
    with ⟨es, o⟩
  rw [hrun] at hnotes hyields hreplies
  rcases o.returned_or_fails with ⟨⟨errcode, buf⟩, n', rfl⟩ | hfails
  · have hcode : errcode = ERR_NULL ∨ errcode = ERR_TYPE_ARGUMENT ∨ errcode = ERR_NOFUNCT :=
      hyields _ _ rfl
    have hmem : errcode ∈ errorCodes := by
      rcases hcode with rfl | rfl | rfl
      · decide
      · decide
      · decide
    have hreply : replyBytes errcode buf ≠ [] ↔ HasReply r.funcode :=
      (replyBytes_ne_nil_iff errcode buf).trans (hreplies _ _ rfl)
    rw [Prog.bind_of_returned hrun]
    simp only [sendReply_run, List.filterMap_append, List.filterMap_eq_nil_iff.mpr hnotes,
      List.nil_append]
    constructor
    · rintro ⟨-, errcode', -, reply, ⟨hheader, htakes⟩, hsent⟩
      -- the headers have one length, so the reply behind it is this one
      have hbytes := (List.append_inj (List.singleton_inj.mp hsent) (by
        rw [MessageResponseHeader.word.length_encode, MessageResponseHeader.word.length_encode])).2
      refine ⟨⟨_, _, rfl⟩, hheader, fun h => htakes ?_⟩
      rw [← hbytes]
      exact hreply.mpr h
    · rintro ⟨-, hheader, htakes⟩
      exact ⟨⟨_, _, rfl⟩, errcode, hmem, _, ⟨hheader, fun h => htakes (hreply.mp h)⟩, rfl⟩
  · obtain ⟨o', hbind, hfails'⟩ := Prog.bind_of_fails (f := fun reply => sendReply
      ⟨r.funcode, reply.1, r.id, if reply.1 = ERR_NULL then UInt64.ofNat reply.2.size else 0⟩
      reply.2) hrun hfails
    have hnot : ∀ {α : Type} {o : Outcome (LocalNode db) α}, o.Fails →
        ¬ ∃ a n', o = .returned a n' := by
      rintro α o ho ⟨a, n', rfl⟩
      exact ho
    rw [hbind]
    exact iff_of_false (fun h => hnot hfails' h.1) fun h => hnot hfails h.1

/-- A ping with a clean address, by the id of the node. -/
theorem not_answered_of_self (net : Network) (conn : Connection) (env : ServerEnv)
    (n : LocalNode db) {r : Request} {args : PingArgs} (hargs : CleanString args.address)
    (hid : args.id = n.ktable.selfNode.id)
    (hfuncode : r.funcode = FUNC_PING) (hpayload : r.payload = args.encode) :
    ¬ Answered net conn env n r := by
  have hat : (r.argsBuf env.argsMem).At (args.encode ++ []) := by
    rw [List.append_nil, ← hpayload]
    exact r.at_argsBuf env.argsMem
  have hread := (PingArgs.reads_read hargs env.fresh _ [] hat).1
  intro h
  have hends := ((response_iff_ends net conn env n r).mp ⟨h.returns, h.response⟩).1
  rw [ends_dispatch_iff env r.funcode _ (atEnd_empty env.replyMem)] at hends
  refine hends.1 hfuncode ?_
  rw [hread, hid]

end SdsP2PServer

end

/-- A ping by the zero id. -/
def selfPing : Request :=
  ⟨FUNC_PING, 1, (PingArgs.mk 7 (KadId.ofNat 0) [97]).encode, by decide⟩

end SniffDogSniff
