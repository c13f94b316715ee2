import SniffDogSniff.P2P.Framing

/-!
# Receiving a reply

The client learns from the header of a response how long the reply is, and returns an
error code next to the buffer it has collected.  What it returns was set before the
loop: a connection that is closed in the middle of a reply changes the code of the
response, and that one is dropped.

## Main definitions

* `Recv.Whole` — the results of `recv` have exactly so many bytes in front.
* `SdsP2PClient.Received` — the response answers the request, and the buffer holds
  exactly the bytes that it announces.
* `SdsP2PClient.Reports` — the client returns `ERR_NULL` only then.
* `SdsP2PClient.ArrivesWhole` — a reply that is announced arrives.

## Main results

* `recvLoop_of_not_whole` — the loop, where the announced bytes do not arrive.
* `reports_iff` — **the client reports exactly the replies that arrive whole.**
-/

namespace SniffDogSniff

open Bytes SdsBytesBuf

/-- The first results of `recv` are bytes, `n` of them. -/
def Recv.Whole (n : ℕ) (rs : List Recv) : Prop :=
  ∃ pieces : List Bytes, pieces.map some <+: rs ∧ pieces ≠ [] ∧ (∀ p ∈ pieces, p ≠ []) ∧
    pieces.flatten.length = n

/-- One more piece in front. -/
theorem Recv.Whole.cons {n : ℕ} {p : Bytes} {rs : List Recv} (hp : p ≠ []) (h : Whole n rs) :
    Whole (p.length + n) (some p :: rs) := by
  obtain ⟨pieces, hprefix, -, hne, hlen⟩ := h
  refine ⟨p :: pieces, List.cons_prefix_cons.mpr ⟨rfl, hprefix⟩, List.cons_ne_nil _ _, ?_, ?_⟩
  · exact List.forall_mem_cons.mpr ⟨hp, hne⟩
  · rw [List.flatten_cons, List.length_append, hlen]

theorem Recv.whole_singleton {p : Bytes} (hp : p ≠ []) (rs : List Recv) :
    Whole p.length (some p :: rs) := by
  refine ⟨[p], List.cons_prefix_cons.mpr ⟨rfl, List.nil_prefix⟩, List.cons_ne_nil _ _, ?_, ?_⟩
  · exact fun q hq => List.mem_singleton.mp hq ▸ hp
  · rw [List.flatten_cons, List.flatten_nil, List.append_nil]

/-- Where the announced bytes arrive, the buffer has them. -/
theorem recvLoop_of_whole {ε σ : Type} (mem : ℕ → UInt8) {n : ℕ} (hn : n < 2 ^ 64)
    {rs : List Recv} (h : Recv.Whole n rs) :
    ∃ bs : Bytes, bs.length = n ∧ bs <+: (rs.filterMap id).flatten ∧
      (recvLoop rs (UInt64.ofNat n) ((SdsBytesBuf.empty mem).allocate n) : Prog ε σ _) =
        pure (0, holding mem n bs) := by
  obtain ⟨pieces, ⟨rest, rfl⟩, hnil, hne, hlen⟩ := h
  refine ⟨pieces.flatten, hlen, ?_, ?_⟩
  · rw [List.filterMap_append, List.filterMap_map, Function.id_comp, List.filterMap_some,
      List.flatten_append]
    exact List.prefix_append _ _
  · have hloop := recvLoop_holding (ε := ε) (σ := σ) mem hn rest pieces [] hnil hne
      (by rw [hlen, List.length_nil, Nat.zero_add])
    rw [hlen, List.nil_append] at hloop
    rw [allocate_empty, hloop]

/-- **Where they do not, it never has as many**, unless the loop runs into an error of
`recv`. -/
theorem recvLoop_of_not_whole {ε σ : Type} {n : ℕ} (s : σ) :
    ∀ (rs : List Recv) (recv_sz : UInt64) {buf : SdsBytesBuf}, buf.AtEnd →
      buf.bytes.length ≠ n →
      (∀ m, buf.bytes.length + m = n → ¬ Recv.Whole m rs) →
      (recvLoop rs recv_sz buf : Prog ε σ _) s = ([], .undefined) ∨
        ∃ sz buf', (recvLoop rs recv_sz buf : Prog ε σ _) s = ([], .returned (sz, buf') s) ∧
          buf'.bytes.length ≠ n := by
  intro rs
  induction rs with
  | nil => exact fun recv_sz buf _ hlen _ => Or.inr ⟨recv_sz, buf, rfl, hlen⟩
  | cons r rs ih =>
    intro recv_sz buf hend hlen hwhole
    cases r with
    | none => exact Or.inl rfl
    | some p =>
      rw [recvLoop]
      by_cases hp : p = []
      · exact Or.inr ⟨recv_sz, buf, by rw [if_pos hp]; rfl, hlen⟩
      obtain ⟨buf', hwrite, hend', hbytes⟩ := writes_writeBytes p buf hend
      have hlen' : buf'.bytes.length = buf.bytes.length + p.length := by
        rw [hbytes, List.length_append]
      -- the loop may stop here, and has not come to `n` even then
      have hne : buf'.bytes.length ≠ n := by
        intro heq
        exact hwhole p.length (hlen' ▸ heq) (Recv.whole_singleton hp rs)
      rw [if_neg hp, hwrite, Prog.ofOption, pure_bind]
      by_cases hzero : recv_sz - UInt64.ofNat p.length = 0
      · simp only [if_pos hzero]
        exact Or.inr ⟨_, buf', rfl, hne⟩
      · simp only [if_neg hzero]
        refine ih _ hend' hne fun m hm hrest => ?_
        exact hwhole (p.length + m) (by omega) (hrest.cons hp)

section

variable [Hashing]

namespace SdsP2PClient

/-- The bytes of a request. -/
def request (env : ClientEnv) (funcode : UInt8) (args : SdsBytesBuf) : Bytes :=
  MessageRequestHeader.word.encode ⟨funcode, env.requestId, UInt64.ofNat args.size⟩ ++ args.bytes

/-- A header without an error came for this request, and the buffer holds exactly the
bytes that it announces, the first ones that came behind it. -/
def Received (env : ClientEnv) (rs : List Recv) (reply : SdsBytesBuf) : Prop :=
  ∃ r rest resp, rs = r :: rest ∧ r.bind MessageResponseHeader.word.decode? = some resp ∧
    resp.errcode = ERR_NULL ∧ resp.id = env.requestId ∧
    reply.bytes.length = resp.datasize.toNat ∧ reply.bytes <+: (rest.filterMap id).flatten

/-- The client returns `ERR_NULL` only with a reply that it has received; the results
of `recv` do not make it do what is undefined. -/
def Reports (env : ClientEnv) (conn : Connection) (funcode : UInt8) (args : SdsBytesBuf) : Prop :=
  match (sendRpcRequest env conn funcode args (SdsBytesBuf.empty env.replyMem)).outcome () with
  | .returned (ret, reply) _ =>
      ret = ERR_NULL.toNat → Received env (conn.answer (request env funcode args)) reply
  | .undefined => False
  | _ => True

/-- What a header without an error announces for this request arrives behind it. -/
def ArrivesWhole (env : ClientEnv) (rs : List Recv) : Prop :=
  ∀ r rest resp, rs = r :: rest → r.bind MessageResponseHeader.word.decode? = some resp →
    resp.errcode = ERR_NULL → resp.id = env.requestId → 0 < resp.datasize →
    Recv.Whole resp.datasize.toNat rest

/-- The outcome of the second half of a request is the one of the whole. -/
def ReplyReports (env : ClientEnv) (rs : List Recv) : Prop :=
  match (recvReply env (SdsBytesBuf.empty env.replyMem) rs).outcome () with
  | .returned (ret, reply) _ => ret = ERR_NULL.toNat → Received env rs reply
  | .undefined => False
  | _ => True

theorem reports_iff_replyReports (env : ClientEnv) (conn : Connection) (funcode : UInt8)
    (args : SdsBytesBuf) :
    Reports env conn funcode args ↔
      (conn.sendsHeader = true → conn.sendsArgs = true →
        ReplyReports env (conn.answer (request env funcode args))) := by
  rw [Reports, sendRpcRequest]
  cases hheader : conn.sendsHeader with
  | false => exact iff_of_true (fun h => absurd h (by decide)) fun h => Bool.noConfusion h
  | true =>
    cases hargs : conn.sendsArgs with
    | false => exact iff_of_true (fun h => absurd h (by decide)) fun _ h => Bool.noConfusion h
    | true => exact ⟨fun h _ _ => h, fun h => h rfl rfl⟩

/-- The two ends of the second half, where the header announces a reply. -/
theorem replyReports_iff_of_announced {env : ClientEnv} {r : Recv} {rest : List Recv}
    {resp : MessageResponseHeader} (hresp : r.bind MessageResponseHeader.word.decode? = some resp)
    (herr : resp.errcode = ERR_NULL) (hid : resp.id = env.requestId) (hpos : 0 < resp.datasize) :
    ReplyReports env (r :: rest) ↔ Recv.Whole resp.datasize.toNat rest := by
  have hrun : recvReply env (SdsBytesBuf.empty env.replyMem) (r :: rest) = (do
      let received ← recvLoop rest resp.datasize
        ((SdsBytesBuf.empty env.replyMem).allocate resp.datasize.toNat)
      pure (ERR_NULL.toNat, received.2.rewind) : Client (ℤ × SdsBytesBuf)) := by
    rw [recvReply, hresp]
    simp only
    rw [if_neg (not_not.mpr herr), if_neg (not_not.mpr hid), if_pos hpos]
  have hsize : UInt64.ofNat resp.datasize.toNat = resp.datasize := UInt64.ofNat_toNat
  have hlt : resp.datasize.toNat < 2 ^ 64 := resp.datasize.toNat_lt
  rw [ReplyReports, Prog.outcome, hrun]
  constructor
  · intro h
    by_contra hwhole
    have hnat : 0 < resp.datasize.toNat := UInt64.lt_iff_toNat_lt.mp hpos
    have hend : ((SdsBytesBuf.empty env.replyMem).allocate resp.datasize.toNat).AtEnd :=
      ⟨rfl, fun _ => hnat⟩
    rcases recvLoop_of_not_whole (ε := ClientEvent) () rest resp.datasize hend hnat.ne
      (fun m hm => by
        obtain rfl : m = resp.datasize.toNat := (Nat.zero_add m).symm.trans hm
        exact hwhole) with hloop | ⟨sz, buf, hloop, hne⟩
    · rw [Prog.bind_of_undefined hloop] at h
      exact h
    · rw [Prog.bind_of_returned_nil hloop] at h
      obtain ⟨r', rest', resp', heq, hresp', -, -, hlen, -⟩ := h rfl
      obtain ⟨rfl, rfl⟩ := List.cons.inj heq
      obtain rfl := Option.some.inj (hresp.symm.trans hresp')
      exact hne hlen
  · intro hwhole
    obtain ⟨bs, hlen, hprefix, hloop⟩ := recvLoop_of_whole (ε := ClientEvent) (σ := Unit)
      env.replyMem hlt hwhole
    rw [hsize] at hloop
    rw [hloop, pure_bind]
    intro _
    have hbytes := bytes_holding env.replyMem resp.datasize.toNat bs
    refine ⟨r, rest, resp, rfl, hresp, herr, hid, ?_, ?_⟩
    · exact (congrArg List.length hbytes).trans hlen
    · exact hbytes.symm ▸ hprefix

/-! The other ends of the second half report no reply, or an empty one. -/

theorem replyReports_of_no_header {env : ClientEnv} {r : Recv} (rest : List Recv)
    (hresp : r.bind MessageResponseHeader.word.decode? = none) :
    ReplyReports env (r :: rest) := by
  rw [ReplyReports, Prog.outcome, recvReply, hresp]
  exact fun h => absurd h (by decide)

theorem replyReports_of_error {env : ClientEnv} {r : Recv} (rest : List Recv)
    {resp : MessageResponseHeader} (hresp : r.bind MessageResponseHeader.word.decode? = some resp)
    (herr : resp.errcode ≠ ERR_NULL) : ReplyReports env (r :: rest) := by
  rw [ReplyReports, Prog.outcome, recvReply, hresp]
  simp only
  rw [if_pos herr]
  intro h
  have hcode : resp.errcode.toNat = ERR_NULL.toNat := by exact_mod_cast h
  exact absurd (UInt8.toNat_inj.mp hcode) herr

theorem replyReports_of_other_id {env : ClientEnv} {r : Recv} (rest : List Recv)
    {resp : MessageResponseHeader} (hresp : r.bind MessageResponseHeader.word.decode? = some resp)
    (herr : resp.errcode = ERR_NULL) (hid : resp.id ≠ env.requestId) :
    ReplyReports env (r :: rest) := by
  rw [ReplyReports, Prog.outcome, recvReply, hresp]
  simp only
  rw [if_neg (not_not.mpr herr), if_pos hid]
  exact fun h => absurd h (by decide)

theorem replyReports_of_nothing_announced {env : ClientEnv} {r : Recv} (rest : List Recv)
    {resp : MessageResponseHeader} (hresp : r.bind MessageResponseHeader.word.decode? = some resp)
    (herr : resp.errcode = ERR_NULL) (hid : resp.id = env.requestId)
    (hpos : ¬ 0 < resp.datasize) : ReplyReports env (r :: rest) := by
  rw [ReplyReports, Prog.outcome, recvReply, hresp]
  simp only
  rw [if_neg (not_not.mpr herr), if_neg (not_not.mpr hid), if_neg hpos]
  intro _
  have hzero : resp.datasize.toNat = 0 := by
    have := mt UInt64.lt_iff_toNat_lt.mpr hpos
    simpa using this
  exact ⟨r, rest, resp, rfl, hresp, herr, hid, hzero.symm, List.nil_prefix⟩

omit [Hashing] in
/-- What is to arrive is said by the header that came. -/
theorem arrivesWhole_cons_iff {env : ClientEnv} {r : Recv} {rest : List Recv}
    {resp : MessageResponseHeader}
    (hresp : r.bind MessageResponseHeader.word.decode? = some resp) :
    ArrivesWhole env (r :: rest) ↔ (resp.errcode = ERR_NULL → resp.id = env.requestId →
      0 < resp.datasize → Recv.Whole resp.datasize.toNat rest) := by
  refine ⟨fun h => h r rest resp rfl hresp, fun h r' rest' resp' heq hresp' => ?_⟩
  obtain ⟨rfl, rfl⟩ := List.cons.inj heq
  obtain rfl := Option.some.inj (hresp.symm.trans hresp')
  exact h

/-- The second half of a request, for any header. -/
theorem replyReports_iff (env : ClientEnv) (rs : List Recv) :
    ReplyReports env rs ↔ ArrivesWhole env rs := by
  cases rs with
  | nil => exact iff_of_true (fun h => absurd h (by decide)) fun r rest resp h => (nomatch h)
  | cons r rest =>
    cases hresp : r.bind MessageResponseHeader.word.decode? with
    | none =>
      refine iff_of_true (replyReports_of_no_header rest hresp) ?_
      intro r' rest' resp heq hresp'
      obtain ⟨rfl, -⟩ := List.cons.inj heq
      exact absurd (hresp.symm.trans hresp') (Option.some_ne_none _).symm
    | some resp =>
      rw [arrivesWhole_cons_iff hresp]
      by_cases herr : resp.errcode = ERR_NULL
      · by_cases hid : resp.id = env.requestId
        · by_cases hpos : 0 < resp.datasize
          · rw [replyReports_iff_of_announced hresp herr hid hpos]
            exact ⟨fun h _ _ _ => h, fun h => h herr hid hpos⟩
          · exact iff_of_true (replyReports_of_nothing_announced rest hresp herr hid hpos)
              fun _ _ h => absurd h hpos
        · exact iff_of_true (replyReports_of_other_id rest hresp herr hid)
            fun _ h => absurd h hid
      · exact iff_of_true (replyReports_of_error rest hresp herr) fun h => absurd h herr

/-- **The client reports exactly the replies that arrive whole.** -/
theorem reports_iff (env : ClientEnv) (conn : Connection) (funcode : UInt8)
    (args : SdsBytesBuf) :
    Reports env conn funcode args ↔
      (conn.sendsHeader = true → conn.sendsArgs = true →
        ArrivesWhole env (conn.answer (request env funcode args))) := by
  rw [reports_iff_replyReports, replyReports_iff]

end SdsP2PClient

end

/-- A peer that announces a single byte and closes the connection. -/
def closesEarly : Connection where
  sendsHeader := true
  sendsArgs := true
  answer _ := [some (MessageResponseHeader.word.encode ⟨FUNC_PING, ERR_NULL, 1, 1⟩)]

/-- A missing reply is reported. -/
theorem SdsP2PClient.not_reports_closesEarly [Hashing] :
    ¬ Reports ClientEnv.zero closesEarly FUNC_PING (SdsBytesBuf.empty fun _ => 0) := by
  rw [reports_iff_replyReports]
  intro h
  have harrives := (replyReports_iff _ _).mp (h rfl rfl)
  have hdecode := MessageResponseHeader.word.decode?_encode ⟨FUNC_PING, ERR_NULL, 1, 1⟩
  obtain ⟨pieces, hprefix, hne, -⟩ := harrives _ _ _ rfl hdecode rfl rfl (by decide)
  exact hne (List.map_eq_nil_iff.mp (List.prefix_nil.mp hprefix))

/-- So is the one to a ping of one client. -/
theorem closesEarly_not_reports :
    letI := Hashing.blank
    ¬ SdsP2PClient.Reports ClientEnv.zero closesEarly FUNC_PING (SdsBytesBuf.empty fun _ => 0) :=
  letI := Hashing.blank
  SdsP2PClient.not_reports_closesEarly

end SniffDogSniff
