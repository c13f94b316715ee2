import SniffDogSniff.P2P.Agreement

/-!
# Framing

A request is a header and a payload, and the stream that carries them may be cut
anywhere.  The payload is collected by a loop, which puts the pieces together and stops
at the announced size; the header is taken with a single call of `recv`.

## Main definitions

* `SdsBytesBuf.holding` — a buffer that was allocated for a number of bytes and has
  been given some.
* `Request`, `Delivery` — a well-formed request, and a way to deliver it.
* `SdsP2PServer.answer` — what the server does with the arguments.
* `SdsP2PServer.Framed` — it does the same as with a request in one piece.

## Main results

* `recvLoop_holding` — the loop, for any pieces.
* `framed_iff` — **the cuts make no difference exactly where there is none in the
  header.**
-/

namespace SniffDogSniff

open Bytes SdsBytesBuf

/-! ### Buffers of a known size -/

namespace SdsBytesBuf

/-- A buffer that was allocated for `n` bytes and has been given `bs`. -/
def holding (mem : ℕ → UInt8) (n : ℕ) (bs : Bytes) : SdsBytesBuf :=
  ⟨overlay mem 0 bs, true, bs.length, n, bs.length⟩

/-- Two copies, one behind the other, are one. -/
theorem overlay_overlay (mem : ℕ → UInt8) (bs bs' : Bytes) :
    overlay (overlay mem 0 bs) bs.length bs' = overlay mem 0 (bs ++ bs') := by
  rw [← overlay_append, Nat.zero_add]

theorem grow_of_le {size capacity : ℕ} (h : size ≤ capacity) (n : ℕ) :
    grow size n capacity = some capacity := by
  cases n with
  | zero => exact if_pos h
  | succ n => exact if_pos h

theorem allocate_empty (mem : ℕ → UInt8) (n : ℕ) : (empty mem).allocate n = holding mem n [] := by
  have hmem : overlay mem 0 [] = mem := by
    funext i
    simp [overlay]
  rw [holding, hmem]
  rfl

/-- What fits is put behind what is there. -/
theorem writeBytes_holding (mem : ℕ → UInt8) {n : ℕ} {got bs : Bytes} (hbs : bs ≠ [])
    (hfit : got.length + bs.length ≤ n) :
    writeBytes bs (holding mem n got) = some (holding mem n (got ++ bs)) := by
  have hresize : (holding mem n got).resize (got.length + bs.length) =
      some (holding mem n got) := by
    rw [resize, if_pos (show (holding mem n got).allocated = true from rfl)]
    have hgrow := grow_of_le hfit (got.length + bs.length)
    rw [show (holding mem n got).capacity = n from rfl, hgrow]
    rfl
  rw [writeBytes, if_neg hbs, write,
    show (holding mem n got).bufferSize = got.length from rfl, hresize]
  simp only [Option.bind_eq_bind, Option.bind_some, holding, overlay_overlay, List.length_append]
  rfl

theorem bytes_holding (mem : ℕ → UInt8) (n : ℕ) (bs : Bytes) : (holding mem n bs).bytes = bs :=
  slice_overlay_self mem 0 bs

theorem at_rewind_holding (mem : ℕ → UInt8) (n : ℕ) (bs : Bytes) :
    (holding mem n bs).rewind.At bs := by
  have hat := at_rewind (holding mem n bs)
  rwa [bytes_holding] at hat

end SdsBytesBuf

/-- **The loop puts pieces together until it has what was announced**, and leaves the
rest of the stream alone. -/
theorem recvLoop_holding {ε σ : Type} (mem : ℕ → UInt8) {n : ℕ} (hn : n < 2 ^ 64) (rs : List Recv) :
    ∀ (pieces : List Bytes) (got : Bytes), pieces ≠ [] → (∀ p ∈ pieces, p ≠ []) →
      got.length + pieces.flatten.length = n →
      (recvLoop (pieces.map some ++ rs) (UInt64.ofNat pieces.flatten.length)
        (holding mem n got) : Prog ε σ _) = pure (0, holding mem n (got ++ pieces.flatten)) := by
  intro pieces
  induction pieces with
  | nil => intro got hne; exact absurd rfl hne
  | cons p pieces ih =>
    intro got _ hpieces hlen
    have hp : p ≠ [] := hpieces p List.mem_cons_self
    rw [List.flatten_cons, List.length_append] at hlen ⊢
    have hrest := ofNat_add_sub_ofNat p.length pieces.flatten.length
    rw [List.map_cons, List.cons_append, recvLoop, if_neg hp,
      writeBytes_holding mem hp (by omega), Prog.ofOption, pure_bind]
    simp only [hrest]
    by_cases hlast : pieces = []
    · subst hlast
      rw [if_pos (by rfl), List.flatten_nil, List.append_nil]
      rfl
    · have hpos := length_flatten_pos hlast fun q hq => hpieces q (List.mem_cons_of_mem _ hq)
      rw [if_neg (by rw [ofNat_eq_zero_iff (by omega)]; omega),
        ih _ hlast (fun q hq => hpieces q (List.mem_cons_of_mem _ hq))
          (by rw [List.length_append]; omega), List.append_assoc]

/-! ### Requests -/

/-- A well-formed request. -/
structure Request where
  funcode : UInt8
  id : UInt64
  payload : Bytes
  length_lt : payload.length < 2 ^ 64

namespace Request

def header (r : Request) : MessageRequestHeader := ⟨r.funcode, r.id, UInt64.ofNat r.payload.length⟩

/-- The bytes of the request. -/
def stream (r : Request) : Bytes := MessageRequestHeader.word.encode r.header ++ r.payload

/-- The results of `recv` when the header and the payload arrive in one piece each. -/
def inOnePiece (r : Request) : List Recv :=
  some (MessageRequestHeader.word.encode r.header) ::
    if r.payload = [] then [] else [some r.payload]

/-- The buffer of the arguments, when the payload has been received. -/
def argsBuf (r : Request) (mem : ℕ → UInt8) : SdsBytesBuf :=
  if r.payload = [] then SdsBytesBuf.empty mem
  else (holding mem r.payload.length r.payload).rewind

theorem at_argsBuf (r : Request) (mem : ℕ → UInt8) : (r.argsBuf mem).At r.payload := by
  rw [argsBuf]
  split
  · next h => rw [h]; exact ⟨rfl, rfl⟩
  · exact at_rewind_holding _ _ _

end Request

/-- A way to deliver a request: each result of `recv` is a part of what remains, and no
longer than what was asked for. -/
structure Delivery (r : Request) where
  pieces : List Bytes
  flatten_pieces : pieces.flatten = r.stream
  piece_ne_nil : ∀ p ∈ pieces, p ≠ []
  length_head_le : ∀ p ∈ pieces.head?, p.length ≤ MessageRequestHeader.word.width
  length_tail_le : ∀ p ∈ pieces.tail, p.length ≤ 1024

namespace Delivery

variable {r : Request} (d : Delivery r)

/-- The first piece is the header, or it is too short for one. -/
theorem pieces_cases :
    (∃ ps, d.pieces = MessageRequestHeader.word.encode r.header :: ps ∧ ps.flatten = r.payload) ∨
    ∃ p ps, d.pieces = p :: ps ∧ p ≠ [] ∧ p.length < MessageRequestHeader.word.width := by
  have hflat := d.flatten_pieces
  have hhead := d.length_head_le
  have hne := d.piece_ne_nil
  have hwidth := MessageRequestHeader.word.length_encode r.header
  cases hps : d.pieces with
  | nil =>
    rw [hps, List.flatten_nil, Request.stream] at hflat
    exact absurd (List.append_eq_nil_iff.mp hflat.symm).1 (Word.encode_ne_nil _ _)
  | cons p ps =>
    rw [hps] at hflat hhead hne
    rw [List.flatten_cons, Request.stream] at hflat
    have hle : p.length ≤ MessageRequestHeader.word.width := hhead p rfl
    rcases Nat.lt_or_eq_of_le hle with hlt | heq
    · exact Or.inr ⟨p, ps, rfl, hne p List.mem_cons_self, hlt⟩
    · obtain ⟨rfl, hrest⟩ := List.append_inj hflat (heq.trans hwidth.symm)
      exact Or.inl ⟨ps, rfl, hrest⟩

end Delivery

/-! ### The server -/

section

variable [Hashing]

namespace SdsP2PServer

variable {db : BerkeleyDB}

/-- What the server does with the arguments of a request. -/
def answer (env : ServerEnv) (req : MessageRequestHeader) (args : SdsBytesBuf) : Server db ℤ := do
  let reply ← dispatch env req.funcode args (SdsBytesBuf.empty env.replyMem)
  sendReply ⟨req.funcode, reply.1, req.id,
    if reply.1 = ERR_NULL then UInt64.ofNat reply.2.size else 0⟩ reply.2

/-- A request whose header arrives whole is answered, whatever the pieces of its
payload. -/
theorem handleRequest_eq_answer (env : ServerEnv) (r : Request) (ps : List Bytes)
    (hflat : ps.flatten = r.payload) (hne : ∀ p ∈ ps, p ≠ []) :
    (handleRequest env (some (MessageRequestHeader.word.encode r.header) :: ps.map some) :
      Server db ℤ) = answer env r.header (r.argsBuf env.argsMem) := by
  rw [handleRequest, if_neg (by simpa using Word.encode_ne_nil _ _), Option.bind_some,
    Word.decode?_encode]
  have hzero := ofNat_eq_zero_iff r.length_lt
  by_cases hpayload : r.payload = []
  · have hsize : r.header.datasize = 0 := hzero.mpr (by rw [hpayload]; rfl)
    simp only [hsize, Request.argsBuf, if_pos hpayload]
    rfl
  · have hps : ps ≠ [] := by
      rintro rfl
      exact hpayload hflat.symm
    have hloop := recvLoop_holding (ε := ServerEvent) (σ := LocalNode db) env.argsMem
      (n := r.payload.length) r.length_lt [] ps [] hps hne (by rw [hflat, List.length_nil, Nat.zero_add])
    have htoNat : r.header.datasize.toNat = r.payload.length := by
      show (UInt64.ofNat r.payload.length).toNat = _
      rw [UInt64.toNat_ofNat', Nat.mod_eq_of_lt r.length_lt]
    rw [List.append_nil, hflat, List.nil_append] at hloop
    have hpos : 0 < r.header.datasize := ofNat_length_pos hpayload r.length_lt
    simp only [if_pos hpos, htoNat, allocate_empty, Request.argsBuf, if_neg hpayload]
    rw [show r.header.datasize = UInt64.ofNat r.payload.length from rfl, hloop, pure_bind]
    rfl

theorem handleRequest_inOnePiece (env : ServerEnv) (r : Request) :
    (handleRequest env r.inOnePiece : Server db ℤ) =
      answer env r.header (r.argsBuf env.argsMem) := by
  rw [Request.inOnePiece]
  split
  · next h => exact handleRequest_eq_answer env r [] h.symm fun p hp => (nomatch hp)
  · next h =>
    refine handleRequest_eq_answer env r [r.payload] ?_ fun p hp => ?_
    · rw [List.flatten_cons, List.flatten_nil, List.append_nil]
    · rwa [List.mem_singleton.mp hp]

/-- A header that is cut is answered with an error. -/
theorem handleRequest_of_short (env : ServerEnv) {p : Bytes} (hp : p ≠ [])
    (hlt : p.length < MessageRequestHeader.word.width) (rs : List Recv) :
    (handleRequest env (some p :: rs) : Server db ℤ) =
      sendReply recvFailed (SdsBytesBuf.empty env.replyMem) := by
  have hdecode : MessageRequestHeader.word.decode? p = none := if_neg (Nat.ne_of_lt hlt)
  rw [handleRequest, if_neg (by simpa using hp), Option.bind_some, hdecode]

/-- The handlers end with three error codes. -/
theorem yields_dispatch (env : ServerEnv) (funcode : UInt8) (args reply : SdsBytesBuf) :
    (dispatch env funcode args reply : Server db _).Yields
      fun r => r.1 = ERR_NULL ∨ r.1 = ERR_TYPE_ARGUMENT ∨ r.1 = ERR_NOFUNCT := by
  have hnull : ∀ buf : SdsBytesBuf, (pure (ERR_NULL, buf) : Server db _).Yields
      fun r => r.1 = ERR_NULL ∨ r.1 = ERR_TYPE_ARGUMENT ∨ r.1 = ERR_NOFUNCT :=
    fun buf => Prog.yields_pure (Or.inl rfl)
  rw [dispatch]
  split
  · exact Prog.yields_bind fun _ => Prog.yields_bind fun _ => Prog.yields_bind fun _ =>
      Prog.yields_bind hnull
  split
  · exact Prog.yields_bind fun _ => Prog.yields_bind fun _ => Prog.yields_bind fun _ =>
      Prog.yields_bind hnull
  split
  · exact Prog.yields_bind fun _ => Prog.Yields.tryCatch (Prog.yields_bind fun _ => hnull reply)
      fun _ => Prog.yields_pure (Or.inr (Or.inl rfl))
  split
  · exact Prog.yields_bind fun _ => Prog.yields_bind fun _ => Prog.yields_bind fun _ =>
      Prog.yields_bind hnull
  · exact Prog.yields_pure (Or.inr (Or.inr rfl))

/-- None of them is the one of a request that did not arrive. -/
theorem yields_answer (env : ServerEnv) (req : MessageRequestHeader) (args : SdsBytesBuf) :
    (answer env req args : Server db ℤ).Yields fun ret : ℤ => ret ≠ ERR_RECV_REQUEST.toNat := by
  refine (yields_dispatch env req.funcode args _).bind fun reply hreply => ?_
  refine Prog.yields_bind fun _ => Prog.yields_pure ?_
  show (reply.1.toNat : ℤ) ≠ ERR_RECV_REQUEST.toNat
  rcases hreply with h | h | h
  · rw [h]; decide
  · rw [h]; decide
  · rw [h]; decide

/-- The request, delivered in these pieces, is dispatched on a buffer with its payload and
answered, as it is when it arrives in one piece. -/
def Framed (env : ServerEnv) (n : LocalNode db) (r : Request) (rs : List Recv) : Prop :=
  ∃ args : SdsBytesBuf, args.At r.payload ∧
    handleRequest env rs n = answer env r.header args n ∧
    handleRequest env r.inOnePiece n = answer env r.header args n

theorem framed_of_whole (env : ServerEnv) (n : LocalNode db) {r : Request} {ps : List Bytes}
    (hflat : ps.flatten = r.payload) (hne : ∀ p ∈ ps, p ≠ []) :
    Framed env n r (some (MessageRequestHeader.word.encode r.header) :: ps.map some) := by
  refine ⟨r.argsBuf env.argsMem, r.at_argsBuf _, ?_, ?_⟩
  · rw [handleRequest_eq_answer env r ps hflat hne]
  · rw [handleRequest_inOnePiece]

/-- The error of a request that did not arrive is no answer to one. -/
theorem not_framed_of_short (env : ServerEnv) (n : LocalNode db) (r : Request) {p : Bytes}
    (hp : p ≠ []) (hlt : p.length < MessageRequestHeader.word.width) (rs : List Recv) :
    ¬ Framed env n r (some p :: rs) := by
  rintro ⟨args, -, hrun, -⟩
  rw [handleRequest_of_short env hp hlt] at hrun
  refine yields_answer env r.header args n ERR_RECV_REQUEST.toNat n ?_ rfl
  rw [Prog.outcome, ← hrun]
  rfl

/-- **The cuts make no difference exactly where there is none in the header.** -/
theorem framed_iff (env : ServerEnv) (n : LocalNode db) {r : Request} (d : Delivery r) :
    Framed env n r (d.pieces.map some) ↔
      d.pieces.head? = some (MessageRequestHeader.word.encode r.header) := by
  rcases d.pieces_cases with ⟨ps, hps, hflat⟩ | ⟨p, ps, hps, hp, hlt⟩
  · have hne : ∀ p ∈ ps, p ≠ [] := fun p hmem =>
      d.piece_ne_nil p (hps ▸ List.mem_cons_of_mem _ hmem)
    rw [hps, List.map_cons]
    exact iff_of_true (framed_of_whole env n hflat hne) rfl
  · rw [hps, List.map_cons, List.head?_cons, Option.some.injEq]
    refine iff_of_false (not_framed_of_short env n r hp hlt _) ?_
    rintro rfl
    rw [MessageRequestHeader.word.length_encode] at hlt
    exact lt_irrefl _ hlt

end SdsP2PServer

end

/-- A request for the nodes next to the zero id. -/
def zeroRequest : Request := ⟨FUNC_FIND_NODE, 1, (KadId.ofNat 0).id, by decide⟩

/-- The first byte of it comes alone. -/
def byteFirst : Delivery zeroRequest where
  pieces := [zeroRequest.stream.take 1, zeroRequest.stream.drop 1]
  flatten_pieces := by decide
  piece_ne_nil := by decide
  length_head_le := by decide
  length_tail_le := by decide

/-- An open node does not answer it then. -/
theorem SdsP2PServer.byteFirst_not_framed :
    letI := Hashing.blank
    ¬ SdsP2PServer.Framed ServerEnv.zero openNode zeroRequest (byteFirst.pieces.map some) :=
  letI := Hashing.blank
  SdsP2PServer.not_framed_of_short _ _ _ (by decide) (by decide) _

end SniffDogSniff
