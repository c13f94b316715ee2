import SniffDogSniff.Base.Prog
import SniffDogSniff.Common.SdsBytesBuf

/-!
# The transport

A request and a response are a packed header and a payload of the size that the
header announces.  Both sides take the header with one call of `recv` and collect
the payload with a loop of them.

## Main definitions

* `MessageRequestHeader`, `MessageResponseHeader`.
* `Recv`, `recvLoop` — the results of `recv`, and the loop.
* `Network` — a connection that delivers headers whole and payloads in pieces of
  any size.

## Main results

* `recvLoop_pieces`, `Network.recvLoop_cut` — **the loop puts the pieces of a
  payload together.**
-/

namespace SniffDogSniff

open Bytes SdsBytesBuf

/-! ### Headers -/

structure MessageRequestHeader where
  funcode : UInt8
  id : UInt64
  datasize : UInt64
  deriving DecidableEq

/-- The packed header, 17 bytes. -/
def MessageRequestHeader.word : Word MessageRequestHeader :=
  (Word.uint8.prod (Word.uint64.prod Word.uint64)).comap
    (fun r => (r.funcode, r.id, r.datasize)) (fun p => ⟨p.1, p.2.1, p.2.2⟩) fun _ => rfl

structure MessageResponseHeader where
  funcode : UInt8
  errcode : UInt8
  id : UInt64
  datasize : UInt64
  deriving DecidableEq

/-- The packed header, 18 bytes. -/
def MessageResponseHeader.word : Word MessageResponseHeader :=
  (Word.uint8.prod (Word.uint8.prod (Word.uint64.prod Word.uint64))).comap
    (fun r => (r.funcode, r.errcode, r.id, r.datasize))
    (fun p => ⟨p.1, p.2.1, p.2.2.1, p.2.2.2⟩) fun _ => rfl

/-! ### Receiving -/

/-- The result of a call of `recv`: the bytes, none of them when the peer has
closed the connection, or `none` for -1. -/
abbrev Recv := Option Bytes

/-- Collect a payload of which `recv_sz` bytes are missing, until none are or the
connection is closed.  The result -1 counts as a length, and so many bytes are
copied from the local array. -/
def recvLoop {ε σ : Type} : List Recv → UInt64 → SdsBytesBuf → Prog ε σ (UInt64 × SdsBytesBuf)
  | [], recv_sz, buf => pure (recv_sz, buf)
  | none :: _, _, _ => Prog.undefined
  | some bs :: rs, recv_sz, buf =>
      if bs = [] then pure (recv_sz, buf)
      else do
        let buf ← Prog.ofOption (writeBytes bs buf) Prog.stuck
        let recv_sz := recv_sz - UInt64.ofNat bs.length
        if recv_sz = 0 then pure (recv_sz, buf) else recvLoop rs recv_sz buf

theorem ofNat_eq_zero_iff {n : ℕ} (h : n < 2 ^ 64) : UInt64.ofNat n = 0 ↔ n = 0 := by
  rw [← UInt64.toNat_inj, UInt64.toNat_ofNat', Nat.mod_eq_of_lt h]
  rfl

/-- What is missing after the first piece is the size of the others. -/
theorem ofNat_add_sub_ofNat (m n : ℕ) :
    UInt64.ofNat (m + n) - UInt64.ofNat m = UInt64.ofNat n := by
  rw [UInt64.ofNat_add, UInt64.add_comm, UInt64.add_sub_cancel]

theorem length_flatten_pos {pieces : List Bytes} (hne : pieces ≠ [])
    (hpieces : ∀ p ∈ pieces, p ≠ []) : 0 < pieces.flatten.length := by
  obtain ⟨p, hp⟩ := List.exists_mem_of_ne_nil _ hne
  have hle := (List.sublist_flatten_of_mem hp).length_le
  exact (List.length_pos_iff.mpr (hpieces p hp)).trans_le hle

/-- A payload that has been announced with its size is collected from any pieces
that the calls of `recv` return. -/
theorem recvLoop_pieces {ε σ : Type} :
    ∀ (pieces : List Bytes) {buf : SdsBytesBuf}, buf.AtEnd → pieces ≠ [] →
      (∀ p ∈ pieces, p ≠ []) → pieces.flatten.length < 2 ^ 64 →
      ∃ buf', buf'.AtEnd ∧ buf'.bytes = buf.bytes ++ pieces.flatten ∧ ∀ s : σ,
        (recvLoop (pieces.map some) (UInt64.ofNat pieces.flatten.length) buf : Prog ε σ _) s =
          ([], .returned (0, buf') s) := by
  intro pieces
  induction pieces with
  | nil => intro buf _ hne; exact absurd rfl hne
  | cons p pieces ih =>
    intro buf hend _ hpieces hsize
    have hp : p ≠ [] := hpieces p List.mem_cons_self
    obtain ⟨buf₁, hwrite, hend₁, hbytes₁⟩ := writes_writeBytes p buf hend
    rw [List.flatten_cons, List.length_append] at hsize ⊢
    have hrest := ofNat_add_sub_ofNat p.length pieces.flatten.length
    have hstep : ∀ s : σ, (recvLoop ((p :: pieces).map some)
        (UInt64.ofNat (p.length + pieces.flatten.length)) buf : Prog ε σ _) s =
          (if UInt64.ofNat pieces.flatten.length = 0 then
            pure (UInt64.ofNat pieces.flatten.length, buf₁)
          else recvLoop (pieces.map some) (UInt64.ofNat pieces.flatten.length) buf₁) s := by
      intro s
      rw [List.map_cons, recvLoop, if_neg hp, hwrite]
      simp only [Prog.ofOption, hrest]
      rfl
    have hzero := ofNat_eq_zero_iff (Nat.lt_of_le_of_lt (Nat.le_add_left _ _) hsize)
    by_cases hlast : pieces = []
    · subst hlast
      refine ⟨buf₁, hend₁, by simpa using hbytes₁, fun s => ?_⟩
      rw [hstep, if_pos (hzero.mpr rfl)]
      rfl
    · obtain ⟨buf₂, hend₂, hbytes₂, hrun⟩ := ih hend₁ hlast
        (fun q hq => hpieces q (List.mem_cons_of_mem _ hq)) (by omega)
      refine ⟨buf₂, hend₂, by rw [hbytes₂, hbytes₁, List.append_assoc], ?_⟩
      have hpos := length_flatten_pos hlast fun q hq => hpieces q (List.mem_cons_of_mem _ hq)
      have hne : UInt64.ofNat pieces.flatten.length ≠ 0 := fun h => hpos.ne' (hzero.mp h)
      intro s
      rw [hstep, if_neg hne]
      exact hrun s

theorem silent_recvLoop {ε σ : Type} (rs : List Recv) (recv_sz : UInt64) (buf : SdsBytesBuf) :
    Prog.Silent (recvLoop rs recv_sz buf : Prog ε σ (UInt64 × SdsBytesBuf)) := by
  induction rs generalizing recv_sz buf with
  | nil => exact Prog.notes_pure _
  | cons r rs ih =>
    cases r with
    | none => exact Prog.notes_undefined
    | some bs =>
      rw [recvLoop]
      split
      · exact Prog.notes_pure _
      refine (Prog.notes_ofOption _ Prog.notes_stuck).bind fun buf' => ?_
      dsimp only
      split
      · exact Prog.notes_pure _
      · exact ih _ _

/-! ### The network -/

/-- A connection: how it cuts a payload into pieces that fit the array of the
receiver. -/
structure Network where
  cut : Bytes → List Bytes
  flatten_cut : ∀ bs, (cut bs).flatten = bs
  piece_ne_nil : ∀ bs, ∀ p ∈ cut bs, p ≠ []
  length_piece_le : ∀ bs, ∀ p ∈ cut bs, p.length ≤ 1024

/-- The results of `recv` for a stream that starts with a header of `n` bytes. -/
def Network.deliver (net : Network) (n : ℕ) (stream : Bytes) : List Recv :=
  some (stream.take n) :: (net.cut (stream.drop n)).map some

theorem Network.deliver_encode {α : Type} (net : Network) (w : Word α) (a : α) (payload : Bytes) :
    net.deliver w.width (w.encode a ++ payload) =
      some (w.encode a) :: (net.cut payload).map some := by
  rw [Network.deliver, List.take_left' (w.length_encode a), List.drop_left' (w.length_encode a)]

/-- A payload that is not empty is announced with a size that is not zero. -/
theorem ofNat_length_pos {payload : Bytes} (hne : payload ≠ []) (hsize : payload.length < 2 ^ 64) :
    0 < UInt64.ofNat payload.length := by
  rw [UInt64.lt_iff_toNat_lt, UInt64.toNat_ofNat', Nat.mod_eq_of_lt hsize]
  exact List.length_pos_iff.mpr hne

/-- **A payload that is announced and delivered is in the buffer afterwards.** -/
theorem Network.recvLoop_cut {ε σ : Type} (net : Network) (mem : ℕ → UInt8) {payload : Bytes}
    (hne : payload ≠ []) (hsize : payload.length < 2 ^ 64) :
    ∃ buf, buf.bytes = payload ∧ ∀ s : σ,
      (recvLoop ((net.cut payload).map some) (UInt64.ofNat payload.length)
        ((SdsBytesBuf.empty mem).allocate (UInt64.ofNat payload.length).toNat) : Prog ε σ _) s =
          ([], .returned (0, buf) s) := by
  have hpos : 0 < payload.length := List.length_pos_iff.mpr hne
  have htoNat : (UInt64.ofNat payload.length).toNat = payload.length := by
    rw [UInt64.toNat_ofNat', Nat.mod_eq_of_lt hsize]
  have hend : ((SdsBytesBuf.empty mem).allocate payload.length).AtEnd := ⟨rfl, fun _ => hpos⟩
  have hpieces : net.cut payload ≠ [] := by
    intro hnil
    apply hne
    rw [← net.flatten_cut payload, hnil]
    rfl
  obtain ⟨buf, -, hbytes, hrun⟩ := recvLoop_pieces (ε := ε) (σ := σ) (net.cut payload) hend hpieces
    (net.piece_ne_nil payload) (by rwa [net.flatten_cut])
  rw [net.flatten_cut] at hbytes hrun
  rw [htoNat]
  exact ⟨buf, hbytes, hrun⟩

end SniffDogSniff
