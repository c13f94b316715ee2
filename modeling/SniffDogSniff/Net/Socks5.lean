import SniffDogSniff.Base.Prog
import SniffDogSniff.Net.NetUtil
import Mathlib.Data.List.TakeDrop

/-!
# Connecting through a proxy

`socks5_connect` asks a SOCKS5 proxy for a connection to a host.  A name is sent
behind a byte with its length, and the variable for the length is this byte: of a
longer name only its first bytes are sent, as many as the length modulo 256.

## Main definitions

* `inetPton` — the four bytes of a dotted address.
* `SocksEnv`, `SocksEvent` — what the calls of the library return, and what they do.
* `socks5Connect` — the function.
* `decodeConnect` — the host and the port of a request for a name.
* `HostName`, `NeverAsksForAnother` — a host that has to be sent by name, and the
  request being for it.

## Main results

* `socks5Connect_run` — the request is not complete, or its bytes are known.
* `neverAsksForAnother_iff` — **the proxy is asked for the right host exactly if its
  name has at most 255 bytes.**
-/

namespace SniffDogSniff

def SOCKS_VERSION : UInt8 := 0x05

def CONNECT_CMD : UInt8 := 0x01

def METHOD_NO_AUTH_REQUIRED : UInt8 := 0x00

def NO_ACCEPTABLE_METHODS : UInt8 := 0xff

def ADDR_IP_V4 : UInt8 := 0x01

def ADDR_DOMAIN : UInt8 := 0x03

def NO_ERROR : UInt8 := 0x00

/-! ### Dotted addresses -/

/-- A decimal number below 256, without a zero in front. -/
def octet (s : Bytes) : Option UInt8 :=
  if s ≠ [] ∧ (s.all fun c => decide (48 ≤ c ∧ c ≤ 57)) = true ∧ leadingDigits 0 s < 256 ∧
      (s.head? = some 48 → s.length = 1) then
    some (UInt8.ofNat (leadingDigits 0 s))
  else none

/-- `inet_pton` for `AF_INET`; `none` where it does not return 1. -/
def inetPton (s : Bytes) : Option Bytes :=
  match StringUtil.split s [46] with
  | some [a, b, c, d] => do return [← octet a, ← octet b, ← octet c, ← octet d]
  | _ => none

/-- The address "127.0.0.1", and one with a zero in front of a number. -/
example : inetPton [49, 50, 55, 46, 48, 46, 48, 46, 49] = some [127, 0, 0, 1] ∧
    inetPton [49, 50, 55, 46, 48, 48, 46, 48, 46, 49] = none := by decide

/-! ### The function -/

/-- What the calls of the library return. -/
structure SocksEnv where
  socket : ℤ
  connect : ℤ
  /-- The `i`-th call of `send`. -/
  send : ℕ → ℤ
  /-- The `i`-th call of `recv`, with the bytes that it puts into the buffer. -/
  recv : ℕ → ℤ × Bytes

/-- What they do. -/
inductive SocksEvent
  | connects (ip port : Bytes)
  /-- The `i`-th call of `send` takes some bytes. -/
  | sent (i : ℕ) (bs : Bytes)
  /-- The request is out, and the reply is waited for. -/
  | awaits

/-- The two bytes of `htons(port)`. -/
def htonsBytes (port : ℤ) : Bytes :=
  let n := (port % 65536).toNat
  [UInt8.ofNat (n / 256), UInt8.ofNat n]

/-- `send`, and -1 where it does not take all the bytes. -/
def ensureSent (env : SocksEnv) (i : ℕ) (bs : Bytes) (next : Prog SocksEvent Unit ℤ) :
    Prog SocksEvent Unit ℤ := do
  Prog.note (.sent i (bs.take (env.send i).toNat))
  if env.send i ≠ bs.length then pure (-1) else next

/-- The last part, behind the request. -/
def socks5Reply (env : SocksEnv) : Prog SocksEvent Unit ℤ := do
  Prog.note .awaits
  let (n, buf) := env.recv 1
  if n ≠ 10 then pure (-1)
  else if buf.getD 0 0 ≠ SOCKS_VERSION then pure (-1)
  else if buf.getD 1 0 ≠ NO_ERROR then pure (-((buf.getD 1 0).toNat : ℤ))
  else pure env.socket

/-- The head of the request, and the bytes that stand for the host. -/
def requestParts (addr : Bytes) : Bytes × Bytes :=
  match inetPton addr with
  | some ip => ([SOCKS_VERSION, CONNECT_CMD, 0, ADDR_IP_V4], ip)
  | none =>
    -- an `unsigned char`
    let addr_len := UInt8.ofNat addr.length
    ([SOCKS_VERSION, CONNECT_CMD, 0, ADDR_DOMAIN, addr_len], addr.take addr_len.toNat)

/-- `socks5_connect`. -/
def socks5Connect (env : SocksEnv) (socks5_addr : CString) (socks5_port : ℤ) (addr : CString)
    (port : ℤ) : Prog SocksEvent Unit ℤ :=
  if env.socket < 0 then pure (-1)
  else match inetPton socks5_addr.bytes with
  | none => pure (-1)
  | some ip => do
    Prog.note (.connects ip (htonsBytes socks5_port))
    if env.connect < 0 then pure (-1)
    else ensureSent env 0 [SOCKS_VERSION, 0x01, METHOD_NO_AUTH_REQUIRED] do
      let (n, buf) := env.recv 0
      if n ≠ 2 then pure (-1)
      else if buf.getD 0 0 ≠ SOCKS_VERSION ∨ buf.getD 1 0 = NO_ACCEPTABLE_METHODS then pure (-1)
      else
        let (head, host) := requestParts addr.bytes
        ensureSent env 1 head (ensureSent env 2 host
          (ensureSent env 3 (htonsBytes port) (socks5Reply env)))

/-! ### What the proxy understands -/

/-- The host and the port of a request for a name. -/
def decodeConnect : Bytes → Option (Bytes × UInt16)
  | 5 :: 1 :: 0 :: 3 :: n :: rest =>
      match rest.drop n.toNat with
      | [hi, lo] => some (rest.take n.toNat, UInt16.ofNat (256 * hi.toNat + lo.toNat))
      | _ => none
  | _ => none

/-- The bytes behind the greeting. -/
def requestBytes (events : List SocksEvent) : Bytes :=
  events.flatMap fun
    | .sent i bs => if i = 0 then [] else bs
    | _ => []

/-- A host that is not given by its address. -/
structure HostName extends CString where
  not_ip : inetPton bytes = none

/-- The call fails before the request is out. -/
def FailsBefore (m : Prog SocksEvent Unit ℤ) : Prop :=
  SocksEvent.awaits ∉ m.events () ∧ m.outcome () = .returned (-1) ()

/-- Whatever the library does, the call fails before the request is out, or the bytes
that it sends ask for this host and this port. -/
def NeverAsksForAnother (host : HostName) (port : UInt16) : Prop :=
  ∀ env socks5_addr socks5_port,
    let m := socks5Connect env socks5_addr socks5_port host.toCString port.toNat
    FailsBefore m ∨ decodeConnect (requestBytes (m.events ())) = some (host.bytes, port)

/-! ### The request -/

/-- The call fails before the request is out, or the request is `bs`. -/
def Asks (m : Prog SocksEvent Unit ℤ) (bs : Bytes) : Prop :=
  FailsBefore m ∨ requestBytes (m.events ()) = bs

theorem asks_failed (bs : Bytes) : Asks (pure (-1)) bs := Or.inl ⟨List.not_mem_nil, rfl⟩

/-- One more event in front does not help. -/
theorem FailsBefore.of_cons {m next : Prog SocksEvent Unit ℤ} {e : SocksEvent}
    (h : FailsBefore next) (he : e ≠ .awaits) (hrun : m () = (e :: (next ()).1, (next ()).2)) :
    FailsBefore m := by
  refine ⟨?_, (congrArg Prod.snd hrun).trans h.2⟩
  rw [Prog.events, hrun, List.mem_cons, not_or]
  exact ⟨he.symm, h.1⟩

section Rules

variable {next : Prog SocksEvent Unit ℤ} {bs : Bytes}

/-- What a call of `send` comes to. -/
theorem ensureSent_cases (env : SocksEnv) (i : ℕ) (b : Bytes) (next : Prog SocksEvent Unit ℤ) :
    (env.send i ≠ b.length ∧ FailsBefore (ensureSent env i b next)) ∨
      (env.send i = b.length ∧
        (ensureSent env i b next) () = (.sent i b :: (next ()).1, (next ()).2)) := by
  have hrun := Prog.note_bind (.sent i (b.take (env.send i).toNat))
    (fun _ => if env.send i ≠ b.length then pure (-1) else next) ()
  by_cases hlen : env.send i = b.length
  · right
    rw [if_neg (not_not.mpr hlen), hlen, Int.toNat_natCast, List.take_length] at hrun
    refine ⟨hlen, ?_⟩
    rw [ensureSent, if_neg (not_not.mpr hlen), hlen, Int.toNat_natCast, List.take_length]
    exact hrun
  · left
    rw [if_pos hlen] at hrun
    have hall : ensureSent env i b next () =
        ([.sent i (b.take (env.send i).toNat)], .returned (-1) ()) := by
      rw [ensureSent, if_pos hlen]
      exact hrun
    refine ⟨hlen, ?_, congrArg Prod.snd hall⟩
    rw [Prog.events, hall]
    simp

theorem Asks.ensureSent (h : Asks next bs) (env : SocksEnv) (i : ℕ) (b : Bytes) :
    Asks (ensureSent env i b next) (if i = 0 then bs else b ++ bs) := by
  rcases ensureSent_cases env i b next with ⟨-, hfails⟩ | ⟨-, hrun⟩
  · exact Or.inl hfails
  · rcases h with hfails | hbytes
    · exact Or.inl (hfails.of_cons (by simp) hrun)
    · right
      rw [Prog.events, hrun, ← hbytes]
      show (if i = 0 then [] else b) ++ requestBytes (next ()).1 = _
      split
      · rfl
      · rfl

theorem Asks.connects (h : Asks next bs) (ip port : Bytes) :
    Asks (do Prog.note (.connects ip port); next) bs := by
  have hrun := Prog.note_bind (SocksEvent.connects ip port) (fun _ => next) ()
  rcases h with hfails | hbytes
  · exact Or.inl (hfails.of_cons (by simp) hrun)
  · right
    rw [Prog.events, hrun, ← hbytes]
    rfl

end Rules

/-- The events of the last part. -/
theorem events_socks5Reply (env : SocksEnv) : (socks5Reply env).events () = [.awaits] := by
  rw [Prog.events, socks5Reply, Prog.note_bind]
  simp only
  split
  · rfl
  · split
    · rfl
    · split
      · rfl
      · rfl

theorem asks_socks5Reply (env : SocksEnv) : Asks (socks5Reply env) [] := by
  right
  rw [events_socks5Reply]
  rfl

/-- **What the proxy is asked for**: the head, the host and the port. -/
theorem asks_socks5Connect (env : SocksEnv) (socks5_addr : CString) (socks5_port : ℤ)
    (addr : CString) (port : ℤ) :
    Asks (socks5Connect env socks5_addr socks5_port addr port)
      ((requestParts addr.bytes).1 ++ ((requestParts addr.bytes).2 ++ htonsBytes port)) := by
  have hrequest := (((asks_socks5Reply env).ensureSent env 3 (htonsBytes port)).ensureSent env 2
    (requestParts addr.bytes).2).ensureSent env 1 (requestParts addr.bytes).1
  simp only [if_false, List.append_nil, OfNat.ofNat_ne_zero,
    one_ne_zero] at hrequest
  rw [socks5Connect]
  split
  · exact asks_failed _
  split
  · exact asks_failed _
  · refine Asks.connects ?_ _ _
    split
    · exact asks_failed _
    have hgreet : ∀ next, Asks next ((requestParts addr.bytes).1 ++
        ((requestParts addr.bytes).2 ++ htonsBytes port)) →
          Asks (ensureSent env 0 [SOCKS_VERSION, 0x01, METHOD_NO_AUTH_REQUIRED] next)
            ((requestParts addr.bytes).1 ++ ((requestParts addr.bytes).2 ++ htonsBytes port)) :=
      fun next h => h.ensureSent env 0 _
    apply hgreet
    simp only
    split
    · exact asks_failed _
    split
    · exact asks_failed _
    · exact hrequest

/-! ### The host in the request -/

theorem decodeConnect_name {name : Bytes} {n : UInt8} (h : name.length = n.toNat) (port : UInt16) :
    decodeConnect ([SOCKS_VERSION, CONNECT_CMD, 0, ADDR_DOMAIN, n] ++
      (name ++ htonsBytes port.toNat)) = some (name, port) := by
  have hlt := port.toNat_lt
  have hmod : ((port.toNat : ℤ) % 65536).toNat = port.toNat := by omega
  have hport : UInt16.ofNat (256 * (UInt8.ofNat (port.toNat / 256)).toNat +
      (UInt8.ofNat port.toNat).toNat) = port := by
    rw [← UInt16.toNat_inj, UInt16.toNat_ofNat', UInt8.toNat_ofNat', UInt8.toNat_ofNat']
    omega
  show (match (name ++ htonsBytes port.toNat).drop n.toNat with
    | [hi, lo] => some ((name ++ htonsBytes port.toNat).take n.toNat,
        UInt16.ofNat (256 * hi.toNat + lo.toNat))
    | _ => none) = some (name, port)
  rw [← h, List.drop_left, List.take_left, htonsBytes, hmod]
  exact congrArg (fun p => some (name, p)) hport

/-- The bytes of the name that are sent, as many as their number modulo 256. -/
def sentName (host : Bytes) : Bytes := host.take (UInt8.ofNat host.length).toNat

theorem requestParts_of_hostName (host : HostName) : requestParts host.bytes =
    ([SOCKS_VERSION, CONNECT_CMD, 0, ADDR_DOMAIN, UInt8.ofNat host.bytes.length],
      sentName host.bytes) := by
  rw [requestParts, host.not_ip]
  rfl

/-- The request for a name is one for the bytes that are sent. -/
theorem decodeConnect_requestParts (host : HostName) (port : UInt16) :
    decodeConnect ((requestParts host.bytes).1 ++ ((requestParts host.bytes).2 ++
      htonsBytes port.toNat)) = some (sentName host.bytes, port) := by
  rw [requestParts_of_hostName]
  apply decodeConnect_name
  rw [sentName, List.length_take, UInt8.toNat_ofNat']
  exact Nat.min_eq_left (Nat.mod_le _ _)

theorem sentName_eq_iff (host : Bytes) : sentName host = host ↔ host.length ≤ 255 := by
  rw [sentName, List.take_eq_self_iff, UInt8.toNat_ofNat']
  omega

/-! ### A proxy that answers -/

/-- Every byte of the request is taken. -/
def answering (host : Bytes) : SocksEnv where
  socket := 3
  connect := 0
  send i := [3, 5, ((sentName host).length : ℤ), 2].getD i 0
  recv _ := (2, [SOCKS_VERSION, METHOD_NO_AUTH_REQUIRED])

/-- "127.0.0.1". -/
def localProxy : CString := ⟨[49, 50, 55, 46, 48, 46, 48, 46, 49], by decide⟩

theorem ensureSent_awaits {env : SocksEnv} {i : ℕ} {b : Bytes} {next : Prog SocksEvent Unit ℤ}
    (hlen : env.send i = b.length) (h : SocksEvent.awaits ∈ next.events ()) :
    SocksEvent.awaits ∈ (ensureSent env i b next).events () := by
  rcases ensureSent_cases env i b next with ⟨hne, -⟩ | ⟨-, hrun⟩
  · exact absurd hlen hne
  · rw [Prog.events, hrun]
    exact List.mem_cons_of_mem _ h

theorem answering_not_failsBefore (host : HostName) (port : ℤ) :
    ¬ FailsBefore (socks5Connect (answering host.bytes) localProxy 9050 host.toCString port) := by
  intro h
  have hproxy : inetPton localProxy.bytes = some [127, 0, 0, 1] := by decide
  have hreply := events_socks5Reply (answering host.bytes)
  apply h.1
  have hsocket : ¬ (answering host.bytes).socket < 0 := not_lt.mpr (Int.natCast_nonneg 3)
  rw [socks5Connect, if_neg hsocket, hproxy]
  simp only [requestParts_of_hostName]
  rw [Prog.events, Prog.note_bind,
    if_neg (show ¬ (answering host.bytes).connect < 0 from lt_irrefl 0)]
  apply List.mem_cons_of_mem
  apply ensureSent_awaits rfl
  apply ensureSent_awaits rfl
  apply ensureSent_awaits rfl
  apply ensureSent_awaits rfl
  rw [hreply]
  exact List.mem_singleton_self _

/-- A proxy that answers is asked for the bytes that are sent. -/
theorem sentName_eq_of_neverAsksForAnother {host : HostName} {port : UInt16}
    (h : NeverAsksForAnother host port) : sentName host.bytes = host.bytes := by
  rcases h (answering host.bytes) localProxy 9050 with hfails | hdecode
  · exact absurd hfails (answering_not_failsBefore host _)
  · rcases asks_socks5Connect (answering host.bytes) localProxy 9050 host.toCString port.toNat
      with hfails | hbytes
    · exact absurd hfails (answering_not_failsBefore host _)
    · rw [hbytes, decodeConnect_requestParts] at hdecode
      exact congrArg Prod.fst (Option.some.inj hdecode)

/-- **The proxy is never asked for another host if and only if the name has at most 255
bytes.** -/
theorem neverAsksForAnother_iff (host : HostName) (port : UInt16) :
    NeverAsksForAnother host port ↔ host.bytes.length ≤ 255 := by
  rw [← sentName_eq_iff]
  constructor
  · exact sentName_eq_of_neverAsksForAnother
  · intro hname env socks5_addr socks5_port
    rcases asks_socks5Connect env socks5_addr socks5_port host.toCString port.toNat
      with hfails | hbytes
    · exact Or.inl hfails
    · right
      rw [hbytes, decodeConnect_requestParts, hname]

/-- An address has points in it. -/
theorem inetPton_of_not_mem {s : Bytes} (h : 46 ∉ s) : inetPton s = none := by
  have hsplit := StringUtil.split_intercalate [] (List.cons_ne_nil s [])
    (fun p hp => List.mem_singleton.mp hp ▸ h)
  rw [List.intercalate_singleton] at hsplit
  rw [inetPton, hsplit]

/-- 257 letters "a". -/
def longName : HostName where
  bytes := List.replicate 257 97
  nonzero h := absurd (List.eq_of_mem_replicate h) (by decide)
  not_ip := inetPton_of_not_mem fun h => absurd (List.eq_of_mem_replicate h) (by decide)

/-- The proxy is asked for the host "a". -/
theorem longName_not_neverAsksForAnother :
    sentName longName.bytes = [97] ∧ ¬ NeverAsksForAnother longName 80 := by
  have hlen : longName.bytes.length = 257 := List.length_replicate
  have hname : sentName longName.bytes = [97] := by
    rw [sentName, hlen]
    exact List.take_replicate
  refine ⟨hname, fun h => ?_⟩
  have hshort := (sentName_eq_iff _).mp (sentName_eq_of_neverAsksForAnother h)
  omega

end SniffDogSniff
