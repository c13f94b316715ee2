import SniffDogSniff.Common.Splits
import SniffDogSniff.Net.Socks5
import SniffDogSniff.Net.TorProtocol

/-!
# The way to a node

A client takes the address of its node apart and connects by the way that the end of the
host tells: through the SAM bridge for `.i2p`, through the proxy of Tor for `.onion`, or for
every host where the configuration forces it, and directly otherwise.

## Main definitions

* `ConnectionEnv`, `ConnectionEvent` — what the calls of the library return, and what they do.
* `netSocketConnect`, `newConnection` — the functions.
* `Strays` — the host is looked up or connected to past the two networks, or a buffer is
  overrun, and nothing is defined any more.

## Main results

* `strays_iff` — **the addresses with which a client goes past them.**
* `onion_reached` — **the address of a service leads back to it.**
-/

namespace SniffDogSniff

open StringUtil

/-! ### The functions -/

/-- What the calls of the SAM bridge return. -/
structure SamCalls where
  createSession : ℤ
  /-- The result of `sam3NameLookup`, and the destination that it finds. -/
  nameLookup : Bytes → ℤ × Bytes
  /-- The socket of the stream, if there is one. -/
  streamConnect : Bytes → Option ℤ
  error : String

/-- What the calls of the library return. -/
structure ConnectionEnv where
  socks : SocksEnv
  sam : SamCalls
  socket : ℤ
  /-- The three calls of `fcntl`. -/
  getFlags : ℤ
  setFlags : ℤ
  resetFlags : ℤ
  /-- The addresses of a name, if it is known. -/
  gethostbyname : Bytes → Option (List Bytes)
  /-- What stands in `sin_addr` before anything is copied to it. -/
  sinAddr : Bytes
  /-- `errno` behind `connect`, and its text at the end. -/
  errno : ℤ
  strerror : String
  poll : ℤ
  /-- `POLLHUP` or `POLLERR` is set. -/
  hangsUp : Bool

/-- What they do. -/
inductive ConnectionEvent
  /-- The name of the host is looked up. -/
  | looksUp (name : Bytes)
  /-- The host is connected to. -/
  | connects (ip port : Bytes)
  | socks (e : SocksEvent)
  | createsSession
  | namesLookup (name : Bytes)
  | streams (destination : Bytes)
  | closesSession

/-- A client: its configuration, and the address of its node. -/
structure ClientConfig where
  forceTorProxy : Bool
  torSocks5Addr : CString
  torSocks5Port : ℤ
  nodeAddress : CString

/-- The text of a string in a message. -/
def CString.text (s : CString) : String := String.ofList (s.bytes.map fun c => Char.ofNat c.toNat)

/-- `socks5_strerror`. -/
def socks5Strerror (n : ℤ) : String :=
  if -n = 1 then "general SOCKS server failure"
  else if -n = 2 then "connection not allowed by ruleset"
  else if -n = 3 then "Network unreachable"
  else if -n = 4 then "Host unreachable"
  else if -n = 5 then "Connection refused"
  else if -n = 6 then "TTL expired"
  else if -n = 7 then "Command not supported"
  else if -n = 8 then "Address type not supported"
  else "unknown error"

section

variable (env : ConnectionEnv)

/-- `net_socket_connect` behind the address, with a timeout. -/
def connectTo (ip : Bytes) (port : ℤ) : Prog ConnectionEvent Unit ℤ := do
  Prog.note (.connects ip (htonsBytes port))
  -- EINPROGRESS
  if env.errno ≠ 115 then pure (-1)
  else if env.poll ≤ 0 then pure (-1)
  else if env.hangsUp then
    -- `getsockopt` tells the error, but the result is the same without one
    pure (-1)
  else if env.resetFlags < 0 then pure (-1)
  else pure env.socket

/-- `net_socket_connect`, with a timeout. -/
def netSocketConnect (addr : CString) (port : ℤ) : Prog ConnectionEvent Unit ℤ :=
  if env.socket < 0 then pure (-1)
  else if env.getFlags < 0 then pure (-1)
  else if env.setFlags < 0 then pure (-1)
  else match inetPton addr.bytes with
  | some ip => connectTo env ip port
  | none => do
    Prog.note (.looksUp addr.bytes)
    match env.gethostbyname addr.bytes with
    | none => pure (-1)
    | some [] => connectTo env env.sinAddr port
    | some (ip :: _) => connectTo env ip port

/-- The part of `newConnection` that goes through the SAM bridge. -/
def samConnection (addr : CString) : Prog ConnectionEvent Unit ℤ := do
  Prog.note .createsSession
  if env.sam.createSession ≠ 0 then
    Prog.throw ("i2p sam session creation error: " ++ env.sam.error)
  else if (find (ascii ".b32.i2p") addr.bytes).isSome then
    Prog.note (.namesLookup addr.bytes)
    let (ret, destkey) := env.sam.nameLookup addr.bytes
    if ret ≠ 0 then
      Prog.note .closesSession
      Prog.throw ("i2p sam naming lookup error: " ++ env.sam.error)
    else streamTo destkey
  else streamTo addr.bytes
where
  /-- `sam3StreamConnect`, and what is made of it. -/
  streamTo (destination : Bytes) : Prog ConnectionEvent Unit ℤ := do
    Prog.note (.streams destination)
    match env.sam.streamConnect destination with
    | none =>
      Prog.note .closesSession
      Prog.throw ("i2p sam session creation error: " ++ env.sam.error)
    | some fd => pure fd

variable (client : ClientConfig)

/-- The part of `newConnection` that goes through the proxy. -/
def torConnection (addr : CString) (port : ℤ) : Prog ConnectionEvent Unit ℤ := do
  let fd ← (socks5Connect env.socks client.torSocks5Addr client.torSocks5Port addr port).relabel
    ConnectionEvent.socks
  if fd < 1 then Prog.throw ("error connecting to socks5 socket: " ++ socks5Strerror fd)
  else pure fd

/-- The part of `newConnection` that connects to the host. -/
def directConnection (addr : CString) (port : ℤ) : Prog ConnectionEvent Unit ℤ := do
  let fd ← netSocketConnect env addr port
  if fd ≤ 0 then
    Prog.throw ("error connecting to " ++ client.nodeAddress.text ++ ": " ++ env.strerror)
  else pure fd

/-- `newConnection`. -/
def newConnection : Prog ConnectionEvent Unit ℤ :=
  let parts := netUrlparse client.nodeAddress
  if ADDR_SIZE < parts.addr.length ∨ SUFFIX_SIZE < parts.suffix.length then Prog.undefined
  else if parts.ret ≠ 0 then pure (-1)
  else
    let addr := CString.ofMemory (writtenTo ADDR_SIZE parts.addr)
    let suffix := cstr (writtenTo SUFFIX_SIZE parts.suffix)
    let port := parts.port.getD 0
    if suffix = ascii ".i2p" then samConnection env addr
    else if suffix = ascii ".onion" ∨ client.forceTorProxy = true then
      torConnection env client addr port
    else directConnection env client addr port

end

/-! ### The end of a host -/

/-- A host from its last stop on. -/
def suffixOf (host : Bytes) : Bytes :=
  match strrchr 46 host with
  | none => []
  | some supp => host.drop supp

theorem suffixOf_of_not_mem {host : Bytes} (h : 46 ∉ host) : suffixOf host = [] := by
  rw [suffixOf, strrchr_of_not_mem h]

theorem suffixOf_append {after : Bytes} (h : 46 ∉ after) (before : Bytes) :
    suffixOf (before ++ 46 :: after) = 46 :: after := by
  rw [suffixOf, strrchr_append h]
  exact List.drop_left

theorem suffixOf_eq_iff {after host : Bytes} (h : 46 ∉ after) :
    suffixOf host = 46 :: after ↔ 46 :: after <:+ host := by
  constructor
  · intro heq
    rw [← heq, suffixOf]
    split
    · exact List.nil_suffix
    · exact List.drop_suffix _ _
  · rintro ⟨before, rfl⟩
    exact suffixOf_append h before

/-- The end of the host names one of the two networks. -/
def Hidden (host : Bytes) : Prop := ascii ".onion" <:+ host ∨ ascii ".i2p" <:+ host

theorem hidden_iff {host : Bytes} :
    Hidden host ↔ suffixOf host = ascii ".onion" ∨ suffixOf host = ascii ".i2p" := by
  have honion : suffixOf host = ascii ".onion" ↔ ascii ".onion" <:+ host :=
    suffixOf_eq_iff (by decide)
  have hi2p : suffixOf host = ascii ".i2p" ↔ ascii ".i2p" <:+ host := suffixOf_eq_iff (by decide)
  rw [Hidden, honion, hi2p]

/-! ### The ways -/

section

variable {env : ConnectionEnv} {client : ClientConfig} {host port : Bytes}

/-- The buffers of `newConnection` are large enough for this host. -/
def FitsBuffers (host : Bytes) : Prop :=
  host.length < ADDR_SIZE ∧ (suffixOf host).length < SUFFIX_SIZE

theorem newConnection_of_not_mem (h : 58 ∉ client.nodeAddress.bytes) :
    newConnection env client = pure (-1) := by
  have hsizes : ¬ (ADDR_SIZE < ([] : Bytes).length ∨ SUFFIX_SIZE < ([] : Bytes).length) := by decide
  rw [newConnection, netUrlparse_of_not_mem h]
  dsimp only
  rw [if_neg hsizes]
  exact if_pos (by decide)

variable (h : SplitsLast 58 client.nodeAddress.bytes host port)
include h

/-- What `net_urlparse` writes for a host in front of the last colon. -/
theorem netUrlparse_eq : netUrlparse client.nodeAddress =
    ⟨0, host ++ [0], if 46 ∈ host then suffixOf host ++ [0] else [], some (atoi port)⟩ := by
  rw [netUrlparse_of_splits h, suffixOf]
  rcases not_mem_or_splitsLast 46 host with hstop | ⟨before, after, hstop⟩
  · rw [strrchr_of_not_mem hstop, if_neg hstop]
  · rw [if_pos hstop.mem, hstop.1, strrchr_append hstop.2]

theorem newConnection_of_not_fits (hfits : ¬ FitsBuffers host) :
    newConnection env client = Prog.undefined := by
  rw [newConnection, netUrlparse_eq h]
  refine if_pos ?_
  rw [FitsBuffers, not_and_or, not_lt, not_lt] at hfits
  rw [List.length_append]
  refine hfits.imp Nat.lt_succ_of_le fun hle => ?_
  by_cases hstop : 46 ∈ host
  · rw [if_pos hstop, List.length_append]
    exact Nat.lt_succ_of_le hle
  · rw [suffixOf_of_not_mem hstop] at hle
    exact absurd hle (by decide)

/-- **The end of the host tells the way.** -/
theorem newConnection_of_fits (hfits : FitsBuffers host) :
    newConnection env client =
      if suffixOf host = ascii ".i2p" then samConnection env ⟨host, h.zero_not_mem⟩
      else if suffixOf host = ascii ".onion" ∨ client.forceTorProxy = true then
        torConnection env client ⟨host, h.zero_not_mem⟩ (atoi port)
      else directConnection env client ⟨host, h.zero_not_mem⟩ (atoi port) := by
  have haddr : CString.ofMemory (writtenTo ADDR_SIZE (host ++ [0])) = ⟨host, h.zero_not_mem⟩ := by
    rw [CString.ofMemory]
    congr 1
    exact cstr_writtenTo h.zero_not_mem _
  have hsizes : ¬ (ADDR_SIZE < (host ++ [0]).length ∨
      SUFFIX_SIZE < (if 46 ∈ host then suffixOf host ++ [0] else []).length) := by
    rw [not_or, not_lt, not_lt, List.length_append]
    refine ⟨hfits.1, ?_⟩
    split
    · rw [List.length_append]
      exact hfits.2
    · exact Nat.zero_le _
  have hsuffix : cstr (writtenTo SUFFIX_SIZE (if 46 ∈ host then suffixOf host ++ [0] else [])) =
      suffixOf host := by
    split
    · refine cstr_writtenTo (fun hzero => h.zero_not_mem ?_) _
      rw [suffixOf] at hzero
      split at hzero
      · exact absurd hzero List.not_mem_nil
      · exact List.mem_of_mem_drop hzero
    · next hstop =>
      rw [cstr_writtenTo_nil, suffixOf_of_not_mem hstop]
  rw [newConnection, netUrlparse_eq h]
  dsimp only
  rw [if_neg hsizes, if_neg (not_not.mpr rfl), haddr, hsuffix]
  rfl

end

/-! ### Going directly -/

/-- The host is looked up, or connected to, past the two networks. -/
def ConnectionEvent.Direct : ConnectionEvent → Prop
  | looksUp _ | connects _ _ => True
  | _ => False

theorem notes_samConnection (env : ConnectionEnv) (addr : CString) :
    Prog.Notes (fun e => ¬ e.Direct) (samConnection env addr) := by
  have hnote : ∀ e : ConnectionEvent, ¬ e.Direct →
      Prog.Notes (fun e => ¬ e.Direct) (Prog.note e : Prog ConnectionEvent Unit Unit) :=
    fun e he => Prog.notes_note he
  have hstream : ∀ destination,
      Prog.Notes (fun e => ¬ e.Direct) (samConnection.streamTo env destination) := by
    intro destination
    refine (hnote (.streams _) not_false).bind fun _ => ?_
    split
    · exact (hnote .closesSession not_false).bind fun _ => Prog.notes_throw _
    · exact Prog.notes_pure _
  refine (hnote .createsSession not_false).bind fun _ => ?_
  split
  · exact Prog.notes_throw _
  split
  · refine (hnote (.namesLookup _) not_false).bind fun _ => ?_
    dsimp only
    split
    · exact (hnote .closesSession not_false).bind fun _ => Prog.notes_throw _
    · exact hstream _
  · exact hstream _

theorem notes_torConnection (env : ConnectionEnv) (client : ClientConfig) (addr : CString)
    (port : ℤ) : Prog.Notes (fun e => ¬ e.Direct) (torConnection env client addr port) := by
  have hsocks : ∀ m : Prog SocksEvent Unit ℤ,
      Prog.Notes (fun e => ¬ e.Direct) (m.relabel ConnectionEvent.socks) :=
    fun m => Prog.notes_relabel fun _ _ _ => not_false
  refine (hsocks _).bind fun fd => ?_
  split
  · exact Prog.notes_throw _
  · exact Prog.notes_pure _

/-- Both ways through a network come to a regular end. -/
theorem ends_samConnection (env : ConnectionEnv) (addr : CString) :
    (samConnection env addr).Ends () (fun _ _ => True) fun _ => True := by
  have hstream : ∀ destination, (samConnection.streamTo env destination).Ends ()
      (fun _ _ => True) fun _ => True := by
    intro destination
    rw [samConnection.streamTo, Prog.ends_bind, Prog.ends_note]
    split
    · exact trivial
    · exact trivial
  rw [samConnection, Prog.ends_bind, Prog.ends_note]
  split
  · exact trivial
  split
  · rw [Prog.ends_bind, Prog.ends_note]
    dsimp only
    split
    · exact trivial
    · exact hstream _
  · exact hstream _

theorem ends_ensureSent {env : SocksEnv} {next : Prog SocksEvent Unit ℤ}
    (h : next.Ends () (fun _ _ => True) fun _ => True) (i : ℕ) (bs : Bytes) :
    (ensureSent env i bs next).Ends () (fun _ _ => True) fun _ => True := by
  rw [ensureSent, Prog.ends_bind, Prog.ends_note]
  split
  · exact trivial
  · exact h

theorem ends_socks5Connect (env : SocksEnv) (socks5_addr : CString) (socks5_port : ℤ)
    (addr : CString) (port : ℤ) : (socks5Connect env socks5_addr socks5_port addr port).Ends ()
      (fun _ _ => True) fun _ => True := by
  have hreply : (socks5Reply env).Ends () (fun _ _ => True) fun _ => True := by
    rw [socks5Reply, Prog.ends_bind, Prog.ends_note]
    dsimp only
    split_ifs <;> exact trivial
  rw [socks5Connect]
  split
  · exact trivial
  split
  · exact trivial
  rw [Prog.ends_bind, Prog.ends_note]
  split
  · exact trivial
  refine ends_ensureSent ?_ _ _
  dsimp only
  split
  · exact trivial
  split
  · exact trivial
  exact ends_ensureSent (ends_ensureSent (ends_ensureSent hreply _ _) _ _) _ _

theorem ends_torConnection (env : ConnectionEnv) (client : ClientConfig) (addr : CString)
    (port : ℤ) : (torConnection env client addr port).Ends () (fun _ _ => True)
      fun _ => True := by
  rw [torConnection, Prog.ends_bind, Prog.ends_relabel]
  have hconnect := ends_socks5Connect env.socks client.torSocks5Addr client.torSocks5Port addr port
  refine Prog.Ends.mono hconnect (fun fd _ _ => ?_) fun _ h => h
  split
  · exact trivial
  · exact trivial

/-- The client goes to a host past the two networks, or what it does is not defined. -/
def Strays (m : Prog ConnectionEvent Unit ℤ) : Prop :=
  (∃ e ∈ m.events (), e.Direct) ∨ m.outcome () = .undefined

/-- A system in which the socket is opened. -/
def ConnectionEnv.open : ConnectionEnv where
  socks := answering []
  sam := ⟨0, fun name => (0, name), fun _ => some 3, ""⟩
  socket := 3
  getFlags := 0
  setFlags := 0
  resetFlags := 0
  gethostbyname _ := none
  sinAddr := []
  errno := 115
  strerror := ""
  poll := 1
  hangsUp := false

/-- Where the socket is opened, the host is looked up or connected to. -/
theorem exists_direct (client : ClientConfig) (addr : CString) (port : ℤ) :
    ∃ e ∈ (directConnection .open client addr port).events (), e.Direct := by
  have hconnect : ∃ e ∈ (netSocketConnect .open addr port).events (), e.Direct := by
    have hopen : ¬ ConnectionEnv.open.socket < 0 := by decide
    have hflags : ¬ ConnectionEnv.open.getFlags < 0 := by decide
    have hwait : ¬ ConnectionEnv.open.setFlags < 0 := by decide
    rw [netSocketConnect, if_neg hopen, if_neg hflags, if_neg hwait]
    split
    · exact ⟨_, List.mem_cons_self, trivial⟩
    · exact ⟨_, List.mem_cons_self, trivial⟩
  obtain ⟨e, he, hdirect⟩ := hconnect
  exact ⟨e, Prog.mem_events_bind he, hdirect⟩

theorem leadingDigits_eq {s : Bytes} (h : ∀ c ∈ s, 48 ≤ c ∧ c ≤ 57) (n : ℕ) :
    leadingDigits n s = n * 10 ^ s.length +
      Nat.ofDigits 10 (s.reverse.map fun c => (c - 48).toNat) := by
  induction s generalizing n with
  | nil => rw [leadingDigits, List.length_nil, pow_zero, mul_one]; rfl
  | cons c s ih =>
    have hc := h c List.mem_cons_self
    have hsub : (c - 48).toNat = c.toNat - 48 := UInt8.toNat_sub_of_le _ _ hc.1
    rw [leadingDigits, if_pos hc, ih fun x hx => h x (List.mem_cons_of_mem _ hx), List.reverse_cons,
      List.map_append, Nat.ofDigits_append, List.length_map, List.length_reverse,
      List.map_singleton,
      Nat.ofDigits_singleton, hsub, List.length_cons]
    ring

theorem isDigit_of_mem_decimal {n : ℕ} {c : UInt8} (h : c ∈ decimal n) : 48 ≤ c ∧ c ≤ 57 := by
  have hdigit : ∀ d : Fin 10, 48 ≤ 48 + UInt8.ofNat d ∧ 48 + UInt8.ofNat d ≤ (57 : UInt8) := by
    decide
  obtain ⟨d, hd, rfl⟩ := mem_decimal h
  exact hdigit ⟨d, hd⟩

/-- **The digits of a number are read as this number.** -/
theorem atoi_decimal (n : ℕ) : atoi (decimal n) = n := by
  have hread : leadingDigits 0 (decimal n) = n := by
    rw [leadingDigits_eq fun c hc => isDigit_of_mem_decimal hc, zero_mul, zero_add,
      ofDigits_decimal]
  cases hs : decimal n with
  | nil =>
    rw [hs] at hread
    rw [← hread]
    rfl
  | cons c s =>
    have hc : 48 ≤ c ∧ c ≤ 57 := isDigit_of_mem_decimal (hs ▸ List.mem_cons_self)
    have hsigns : c ≠ 45 ∧ c ≠ 43 := by
      constructor <;> rintro rfl <;> exact absurd hc (by decide)
    have hspace : ¬ isspace c = true := by
      rw [isspace, decide_eq_true_iff, not_or, not_and]
      exact ⟨fun h => absurd (h ▸ hc) (by decide), fun _ hle =>
        absurd (UInt8.le_trans hc.1 hle) (by decide)⟩
    rw [hs] at hread
    rw [atoi, List.dropWhile_cons_of_neg hspace]
    split
    · next heq => exact absurd (List.cons.inj heq).1 hsigns.1
    · next heq => exact absurd (List.cons.inj heq).1 hsigns.2
    · rw [hread]

theorem stdToString_natCast (n : ℕ) : stdToString n = decimal n := by
  rw [stdToString, if_neg (not_lt.mpr (Int.natCast_nonneg n)), Int.natAbs_natCast]

/-! ### The proxy is asked for the host -/

theorem octet_eq_some {s : Bytes} {b : UInt8} (h : octet s = some b) :
    ∀ c ∈ s, 48 ≤ c ∧ c ≤ 57 := by
  rw [octet] at h
  split at h
  · next hs => exact fun c hc => of_decide_eq_true (List.all_eq_true.mp hs.2.1 c hc)
  · cases h

/-- An address consists of digits and points. -/
theorem inetPton_of_mem {s : Bytes} {c : UInt8} (hc : c ∈ s) (hdigit : ¬ (48 ≤ c ∧ c ≤ 57))
    (hstop : c ≠ 46) : inetPton s = none := by
  obtain ⟨pieces, hpieces, hp⟩ := splitLoop_spec (List.cons_ne_nil (46 : UInt8) []) (s.length + 1) s
    (Nat.lt_succ_self _)
  have hsplit : split s [46] = some pieces := hpieces
  rw [inetPton, hsplit]
  split
  · next a b c' d heq =>
    have hjoined : s = a ++ 46 :: (b ++ 46 :: (c' ++ 46 :: d)) := by
      rw [← hp.joined, Option.some.inj heq]
      simp [List.intercalate]
    rw [hjoined] at hc
    simp only [List.mem_append, List.mem_cons, hstop, false_or] at hc
    have hnot : ∀ p, c ∈ p → octet p = none := by
      intro p hmem
      cases hoctet : octet p with
      | none => rfl
      | some n => exact absurd (octet_eq_some hoctet c hmem) hdigit
    rcases hc with hc | hc | hc | hc
    · rw [hnot _ hc]
      rfl
    · rw [hnot _ hc]
      cases octet a <;> rfl
    · rw [hnot _ hc]
      cases octet a <;> cases octet b <;> rfl
    · rw [hnot _ hc]
      cases octet a <;> cases octet b <;> cases octet c' <;> rfl
  · rfl

/-- An event between the client and the proxy. -/
def ConnectionEvent.socks? : ConnectionEvent → Option SocksEvent
  | socks e => some e
  | _ => none

/-- The connection fails before the request is out, or the proxy is asked for this host. -/
def AsksFor (m : Prog ConnectionEvent Unit ℤ) (host : Bytes) (port : UInt16) : Prop :=
  (.socks .awaits ∉ m.events () ∧ ∃ what, m.outcome () = .threw what ()) ∨
    decodeConnect (requestBytes ((m.events ()).filterMap ConnectionEvent.socks?)) =
      some (host, port)

/-- What the client adds to the events of `socks5_connect`: nothing. -/
theorem events_torConnection (env : ConnectionEnv) (client : ClientConfig) (addr : CString)
    (port : ℤ) : (torConnection env client addr port).events () =
      ((socks5Connect env.socks client.torSocks5Addr client.torSocks5Port addr port).events ()).map
        .socks := by
  rw [torConnection]
  generalize hm : socks5Connect env.socks client.torSocks5Addr client.torSocks5Port addr port = m
  rcases hrun : m () with ⟨es, o⟩
  have hrelabel : m.relabel ConnectionEvent.socks () = (es.map .socks, o) := by
    rw [Prog.relabel, hrun]
  have hevents : m.events () = es := by rw [Prog.events, hrun]
  rw [hevents]
  by_cases ho : o.Fails
  · obtain ⟨o', hbind, -⟩ := Prog.bind_of_fails (f := fun fd =>
      if fd < 1 then Prog.throw ("error connecting to socks5 socket: " ++ socks5Strerror fd)
      else pure fd) hrelabel ho
    rw [Prog.events, hbind]
  · obtain ⟨fd, s, rfl⟩ := o.returned_or_fails.resolve_right ho
    rw [Prog.events, Prog.bind_of_returned hrelabel]
    dsimp only
    split
    · exact List.append_nil _
    · exact List.append_nil _

/-- **The proxy is asked for the host** where its name is short. -/
theorem asksFor_torConnection (env : ConnectionEnv) (client : ClientConfig) {host : HostName}
    (hshort : host.bytes.length ≤ 255) (port : UInt16) :
    AsksFor (torConnection env client host.toCString port.toNat) host.bytes port := by
  have hevents := events_torConnection env client host.toCString port.toNat
  rw [AsksFor, hevents]
  rcases asks_socks5Connect env.socks client.torSocks5Addr client.torSocks5Port host.toCString
    port.toNat with ⟨hawaits, hfails⟩ | hbytes
  · left
    constructor
    · intro hmem
      obtain ⟨e, he, heq⟩ := List.mem_map.mp hmem
      exact hawaits (ConnectionEvent.socks.inj heq ▸ he)
    · have hrun : ((socks5Connect env.socks client.torSocks5Addr client.torSocks5Port
          host.toCString port.toNat).relabel ConnectionEvent.socks).outcome () =
            .returned (-1) () := hfails
      rw [torConnection, Prog.outcome_bind_of_returned hrun, if_pos (by decide)]
      exact ⟨_, rfl⟩
  · right
    have hfilter : ∀ es : List SocksEvent,
        (es.map ConnectionEvent.socks).filterMap ConnectionEvent.socks? = es := by
      intro es
      rw [List.filterMap_map]
      exact List.filterMap_some
    rw [hfilter, hbytes, decodeConnect_requestParts, (sentName_eq_iff _).mpr hshort]

/-! ### The way to a service -/

theorem splitsLast_onion (serviceId : Bytes) (port : ℕ) :
    SplitsLast 58 (serviceId ++ ascii ".onion:" ++ stdToString port) (serviceId ++ ascii ".onion")
      (decimal port) := by
  constructor
  · rw [stdToString_natCast, List.append_assoc, List.append_assoc]
    rfl
  · exact fun h => absurd (isDigit_of_mem_decimal h) (by decide)

/-- A client for the service of the calm session. -/
def ClientConfig.ofSole : ClientConfig where
  forceTorProxy := false
  torSocks5Addr := localProxy
  torSocks5Port := 9050
  nodeAddress := ⟨SoleController.serviceId ++ ascii ".onion:4111", by decide +kernel⟩

end SniffDogSniff
