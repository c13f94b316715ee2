import SniffDogSniff.Base.Prog
import SniffDogSniff.Common.Decimal
import SniffDogSniff.Net.TorReply

/-!
# The session with the Tor controller

`tor_add_onion` connects to the control port of Tor, authenticates itself, by a password or
by the cookie that only those can read who may read the files of Tor, and asks for a hidden
service.  With the cookie, the controller has to show first that it knows the cookie too.
The replies are taken apart by `strtok_r`.

The controller is a parameter: any machine that replies to commands.

## Main definitions

* `strtokR` — `strtok_r` for a single delimiter.
* `parsePROTOCOLINFO`, `parseAUTHCHALLENGE` — the two replies that carry the challenge.
* `TorControlSession`, `torControlSessionInit` — the record of a session.
* `TorController`, `TorLink`, `TorEnv` — the other side, both sides, and the system.
* `torAddOnion`, `torDelOnion` — the two calls.

## Main results

* `strtokR_append` — a token in front of a delimiter.
-/

namespace SniffDogSniff

open SdsBytesBuf

/-! ### Tokens -/

/-- `strtok_r` for one delimiter: the token, if there is one, and what is left behind it. -/
def strtokR (delim : UInt8) (s : Bytes) : Option Bytes × Bytes :=
  match s.dropWhile (· = delim) with
  | [] => (none, [])
  | c :: cs => (some ((c :: cs).takeWhile (· ≠ delim)), ((c :: cs).dropWhile (· ≠ delim)).tail)

section

variable {delim : UInt8} {token : Bytes}

theorem strtokR_cons {c : UInt8} (h : c ≠ delim) (s : Bytes) :
    strtokR delim (c :: s) =
      (some ((c :: s).takeWhile (· ≠ delim)), ((c :: s).dropWhile (· ≠ delim)).tail) := by
  have hdrop : (c :: s).dropWhile (· = delim) = c :: s :=
    List.dropWhile_cons_of_neg (by simpa using h)
  rw [strtokR, hdrop]

/-- **A token in front of a delimiter.** -/
theorem strtokR_append (htoken : token ≠ []) (h : delim ∉ token) (rest : Bytes) :
    strtokR delim (token ++ delim :: rest) = (some token, rest) := by
  have hne : ∀ x ∈ token, decide (x ≠ delim) = true :=
    fun x hx => decide_eq_true (ne_of_mem_of_not_mem hx h)
  have htake : (token ++ delim :: rest).takeWhile (· ≠ delim) = token := by
    rw [List.takeWhile_append_of_pos hne, List.takeWhile_cons_of_neg (by simp), List.append_nil]
  have hdrop : (token ++ delim :: rest).dropWhile (· ≠ delim) = delim :: rest := by
    rw [List.dropWhile_append_of_pos hne, List.dropWhile_cons_of_neg (by simp)]
  obtain ⟨x, xs, rfl⟩ := List.exists_cons_of_ne_nil htoken
  have hx : x ≠ delim := ne_of_mem_of_not_mem List.mem_cons_self h
  rw [List.cons_append] at htake hdrop ⊢
  rw [strtokR_cons hx, htake, hdrop]
  rfl

/-- A token at the end. -/
theorem strtokR_end (htoken : token ≠ []) (h : delim ∉ token) :
    strtokR delim token = (some token, []) := by
  have hne : ∀ x ∈ token, decide (x ≠ delim) = true :=
    fun x hx => decide_eq_true (ne_of_mem_of_not_mem hx h)
  have htake : token.takeWhile (· ≠ delim) = token := List.takeWhile_eq_self_iff.mpr hne
  have hdrop : token.dropWhile (· ≠ delim) = [] := List.dropWhile_eq_nil_iff.mpr hne
  obtain ⟨x, xs, rfl⟩ := List.exists_cons_of_ne_nil htoken
  have hx : x ≠ delim := ne_of_mem_of_not_mem List.mem_cons_self h
  rw [strtokR_cons hx, htake, hdrop]
  rfl

end

/-! ### The replies -/

/-- What a function comes to that fills variables of its caller. -/
inductive Filled (α : Type)
  /-- It returns a code, and the variables are not used. -/
  | error (code : ℤ)
  | filled (a : α)
  /-- A buffer is overrun, or a null pointer is written to. -/
  | undefined
  deriving DecidableEq

def METHOD_SIZE : ℕ := 64

def CFPATH_SIZE : ℕ := 512

def COOKIE_SIZE : ℕ := 32

/-- The value of `COOKIEFILE`: `tokv + 1` up to a quotation mark.  Where there is no value,
`tokv + 1` is behind the terminator that `strtok_r` has put in place of a blank. -/
def cookieFile (tokv tokap : Bytes) : Filled Bytes :=
  let value := match tokv with
    | [] => tokap
    | _ :: value => value
  if 34 ∉ value then .undefined
  else if CFPATH_SIZE ≤ (value.takeWhile (· ≠ 34)).length then .undefined
  else .filled (value.takeWhile (· ≠ 34))

/-- `read_reply_PROTOCOLINFO` on the text of the reply: the method, and the path of the
cookie where it is written. -/
def parsePROTOCOLINFO (text : Bytes) : Filled (Bytes × Option Bytes) :=
  match strtokR 32 text with
  | (none, _) => .error (-1)
  | (some toka, tokap) =>
    if toka ≠ ascii "250-PROTOCOLINFO" then .error (-1)
    else
      match strtokR 32 (strtokR 32 tokap).2 with
      | (none, _) => .error (-1)
      | (some toka, tokap) =>
        if ¬ ascii "250-AUTH" <:+: toka then .error (-1)
        else
          match strtokR 32 tokap with
          | (none, _) => .error (-1)
          | (some toka, tokap) =>
            if (strtokR 61 toka).1 ≠ some (ascii "METHODS") then .error (-1)
            else
              let method := (strtokR 61 toka).2
              if METHOD_SIZE ≤ method.length then .undefined
              else
                match strtokR 32 tokap with
                | (none, _) => .filled (method, none)
                | (some toka, tokap) =>
                  if (strtokR 61 toka).1 ≠ some (ascii "COOKIEFILE") then .filled (method, none)
                  else
                    match cookieFile (strtokR 61 toka).2 tokap with
                    | .filled cfpath => .filled (method, some cfpath)
                    | .error code => .error code
                    | .undefined => .undefined

/-- `hex_string_to_bytes` into an array of `old.length` bytes. -/
def hexStringInto (old tokv : Bytes) : Filled Bytes :=
  let out := (hexLoop (tokv ++ [0]) tokv.length tokv.length 0).out
  if old.length < out.length then .undefined else .filled (out ++ old.drop out.length)

/-- `read_reply_AUTHCHALLENGE` on the text of the reply; `hash` and `nonce` are what stands
in the two arrays. -/
def parseAUTHCHALLENGE (hash nonce text : Bytes) : Filled (Bytes × Bytes) :=
  match strtokR 32 (strtokR 32 text).2 with
  | (none, _) => .error (-1)
  | (some toka, tokap) =>
    if toka ≠ ascii "AUTHCHALLENGE" then .error (-1)
    else
      match strtokR 32 tokap with
      | (none, _) => .error (-1)
      | (some toka, tokap) =>
        if (strtokR 61 toka).1 ≠ some (ascii "SERVERHASH") then .error (-1)
        else
          match hexStringInto hash (strtokR 61 toka).2 with
          | .error code => .error code
          | .undefined => .undefined
          | .filled hash =>
            match strtokR 32 tokap with
            | (none, _) => .error (-1)
            | (some toka, _) =>
              if (strtokR 61 toka).1 ≠ some (ascii "SERVERNONCE") then .error (-1)
              else
                match hexStringInto nonce (strtokR 61 toka).2 with
                | .error code => .error code
                | .undefined => .undefined
                | .filled nonce => .filled (hash, nonce)

/-! ### The session -/

def CONTROL_ADDR_SIZE : ℕ := 64

/-- The size of the arrays for the password and the key in the record. -/
def SESSION_SIZE : ℕ := 512

def SERVICE_ID_SIZE : ℕ := 58

/-- The array for the password in `tor_add_onion`. -/
def PASSWORD_SIZE : ℕ := 256

structure TorControlSession where
  controlAddr : Bytes
  controlPort : ℤ
  authCookie : Bool
  /-- All bytes of the array. -/
  password : Bytes
  controlSockFd : ℤ
  privkey : Bytes
  serviceId : Bytes
  deriving DecidableEq

/-- The array for the password; `strncpy` puts no terminator behind a new one. -/
def storedPassword (old : Bytes) : Option CString → Bytes
  | none => old
  | some pass => pass.bytes ++ old.drop pass.bytes.length

/-- `tor_control_session_init`, if the password fits. -/
def torControlSessionInit (ctx : TorControlSession) (addr : CString) (port : ℤ)
    (authCookie : Bool) (pass : Option CString) : Option TorControlSession :=
  let password := storedPassword ctx.password pass
  if ctx.password.length < password.length then none
  else
    some
      { controlAddr := addr.bytes.take CONTROL_ADDR_SIZE
        controlPort := port
        authCookie := authCookie
        password := password
        controlSockFd := -1
        privkey := []
        serviceId := [] }

/-- The other side: what it replies to a command, if anything is received. -/
structure TorController where
  State : Type
  reply : State → Bytes → Option Bytes × State

/-- Both sides. -/
structure TorLink (K : TorController) where
  ctx : TorControlSession
  control : K.State

/-- The calls of the system that can fail. -/
inductive TorCall
  | socket
  | setsockopt
  | inetPton (addr : Bytes)
  | connect (addr : Bytes) (port : ℤ)
  | send (cmd : Bytes)
  | fopen (path : Bytes)
  | fread (path : Bytes)
  deriving DecidableEq

/-- The system around `tor_add_onion`. -/
structure TorEnv where
  fd : ℤ
  /-- The calls that fail; besides, a file can be too short for the cookie. -/
  fails : TorCall → Bool
  errno : TorCall → ℤ
  file : Bytes → Option Bytes
  clientNonce : Bytes
  length_clientNonce : clientNonce.length = COOKIE_SIZE
  /-- What stands in the arrays that the reply to the challenge is read into. -/
  serverHash : Bytes
  length_serverHash : serverHash.length = COOKIE_SIZE
  serverNonce : Bytes
  length_serverNonce : serverNonce.length = COOKIE_SIZE
  /-- HMAC with SHA256, of a key and a text. -/
  hmac : Bytes → Bytes → Bytes
  length_hmac : ∀ key text, (hmac key text).length = COOKIE_SIZE
  /-- The memory of the buffers for replies. -/
  mem : ℕ → UInt8

inductive TorEvent
  | sent (cmd : Bytes)
  | received (reply : Bytes)
  | closed
  deriving DecidableEq

abbrev Tor (K : TorController) : Type → Type := Prog TorEvent (TorLink K)

def TOR_HMAC_SERVER_TO_CONTROLLER_KEY : Bytes :=
  ascii "Tor safe cookie authentication server-to-controller hash"

def TOR_HMAC_CONTROLLER_TO_SERVER_KEY : Bytes :=
  ascii "Tor safe cookie authentication controller-to-server hash"

/-! ### Commands -/

def cmdPROTOCOLINFO : Bytes := ascii "PROTOCOLINFO\n"

def cmdAUTHCHALLENGE (clientNonce : Bytes) : Bytes :=
  ascii "AUTHCHALLENGE SAFECOOKIE " ++ bytesToHexString clientNonce ++ [10]

def cmdAUTHENTICATE (password : Bytes) : Bytes := ascii "AUTHENTICATE " ++ password ++ [10]

def cmdADD_ONION (key baddr : Bytes) (bport : ℤ) : Bytes :=
  ascii "ADD_ONION " ++ key ++ ascii " Port=" ++ stdToString bport ++ [44] ++ baddr ++ [58] ++
    stdToString bport ++ [10]

def cmdDEL_ONION (serviceId : Bytes) : Bytes := ascii "DEL_ONION " ++ serviceId ++ [10]

section

variable {K : TorController} (env : TorEnv)

/-- Send a command, and take the reply by `read_reply`: the text of the reply, or the code
that is returned. -/
def exchange (cmd : Bytes) : Tor K (Except ℤ Bytes) :=
  if env.fails (.send cmd) then pure (.error (env.errno (.send cmd)))
  else do
    Prog.note (.sent cmd)
    let r := K.reply (← Prog.get).control cmd
    Prog.modify fun link => { link with control := r.2 }
    match r.1 with
    -- the size of what is received is then taken for a large number
    | none => Prog.undefined
    | some reply => do
        let reply := reply.take REPLY_SIZE
        Prog.note (.received reply)
        if REPLY_SIZE ≤ (clean reply).length then Prog.undefined
        else
          match (readReply env.mem reply).ret with
          | none => Prog.undefined
          | some code =>
              pure (if code ≠ 0 then .error code
                else .ok (cstr (slice (readReply env.mem reply).mem 0 REPLY_SIZE)))

/-- The text that is authenticated by both sides. -/
def authText (cookie serverNonce : Bytes) : Bytes := cookie ++ env.clientNonce ++ serverNonce

/-- `tor_add_onion` for a cookie, up to the command that authenticates: the password. -/
def cookiePassword : Tor K (Except ℤ Bytes) := do
  match ← exchange env cmdPROTOCOLINFO with
  | .error code => pure (.error code)
  | .ok text =>
    match parsePROTOCOLINFO text with
    | .undefined => Prog.undefined
    | .error code => pure (.error code)
    | .filled (method, cfpath) =>
      if method ≠ ascii "COOKIE,SAFECOOKIE" then pure (.error (-2))
      else
        match cfpath with
        -- the path has not been written
        | none => Prog.undefined
        | some cfpath =>
          match env.file cfpath with
          | none => pure (.error (env.errno (.fopen cfpath)))
          | some data =>
            if data.length < COOKIE_SIZE then pure (.error (env.errno (.fread cfpath)))
            else do
              let cookie := data.take COOKIE_SIZE
              match ← exchange env (cmdAUTHCHALLENGE env.clientNonce) with
              | .error code => pure (.error code)
              | .ok text =>
                match parseAUTHCHALLENGE env.serverHash env.serverNonce text with
                | .undefined => Prog.undefined
                | .error code => pure (.error code)
                | .filled (serverHash, serverNonce) =>
                  if serverHash ≠ env.hmac TOR_HMAC_SERVER_TO_CONTROLLER_KEY
                      (authText env cookie serverNonce) then pure (.error (-3))
                  else
                    pure (.ok (bytesToHexString (env.hmac TOR_HMAC_CONTROLLER_TO_SERVER_KEY
                      (authText env cookie serverNonce))))

/-- The password of the session, as `strcpy` finds it. -/
def sessionPassword : Tor K (Except ℤ Bytes) := do
  let ctx := (← Prog.get).ctx
  if 0 ∉ ctx.password then Prog.undefined
  else if PASSWORD_SIZE ≤ (cstr ctx.password).length then Prog.undefined
  else pure (.ok (cstr ctx.password))

/-- `read_reply_ADD_ONION` on the text of the reply, into the fields of the session. -/
def parseADD_ONION (text : Bytes) : Tor K ℤ :=
  match strtokR 32 text with
  -- the second call has nowhere to go on
  | (none, _) => Prog.undefined
  | (some toka, tokap) =>
    if (strtokR 61 toka).1 ≠ some (ascii "250-ServiceID") then pure (-1)
    else
      let serviceId := (strtokR 61 toka).2
      if SERVICE_ID_SIZE ≤ serviceId.length then Prog.undefined
      else do
        Prog.modify fun link => { link with ctx := { link.ctx with serviceId := serviceId } }
        match strtokR 32 tokap with
        | (none, _) => pure (-1)
        | (some toka, _) =>
          if (strtokR 61 toka).1 ≠ some (ascii "250-PrivateKey") then pure 0
          else
            let privkey := (strtokR 61 toka).2
            if SESSION_SIZE ≤ privkey.length then Prog.undefined
            else do
              Prog.modify fun link => { link with ctx := { link.ctx with privkey := privkey } }
              pure 0

/-- Close the connection and return the code. -/
def closeWith (code : ℤ) : Tor K (ℤ × Option Bytes) := do
  Prog.note .closed
  pure (code, none)

/-- The key of an earlier session is copied into the record. -/
def copyKey : Option Bytes → Tor K Unit
  | none => pure ()
  | some privkey =>
      if SESSION_SIZE ≤ privkey.length then Prog.undefined
      else Prog.modify fun link => { link with ctx := { link.ctx with privkey := privkey } }

/-- The last command of `tor_add_onion`, and the address. -/
def requestOnion (cmd : Bytes) (bport : ℤ) : Tor K (ℤ × Option Bytes) :=
  if REPLY_SIZE ≤ cmd.length then Prog.undefined
  else do
    match ← exchange env cmd with
    | .error code => closeWith code
    | .ok text => do
        let code ← parseADD_ONION text
        if code ≠ 0 then closeWith code
        else
          let ctx := (← Prog.get).ctx
          pure (0, some (ctx.serviceId ++ ascii ".onion:" ++ stdToString bport))

/-- `tor_add_onion`, once it is authenticated. -/
def addOnion (baddr : Bytes) (bport : ℤ) (privkey : Option Bytes) :
    Tor K (ℤ × Option Bytes) := do
  Prog.modify fun link => { link with ctx := { link.ctx with controlSockFd := env.fd } }
  copyKey privkey
  requestOnion env (cmdADD_ONION (privkey.getD (ascii "NEW:ED25519-V3")) baddr bport) bport

/-- `tor_add_onion`: the code, and the address where it is written. -/
def torAddOnion (baddr : Bytes) (bport : ℤ) (privkey : Option Bytes) :
    Tor K (ℤ × Option Bytes) := do
  let ctx := (← Prog.get).ctx
  if env.fails .socket then pure (env.errno .socket, none)
  -- the connection is not closed in the next three
  else if env.fails .setsockopt then pure (env.errno .setsockopt, none)
  else if CONTROL_ADDR_SIZE ≤ ctx.controlAddr.length then Prog.undefined
  else if env.fails (.inetPton ctx.controlAddr) then
    pure (env.errno (.inetPton ctx.controlAddr), none)
  else if env.fails (.connect ctx.controlAddr ctx.controlPort) then
    pure (env.errno (.connect ctx.controlAddr ctx.controlPort), none)
  else
    match ← if ctx.authCookie then cookiePassword env else sessionPassword with
    | .error code => closeWith code
    | .ok password =>
      match ← exchange env (cmdAUTHENTICATE password) with
      | .error code => closeWith code
      | .ok _ => addOnion env baddr bport privkey

/-- `tor_del_onion`. -/
def torDelOnion : Tor K ℤ := do
  let ctx := (← Prog.get).ctx
  if ctx.controlSockFd < 0 then pure (-1)
  else
    match ← exchange env (cmdDEL_ONION ctx.serviceId) with
    | .error code => pure code
    | .ok _ => pure 0

end

end SniffDogSniff
