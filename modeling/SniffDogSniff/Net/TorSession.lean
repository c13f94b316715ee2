import SniffDogSniff.Net.TorControl

/-!
# What is sent to the Tor controller

The commands of a session come in one order only, whatever the controller replies: the
controller has shown that it knows the cookie before it is told anything that depends on
the cookie, and a service is asked for only by those who are authenticated.

## Main definitions

* `ServerShows` — a reply shows that the controller knows the cookie.
* `Permitted` — a command behind what has been sent and received.

## Main results

* `guarded_exchange` — the rule for an exchange.
* `permitted_of_sent` — **every command is permitted, in a session with any controller.**
-/

namespace SniffDogSniff

open SdsBytesBuf

/-! ### Exchanges -/

section

variable {K : TorController} {env : TorEnv}

/-- The text that `read_reply` leaves. -/
theorem cstr_readReply (mem : ℕ → UInt8) {reply : Bytes} (h : (clean reply).length < REPLY_SIZE) :
    cstr (slice (readReply mem reply).mem 0 REPLY_SIZE) = cstr (clean reply) := by
  obtain ⟨htext, -, -, -⟩ := readReply_spec mem reply
  have hsize : REPLY_SIZE =
      (clean reply).length + 1 + (REPLY_SIZE - ((clean reply).length + 1)) := by
    omega
  rw [hsize, slice_add, htext, List.append_assoc]
  exact cstr_append_nul _ _

end

/-! ### The order of the commands -/

/-- A reply to the first command names a file with the cookie. -/
def NamesCookie (env : TorEnv) (reply cookie : Bytes) : Prop :=
  ∃ path data, parsePROTOCOLINFO (cstr (clean reply)) =
      .filled (ascii "COOKIE,SAFECOOKIE", some path) ∧
    env.file path = some data ∧ COOKIE_SIZE ≤ data.length ∧ cookie = data.take COOKIE_SIZE

/-- A reply to the challenge shows that the controller knows the cookie. -/
def ServerShows (env : TorEnv) (reply cookie serverNonce : Bytes) : Prop :=
  parseAUTHCHALLENGE env.serverHash env.serverNonce (cstr (clean reply)) =
    .filled (env.hmac TOR_HMAC_SERVER_TO_CONTROLLER_KEY (authText env cookie serverNonce),
      serverNonce)

/-- The last line of a reply begins with no code but the one for success: with another number
than 0, that is, since 0 and a line without a number are taken for success too. -/
def NotRefused (reply : Bytes) : Prop :=
  ∀ n, scanInt (cstr (lastLine reply)) = some n → n = TOR_CODE_SUCCESS ∨ n = 0

/-- What `read_reply` takes for success. -/
theorem notRefused_of_ret {mem : ℕ → UInt8} {reply : Bytes}
    (h : (readReply mem reply).ret = some 0) : NotRefused reply := by
  obtain ⟨-, -, -, hret⟩ := readReply_spec mem reply
  rw [hret, cstr_append_nul, replyCode] at h
  intro n hn
  rw [hn] at h
  dsimp only at h
  split at h
  · by_cases hsuccess : n = TOR_CODE_SUCCESS
    · exact Or.inl hsuccess
    · rw [if_pos hsuccess] at h
      exact Or.inr (Option.some.inj h)
  · cases h

section

variable {K : TorController} (env : TorEnv) (authCookie : Bool) (stored baddr : Bytes) (bport : ℤ)
  (privkey : Option Bytes)

/-- A command may be sent behind what has been sent and received. -/
inductive Permitted : List TorEvent → Bytes → Prop
  | protocolInfo (h : authCookie = true) : Permitted [] cmdPROTOCOLINFO
  | authChallenge (h : authCookie = true) (reply : Bytes) :
      Permitted [.sent cmdPROTOCOLINFO, .received reply] (cmdAUTHCHALLENGE env.clientNonce)
  /-- The password is a hash of the cookie, under another key. -/
  | byCookie (h : authCookie = true) (reply reply' cookie serverNonce : Bytes)
      (hnames : NamesCookie env reply cookie) (hshows : ServerShows env reply' cookie serverNonce) :
      Permitted [.sent cmdPROTOCOLINFO, .received reply,
          .sent (cmdAUTHCHALLENGE env.clientNonce), .received reply']
        (cmdAUTHENTICATE (bytesToHexString
          (env.hmac TOR_HMAC_CONTROLLER_TO_SERVER_KEY (authText env cookie serverNonce))))
  /-- The array for the password is sent up to its first NUL. -/
  | byPassword (h : authCookie = false) : Permitted [] (cmdAUTHENTICATE (cstr stored))
  | addOnion (before : List TorEvent) (password reply : Bytes)
      (h : Permitted before (cmdAUTHENTICATE password))
      (hreply : NotRefused reply) :
      Permitted (before ++ [.sent (cmdAUTHENTICATE password), .received reply])
        (cmdADD_ONION (privkey.getD (ascii "NEW:ED25519-V3")) baddr bport)

/-- Only the commands are asked about. -/
def Allowed (before : List TorEvent) : TorEvent → Prop
  | .sent cmd => Permitted env authCookie stored baddr bport privkey before cmd
  | _ => True

variable {env authCookie stored baddr bport privkey} {link : TorLink K} {before : List TorEvent}

/-- **The rule for an exchange.** -/
theorem guarded_exchange {cmd : Bytes}
    (hcmd : Permitted env authCookie stored baddr bport privkey before cmd)
    {R : List TorEvent → Except ℤ Bytes → TorLink K → Prop}
    (hrefused : ∀ es code link', link'.ctx = link.ctx → R es (.error code) link')
    (haccepted : ∀ reply link', NotRefused reply → link'.ctx = link.ctx →
      R (before ++ [.sent cmd, .received reply]) (.ok (cstr (clean reply))) link') :
    Prog.Guarded (Allowed env authCookie stored baddr bport privkey) before (exchange env cmd) link
      R := by
  rw [exchange]
  split
  · exact Prog.guarded_pure (hrefused _ _ _ rfl)
  · refine Prog.guarded_bind (Prog.guarded_note hcmd ?_)
    refine Prog.guarded_bind (Prog.guarded_get ?_)
    refine Prog.guarded_bind (Prog.guarded_modify ?_)
    dsimp only
    cases (K.reply link.control cmd).1 with
    | none => exact Prog.guarded_undefined
    | some reply =>
      refine Prog.guarded_bind (Prog.guarded_note trivial ?_)
      generalize reply.take REPLY_SIZE = reply
      split
      · exact Prog.guarded_undefined
      · next hsize =>
        cases hret : (readReply env.mem reply).ret with
        | none => exact Prog.guarded_undefined
        | some code =>
          refine Prog.guarded_pure ?_
          rw [cstr_readReply env.mem (not_le.mp hsize)]
          by_cases hcode : code = 0
          · subst hcode
            rw [List.append_assoc]
            exact haccepted reply _ (notRefused_of_ret hret) rfl
          · rw [if_pos hcode]
            exact hrefused _ _ _ rfl

/-- **The cookie.** -/
theorem guarded_cookiePassword (h : authCookie = true)
    {R : List TorEvent → Except ℤ Bytes → TorLink K → Prop}
    (hrefused : ∀ es code link', link'.ctx = link.ctx → R es (.error code) link')
    (haccepted : ∀ es password link', link'.ctx = link.ctx →
      Permitted env authCookie stored baddr bport privkey es (cmdAUTHENTICATE password) →
        R es (.ok password) link') :
    Prog.Guarded (Allowed env authCookie stored baddr bport privkey) [] (cookiePassword env) link
      R := by
  rw [cookiePassword]
  refine Prog.guarded_bind (guarded_exchange (.protocolInfo h) ?_ ?_)
  · exact fun es code link' hctx => Prog.guarded_pure (hrefused es code link' hctx)
  intro reply link₁ _ hctx₁
  dsimp only
  split
  · exact Prog.guarded_undefined
  · exact Prog.guarded_pure (hrefused _ _ _ hctx₁)
  · next method cfpath hparse =>
    split
    · exact Prog.guarded_pure (hrefused _ _ _ hctx₁)
    · next hmethod =>
      obtain rfl := not_not.mp hmethod
      cases cfpath with
      | none => exact Prog.guarded_undefined
      | some cfpath =>
        dsimp only
        cases hfile : env.file cfpath with
        | none => exact Prog.guarded_pure (hrefused _ _ _ hctx₁)
        | some data =>
          dsimp only
          split
          · exact Prog.guarded_pure (hrefused _ _ _ hctx₁)
          · next hsize =>
            have hnames : NamesCookie env reply (data.take COOKIE_SIZE) :=
              ⟨cfpath, data, hparse, hfile, not_lt.mp hsize, rfl⟩
            refine Prog.guarded_bind (guarded_exchange (.authChallenge h reply) ?_ ?_)
            · exact fun es code link' hctx =>
                Prog.guarded_pure (hrefused es code link' (hctx.trans hctx₁))
            intro reply' link₂ _ hctx₂
            have hctx := hctx₂.trans hctx₁
            dsimp only
            split
            · exact Prog.guarded_undefined
            · exact Prog.guarded_pure (hrefused _ _ _ hctx)
            · next serverHash serverNonce hparse' =>
              split
              · exact Prog.guarded_pure (hrefused _ _ _ hctx)
              · next hhash =>
                obtain rfl := not_not.mp hhash
                exact Prog.guarded_pure (haccepted _ _ _ hctx
                  (.byCookie h reply reply' _ serverNonce hnames hparse'))

theorem guarded_closeWith (code : ℤ) {R : List TorEvent → ℤ × Option Bytes → TorLink K → Prop}
    (hR : R (before ++ [.closed]) (code, none) link) :
    Prog.Guarded (Allowed env authCookie stored baddr bport privkey) before (closeWith code) link
      R :=
  Prog.guarded_bind (Prog.guarded_note trivial (Prog.guarded_pure hR))

end

section

variable {K : TorController} {env : TorEnv} {authCookie : Bool} {stored baddr : Bytes} {bport : ℤ}
  {privkey : Option Bytes} {link : TorLink K} {before : List TorEvent}

theorem guarded_parseADD_ONION (text : Bytes) :
    Prog.Guarded (Allowed env authCookie stored baddr bport privkey) before
      (parseADD_ONION text) link fun _ _ _ => True := by
  rw [parseADD_ONION]
  split
  · exact Prog.guarded_undefined
  · split
    · exact Prog.guarded_pure trivial
    · dsimp only
      split
      · exact Prog.guarded_undefined
      · refine Prog.guarded_bind (Prog.guarded_modify ?_)
        split
        · exact Prog.guarded_pure trivial
        · split
          · exact Prog.guarded_pure trivial
          · split
            · exact Prog.guarded_undefined
            · exact Prog.guarded_bind (Prog.guarded_modify (Prog.guarded_pure trivial))

theorem guarded_requestOnion {cmd : Bytes}
    (hcmd : Permitted env authCookie stored baddr bport privkey before cmd) :
    Prog.Guarded (Allowed env authCookie stored baddr bport privkey) before
      (requestOnion env cmd bport) link fun _ _ _ => True := by
  rw [requestOnion]
  split
  · exact Prog.guarded_undefined
  refine Prog.guarded_bind (guarded_exchange hcmd ?_ ?_)
  · exact fun _ code _ _ => guarded_closeWith code trivial
  intro reply link' _ _
  refine Prog.guarded_bind ((guarded_parseADD_ONION _).mono fun es code link'' _ => ?_)
  dsimp only
  split
  · exact guarded_closeWith code trivial
  · exact Prog.guarded_bind (Prog.guarded_get (Prog.guarded_pure trivial))

/-- The service. -/
theorem guarded_addOnion
    (hcmd : Permitted env authCookie stored baddr bport privkey before
      (cmdADD_ONION (privkey.getD (ascii "NEW:ED25519-V3")) baddr bport)) :
    Prog.Guarded (Allowed env authCookie stored baddr bport privkey) before
      (addOnion env baddr bport privkey) link fun _ _ _ => True := by
  rw [addOnion]
  refine Prog.guarded_bind (Prog.guarded_modify (Prog.guarded_bind ?_))
  cases privkey with
  | none => exact Prog.guarded_pure (guarded_requestOnion hcmd)
  | some privkey =>
    rw [copyKey]
    split
    · exact Prog.guarded_undefined
    · exact Prog.guarded_modify (guarded_requestOnion hcmd)

/-- **The session.** -/
theorem guarded_torAddOnion (hauth : link.ctx.authCookie = authCookie)
    (hstored : link.ctx.password = stored) :
    Prog.Guarded (Allowed env authCookie stored baddr bport privkey) []
      (torAddOnion env baddr bport privkey) link fun _ _ _ => True := by
  have hrest : ∀ es password (link' : TorLink K) rest,
      (∀ code, rest (.error code) = closeWith code) →
      (∀ reply, rest (.ok reply) = addOnion env baddr bport privkey) →
      Permitted env authCookie stored baddr bport privkey es (cmdAUTHENTICATE password) →
      Prog.Guarded (Allowed env authCookie stored baddr bport privkey) es
        (exchange env (cmdAUTHENTICATE password) >>= rest) link' fun _ _ _ => True := by
    intro es password link' rest herror hok hpassword
    refine Prog.guarded_bind (guarded_exchange hpassword ?_ ?_)
    · intro _ code _ _
      rw [herror]
      exact guarded_closeWith code trivial
    · intro reply link'' hreply _
      rw [hok]
      exact guarded_addOnion (.addOnion es password reply hpassword hreply)
  subst hauth hstored
  rw [torAddOnion]
  refine Prog.guarded_bind (Prog.guarded_get ?_)
  dsimp only
  split
  · exact Prog.guarded_pure trivial
  split
  · exact Prog.guarded_pure trivial
  split
  · exact Prog.guarded_undefined
  split
  · exact Prog.guarded_pure trivial
  split
  · exact Prog.guarded_pure trivial
  split
  · next hcookie =>
    refine Prog.guarded_bind (guarded_cookiePassword hcookie ?_ ?_)
    · exact fun _ code _ _ => guarded_closeWith code trivial
    · exact fun es password link' _ =>
        hrest es password link' _ (fun _ => rfl) fun _ => rfl
  · next hcookie =>
    rw [sessionPassword]
    refine Prog.guarded_bind (Prog.guarded_bind (Prog.guarded_get ?_))
    dsimp only
    split
    · exact Prog.guarded_undefined
    split
    · exact Prog.guarded_undefined
    · refine Prog.guarded_pure (hrest _ _ _ _ (fun _ => rfl) (fun _ => rfl) ?_)
      exact .byPassword (by simpa using hcookie)

/-- **Every command is permitted**, in a session with any controller: what has been stored for
the session tells the way of authentication and the password. -/
theorem permitted_of_sent {ctx : TorControlSession} {addr : CString} {port : ℤ}
    {pass : Option CString} (hinit : torControlSessionInit ctx addr port authCookie pass =
      some link.ctx) {es es' : List TorEvent} {cmd : Bytes}
    (h : (torAddOnion env baddr bport privkey).events link = es ++ .sent cmd :: es') :
    Permitted env authCookie (storedPassword ctx.password pass) baddr bport privkey es cmd := by
  rw [torControlSessionInit] at hinit
  split at hinit
  · cases hinit
  · have hctx := Option.some.inj hinit
    exact (guarded_torAddOnion (hctx ▸ rfl) (hctx ▸ rfl)).allowed es (.sent cmd) es' h

end

/-- A system in which nothing fails. -/
def TorEnv.calm (file : Bytes → Option Bytes) : TorEnv where
  fd := 3
  fails _ := false
  errno _ := 0
  file := file
  clientNonce := List.replicate 32 1
  length_clientNonce := by decide
  serverHash := List.replicate 32 0
  length_serverHash := by decide
  serverNonce := List.replicate 32 0
  length_serverNonce := by decide
  hmac _ _ := List.replicate 32 5
  length_hmac _ _ := by decide
  mem _ := 0

/-- A controller that never answers. -/
def TorController.silent : TorController := ⟨Unit, fun st _ => (none, st)⟩

/-- The address of the controller. -/
def controlAddr : CString := ⟨ascii "127.0.0.1", by decide⟩

/-- A record for a session, with zeroes where the password goes. -/
def TorControlSession.zeroed : TorControlSession :=
  ⟨[], 0, false, List.replicate 8 0, -1, [], []⟩

/-- A session with a password. -/
def TorLink.byPassword : TorLink TorController.silent where
  ctx := ⟨ascii "127.0.0.1", 9051, false, 97 :: List.replicate 7 0, -1, [], []⟩
  control := ()

/-- The password is sent at the start. -/
theorem permitted_of_sent_byPassword :
    Permitted (TorEnv.calm fun _ => none) false
      (storedPassword (List.replicate 8 0) (some ⟨[97], by decide⟩)) [] 4111 none []
      (cmdAUTHENTICATE [97]) := by
  have hinit : torControlSessionInit .zeroed controlAddr 9051 false (some ⟨[97], by decide⟩) =
      some TorLink.byPassword.ctx := by decide
  have hrun : (torAddOnion (TorEnv.calm fun _ => none) [] 4111 none).events TorLink.byPassword =
      [] ++ .sent (cmdAUTHENTICATE [97]) :: [] := rfl
  exact permitted_of_sent hinit hrun

end SniffDogSniff
