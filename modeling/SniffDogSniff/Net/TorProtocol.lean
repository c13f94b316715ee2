import SniffDogSniff.Kademlia.HexId
import SniffDogSniff.Net.TorSession
import Mathlib.Data.Set.Insert

/-!
# A session with a controller that keeps to the protocol

The controller of Tor is not part of the program.  What a session relies on is written down
as hypotheses on it: it offers the cookie and nothing else, tells where its file is, shows
that it knows the cookie, lets those in who know it too, and then adds and deletes services.
A session with it succeeds, unless the path of the cookie has a blank in it, at which
`strtok_r` cuts it off, or is too long for its buffer.

## Main definitions

* `TorView` — what is known of a controller from outside.
* `TorController.KeepsProtocol` — what it replies, and what becomes of its services.
* `Served`, `Serves` — what a session needs, and what it leaves.

## Main results

* `exchange_of_success` — an exchange with a reply that tells success.
* `parsePROTOCOLINFO_reply`, `parseAUTHCHALLENGE_reply` — the replies are read as they are meant.
* `outcome_torAddOnion` — **what a session with such a controller comes to.**
* `address_kept` — with the key of an earlier session, a node keeps its address.
* `onions_session` — a session leaves the services of the controller as they were.
-/

namespace SniffDogSniff

open SdsBytesBuf

/-! ### Replies that tell success -/

theorem clean_of_plain {s : Bytes} (h : ∀ c ∈ s, c ≠ 10 ∧ c ≠ 13) : clean s = s := by
  have hfilter : s.filter (· ≠ 13) = s :=
    List.filter_eq_self.mpr fun c hc => decide_eq_true (h c hc).2
  rw [clean, hfilter]
  refine (List.map_congr_left fun c hc => ?_).trans (List.map_id s)
  exact if_neg (h c hc).1

theorem not_mem_clean {s : Bytes} (h : 0 ∉ s) : 0 ∉ clean s := by
  rw [clean, List.mem_map]
  rintro ⟨c, hc, heq⟩
  split at heq
  · cases heq
  · exact h (heq ▸ (List.mem_filter.mp hc).1)

/-- The last line, where there are several ones. -/
theorem lastLine_append {line : Bytes} (h : 10 ∉ line) (front : Bytes) :
    lastLine (front ++ 10 :: (line ++ [10])) = clean (line ++ [10]) := by
  have hdrop : (front ++ 10 :: (line ++ [10])).dropLast = front ++ 10 :: line := by
    rw [List.dropLast_append_cons, ← List.cons_append, List.dropLast_concat]
  rw [lastLine, hdrop, lineStart, strrchr_append h front]
  dsimp only
  rw [← List.drop_drop, List.drop_left]
  rfl

/-- A single line. -/
theorem lastLine_single {line : Bytes} (h : 10 ∉ line) :
    lastLine (line ++ [10]) = clean (line ++ [10]) := by
  rw [lastLine, List.dropLast_concat, lineStart, strrchr_of_not_mem h]
  rfl

theorem ret_readReply (mem : ℕ → UInt8) {reply : Bytes} (h : BeginsWithSuccess (lastLine reply)) :
    (readReply mem reply).ret = some 0 := by
  obtain ⟨-, -, -, hret⟩ := readReply_spec mem reply
  rw [hret, cstr_append_nul, replyCode, scanInt_of_beginsWithSuccess h]
  rfl

/-- A reply that fits into the buffer, and whose last line tells success. -/
structure TellsSuccess (reply : Bytes) : Prop where
  length_lt : reply.length < REPLY_SIZE
  nonzero : 0 ∉ reply
  success : BeginsWithSuccess (lastLine reply)

/-- **An exchange with a reply that tells success.** -/
theorem exchange_of_success {K : TorController} {env : TorEnv} (link : TorLink K)
    {cmd reply : Bytes} {control : K.State} (hsend : env.fails (.send cmd) = false)
    (hreply : K.reply link.control cmd = (some reply, control)) (h : TellsSuccess reply) :
    exchange env cmd link = ([.sent cmd, .received reply],
      .returned (.ok (clean reply)) { link with control := control }) := by
  have hclean := (length_clean_le reply).trans_lt h.length_lt
  rw [exchange, if_neg (by rw [hsend]; exact Bool.false_ne_true), Prog.note_bind, Prog.get_bind,
    Prog.modify_bind, hreply]
  dsimp only
  rw [Prog.note_bind, List.take_of_length_le h.length_lt.le, if_neg (not_le.mpr hclean),
    ret_readReply env.mem h.success, cstr_readReply env.mem hclean,
    cstr_of_not_mem (not_mem_clean h.nonzero)]
  rfl

/-! ### The texts of the replies -/

/-- The reply to the first command. -/
def protocolInfoReply (path version : Bytes) : Bytes :=
  ascii "250-PROTOCOLINFO 1\r\n250-AUTH METHODS=COOKIE,SAFECOOKIE COOKIEFILE=\"" ++
    (path ++ (ascii "\"\r\n250-VERSION Tor=\"" ++ (version ++ ascii "\"\r\n250 OK\r\n")))

def challengeReply (serverHash serverNonce : Bytes) : Bytes :=
  ascii "250 AUTHCHALLENGE SERVERHASH=" ++ (bytesToHexString serverHash ++
    (ascii " SERVERNONCE=" ++ (bytesToHexString serverNonce ++ ascii "\r\n")))

def okReply : Bytes := ascii "250 OK\r\n"

/-- The reply to a command for a service; the key is told where it is a new one. -/
def onionReply (serviceId : Bytes) : Option Bytes → Bytes
  | none => ascii "250-ServiceID=" ++ (serviceId ++ ascii "\r\n250 OK\r\n")
  | some privkey =>
      ascii "250-ServiceID=" ++ (serviceId ++ (ascii "\r\n250-PrivateKey=" ++
        (privkey ++ ascii "\r\n250 OK\r\n")))

/-- No terminator and no line ends. -/
def Plain (s : Bytes) : Prop := ∀ c ∈ s, c ≠ 0 ∧ c ≠ 10 ∧ c ≠ 13

instance (s : Bytes) : Decidable (Plain s) := inferInstanceAs (Decidable (∀ c ∈ s, _))

theorem Plain.clean {s : Bytes} (h : Plain s) : clean s = s := clean_of_plain fun c hc => (h c hc).2

theorem clean_protocolInfoReply {path version : Bytes} (hpath : Plain path)
    (hversion : Plain version) : clean (protocolInfoReply path version) =
      ascii "250-PROTOCOLINFO" ++ 32 :: (ascii "1" ++ 32 :: (ascii "250-AUTH" ++
        32 :: (ascii "METHODS=COOKIE,SAFECOOKIE" ++ 32 :: (ascii "COOKIEFILE" ++ 61 :: 34 ::
          (path ++ 34 :: 32 :: (ascii "250-VERSION Tor=\"" ++
            (version ++ ascii "\" 250 OK "))))))) := by
  rw [protocolInfoReply, clean_append, clean_append, clean_append, clean_append, hpath.clean,
    hversion.clean]
  rfl

/-- What is made of the token for the path, and of what is left behind it. -/
theorem parsePROTOCOLINFO_of_cookieFile {token rest tail : Bytes}
    (htoken : strtokR 32 (ascii "COOKIEFILE" ++ 61 :: rest) =
      (some (ascii "COOKIEFILE" ++ 61 :: token), tail)) :
    parsePROTOCOLINFO (ascii "250-PROTOCOLINFO" ++ 32 :: (ascii "1" ++ 32 :: (ascii "250-AUTH" ++
        32 :: (ascii "METHODS=COOKIE,SAFECOOKIE" ++ 32 :: (ascii "COOKIEFILE" ++ 61 :: rest))))) =
      match cookieFile token tail with
      | .filled cfpath => .filled (ascii "COOKIE,SAFECOOKIE", some cfpath)
      | .error code => .error code
      | .undefined => .undefined := by
  have hmethods : strtokR 61 (ascii "METHODS=COOKIE,SAFECOOKIE") =
      (some (ascii "METHODS"), ascii "COOKIE,SAFECOOKIE") := by decide
  have hname : strtokR 61 (ascii "COOKIEFILE" ++ 61 :: token) =
      (some (ascii "COOKIEFILE"), token) := strtokR_append (by decide) (by decide) _
  rw [parsePROTOCOLINFO, strtokR_append (by decide) (by decide)]
  dsimp only
  rw [if_neg (not_not.mpr rfl), strtokR_append (by decide) (by decide),
    strtokR_append (by decide) (by decide)]
  dsimp only
  rw [if_neg (by decide), strtokR_append (by decide) (by decide)]
  dsimp only
  rw [hmethods, if_neg (not_not.mpr rfl), if_neg (by decide), htoken]
  dsimp only
  rw [hname]
  exact if_neg (not_not.mpr rfl)

/-- **The path of the cookie** is read as it is told, unless there is a blank in it or it is
too long. -/
theorem parsePROTOCOLINFO_reply {path version : Bytes} (hpath : Plain path) (hquote : 34 ∉ path)
    (hversion : Plain version) : parsePROTOCOLINFO (clean (protocolInfoReply path version)) =
      if 32 ∈ path ∨ CFPATH_SIZE ≤ path.length then .undefined
      else .filled (ascii "COOKIE,SAFECOOKIE", some path) := by
  have hne : ∀ c ∈ path, decide (c ≠ 34) = true :=
    fun c hc => decide_eq_true (ne_of_mem_of_not_mem hc hquote)
  rw [clean_protocolInfoReply hpath hversion]
  by_cases hblank : 32 ∈ path
  · -- the token ends at the first blank, in front of the closing mark
    obtain ⟨front, behind, rfl, hfront⟩ := List.eq_append_cons_of_mem hblank
    have htoken : (32 : UInt8) ∉ ascii "COOKIEFILE" ++ 61 :: 34 :: front := by
      simp only [List.mem_append, List.mem_cons, not_or]
      exact ⟨by decide, by decide, by decide, hfront⟩
    have hstrtok := strtokR_append (List.append_ne_nil_of_left_ne_nil (by decide) _) htoken
      (behind ++ 34 :: 32 :: (ascii "250-VERSION Tor=\"" ++ (version ++ ascii "\" 250 OK ")))
    have hvalue : ∀ tail, cookieFile (34 :: front) tail = .undefined :=
      fun tail => if_pos fun hmem => hquote (List.mem_append_left _ hmem)
    rw [List.append_assoc, List.cons_append, List.cons_append] at hstrtok
    rw [List.append_assoc, List.cons_append, parsePROTOCOLINFO_of_cookieFile hstrtok, hvalue,
      if_pos (Or.inl hblank)]
  · have htoken : (32 : UInt8) ∉ ascii "COOKIEFILE" ++ 61 :: 34 :: (path ++ [34]) := by
      simp only [List.mem_append, List.mem_cons, List.not_mem_nil, or_false, not_or]
      exact ⟨by decide, by decide, by decide, hblank, by decide⟩
    have hstrtok := strtokR_append (List.append_ne_nil_of_left_ne_nil (by decide) _) htoken
      (ascii "250-VERSION Tor=\"" ++ (version ++ ascii "\" 250 OK "))
    rw [List.append_assoc, List.cons_append, List.cons_append, List.append_assoc,
      List.singleton_append] at hstrtok
    have hvalue : cookieFile (34 :: (path ++ [34])) (ascii "250-VERSION Tor=\"" ++
        (version ++ ascii "\" 250 OK ")) =
          if CFPATH_SIZE ≤ path.length then .undefined else .filled path := by
      rw [cookieFile, if_neg (by simp), List.takeWhile_append_of_pos hne,
        List.takeWhile_cons_of_neg (by decide), List.append_nil]
    rw [parsePROTOCOLINFO_of_cookieFile hstrtok, hvalue]
    by_cases hlen : CFPATH_SIZE ≤ path.length
    · rw [if_pos hlen, if_pos (Or.inr hlen)]
    · rw [if_neg hlen, if_neg (not_or.mpr ⟨hblank, hlen⟩)]

/-- The digits have no blank among them. -/
theorem of_mem_bytesToHexString {bs : Bytes} {c : UInt8} (h : c ∈ bytesToHexString bs) :
    (c ≠ 0 ∧ c ≠ 10 ∧ c ≠ 13) ∧ c ≠ 32 := by
  have hdigit := (KadId.hexPairs_bytesToHexString bs).2 c h
  refine ⟨⟨?_, ?_, ?_⟩, ?_⟩ <;> rintro rfl <;> exact absurd hdigit (by decide)

/-- Digits for as many bytes as there are in the array. -/
theorem hexStringInto_bytesToHexString {old bs : Bytes} (h : bs.length = old.length) :
    hexStringInto old (bytesToHexString bs) = .filled bs := by
  obtain ⟨hout, -⟩ := hexLoop_spec [] (bytesToHexString bs) [] _ le_rfl
  rw [List.nil_append, List.length_nil, Nat.zero_add,
    (KadId.hexPairs_bytesToHexString bs).1] at hout
  rw [hexStringInto, hout, if_neg (by rw [h]; exact lt_irrefl _), h, List.drop_length,
    List.append_nil]

/-- **The hash and the nonce** are read as they are told. -/
theorem parseAUTHCHALLENGE_reply {hash nonce old old' : Bytes} (hhash : hash.length = old.length)
    (hnonce : nonce.length = old'.length) :
    parseAUTHCHALLENGE old old' (clean (challengeReply hash nonce)) = .filled (hash, nonce) := by
  have hplain : ∀ bs, Plain (bytesToHexString bs) := fun bs c hc => (of_mem_bytesToHexString hc).1
  have hblank : ∀ bs, 32 ∉ bytesToHexString bs := fun bs hc => (of_mem_bytesToHexString hc).2 rfl
  have hclean : clean (challengeReply hash nonce) =
      ascii "250" ++ 32 :: (ascii "AUTHCHALLENGE" ++ 32 :: ((ascii "SERVERHASH" ++
        61 :: bytesToHexString hash) ++ 32 :: ((ascii "SERVERNONCE" ++
          61 :: bytesToHexString nonce) ++ 32 :: []))) := by
    rw [challengeReply, clean_append, clean_append, clean_append, clean_append,
      (hplain hash).clean, (hplain nonce).clean, List.append_assoc, List.append_assoc]
    rfl
  have htoken : ∀ (name bs : Bytes), 32 ∉ name → 32 ∉ name ++ 61 :: bytesToHexString bs := by
    intro name bs hname
    simp only [List.mem_append, List.mem_cons, not_or]
    exact ⟨hname, by decide, hblank bs⟩
  have hhashtoken := htoken (ascii "SERVERHASH") hash (by decide)
  have hnoncetoken := htoken (ascii "SERVERNONCE") nonce (by decide)
  rw [hclean, parseAUTHCHALLENGE, strtokR_append (by decide) (by decide),
    strtokR_append (by decide) (by decide)]
  dsimp only
  rw [if_neg (not_not.mpr rfl),
    strtokR_append (List.append_ne_nil_of_left_ne_nil (by decide) _) hhashtoken]
  dsimp only
  rw [strtokR_append (by decide) (by decide), if_neg (not_not.mpr rfl),
    hexStringInto_bytesToHexString hhash]
  dsimp only
  rw [strtokR_append (List.append_ne_nil_of_left_ne_nil (by decide) _) hnoncetoken]
  dsimp only
  rw [strtokR_append (by decide) (by decide), if_neg (not_not.mpr rfl),
    hexStringInto_bytesToHexString hnonce]

/-- A text without blanks, too. -/
def Solid (s : Bytes) : Prop := Plain s ∧ 32 ∉ s

instance (s : Bytes) : Decidable (Solid s) := inferInstanceAs (Decidable (_ ∧ _))

theorem strtokR_named {name value : Bytes} (hname : name ≠ []) (hblank : 32 ∉ name)
    (hvalue : 32 ∉ value) (rest : Bytes) :
    strtokR 32 ((name ++ 61 :: value) ++ 32 :: rest) = (some (name ++ 61 :: value), rest) := by
  refine strtokR_append (List.append_ne_nil_of_left_ne_nil hname _) ?_ rest
  simp only [List.mem_append, List.mem_cons, not_or]
  exact ⟨hblank, by decide, hvalue⟩

/-- **The service and its key** are read as they are told. -/
theorem parseADD_ONION_reply {K : TorController} (link : TorLink K) {serviceId : Bytes}
    {privkey : Option Bytes} (hid : Solid serviceId) (hidsize : serviceId.length < SERVICE_ID_SIZE)
    (hkey : ∀ key, privkey = some key → Solid key ∧ key.length < SESSION_SIZE) :
    parseADD_ONION (clean (onionReply serviceId privkey)) link = ([], .returned 0
      { link with ctx := { link.ctx with
          serviceId := serviceId
          privkey := privkey.getD link.ctx.privkey } }) := by
  have hservice : strtokR 61 (ascii "250-ServiceID" ++ 61 :: serviceId) =
      (some (ascii "250-ServiceID"), serviceId) := strtokR_append (by decide) (by decide) _
  cases privkey with
  | none =>
    have hclean : clean (onionReply serviceId none) = (ascii "250-ServiceID" ++ 61 :: serviceId) ++
        32 :: (ascii "250" ++ 32 :: ascii "OK ") := by
      rw [onionReply, clean_append, clean_append, hid.1.clean, List.append_assoc]
      rfl
    have hcode : strtokR 61 (ascii "250") = (some (ascii "250"), []) := by decide
    rw [hclean, parseADD_ONION, strtokR_named (by decide) (by decide) hid.2]
    dsimp only
    rw [hservice, if_neg (not_not.mpr rfl), if_neg (not_le.mpr hidsize),
      strtokR_append (by decide) (by decide), Prog.modify_bind]
    dsimp only
    rw [hcode, if_pos (by decide)]
    rfl
  | some key =>
    obtain ⟨hsolid, hkeysize⟩ := hkey key rfl
    have hclean : clean (onionReply serviceId (some key)) =
        (ascii "250-ServiceID" ++ 61 :: serviceId) ++
          32 :: ((ascii "250-PrivateKey" ++ 61 :: key) ++ 32 :: ascii "250 OK ") := by
      rw [onionReply, clean_append, clean_append, clean_append, clean_append, hid.1.clean,
        hsolid.1.clean, List.append_assoc, List.append_assoc]
      rfl
    have hprivate : strtokR 61 (ascii "250-PrivateKey" ++ 61 :: key) =
        (some (ascii "250-PrivateKey"), key) := strtokR_append (by decide) (by decide) _
    rw [hclean, parseADD_ONION, strtokR_named (by decide) (by decide) hid.2]
    dsimp only
    rw [hservice, if_neg (not_not.mpr rfl), if_neg (not_le.mpr hidsize),
      strtokR_named (by decide) (by decide) hsolid.2, Prog.modify_bind]
    dsimp only
    rw [hprivate, if_neg (not_not.mpr rfl), if_neg (not_le.mpr hkeysize), Prog.modify_bind]
    rfl

theorem length_bytesToHexString (bs : Bytes) : (bytesToHexString bs).length = 2 * bs.length := by
  induction bs with
  | nil => rfl
  | cons b bs ih =>
    rw [bytesToHexString, List.length_cons, List.length_cons, ih, List.length_cons]
    omega

theorem beginsWithSuccess_ok : BeginsWithSuccess (clean (ascii "250 OK\r" ++ [10])) :=
  ⟨by decide, fun c hc => by cases hc; rfl⟩

theorem tellsSuccess_protocolInfo {path version : Bytes} (hpath : Plain path)
    (hversion : Plain version) (hsize : (protocolInfoReply path version).length < REPLY_SIZE) :
    TellsSuccess (protocolInfoReply path version) := by
  have hlines : protocolInfoReply path version = (ascii
      "250-PROTOCOLINFO 1\r\n250-AUTH METHODS=COOKIE,SAFECOOKIE COOKIEFILE=\"" ++ (path ++
        (ascii "\"\r\n250-VERSION Tor=\"" ++ (version ++ ascii "\"\r")))) ++
          10 :: (ascii "250 OK\r" ++ [10]) := by
    simp only [protocolInfoReply, List.append_assoc]
    rfl
  refine ⟨hsize, ?_, ?_⟩
  · simp only [protocolInfoReply, List.mem_append, not_or]
    exact ⟨by decide, fun h => (hpath 0 h).1 rfl, by decide, fun h => (hversion 0 h).1 rfl,
      by decide⟩
  · rw [hlines, lastLine_append (by decide)]
    exact beginsWithSuccess_ok

theorem tellsSuccess_challenge {hash nonce : Bytes} (hhash : hash.length = COOKIE_SIZE)
    (hnonce : nonce.length = COOKIE_SIZE) : TellsSuccess (challengeReply hash nonce) := by
  have hplain : ∀ bs, Plain (bytesToHexString bs) := fun bs c hc => (of_mem_bytesToHexString hc).1
  have hline : challengeReply hash nonce = (ascii "250 AUTHCHALLENGE SERVERHASH=" ++
      (bytesToHexString hash ++ (ascii " SERVERNONCE=" ++ (bytesToHexString nonce ++ [13])))) ++
        [10] := by
    simp only [challengeReply, List.append_assoc]
    rfl
  refine ⟨?_, ?_, ?_⟩
  · simp only [challengeReply, List.length_append, length_bytesToHexString, hhash, hnonce]
    decide
  · simp only [challengeReply, List.mem_append, not_or]
    exact ⟨by decide, fun h => (hplain hash 0 h).1 rfl, by decide,
      fun h => (hplain nonce 0 h).1 rfl, by decide⟩
  · have hfeed : 10 ∉ ascii "250 AUTHCHALLENGE SERVERHASH=" ++ (bytesToHexString hash ++
        (ascii " SERVERNONCE=" ++ (bytesToHexString nonce ++ [13]))) := by
      simp only [List.mem_append, not_or]
      exact ⟨by decide, fun h => (hplain hash 10 h).2.1 rfl, by decide,
        fun h => (hplain nonce 10 h).2.1 rfl, by decide⟩
    rw [hline, lastLine_single hfeed, clean_append, clean_append]
    exact ⟨rfl, fun c hc => by cases hc; rfl⟩

theorem tellsSuccess_ok : TellsSuccess okReply := by
  refine ⟨by decide, by decide, ?_⟩
  have hline : okReply = ascii "250 OK\r" ++ [10] := rfl
  rw [hline, lastLine_single (by decide)]
  exact beginsWithSuccess_ok

theorem tellsSuccess_onion {serviceId : Bytes} {privkey : Option Bytes} (hid : Plain serviceId)
    (hidsize : serviceId.length = 56)
    (hkey : ∀ key, privkey = some key → Plain key ∧ key.length < SESSION_SIZE) :
    TellsSuccess (onionReply serviceId privkey) := by
  have hlines : ∃ front,
      onionReply serviceId privkey = front ++ 10 :: (ascii "250 OK\r" ++ [10]) := by
    cases privkey with
    | none =>
      refine ⟨ascii "250-ServiceID=" ++ (serviceId ++ [13]), ?_⟩
      simp only [onionReply, List.append_assoc]
      rfl
    | some key =>
      refine ⟨ascii "250-ServiceID=" ++ (serviceId ++ (ascii "\r\n250-PrivateKey=" ++
        (key ++ [13]))), ?_⟩
      simp only [onionReply, List.append_assoc]
      rfl
  obtain ⟨front, hfront⟩ := hlines
  refine ⟨?_, ?_, ?_⟩
  · cases privkey with
    | none =>
      simp only [onionReply, List.length_append, hidsize]
      decide
    | some key =>
      have hlt : key.length < 512 := (hkey key rfl).2
      have hfixed : (ascii "250-ServiceID=").length = 14 ∧
          (ascii "\r\n250-PrivateKey=").length = 17 ∧ (ascii "\r\n250 OK\r\n").length = 10 := by
        decide
      simp only [onionReply, List.length_append, hidsize, hfixed, REPLY_SIZE]
      omega
  · cases privkey with
    | none =>
      simp only [onionReply, List.mem_append, not_or]
      exact ⟨by decide, fun h => (hid 0 h).1 rfl, by decide⟩
    | some key =>
      simp only [onionReply, List.mem_append, not_or]
      exact ⟨by decide, fun h => (hid 0 h).1 rfl, by decide, fun h => ((hkey key rfl).1 0 h).1 rfl,
        by decide⟩
  · rw [hfront, lastLine_append (by decide)]
    exact beginsWithSuccess_ok

/-! ### The controller -/

/-- What is known of a controller from outside: the file with its cookie, its services, and
what has happened on a connection to it. -/
structure TorView (K : TorController) where
  path : Bytes
  version : Bytes
  cookie : Bytes
  /-- The keys that it takes, and the id of the service for a key. -/
  TakesKey : Bytes → Prop
  idOf : Bytes → Bytes
  /-- The addresses and ports that a service can stand for. -/
  TakesTarget : Bytes → ℤ → Prop
  onions : K.State → Set Bytes
  /-- The connection is new. -/
  Fresh : K.State → Prop
  /-- The challenge has been answered; the two nonces. -/
  Challenged : Bytes → Bytes → K.State → Prop
  Authenticated : K.State → Prop
  /-- The service has been added on this connection. -/
  Added : Bytes → K.State → Prop

/-- The hash by which the controller shows that it knows the cookie. -/
def serverHash (hmac : Bytes → Bytes → Bytes) (cookie clientNonce serverNonce : Bytes) : Bytes :=
  hmac TOR_HMAC_SERVER_TO_CONTROLLER_KEY (cookie ++ clientNonce ++ serverNonce)

/-- The password that answers it. -/
def cookieHash (hmac : Bytes → Bytes → Bytes) (cookie clientNonce serverNonce : Bytes) : Bytes :=
  bytesToHexString
    (hmac TOR_HMAC_CONTROLLER_TO_SERVER_KEY (cookie ++ clientNonce ++ serverNonce))

/-- **What is relied on of a controller** that offers the cookie and no other method, and whose
replies are each received by one call of `recv`. -/
structure TorController.KeepsProtocol (K : TorController) (view : TorView K)
    (hmac : Bytes → Bytes → Bytes) : Prop where
  /-- The path is told as it is, without escapes. -/
  path : Plain view.path ∧ 34 ∉ view.path ∧ 92 ∉ view.path
  version : Plain view.version
  length_info : (protocolInfoReply view.path view.version).length < REPLY_SIZE
  keys : ∀ key, view.TakesKey key → Solid key ∧ key.length < SESSION_SIZE
  ids : ∀ key, view.TakesKey key → Solid (view.idOf key) ∧ (view.idOf key).length = 56
  protocolInfo : ∀ st, view.Fresh st → ∃ st',
    K.reply st cmdPROTOCOLINFO = (some (protocolInfoReply view.path view.version), st') ∧
      view.Fresh st' ∧ view.onions st' = view.onions st
  authChallenge : ∀ st clientNonce, view.Fresh st → ∃ serverNonce st',
    K.reply st (cmdAUTHCHALLENGE clientNonce) = (some (challengeReply
        (serverHash hmac view.cookie clientNonce serverNonce) serverNonce), st') ∧
      serverNonce.length = COOKIE_SIZE ∧ view.Challenged clientNonce serverNonce st' ∧
      view.onions st' = view.onions st
  authenticate : ∀ st clientNonce serverNonce, view.Challenged clientNonce serverNonce st →
    ∃ st', K.reply st
        (cmdAUTHENTICATE (cookieHash hmac view.cookie clientNonce serverNonce)) =
          (some okReply, st') ∧
      view.Authenticated st' ∧ view.onions st' = view.onions st
  /-- A service under a given key, unless there is one. -/
  addOnion : ∀ st key baddr bport, view.Authenticated st → view.TakesKey key →
    view.TakesTarget baddr bport → view.idOf key ∉ view.onions st →
      ∃ st', K.reply st (cmdADD_ONION key baddr bport) =
          (some (onionReply (view.idOf key) none), st') ∧
        view.Added (view.idOf key) st' ∧
        view.onions st' = insert (view.idOf key) (view.onions st)
  /-- A service under a key that is new. -/
  newOnion : ∀ st baddr bport, view.Authenticated st → view.TakesTarget baddr bport →
    ∃ key st', K.reply st (cmdADD_ONION (ascii "NEW:ED25519-V3") baddr bport) =
        (some (onionReply (view.idOf key) (some key)), st') ∧
      view.TakesKey key ∧ view.idOf key ∉ view.onions st ∧ view.Added (view.idOf key) st' ∧
      view.onions st' = insert (view.idOf key) (view.onions st)
  delOnion : ∀ st serviceId, view.Added serviceId st → ∃ st',
    K.reply st (cmdDEL_ONION serviceId) = (some okReply, st') ∧
      view.onions st' = view.onions st \ {serviceId}

namespace TorView

variable {K : TorController} {view : TorView K} {env : TorEnv} {link link' : TorLink K}
  {baddr : Bytes} {bport : ℤ} {privkey : Option Bytes} {key : Bytes}

/-- No call of the system fails, the file is the one that the controller has written, the
connection is new, and what is copied by `tor_add_onion` fits. -/
structure Served (view : TorView K) (env : TorEnv) (link : TorLink K) (baddr : Bytes)
    (bport : ℤ) (privkey : Option Bytes) : Prop where
  calls : ∀ call, env.fails call = false
  fd : 0 ≤ env.fd
  cookie : ∃ data, env.file view.path = some data ∧ COOKIE_SIZE ≤ data.length ∧
    data.take COOKIE_SIZE = view.cookie
  authCookie : link.ctx.authCookie = true
  controlAddr : link.ctx.controlAddr.length < CONTROL_ADDR_SIZE
  fresh : view.Fresh link.control
  target : view.TakesTarget baddr bport
  given : ∀ key, privkey = some key →
    view.TakesKey key ∧ view.idOf key ∉ view.onions link.control
  cmd : (cmdADD_ONION (privkey.getD (ascii "NEW:ED25519-V3")) baddr bport).length < REPLY_SIZE

/-- Both sides behind a session that has added a service under this key. -/
structure Serves (view : TorView K) (env : TorEnv) (link : TorLink K) (key : Bytes)
    (link' : TorLink K) : Prop where
  takesKey : view.TakesKey key
  absent : view.idOf key ∉ view.onions link.control
  controlSockFd : link'.ctx.controlSockFd = env.fd
  serviceId : link'.ctx.serviceId = view.idOf key
  privkey : link'.ctx.privkey = key
  added : view.Added (view.idOf key) link'.control
  onions : view.onions link'.control = insert (view.idOf key) (view.onions link.control)

/-- The path of the cookie is cut off at a blank, or too long. -/
def Unread (view : TorView K) : Prop := 32 ∈ view.path ∨ CFPATH_SIZE ≤ view.path.length

instance : Decidable view.Unread := inferInstanceAs (Decidable (_ ∨ _))

/-- The address of the service. -/
def onionAddress (view : TorView K) (key : Bytes) (bport : ℤ) : Bytes :=
  view.idOf key ++ ascii ".onion:" ++ stdToString bport

theorem exchange_protocolInfo (hK : K.KeepsProtocol view env.hmac)
    (h : view.Served env link baddr bport privkey) :
    ∃ st, exchange env cmdPROTOCOLINFO link =
        ([.sent cmdPROTOCOLINFO, .received (protocolInfoReply view.path view.version)],
          .returned (.ok (clean (protocolInfoReply view.path view.version)))
            { link with control := st }) ∧
      view.Fresh st ∧ view.onions st = view.onions link.control := by
  obtain ⟨st, hreply, hfresh, honions⟩ := hK.protocolInfo link.control h.fresh
  exact ⟨st, exchange_of_success link (h.calls _) hreply
    (tellsSuccess_protocolInfo hK.path.1 hK.version hK.length_info), hfresh, honions⟩

/-- **The password**, where the path of the cookie is read. -/
theorem cookiePassword_of_path (hK : K.KeepsProtocol view env.hmac)
    (h : view.Served env link baddr bport privkey) (hpath : ¬ view.Unread) :
    ∃ serverNonce st, (cookiePassword env link).2 =
        .returned (.ok (cookieHash env.hmac view.cookie env.clientNonce serverNonce))
          { link with control := st } ∧
      view.Challenged env.clientNonce serverNonce st ∧
      view.onions st = view.onions link.control := by
  obtain ⟨data, hfile, hsize, hcookie⟩ := h.cookie
  obtain ⟨st, hinfo, hfresh, honions⟩ := exchange_protocolInfo hK h
  obtain ⟨serverNonce, st', hreply, hnonce, hchallenged, honions'⟩ :=
    hK.authChallenge st env.clientNonce hfresh
  have hparse := (parsePROTOCOLINFO_reply hK.path.1 hK.path.2.1 hK.version).trans (if_neg hpath)
  have hhash : (serverHash env.hmac view.cookie env.clientNonce serverNonce).length = COOKIE_SIZE :=
    env.length_hmac _ _
  have hchallenge := exchange_of_success { link with control := st } (h.calls _) hreply
    (tellsSuccess_challenge hhash hnonce)
  refine ⟨serverNonce, st', ?_, hchallenged, honions'.trans honions⟩
  rw [cookiePassword, Prog.bind_of_returned hinfo]
  dsimp only
  rw [hparse]
  dsimp only
  rw [if_neg (not_not.mpr rfl), hfile]
  dsimp only
  rw [if_neg (not_lt.mpr hsize), Prog.bind_of_returned hchallenge]
  dsimp only
  rw [parseAUTHCHALLENGE_reply (hhash.trans env.length_serverHash.symm)
    (hnonce.trans env.length_serverNonce.symm)]
  dsimp only
  have hshown : ¬ serverHash env.hmac view.cookie env.clientNonce serverNonce ≠
      env.hmac TOR_HMAC_SERVER_TO_CONTROLLER_KEY
        (view.cookie ++ env.clientNonce ++ serverNonce) := not_not.mpr rfl
  rw [authText, hcookie, if_neg hshown]
  rfl

/-- Where it is not. -/
theorem cookiePassword_of_unread (hK : K.KeepsProtocol view env.hmac)
    (h : view.Served env link baddr bport privkey) (hpath : view.Unread) :
    (cookiePassword env link).2 = .undefined := by
  obtain ⟨st, hinfo, -, -⟩ := exchange_protocolInfo hK h
  have hparse := (parsePROTOCOLINFO_reply hK.path.1 hK.path.2.1 hK.version).trans (if_pos hpath)
  rw [cookiePassword, Prog.bind_of_returned hinfo]
  dsimp only
  rw [hparse]
  rfl

/-- A service is added. -/
theorem outcome_requestOnion (link : TorLink K) {cmd serviceId : Bytes} {told : Option Bytes}
    {st : K.State} (bport : ℤ) (hcalls : ∀ call, env.fails call = false)
    (hcmd : cmd.length < REPLY_SIZE)
    (hreply : K.reply link.control cmd = (some (onionReply serviceId told), st))
    (hid : Solid serviceId ∧ serviceId.length = 56)
    (hkey : ∀ key, told = some key → Solid key ∧ key.length < SESSION_SIZE) :
    (requestOnion env cmd bport).outcome link =
      .returned (0, some (serviceId ++ ascii ".onion:" ++ stdToString bport))
        { ctx := { link.ctx with
            serviceId := serviceId
            privkey := told.getD link.ctx.privkey }
          control := st } := by
  have hexchange := exchange_of_success link (hcalls _) hreply
    (tellsSuccess_onion hid.1.1 hid.2 fun key h => ⟨(hkey key h).1.1, (hkey key h).2⟩)
  have hparse := parseADD_ONION_reply (K := K) ⟨link.ctx, st⟩ hid.1
    (hid.2.trans_lt (by decide)) hkey
  rw [requestOnion, if_neg (not_le.mpr hcmd), Prog.outcome, Prog.bind_of_returned hexchange]
  dsimp only
  rw [Prog.bind_of_returned_nil hparse]
  rfl

/-- The service, once the session is authenticated. -/
theorem outcome_addOnion (hK : K.KeepsProtocol view env.hmac)
    (h : view.Served env link baddr bport privkey) {st : K.State} (hauth : view.Authenticated st)
    (honions : view.onions st = view.onions link.control) :
    ∃ key link', (∀ given, privkey = some given → key = given) ∧
      (addOnion env baddr bport privkey).outcome { link with control := st } =
        .returned (0, some (view.onionAddress key bport)) link' ∧
      view.Serves env link key link' := by
  have hcmd := h.cmd
  have hgiven := h.given
  rw [addOnion, Prog.outcome, Prog.modify_bind]
  cases privkey with
  | none =>
    obtain ⟨key, st', hreply, hkey, habsent, hadded, honions'⟩ :=
      hK.newOnion st baddr bport hauth h.target
    have hrun := outcome_requestOnion
      ⟨{ link.ctx with controlSockFd := env.fd }, st⟩ bport h.calls hcmd hreply (hK.ids key hkey)
      fun _ heq => Option.some.inj heq ▸ hK.keys key hkey
    refine ⟨key, ⟨{ link.ctx with
        controlSockFd := env.fd, serviceId := view.idOf key, privkey := key }, st'⟩,
      fun given h => (Option.some_ne_none given h.symm).elim, ?_, hkey, honions ▸ habsent, rfl, rfl,
      rfl, hadded,
      honions'.trans (congrArg _ honions)⟩
    rw [copyKey, pure_bind]
    exact hrun
  | some key =>
    obtain ⟨hkey, habsent⟩ := hgiven key rfl
    obtain ⟨st', hreply, hadded, honions'⟩ :=
      hK.addOnion st key baddr bport hauth hkey h.target (honions ▸ habsent)
    have hrun := outcome_requestOnion
      ⟨{ link.ctx with controlSockFd := env.fd, privkey := key }, st⟩ bport h.calls hcmd hreply
      (hK.ids key hkey) fun told h => (Option.some_ne_none told h.symm).elim
    refine ⟨key, ⟨{ link.ctx with
        controlSockFd := env.fd, serviceId := view.idOf key, privkey := key }, st'⟩,
      fun _ heq => Option.some.inj heq, ?_, hkey, habsent, rfl, rfl, rfl, hadded,
      honions'.trans (congrArg _ honions)⟩
    rw [copyKey, if_neg (not_le.mpr (hK.keys key hkey).2), Prog.modify_bind]
    exact hrun

/-- Up to the password there is nothing in the way. -/
theorem torAddOnion_eq (h : view.Served env link baddr bport privkey) :
    (torAddOnion env baddr bport privkey).outcome link =
      (cookiePassword env >>= fun
        | .error code => closeWith code
        | .ok password => do
            match ← exchange env (cmdAUTHENTICATE password) with
            | .error code => closeWith code
            | .ok _ => addOnion env baddr bport privkey).outcome link := by
  have hcall : ∀ call, ¬ env.fails call = true :=
    fun call => by rw [h.calls call]; exact Bool.false_ne_true
  rw [torAddOnion, Prog.outcome, Prog.get_bind]
  dsimp only
  rw [if_neg (hcall _), if_neg (hcall _), if_neg (not_le.mpr h.controlAddr), if_neg (hcall _),
    if_neg (hcall _), if_pos h.authCookie]
  rfl

/-- Where the path of the cookie is not read, nothing is defined. -/
theorem outcome_of_unread (hK : K.KeepsProtocol view env.hmac)
    (h : view.Served env link baddr bport privkey) (hpath : view.Unread) :
    (torAddOnion env baddr bport privkey).outcome link = .undefined :=
  (torAddOnion_eq h).trans
    (Prog.outcome_bind_of_undefined (cookiePassword_of_unread hK h hpath))

/-- Where it is, a service is added. -/
theorem exists_serves (hK : K.KeepsProtocol view env.hmac)
    (h : view.Served env link baddr bport privkey) (hpath : ¬ view.Unread) :
    ∃ key link', (∀ given, privkey = some given → key = given) ∧
      (torAddOnion env baddr bport privkey).outcome link =
        .returned (0, some (view.onionAddress key bport)) link' ∧
      view.Serves env link key link' := by
  obtain ⟨serverNonce, st, hpassword, hchallenged, honions⟩ := cookiePassword_of_path hK h hpath
  obtain ⟨st', hreply, hauth, honions'⟩ := hK.authenticate st _ _ hchallenged
  obtain ⟨key, link', hgiven, hrun, hserves⟩ :=
    outcome_addOnion hK h hauth (honions'.trans honions)
  have hauthenticate := exchange_of_success { link with control := st } (h.calls _) hreply
    tellsSuccess_ok
  refine ⟨key, link', hgiven, ?_, hserves⟩
  rw [torAddOnion_eq h, Prog.outcome_bind_of_returned hpassword]
  dsimp only
  rw [Prog.outcome, Prog.bind_of_returned hauthenticate]
  exact hrun

/-- A session that returns has added a service. -/
theorem serves_of_returned (hK : K.KeepsProtocol view env.hmac)
    (h : view.Served env link baddr bport privkey) {addr : Bytes}
    (hrun : (torAddOnion env baddr bport privkey).outcome link = .returned (0, some addr) link') :
    ∃ key, (∀ given, privkey = some given → key = given) ∧ addr = view.onionAddress key bport ∧
      view.Serves env link key link' := by
  by_cases hpath : view.Unread
  · rw [outcome_of_unread hK h hpath] at hrun
    cases hrun
  · obtain ⟨key, link'', hgiven, hreturned, hserves⟩ := exists_serves hK h hpath
    rw [hrun] at hreturned
    cases hreturned
    exact ⟨key, hgiven, rfl, hserves⟩

end TorView

/-! ### A controller -/

/-- What a controller with at most one service knows of a connection. -/
structure SoleState where
  challenge : Option Bytes
  authenticated : Bool
  onion : Option Bytes
  deriving DecidableEq

namespace SoleController

def path : Bytes := ascii "/run/tor/control.authcookie"

def version : Bytes := ascii "0.4.8"

def cookie : Bytes := List.replicate COOKIE_SIZE 7

def nonce : Bytes := List.replicate COOKIE_SIZE 9

/-- The key of its service, and the id. -/
def key : Bytes := ascii "ED25519-V3:" ++ List.replicate 86 65 ++ ascii "=="

def serviceId : Bytes := List.replicate 56 97

/-- The replies to the commands of a session. -/
def reply (hmac : Bytes → Bytes → Bytes) (st : SoleState) (cmd : Bytes) :
    Option Bytes × SoleState :=
  match strtokR 32 cmd with
  | (none, _) => (some (ascii "510 Unrecognized command\r\n"), st)
  | (some word, args) =>
    if word = cmdPROTOCOLINFO then (some (protocolInfoReply path version), st)
    else if word = ascii "AUTHCHALLENGE" then
      -- behind the name of the method
      let clientNonce := hexPairs (strtokR 32 args).2.dropLast
      (some (challengeReply (serverHash hmac cookie clientNonce nonce) nonce),
        { st with challenge := some clientNonce })
    else if word = ascii "AUTHENTICATE" then
      if st.challenge.map (cookieHash hmac cookie · nonce) = some args.dropLast then
        (some okReply, { st with authenticated := true })
      else (some (ascii "515 Bad authentication\r\n"), st)
    else if st.authenticated = false then (some (ascii "514 Authentication required.\r\n"), st)
    else if word = ascii "ADD_ONION" then
      if st.onion.isSome then (some (ascii "550 Onion address collision\r\n"), st)
      else
        (some (onionReply serviceId
          (if args.takeWhile (· ≠ 32) = ascii "NEW:ED25519-V3" then some key else none)),
          { st with onion := some serviceId })
    else if word = ascii "DEL_ONION" then
      if st.onion = some args.dropLast then (some okReply, { st with onion := none })
      else (some (ascii "552 Unknown Onion Service id\r\n"), st)
    else (some (ascii "510 Unrecognized command\r\n"), st)

variable (hmac : Bytes → Bytes → Bytes)

def controller : TorController := ⟨SoleState, reply hmac⟩

def view : TorView (controller hmac) where
  path := path
  version := version
  cookie := cookie
  TakesKey k := k = key
  idOf _ := serviceId
  TakesTarget _ _ := True
  onions st := { id | SoleState.onion st = some id }
  Fresh st := st = (⟨none, false, none⟩ : SoleState)
  Challenged clientNonce serverNonce st :=
    st = (⟨some clientNonce, false, none⟩ : SoleState) ∧ serverNonce = nonce
  Authenticated st := SoleState.authenticated st = true ∧ SoleState.onion st = none
  Added id st := SoleState.authenticated st = true ∧ SoleState.onion st = some id

variable {st : SoleState}

theorem reply_protocolInfo :
    reply hmac st cmdPROTOCOLINFO = (some (protocolInfoReply path version), st) := by
  rw [reply, strtokR_end (by decide) (by decide)]
  exact if_pos rfl

theorem reply_authChallenge (clientNonce : Bytes) :
    reply hmac st (cmdAUTHCHALLENGE clientNonce) =
      (some (challengeReply (serverHash hmac cookie clientNonce nonce) nonce),
        { st with challenge := some clientNonce }) := by
  have hcmd : cmdAUTHCHALLENGE clientNonce = ascii "AUTHCHALLENGE" ++
      32 :: (ascii "SAFECOOKIE" ++ 32 :: (bytesToHexString clientNonce ++ [10])) := by
    rw [cmdAUTHCHALLENGE, List.append_assoc]
    rfl
  rw [reply, hcmd, strtokR_append (by decide) (by decide)]
  dsimp only
  rw [if_neg (by decide), if_pos rfl, strtokR_append (by decide) (by decide), List.dropLast_concat,
    (KadId.hexPairs_bytesToHexString clientNonce).1]

theorem reply_authenticate {clientNonce : Bytes} (h : st.challenge = some clientNonce) :
    reply hmac st (cmdAUTHENTICATE (cookieHash hmac cookie clientNonce nonce)) =
      (some okReply, { st with authenticated := true }) := by
  have hcmd : cmdAUTHENTICATE (cookieHash hmac cookie clientNonce nonce) =
      ascii "AUTHENTICATE" ++ 32 :: (cookieHash hmac cookie clientNonce nonce ++ [10]) := by
    rw [cmdAUTHENTICATE, List.append_assoc]
    rfl
  rw [reply, hcmd, strtokR_append (by decide) (by decide)]
  dsimp only
  rw [if_neg (by decide), if_neg (by decide), if_pos rfl, List.dropLast_concat, h]
  exact if_pos rfl

theorem reply_addOnion (hauth : st.authenticated = true) (honion : st.onion = none)
    (key' : Bytes) (hkey : 32 ∉ key') (baddr : Bytes) (bport : ℤ) :
    reply hmac st (cmdADD_ONION key' baddr bport) =
      (some (onionReply serviceId (if key' = ascii "NEW:ED25519-V3" then some key else none)),
        { st with onion := some serviceId }) := by
  have hcmd : cmdADD_ONION key' baddr bport = ascii "ADD_ONION" ++ 32 :: (key' ++ 32 ::
      (ascii "Port=" ++ stdToString bport ++ [44] ++ baddr ++ [58] ++ stdToString bport ++
        [10])) := by
    simp only [cmdADD_ONION, List.append_assoc]
    rfl
  have hne : ∀ c ∈ key', decide (c ≠ 32) = true :=
    fun c hc => decide_eq_true (ne_of_mem_of_not_mem hc hkey)
  rw [reply, hcmd, strtokR_append (by decide) (by decide)]
  dsimp only
  rw [if_neg (by decide), if_neg (by decide), if_neg (by decide), if_neg (by rw [hauth]; decide),
    if_pos rfl, if_neg (by rw [honion]; decide), List.takeWhile_append_of_pos hne,
    List.takeWhile_cons_of_neg (by decide), List.append_nil]

theorem reply_delOnion (hauth : st.authenticated = true) {id : Bytes}
    (honion : st.onion = some id) :
    reply hmac st (cmdDEL_ONION id) = (some okReply, { st with onion := none }) := by
  have hcmd : cmdDEL_ONION id = ascii "DEL_ONION" ++ 32 :: (id ++ [10]) := by
    rw [cmdDEL_ONION, List.append_assoc]
    rfl
  rw [reply, hcmd, strtokR_append (by decide) (by decide)]
  dsimp only
  rw [if_neg (by decide), if_neg (by decide), if_neg (by decide), if_neg (by rw [hauth]; decide),
    if_neg (by decide), if_pos rfl, List.dropLast_concat, if_pos honion]

/-- The service is its only one. -/
theorem onions_added (st : SoleState) (h : st.onion = none) :
    (view hmac).onions { st with onion := some serviceId } =
      insert serviceId ((view hmac).onions st) := by
  ext id
  show some serviceId = some id ↔ id = serviceId ∨ st.onion = some id
  rw [h, Option.some.injEq, eq_comm]
  exact (or_iff_left nofun).symm

theorem plain_path : Plain path ∧ 34 ∉ path ∧ 92 ∉ path := by decide +kernel

theorem plain_version : Plain version := by decide +kernel

theorem length_info : (protocolInfoReply path version).length < REPLY_SIZE := by decide +kernel

theorem solid_key : Solid key ∧ key.length < SESSION_SIZE := by decide +kernel

theorem solid_serviceId : Solid serviceId ∧ serviceId.length = 56 := by decide +kernel

/-- **It keeps to the protocol.** -/
theorem keepsProtocol (hmac : Bytes → Bytes → Bytes) :
    (controller hmac).KeepsProtocol (view hmac) hmac where
  path := plain_path
  version := plain_version
  length_info := length_info
  keys _ h := h ▸ solid_key
  ids _ _ := solid_serviceId
  protocolInfo st h := ⟨st, reply_protocolInfo hmac, h, rfl⟩
  authChallenge := by
    rintro _ clientNonce rfl
    exact ⟨nonce, _, reply_authChallenge hmac clientNonce, by decide, ⟨rfl, rfl⟩, rfl⟩
  authenticate := by
    rintro _ clientNonce _ ⟨rfl, rfl⟩
    exact ⟨_, reply_authenticate hmac rfl, ⟨rfl, rfl⟩, rfl⟩
  addOnion := by
    rintro st _ baddr bport ⟨hauth, honion⟩ rfl - -
    have hreply := reply_addOnion hmac hauth honion key solid_key.1.2 baddr bport
    rw [if_neg (by decide)] at hreply
    exact ⟨_, hreply, ⟨hauth, rfl⟩, onions_added hmac st honion⟩
  newOnion := by
    rintro st baddr bport ⟨hauth, honion⟩ -
    have hreply := reply_addOnion hmac hauth honion (ascii "NEW:ED25519-V3") (by decide)
      baddr bport
    rw [if_pos rfl] at hreply
    refine ⟨key, _, hreply, rfl, ?_, ⟨hauth, rfl⟩, onions_added hmac st honion⟩
    exact fun hmem => nomatch honion.symm.trans hmem
  delOnion := by
    rintro st id ⟨hauth, honion⟩
    refine ⟨_, reply_delOnion hmac hauth honion, ?_⟩
    ext id'
    show (none = some id') ↔ st.onion = some id' ∧ id' ≠ id
    rw [honion, Option.some.injEq]
    exact iff_of_false nofun fun h => h.2 h.1.symm

end SoleController

/-! ### A calm session -/

/-- A system with the file of the controller. -/
def TorEnv.withCookie : TorEnv := TorEnv.calm fun _ => some SoleController.cookie

/-- A session by the cookie. -/
def TorLink.byCookie : TorLink (SoleController.controller TorEnv.withCookie.hmac) where
  ctx := ⟨ascii "127.0.0.1", 9051, true, [], -1, [], []⟩
  control := (⟨none, false, none⟩ : SoleState)

namespace SoleController

theorem served (privkey : Option Bytes) (h : ∀ k, privkey = some k → k = key) :
    (view TorEnv.withCookie.hmac).Served TorEnv.withCookie .byCookie (ascii "127.0.0.1") 4111
      privkey where
  calls _ := rfl
  fd := by decide
  cookie := ⟨cookie, rfl, by decide, rfl⟩
  authCookie := rfl
  controlAddr := by decide
  fresh := rfl
  target := trivial
  given k hk := ⟨h k hk, nofun⟩
  cmd := by
    cases privkey with
    | none => decide +kernel
    | some k =>
      obtain rfl := h k rfl
      decide +kernel

theorem read : ¬ (view TorEnv.withCookie.hmac).Unread := by
  show ¬ (32 ∈ path ∨ CFPATH_SIZE ≤ path.length)
  decide

end SoleController

end SniffDogSniff
