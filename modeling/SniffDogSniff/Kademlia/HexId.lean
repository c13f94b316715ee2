import SniffDogSniff.Kademlia.KadId
import SniffDogSniff.Net.NetUtil

/-!
# Ids as strings

The configuration file gives the ids of the first peers as hexadecimal strings, and
`operator<<` prints them so.  `fromHexString` looks only at how many bytes came out:
31 characters make as many as 32, small letters and other characters are read in
their own way, and more than 32 characters are written behind the id.

## Main definitions

* `KadId.print`, `KadId.fromHexString` — the two directions.
* `decodeHex` — the bytes that digits in either case spell.
* `Converts` — the id of a string of 32 digits, and an exception for all others.

## Main results

* `converts_iff` — **which strings are converted as they should be.**
* `fromHexString_printed` — **an id that is printed is read again.**
-/

namespace SniffDogSniff

/-- The bytes that digits in either case spell. -/
def decodeHex : Bytes → Option Bytes
  | [] => some []
  | [_] => none
  | hi :: lo :: s => do
      let h ← hexValue hi
      let l ← hexValue lo
      return UInt8.ofNat (16 * h + l) :: (← decodeHex s)

/-- A decimal digit or a capital one. -/
def capitalDigit (c : UInt8) : Bool := (hexValue c).isSome && !smallDigit c

namespace KadId

/-- The characters that `operator<<` puts out. -/
def print (id : KadId) : Bytes := bytesToHexString id.id

/-- What a call of `fromHexString` does. -/
structure HexCall where
  result : Except String KadId
  /-- The places of `newId.id` that it writes to. -/
  written : List ℕ
  /-- The places of the string that it looks at. -/
  read : List ℕ

def fromHexString (s : CString) (behind : Bytes) : HexCall :=
  let r := hexStringToBytes s behind
  { result :=
      if r.out.length ≠ KAD_ID_LENGTH then
        .error "KadId::fromHexString unable to read hex node id string length is not of 32"
      else .ok (ofBytes r.out)
    written := List.range r.out.length
    read := r.read }

/-- The id that a string stands for. -/
def expected (s : Bytes) : Option KadId :=
  if s.length = 32 then (decodeHex s).map ofBytes else none

/-- The call returns the id that the string stands for, throws if there is none, and
stays in the bounds of the id and of the string. -/
structure Converts (s : CString) (behind : Bytes) : Prop where
  returns : ∀ id, expected s.bytes = some id → (fromHexString s behind).result = .ok id
  throws : expected s.bytes = none → ∃ what, (fromHexString s behind).result = .error what
  written_lt : ∀ i ∈ (fromHexString s behind).written, i < KAD_ID_LENGTH
  read_le : ∀ i ∈ (fromHexString s behind).read, i ≤ s.bytes.length

/-! ### Pairs of digits -/

theorem capitalDigit_of_hexValue {c : UInt8} {n : ℕ} (h : hexValue c = some n) :
    capitalDigit c = true ↔ smallDigit c = false := by
  simp [capitalDigit, h]

theorem not_capitalDigit {c : UInt8} (h : hexValue c = none) : ¬ capitalDigit c = true := by
  simp [capitalDigit, h]

/-- **Pairs of digits are read as they should be exactly where there is no small letter.** -/
theorem decodeHex_eq_iff (s : Bytes) (heven : s.length % 2 = 0) :
    decodeHex s = some (hexPairs s) ↔ ∀ c ∈ s, capitalDigit c = true := by
  induction s using hexPairs.induct with
  | case1 => exact iff_of_true rfl fun c hc => absurd hc List.not_mem_nil
  | case2 hi => cases heven
  | case3 hi lo s ih =>
    have htail : s.length % 2 = 0 := by
      rw [List.length_cons, List.length_cons] at heven
      omega
    rw [List.forall_mem_cons, List.forall_mem_cons, ← ih htail, decodeHex, hexPairs]
    cases hhi : hexValue hi with
    | none => exact iff_of_false (by simp) fun h => not_capitalDigit hhi h.1
    | some m =>
      cases hlo : hexValue lo with
      | none => exact iff_of_false (by simp) fun h => not_capitalDigit hlo h.2.1
      | some n =>
        rw [capitalDigit_of_hexValue hhi, capitalDigit_of_hexValue hlo, ← and_assoc,
          ← hexByte_eq_iff hhi hlo]
        cases decodeHex s with
        | none => exact iff_of_false (by simp) (by simp)
        | some bs => simp [eq_comm]

/-- The digits that are printed are read. -/
theorem hexPairs_bytesToHexString (bs : Bytes) :
    hexPairs (bytesToHexString bs) = bs ∧ ∀ c ∈ bytesToHexString bs, capitalDigit c = true := by
  induction bs with
  | nil => exact ⟨rfl, fun c hc => absurd hc List.not_mem_nil⟩
  | cons b bs ih =>
    have hlt := b.toNat_lt
    obtain ⟨hhi, hhiSmall⟩ := hexValue_hexChar (n := b.toNat / 16) (by omega)
    obtain ⟨hlo, hloSmall⟩ := hexValue_hexChar (n := b.toNat % 16) (by omega)
    have hbyte := (hexByte_eq_iff hhi hlo).mpr ⟨hhiSmall, hloSmall⟩
    rw [bytesToHexString, hexPairs, (halves_eq b).1, (halves_eq b).2, hbyte, ih.1,
      List.forall_mem_cons, List.forall_mem_cons, capitalDigit_of_hexValue hhi,
      capitalDigit_of_hexValue hlo]
    refine ⟨?_, hhiSmall, hloSmall, ih.2⟩
    rw [Nat.div_add_mod, UInt8.ofNat_toNat]

/-! ### The call -/

theorem length_out (s : CString) (behind : Bytes) :
    (hexStringToBytes s behind).out.length = (s.bytes.length + 1) / 2 := by
  rw [(hexStringToBytes_spec s behind).1, length_hexPairs]

/-- Strings of 31 or 32 characters make an id, and all others throw. -/
theorem result_fromHexString (s : CString) (behind : Bytes) :
    (fromHexString s behind).result =
      if (s.bytes.length + 1) / 2 ≠ 16 then
        .error "KadId::fromHexString unable to read hex node id string length is not of 32"
      else .ok (ofBytes (hexPairs s.bytes)) := by
  show (if (hexStringToBytes s behind).out.length ≠ 16 then _ else _) = _
  rw [length_out, (hexStringToBytes_spec s behind).1]

theorem ofBytes_inj {bs bs' : Bytes} (h : bs.length = KAD_ID_LENGTH)
    (h' : bs'.length = KAD_ID_LENGTH) : ofBytes bs = ofBytes bs' ↔ bs = bs' := by
  rw [ofBytes_eq_iff h, ← (ofBytes_eq_iff h').mp rfl]

theorem length_decodeHex {s bs : Bytes} (h : decodeHex s = some bs) : s.length = 2 * bs.length := by
  induction s using hexPairs.induct generalizing bs with
  | case1 =>
    cases h
    rfl
  | case2 hi => cases h
  | case3 hi lo s ih =>
    rw [decodeHex] at h
    obtain ⟨m, -, h⟩ := Option.bind_eq_some_iff.mp h
    obtain ⟨n, -, h⟩ := Option.bind_eq_some_iff.mp h
    obtain ⟨bs', hbs', h⟩ := Option.bind_eq_some_iff.mp h
    cases h
    rw [List.length_cons, List.length_cons, ih hbs', List.length_cons]
    omega

theorem written_fromHexString (s : CString) (behind : Bytes) :
    (fromHexString s behind).written = List.range ((s.bytes.length + 1) / 2) := by
  rw [← length_out s behind]
  rfl

/-- The id that is made of 31 or 32 characters is the right one for 32 digits that are
no small letters. -/
theorem expected_eq_iff {s : Bytes} (h : (s.length + 1) / 2 = 16) :
    expected s = some (ofBytes (hexPairs s)) ↔
      s.length = 32 ∧ ∀ c ∈ s, capitalDigit c = true := by
  have hpairs : (hexPairs s).length = KAD_ID_LENGTH := (length_hexPairs s).trans h
  rw [expected]
  by_cases hlen : s.length = 32
  · rw [if_pos hlen, ← decodeHex_eq_iff s (by omega), Option.map_eq_some_iff, and_iff_right hlen]
    constructor
    · rintro ⟨bs, hbs, heq⟩
      have hbsLen : bs.length = KAD_ID_LENGTH := by
        have htwice := length_decodeHex hbs
        unfold KAD_ID_LENGTH
        omega
      rw [hbs, (ofBytes_inj hbsLen hpairs).mp heq]
    · intro hbs
      exact ⟨_, hbs, rfl⟩
  · rw [if_neg hlen]
    exact iff_of_false (by simp) fun h => hlen h.1

/-- Sixteen bytes are written at most. -/
theorem Converts.written_le {s : CString} {behind : Bytes} (h : Converts s behind) :
    (s.bytes.length + 1) / 2 ≤ 16 := by
  by_contra hgt
  have hmem : 16 ∈ (fromHexString s behind).written := by
    rw [written_fromHexString]
    exact List.mem_range.mpr (by omega)
  exact absurd (h.written_lt 16 hmem) (lt_irrefl _)

/-- **A string is converted as it should be exactly if it has fewer than 31 characters,
or 32 that are decimal or capital digits.** -/
theorem converts_iff (s : CString) (behind : Bytes) :
    Converts s behind ↔
      s.bytes.length < 31 ∨ s.bytes.length = 32 ∧ ∀ c ∈ s.bytes, capitalDigit c = true := by
  have hresult := result_fromHexString s behind
  constructor
  · intro h
    have hle := h.written_le
    by_cases hshort : s.bytes.length < 31
    · exact Or.inl hshort
    have hsixteen : (s.bytes.length + 1) / 2 = 16 := by omega
    rw [if_neg (not_not.mpr hsixteen)] at hresult
    right
    apply (expected_eq_iff hsixteen).mp
    cases hexpected : expected s.bytes with
    | none =>
      obtain ⟨what, hthrow⟩ := h.throws hexpected
      rw [hresult] at hthrow
      cases hthrow
    | some id =>
      have hid := hresult.symm.trans (h.returns id hexpected)
      rw [Except.ok.inj hid]
  · intro h
    have hwritten : ∀ i ∈ (fromHexString s behind).written, i < KAD_ID_LENGTH := by
      intro i hi
      rw [written_fromHexString, List.mem_range] at hi
      unfold KAD_ID_LENGTH
      omega
    have hread := (hexStringToBytes_spec s behind).2
    rcases h with hshort | hdigits
    · have hnone : expected s.bytes = none := if_neg (by omega)
      rw [if_pos (by omega)] at hresult
      refine ⟨fun id hid => ?_, fun _ => ⟨_, hresult⟩, hwritten, hread⟩
      rw [hnone] at hid
      cases hid
    · have hlen := hdigits.1
      have hsixteen : (s.bytes.length + 1) / 2 = 16 := by omega
      have hsome := (expected_eq_iff hsixteen).mpr hdigits
      rw [if_neg (not_not.mpr hsixteen)] at hresult
      refine ⟨fun id hid => ?_, fun hnone => ?_, hwritten, hread⟩
      · rw [hresult, ← Option.some.inj (hsome.symm.trans hid)]
      · rw [hsome] at hnone
        cases hnone

/-- What `operator<<` puts out, as a string. -/
def printed (id : KadId) : CString where
  bytes := id.print
  nonzero h := absurd ((hexPairs_bytesToHexString id.id).2 0 h) (by decide)

/-- **An id that is printed is read again.** -/
theorem fromHexString_printed (id : KadId) (behind : Bytes) :
    (fromHexString id.printed behind).result = .ok id := by
  have hpairs : hexPairs id.printed.bytes = id.id := (hexPairs_bytesToHexString id.id).1
  have hlen : (id.printed.bytes.length + 1) / 2 = 16 := by
    rw [← length_hexPairs, hpairs]
    exact id.length_id
  rw [result_fromHexString, if_neg (not_not.mpr hlen), hpairs, ofBytes_id]

/-- 32 small letters "a". -/
def smallLetters : CString := ⟨List.replicate 32 97, by decide⟩

/-- They are digits of another id. -/
theorem not_converts_smallLetters : ¬ Converts smallLetters [] := by
  intro h
  have hreturns := h.returns (ofBytes (List.replicate 16 170)) (by decide)
  rw [result_fromHexString, if_neg (by decide)] at hreturns
  exact absurd (Except.ok.inj hreturns) (by decide)

end KadId

end SniffDogSniff
