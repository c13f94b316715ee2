import SniffDogSniff.Common.Hex
import SniffDogSniff.Common.StringUtil

/-!
# The functions of `netutil`

`net_urlparse` takes an address apart and copies the pieces into two buffers whose
sizes it does not know; `newConnection` gives it 1024 and 64 bytes.
`hex_string_to_bytes` goes through a string in steps of two.

## Main definitions

* `bytesToHexString`, `hexStringToBytes` — digits, with the places that are read.
* `strrchr`, `atoi`, `netUrlparse` — the pieces of an address.
* `ParsedSafely` — what `newConnection` relies on.

## Main results

* `hexStringToBytes_spec` — what is written and read.
* `parsedSafely_iff` — **the buffers are large enough exactly for short names.**
-/

namespace SniffDogSniff

/-! ### Digits -/

/-- `bytes_to_hex_string`; it puts a terminator behind the digits. -/
def bytesToHexString : Bytes → Bytes
  | [] => []
  | b :: bs => hexChar ((b >>> 4) &&& 0x0f) :: hexChar (b &&& 0x0f) :: bytesToHexString bs

/-- What a call of `hex_string_to_bytes` does. -/
structure HexRun where
  /-- The bytes that it writes, from `out[0]` on. -/
  out : Bytes
  /-- The places of `in` that it looks at. -/
  read : List ℕ

/-- The loop from `in[i]` on, for at most `n` rounds. -/
def hexLoop (mem : Bytes) (len : ℕ) : ℕ → ℕ → HexRun
  | 0, _ => ⟨[], []⟩
  | n + 1, i =>
      if i < len then
        let r := hexLoop mem len n (i + 2)
        ⟨hexByte (mem.getD i 0) (mem.getD (i + 1) 0) :: r.out, i :: (i + 1) :: r.read⟩
      else ⟨[], []⟩

/-- `hex_string_to_bytes`, on a string with something behind it. -/
def hexStringToBytes (s : CString) (behind : Bytes) : HexRun :=
  hexLoop (s.inMemory behind) s.bytes.length s.bytes.length 0

/-- The bytes for the characters of a string; the terminator may be the last of them. -/
def hexPairs : Bytes → Bytes
  | [] => []
  | [hi] => [hexByte hi 0]
  | hi :: lo :: s => hexByte hi lo :: hexPairs s

theorem length_hexPairs (s : Bytes) : (hexPairs s).length = (s.length + 1) / 2 := by
  induction s using hexPairs.induct with
  | case1 => rfl
  | case2 hi => simp [hexPairs]
  | case3 hi lo s ih =>
    rw [hexPairs, List.length_cons, ih, List.length_cons, List.length_cons]
    omega

theorem hexLoop_of_le {mem : Bytes} {len i : ℕ} (h : len ≤ i) (n : ℕ) :
    hexLoop mem len n i = ⟨[], []⟩ := by
  cases n with
  | zero => rfl
  | succ n => exact if_neg (Nat.not_lt.mpr h)

theorem getD_middle (front : Bytes) (c : UInt8) (rest : Bytes) :
    (front ++ c :: rest).getD front.length 0 = c := by
  simp

/-- A round in the string. -/
theorem hexLoop_succ (front : Bytes) (hi lo : UInt8) (rest : Bytes) {len : ℕ}
    (hlt : front.length < len) (n : ℕ) :
    hexLoop (front ++ hi :: lo :: rest) len (n + 1) front.length =
      ⟨hexByte hi lo :: (hexLoop (front ++ hi :: lo :: rest) len n (front.length + 2)).out,
        front.length :: (front.length + 1) ::
          (hexLoop (front ++ hi :: lo :: rest) len n (front.length + 2)).read⟩ := by
  have hlo : (front ++ hi :: lo :: rest).getD (front.length + 1) 0 = lo := by
    have hmid := getD_middle (front ++ [hi]) lo rest
    rwa [List.append_assoc, List.length_append] at hmid
  rw [hexLoop, if_pos hlt, getD_middle, hlo]

theorem hexLoop_spec (behind : Bytes) (rest : Bytes) :
    ∀ (front : Bytes) (n : ℕ), rest.length ≤ n →
      let r := hexLoop (front ++ (rest ++ 0 :: behind)) (front.length + rest.length) n front.length
      r.out = hexPairs rest ∧ ∀ i ∈ r.read, i ≤ front.length + rest.length := by
  induction rest using hexPairs.induct with
  | case1 =>
    intro front n _
    rw [hexLoop_of_le (by simp)]
    exact ⟨rfl, fun i hi => absurd hi List.not_mem_nil⟩
  | case2 hi =>
    intro front n hn
    obtain ⟨m, rfl⟩ := Nat.exists_eq_succ_of_ne_zero (Nat.pos_iff_ne_zero.mp hn)
    have hend : front.length + 1 ≤ front.length + 2 := by omega
    have hround := hexLoop_succ front hi 0 behind (Nat.lt_succ_self _) m
    rw [hexLoop_of_le hend] at hround
    intro r
    have hr : r = ⟨[hexByte hi 0], [front.length, front.length + 1]⟩ := hround
    rw [hr]
    refine ⟨rfl, fun i hi => ?_⟩
    simp only [List.mem_cons, List.not_mem_nil, or_false] at hi
    simp only [List.length_singleton]
    omega
  | case3 hi lo rest ih =>
    intro front n hn
    rw [List.length_cons, List.length_cons] at hn
    obtain ⟨m, rfl⟩ := Nat.exists_eq_succ_of_ne_zero (show n ≠ 0 by omega)
    obtain ⟨hout, hread⟩ := ih (front ++ [hi, lo]) m (by omega)
    have hlt : front.length < front.length + (hi :: lo :: rest).length := by simp
    have hround := hexLoop_succ front hi lo (rest ++ 0 :: behind) hlt m
    simp only [List.length_append, List.append_assoc, List.length_cons, List.length_nil,
      List.cons_append, List.nil_append] at hout hread hround ⊢
    rw [show front.length + (rest.length + 1 + 1) = front.length + (0 + 1 + 1) + rest.length by omega]
      at hround ⊢
    rw [hround]
    refine ⟨?_, fun i hi => ?_⟩
    · rw [hexPairs, ← hout]
    · rcases List.mem_cons.mp hi with rfl | hi
      · omega
      · rcases List.mem_cons.mp hi with rfl | hi
        · omega
        · exact hread i hi

/-- **What is written and read**: one byte for two characters, and nothing behind the
terminator. -/
theorem hexStringToBytes_spec (s : CString) (behind : Bytes) :
    (hexStringToBytes s behind).out = hexPairs s.bytes ∧
      ∀ i ∈ (hexStringToBytes s behind).read, i ≤ s.bytes.length := by
  have hspec := hexLoop_spec behind s.bytes [] s.bytes.length le_rfl
  simp only [List.nil_append, List.length_nil, Nat.zero_add] at hspec
  exact hspec

/-! ### Addresses -/

/-- The last place of a character. -/
def strrchr (c : UInt8) : Bytes → Option ℕ
  | [] => none
  | x :: s =>
      match strrchr c s with
      | some i => some (i + 1)
      | none => if x = c then some 0 else none

/-- `isspace` in the C locale. -/
def isspace (c : UInt8) : Bool := decide (c = 32 ∨ 9 ≤ c ∧ c ≤ 13)

/-- The number that the digits in front spell, behind `n`. -/
def leadingDigits : ℕ → Bytes → ℕ
  | n, [] => n
  | n, c :: s => if 48 ≤ c ∧ c ≤ 57 then leadingDigits (n * 10 + (c.toNat - 48)) s else n

/-- `atoi`, for a number that an `int` can hold. -/
def atoi (s : Bytes) : ℤ :=
  match s.dropWhile isspace with
  | 45 :: s => -(leadingDigits 0 s)
  | 43 :: s => leadingDigits 0 s
  | s => leadingDigits 0 s

/-- What a call of `net_urlparse` does. -/
structure UrlParts where
  ret : ℤ
  /-- The bytes that it writes from `addr[0]` on. -/
  addr : Bytes
  /-- The bytes that it writes from `suffix[0]` on. -/
  suffix : Bytes
  /-- What it assigns to `*port`. -/
  port : Option ℤ

/-- `net_urlparse`, with all of its arguments. -/
def netUrlparse (url : CString) : UrlParts :=
  match strrchr 58 url.bytes with
  | none => ⟨-1, [], [], none⟩
  | some len =>
    let addr := url.bytes.take len ++ [0]
    let port := atoi (url.bytes.drop (len + 1))
    match strrchr 46 (cstr addr) with
    | none => ⟨0, addr, [], some port⟩
    | some supp => ⟨0, addr, (cstr addr).drop supp ++ [0], some port⟩

/-- The sizes of the buffers of `newConnection`. -/
def ADDR_SIZE : ℕ := 1024

def SUFFIX_SIZE : ℕ := 64

/-- A buffer that has been cleared, and then written to. -/
def writtenTo (size : ℕ) (bs : Bytes) : Bytes := bs ++ List.replicate (size - bs.length) 0

/-- The last `c` of a string stands between two parts. -/
def SplitsLast (c : UInt8) (s before after : Bytes) : Prop := s = before ++ c :: after ∧ c ∉ after

/-- The buffers are not overrun.  Where the address is taken apart, `addr` is the part
before the last colon, and `suffix` what follows in it from the last stop on. -/
structure ParsedSafely (url : CString) : Prop where
  addr_le : (netUrlparse url).addr.length ≤ ADDR_SIZE
  suffix_le : (netUrlparse url).suffix.length ≤ SUFFIX_SIZE
  parts : (netUrlparse url).ret = 0 → ∃ host port, SplitsLast 58 url.bytes host port ∧
    cstr (writtenTo ADDR_SIZE (netUrlparse url).addr) = host ∧
    (46 ∉ host → cstr (writtenTo SUFFIX_SIZE (netUrlparse url).suffix) = []) ∧
    ∀ before after, SplitsLast 46 host before after →
      cstr (writtenTo SUFFIX_SIZE (netUrlparse url).suffix) = 46 :: after

/-! ### The last place of a character -/

theorem strrchr_of_not_mem {c : UInt8} {s : Bytes} (h : c ∉ s) : strrchr c s = none := by
  induction s with
  | nil => rfl
  | cons x s ih =>
    rw [List.mem_cons, not_or] at h
    rw [strrchr, ih h.2]
    exact if_neg (Ne.symm h.1)

theorem strrchr_append {c : UInt8} {after : Bytes} (h : c ∉ after) (before : Bytes) :
    strrchr c (before ++ c :: after) = some before.length := by
  induction before with
  | nil =>
    rw [List.nil_append, strrchr, strrchr_of_not_mem h]
    exact if_pos rfl
  | cons x before ih =>
    rw [List.cons_append, strrchr, ih]
    rfl

theorem SplitsLast.mem {c : UInt8} {s before after : Bytes} (h : SplitsLast c s before after) :
    c ∈ s := by
  rw [h.1]
  simp

/-- A string has no such character, or a last one. -/
theorem not_mem_or_splitsLast (c : UInt8) (s : Bytes) :
    c ∉ s ∨ ∃ before after, SplitsLast c s before after := by
  induction s with
  | nil => exact Or.inl List.not_mem_nil
  | cons x s ih =>
    rcases ih with hnot | ⟨before, after, rfl, hafter⟩
    · by_cases hx : x = c
      · exact Or.inr ⟨[], s, by rw [hx]; rfl, hnot⟩
      · exact Or.inl (by simp [hnot, Ne.symm hx])
    · exact Or.inr ⟨x :: before, after, rfl, hafter⟩

/-- There is only one last one. -/
theorem SplitsLast.eq {c : UInt8} {s before after before' after' : Bytes}
    (h : SplitsLast c s before after) (h' : SplitsLast c s before' after') :
    before = before' ∧ after = after' := by
  have hfirst := strrchr_append h.2 before
  rw [← h.1, h'.1, strrchr_append h'.2 before'] at hfirst
  have hlen : before.length = before'.length := (Option.some.inj hfirst).symm
  obtain ⟨rfl, htail⟩ := List.append_inj (h.1.symm.trans h'.1) hlen
  exact ⟨rfl, (List.cons.inj htail).2⟩

/-! ### Strings in buffers -/

theorem cstr_writtenTo {s : Bytes} (h : 0 ∉ s) (size : ℕ) :
    cstr (writtenTo size (s ++ [0])) = s := by
  rw [writtenTo, List.append_assoc]
  exact cstr_append_zero h _

theorem cstr_writtenTo_nil (size : ℕ) : cstr (writtenTo size []) = [] := by
  rw [writtenTo, List.nil_append, cstr]
  cases size - ([] : Bytes).length with
  | zero => rfl
  | succ n => rfl

/-! ### The buffers of `newConnection` -/

theorem netUrlparse_of_not_mem {url : CString} (h : 58 ∉ url.bytes) :
    netUrlparse url = ⟨-1, [], [], none⟩ := by
  rw [netUrlparse, strrchr_of_not_mem h]

section Splits

variable {url : CString} {host port : Bytes} (h : SplitsLast 58 url.bytes host port)
include h

theorem SplitsLast.zero_not_mem : 0 ∉ host := by
  intro hmem
  apply url.nonzero
  rw [h.1]
  exact List.mem_append_left _ hmem

theorem netUrlparse_of_splits : netUrlparse url =
    match strrchr 46 host with
    | none => ⟨0, host ++ [0], [], some (atoi port)⟩
    | some supp => ⟨0, host ++ [0], host.drop supp ++ [0], some (atoi port)⟩ := by
  have hlast : strrchr 58 url.bytes = some host.length := by
    rw [h.1]
    exact strrchr_append h.2 host
  have htake : url.bytes.take host.length = host := by
    rw [h.1, List.take_left]
  have hdrop : url.bytes.drop (host.length + 1) = port := by
    rw [h.1, ← List.drop_drop, List.drop_left]
    rfl
  have hcstr : cstr (host ++ [0]) = host := cstr_append_zero h.zero_not_mem []
  rw [netUrlparse, hlast]
  simp only [htake, hdrop, hcstr]

/-- An address without a stop in front of its last colon. -/
theorem parsedSafely_iff_of_not_mem (hstop : 46 ∉ host) :
    ParsedSafely url ↔ host.length < ADDR_SIZE := by
  have hrun := netUrlparse_of_splits h
  rw [strrchr_of_not_mem hstop] at hrun
  constructor
  · intro hsafe
    have hle := hsafe.addr_le
    rw [hrun, List.length_append] at hle
    exact hle
  · intro hlt
    refine ⟨?_, ?_, fun _ => ⟨host, port, h, ?_, fun _ => ?_, ?_⟩⟩
    · rw [hrun, List.length_append]
      exact hlt
    · rw [hrun]
      exact Nat.zero_le _
    · rw [hrun, cstr_writtenTo h.zero_not_mem]
    · rw [hrun, cstr_writtenTo_nil]
    · exact fun before after hsplit => absurd hsplit.mem hstop

/-- An address with one. -/
theorem parsedSafely_iff_of_splits {before after : Bytes} (hstop : SplitsLast 46 host before after) :
    ParsedSafely url ↔ host.length < ADDR_SIZE ∧ after.length + 1 < SUFFIX_SIZE := by
  have hrun := netUrlparse_of_splits h
  have hlast : strrchr 46 host = some before.length := by
    rw [hstop.1]
    exact strrchr_append hstop.2 before
  have hdrop : host.drop before.length = 46 :: after := by rw [hstop.1, List.drop_left]
  have hzero : 0 ∉ 46 :: after := by
    intro hmem
    apply h.zero_not_mem
    rw [hstop.1]
    exact List.mem_append_right _ hmem
  rw [hlast] at hrun
  simp only [hdrop] at hrun
  constructor
  · intro hsafe
    have haddr := hsafe.addr_le
    have hsuffix := hsafe.suffix_le
    rw [hrun, List.length_append] at haddr hsuffix
    exact ⟨haddr, hsuffix⟩
  · rintro ⟨haddr, hsuffix⟩
    refine ⟨?_, ?_, fun _ => ⟨host, port, h, ?_, fun hnot => ?_, ?_⟩⟩
    · rw [hrun, List.length_append]
      exact haddr
    · rw [hrun, List.length_append]
      exact hsuffix
    · rw [hrun, cstr_writtenTo h.zero_not_mem]
    · exact absurd hstop.mem hnot
    · intro before' after' hsplit
      rw [hrun, cstr_writtenTo hzero, (hstop.eq hsplit).2]

end Splits

/-- **The buffers are large enough, and filled with the right pieces, if and only if the
part before the last colon and its tail from the last stop on are short.** -/
theorem parsedSafely_iff (url : CString) :
    ParsedSafely url ↔ ∀ host port, SplitsLast 58 url.bytes host port →
      host.length < ADDR_SIZE ∧
        ∀ before after, SplitsLast 46 host before after → after.length + 1 < SUFFIX_SIZE := by
  rcases not_mem_or_splitsLast 58 url.bytes with hnot | ⟨host, port, hcolon⟩
  · have hrun := netUrlparse_of_not_mem hnot
    refine iff_of_true ⟨?_, ?_, ?_⟩ fun host port hcolon => absurd hcolon.mem hnot
    · rw [hrun]
      exact Nat.zero_le _
    · rw [hrun]
      exact Nat.zero_le _
    · intro hret
      rw [hrun] at hret
      cases hret
  · have hsafe : ParsedSafely url ↔ host.length < ADDR_SIZE ∧
        ∀ before after, SplitsLast 46 host before after → after.length + 1 < SUFFIX_SIZE := by
      rcases not_mem_or_splitsLast 46 host with hstop | ⟨before, after, hstop⟩
      · rw [parsedSafely_iff_of_not_mem hcolon hstop]
        exact (and_iff_left fun before after hsplit => absurd hsplit.mem hstop).symm
      · rw [parsedSafely_iff_of_splits hcolon hstop]
        apply and_congr_right
        intro _
        constructor
        · intro hlt before' after' hsplit
          rwa [← (hstop.eq hsplit).2]
        · exact fun hall => hall before after hstop
    rw [hsafe]
    constructor
    · intro hshort host' port' hsplit
      rwa [← (hcolon.eq hsplit).1]
    · exact fun hall => hall host port hcolon

/-- A stop, 63 letters and a colon. -/
def longSuffix : CString := ⟨46 :: List.replicate 63 97 ++ [58], by decide⟩

/-- 65 bytes are written to `suffix`. -/
theorem longSuffix_not_parsedSafely : ¬ ParsedSafely longSuffix := by
  intro h
  have hle := h.suffix_le
  exact absurd hle (by decide)

end SniffDogSniff
