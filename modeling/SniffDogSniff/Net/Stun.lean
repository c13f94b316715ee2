import SniffDogSniff.Base.Prog
import SniffDogSniff.Common.SdsBytesBuf
import Mathlib.Tactic.IntervalCases

/-!
# Attributes of STUN messages

A message keeps its attributes in an array, which `stun_message_add_attribute` makes
larger on every insertion.  `stun_read_message_arributes` adds the attributes of a
response one after the other; the lengths that it goes by come with the response.

## Main definitions

* `StunAttribute`, `StunMessage` — an attribute, and a message with its array.
* `stunMessageAddAttribute` — the insertion.
* `stunReadMessageArributes` — the loop over the bytes of a response.
* `Whole` — the bytes are a sequence of attributes.
* `ReadsSafely` — what is asked of the loop and of its insertions.

## Main results

* `Holds.add`, `add_eq_none` — one insertion: there is room for 30 attributes.
* `readsSafelyFrom_iff` — the loop from any place on.
* `readsSafely_iff` — **the loop stays inside the response, and keeps the attributes,
  exactly where the response is a sequence of at most 30 whole attributes.**
-/

namespace SniffDogSniff

open SdsBytesBuf Bytes

def STUN_TRANSACTION_ID_SIZE : ℕ := 12

def INT_MAX : ℕ := 2 ^ 31 - 1

/-- The two bytes of a word change places. -/
def htons (n : UInt16) : UInt16 := (n <<< 8) ||| (n >>> 8)

/-! ### Messages -/

structure StunHeader where
  msg_class : UInt16
  method : UInt16
  msg_len : UInt16
  magic_cookie : UInt32
  txid : Bytes
  length_txid : txid.length = STUN_TRANSACTION_ID_SIZE
  deriving DecidableEq

structure StunAttribute where
  attr_type : UInt16
  value_len : UInt16
  value : Bytes
  length_value : value.length = value_len.toNat
  deriving DecidableEq

structure StunMessage where
  header : StunHeader
  attrs_capacity : ℕ
  attrs_len : ℕ
  /-- The array, if there is one. -/
  attrs : Option (ℕ → StunAttribute)

/-- `stun_message_create`, with a header. -/
def StunMessage.create (header : StunHeader) : StunMessage := ⟨header, 0, 0, none⟩

/-- The attributes in the array. -/
def StunMessage.attributes (msg : StunMessage) : List StunAttribute :=
  match msg.attrs with
  | none => []
  | some attrs => (List.range msg.attrs_len).map attrs

section

-- what is in memory that `malloc` or `realloc` has just given
variable (heap : ℕ → StunAttribute)

/-- The array with another capacity. -/
def realloc (attrs : ℕ → StunAttribute) (capacity : ℕ) : ℕ → StunAttribute := fun i =>
  if i < capacity then attrs i else heap i

/-- The array with room for one more attribute; where the capacity does not fit into an
`int`, there is no result. -/
def makeRoom (msg : StunMessage) : Option (ℕ × (ℕ → StunAttribute)) :=
  match msg.attrs with
  | some attrs =>
    if msg.attrs_capacity ≥ msg.attrs_len then
      if msg.attrs_capacity * 2 ≤ INT_MAX then
        some (msg.attrs_capacity * 2, realloc heap attrs msg.attrs_capacity)
      else none
    else some (2, heap)
  | none => some (2, heap)

def stunMessageAddAttribute (msg : StunMessage) (attr : StunAttribute) : Option StunMessage := do
  let (capacity, attrs) ← makeRoom heap msg
  pure
    { msg with
      attrs_capacity := capacity
      attrs := some (Function.update attrs msg.attrs_len attr)
      attrs_len := msg.attrs_len + 1 }

/-! ### The loop -/

inductive StunEvent
  /-- A `memcpy` of some bytes of the response, from a place on. -/
  | copied (p n : ℕ)
  /-- An insertion, with the message before and after it. -/
  | added (msg msg' : StunMessage)

structure StunReader where
  buffer : ℕ
  msg : StunMessage

abbrev StunRead := Prog StunEvent StunReader

variable (mem : ℕ → UInt8)

/-- `memcpy` from the cursor. -/
def copyBytes (n : ℕ) : StunRead Bytes := do
  let s ← Prog.get
  Prog.note (.copied s.buffer n)
  pure (slice mem s.buffer n)

def moveCursor (n : ℕ) : StunRead Unit :=
  Prog.modify fun s => { s with buffer := s.buffer + n }

def addAttribute (attr : StunAttribute) : StunRead Unit := do
  let s ← Prog.get
  let msg ← Prog.ofOption (stunMessageAddAttribute heap s.msg attr) Prog.undefined
  Prog.note (.added s.msg msg)
  Prog.modify fun s => { s with msg := msg }

/-- The value of an attribute, copied into memory of its own. -/
def copyValue (attr_type value_len : UInt16) : StunRead StunAttribute := do
  let s ← Prog.get
  Prog.note (.copied s.buffer value_len.toNat)
  pure
    { attr_type := attr_type
      value_len := value_len
      value := slice mem s.buffer value_len.toNat
      length_value := length_slice _ _ _ }

/-- A round of the loop. -/
def readAttribute : StunRead Unit := do
  let type ← copyBytes mem 2
  moveCursor 2
  let beval_len ← copyBytes mem 2
  moveCursor 2
  let attr ← copyValue mem (htons (Word.uint16.decode type)) (htons (Word.uint16.decode beval_len))
  moveCursor (attr.value_len.toNat + attr.value_len.toNat % 4)
  addAttribute heap attr

/-- The loop, for a number of rounds that is enough. -/
def readLoop (bufend : ℕ) : ℕ → StunRead ℤ
  | 0 => Prog.stuck
  | n + 1 => do
    let s ← Prog.get
    if s.buffer < bufend then
      readAttribute heap mem
      readLoop bufend n
    else pure 0

/-- The function, on `buf_len` bytes from the cursor on. -/
def stunReadMessageArributes (buf_len : ℕ) : StunRead ℤ := do
  let s ← Prog.get
  readLoop heap mem (s.buffer + buf_len) (buf_len + 1)

/-! ### What is asked -/

/-- The body of a response. -/
structure StunBody where
  bytes : Bytes
  length_le : bytes.length ≤ 65535

/-- An insertion keeps the attributes that are there, and the numbers of the array fit
together. -/
def KeepsAttributes (msg msg' : StunMessage) : Prop :=
  (∃ attr, msg'.attributes = msg.attributes ++ [attr]) ∧
    0 < msg'.attrs_len ∧ msg'.attrs_len ≤ msg'.attrs_capacity ∧ msg'.attrs_capacity ≤ INT_MAX

/-- Nothing is copied from behind `bufend`, and every insertion keeps what is there. -/
def StunEvent.Good (bufend : ℕ) : StunEvent → Prop
  | copied p n => p + n ≤ bufend
  | added msg msg' => KeepsAttributes msg msg'

/-- The run comes to its end, and does nothing wrong on the way. -/
structure SafeRun (bufend : ℕ) (run : List StunEvent × Outcome StunReader ℤ) : Prop where
  returns : ∃ s, run.2 = .returned 0 s
  good : ∀ e ∈ run.1, e.Good bufend

/-- The body is read safely, wherever it stands in memory and whatever is around it. -/
def ReadsSafely (header : StunHeader) (p : ℕ) (body : StunBody) : Prop :=
  SafeRun (p + body.bytes.length)
    (stunReadMessageArributes heap (overlay mem p body.bytes) body.bytes.length
      ⟨p, .create header⟩)

end

/-- The type and the length of an attribute, in network byte order, and its value. -/
def StunAttribute.wire (attr : StunAttribute) : Bytes :=
  Word.uint16.encode (htons attr.attr_type) ++ Word.uint16.encode (htons attr.value_len) ++
    attr.value

/-- The bytes are these attributes one after the other, each with as many bytes of padding
as its length modulo 4; some of the padding may be missing at the end. -/
def Whole : List StunAttribute → Bytes → Prop
  | [], bytes => bytes = []
  | attr :: attrs, bytes => ∃ pad rest, bytes = attr.wire ++ (pad ++ rest) ∧
      pad.length ≤ attr.value_len.toNat % 4 ∧
      (rest ≠ [] → pad.length = attr.value_len.toNat % 4) ∧ Whole attrs rest

/-! ### Insertions -/

/-- The message has these attributes, put in one after the other. -/
structure StunMessage.Holds (msg : StunMessage) (l : List StunAttribute) : Prop where
  attributes : msg.attributes = l
  attrs_len : msg.attrs_len = l.length
  null_iff : msg.attrs = none ↔ l = []
  capacity : l ≠ [] → msg.attrs_capacity = 2 ^ l.length
  length_le : l.length ≤ 30

theorem holds_create (header : StunHeader) : (StunMessage.create header).Holds [] where
  attributes := rfl
  attrs_len := rfl
  null_iff := iff_of_true rfl rfl
  capacity h := absurd rfl h
  length_le := Nat.zero_le _

theorem map_range_update {α : Type} (f : ℕ → α) (n : ℕ) (a : α) :
    (List.range (n + 1)).map (Function.update f n a) = (List.range n).map f ++ [a] := by
  rw [List.range_succ, List.map_append, List.map_singleton, Function.update_self]
  refine congrArg (· ++ [a]) (List.map_congr_left fun i hi => ?_)
  exact Function.update_of_ne (Nat.ne_of_lt (List.mem_range.mp hi)) a f

theorem map_range_realloc (heap attrs : ℕ → StunAttribute) {n capacity : ℕ} (h : n ≤ capacity) :
    (List.range n).map (realloc heap attrs capacity) = (List.range n).map attrs :=
  List.map_congr_left fun _ hi => if_pos ((List.mem_range.mp hi).trans_le h)

section

variable {msg : StunMessage} {l : List StunAttribute}

/-- The room that is made keeps what is there. -/
theorem StunMessage.Holds.exists_room (h : msg.Holds l) (heap : ℕ → StunAttribute)
    (hl : l.length < 30) :
    ∃ attrs, makeRoom heap msg = some (2 ^ (l.length + 1), attrs) ∧
      (List.range msg.attrs_len).map attrs = l := by
  rw [makeRoom]
  cases hattrs : msg.attrs with
  | none =>
    have hnil : l = [] := h.null_iff.mp hattrs
    have hlen : msg.attrs_len = 0 := by rw [h.attrs_len, hnil, List.length_nil]
    exact ⟨heap, by rw [hnil]; rfl, by rw [hlen, hnil]; rfl⟩
  | some attrs =>
    have hne : l ≠ [] := fun hnil => by
      rw [h.null_iff.mpr hnil] at hattrs
      cases hattrs
    have hcap := h.capacity hne
    have hroom : msg.attrs_len ≤ msg.attrs_capacity := by
      rw [hcap, h.attrs_len]
      exact Nat.lt_two_pow_self.le
    have hfits : msg.attrs_capacity * 2 ≤ INT_MAX := by
      rw [hcap, ← pow_succ]
      calc 2 ^ (l.length + 1) ≤ 2 ^ 30 := Nat.pow_le_pow_right (by decide) hl
        _ ≤ INT_MAX := by decide
    refine ⟨realloc heap attrs msg.attrs_capacity, ?_, ?_⟩
    · simp only [ge_iff_le, hroom, hfits, if_true]
      rw [hcap, pow_succ]
    · have hattributes := h.attributes
      rw [StunMessage.attributes, hattrs] at hattributes
      rw [map_range_realloc heap attrs hroom]
      exact hattributes

/-- **An insertion, where the message has less than 30 attributes.** -/
theorem StunMessage.Holds.add (h : msg.Holds l) (heap : ℕ → StunAttribute)
    (attr : StunAttribute) (hl : l.length < 30) :
    ∃ msg', stunMessageAddAttribute heap msg attr = some msg' ∧ msg'.Holds (l ++ [attr]) := by
  obtain ⟨attrs, hroom, hmap⟩ := h.exists_room heap hl
  refine ⟨_, by rw [stunMessageAddAttribute, hroom]; rfl, ?_, ?_, ?_, ?_, ?_⟩
  · show (List.range (msg.attrs_len + 1)).map _ = _
    rw [map_range_update, hmap]
  · show msg.attrs_len + 1 = _
    rw [h.attrs_len, List.length_append, List.length_singleton]
  · exact iff_of_false (Option.some_ne_none _)
      (List.append_ne_nil_of_right_ne_nil _ (List.cons_ne_nil _ _))
  · intro _
    rw [List.length_append, List.length_singleton]
  · rw [List.length_append, List.length_singleton]
    exact hl

/-- The capacity for the next one does not fit into an `int`. -/
theorem StunMessage.Holds.add_eq_none (h : msg.Holds l) (heap : ℕ → StunAttribute)
    (attr : StunAttribute) (hl : ¬ l.length < 30) :
    stunMessageAddAttribute heap msg attr = none := by
  have hlen : l.length = 30 := Nat.le_antisymm h.length_le (Nat.not_lt.mp hl)
  have hne : l ≠ [] := fun hnil => by
    rw [hnil] at hlen
    cases hlen
  have hroom : makeRoom heap msg = none := by
    rw [makeRoom]
    cases hattrs : msg.attrs with
    | none => exact absurd (h.null_iff.mp hattrs) hne
    | some attrs =>
      have hcap := h.capacity hne
      have hge : msg.attrs_capacity ≥ msg.attrs_len := by
        rw [hcap, h.attrs_len, hlen]
        decide
      have hover : ¬ msg.attrs_capacity * 2 ≤ INT_MAX := by
        rw [hcap, hlen]
        decide
      simp only [hge, hover, if_true, if_false]
  rw [stunMessageAddAttribute, hroom]
  rfl

/-- What an insertion keeps. -/
theorem StunMessage.Holds.keeps {msg' : StunMessage} {attr : StunAttribute} (h : msg.Holds l)
    (h' : msg'.Holds (l ++ [attr])) : KeepsAttributes msg msg' := by
  have hcap := h'.capacity (List.append_ne_nil_of_right_ne_nil l (List.cons_ne_nil attr []))
  have hpos : 0 < msg'.attrs_len := by
    rw [h'.attrs_len, List.length_append]
    exact Nat.succ_pos _
  refine ⟨⟨attr, by rw [h'.attributes, h.attributes]⟩, hpos, ?_, ?_⟩
  · rw [hcap, h'.attrs_len]
    exact Nat.lt_two_pow_self.le
  · rw [hcap]
    calc 2 ^ (l ++ [attr]).length ≤ 2 ^ 30 := Nat.pow_le_pow_right (by decide) h'.length_le
      _ ≤ INT_MAX := by decide

end

/-! ### Attributes in memory -/

theorem htons_bit (n : UInt16) {i : ℕ} (hi : i < 16) :
    (htons n).toBitVec.getLsbD i = n.toBitVec.getLsbD ((i + 8) % 16) := by
  unfold htons
  simp
  interval_cases i <;> simp

theorem eq_iff_bits {m n : UInt16} :
    m = n ↔ ∀ i < 16, m.toBitVec.getLsbD i = n.toBitVec.getLsbD i := by
  rw [← UInt16.toBitVec_inj, BitVec.eq_of_getLsbD_eq_iff]

@[simp] theorem htons_htons (n : UInt16) : htons (htons n) = n := by
  refine eq_iff_bits.mpr fun i hi => ?_
  rw [htons_bit _ hi, htons_bit _ (Nat.mod_lt _ (by decide))]
  congr 1
  omega

/-- How many bytes an attribute takes with its padding. -/
def StunAttribute.size (attr : StunAttribute) : ℕ :=
  4 + (attr.value_len.toNat + attr.value_len.toNat % 4)

theorem StunAttribute.length_wire (attr : StunAttribute) :
    attr.wire.length = 4 + attr.value_len.toNat := by
  rw [wire, List.length_append, List.length_append, Word.length_encode, Word.length_encode,
    attr.length_value]
  rfl

/-- The attribute that the loop finds at a place in memory. -/
def attributeAt (mem : ℕ → UInt8) (p : ℕ) : StunAttribute where
  attr_type := htons (Word.uint16.decode (slice mem p 2))
  value_len := htons (Word.uint16.decode (slice mem (p + 2) 2))
  value := slice mem (p + 4) (htons (Word.uint16.decode (slice mem (p + 2) 2))).toNat
  length_value := length_slice _ _ _

theorem slice_eq_append {mem : ℕ → UInt8} {p n : ℕ} {a b : Bytes} (h : slice mem p n = a ++ b) :
    slice mem p a.length = a ∧ slice mem (p + a.length) b.length = b ∧
      n = a.length + b.length := by
  have hn : n = a.length + b.length := by
    have hlen := congrArg List.length h
    rwa [length_slice, List.length_append] at hlen
  rw [hn, slice_add] at h
  obtain ⟨ha, hb⟩ := List.append_inj h (length_slice _ _ _)
  exact ⟨ha, hb, hn⟩

theorem wire_attributeAt (mem : ℕ → UInt8) (p : ℕ) :
    (attributeAt mem p).wire = slice mem p (4 + (attributeAt mem p).value_len.toNat) := by
  rw [slice_add, show 4 = 2 + 2 from rfl, slice_add, StunAttribute.wire]
  simp only [attributeAt, htons_htons]
  rw [Word.encode_decode_uint16 (length_slice _ _ _),
    Word.encode_decode_uint16 (length_slice _ _ _)]

/-- An attribute in network byte order is found where it stands. -/
theorem attributeAt_eq {mem : ℕ → UInt8} {p : ℕ} {attr : StunAttribute}
    (h : slice mem p attr.wire.length = attr.wire) : attributeAt mem p = attr := by
  obtain ⟨hfields, hvalue, -⟩ := slice_eq_append h
  obtain ⟨htype, hlen, -⟩ := slice_eq_append hfields
  rw [List.length_append, Word.length_encode, Word.length_encode] at hvalue
  rw [Word.length_encode] at htype hlen
  have htype' : slice mem p 2 = Word.uint16.encode (htons attr.attr_type) := htype
  have hlen' : slice mem (p + 2) 2 = Word.uint16.encode (htons attr.value_len) := hlen
  have hvalue' : slice mem (p + 4) attr.value.length = attr.value := hvalue
  rw [attr.length_value] at hvalue'
  simp only [attributeAt, htype', hlen', Word.decode_encode, htons_htons, hvalue']

section

variable {mem : ℕ → UInt8} {p e : ℕ}

theorem not_whole_nil_slice (hp : p < e) : ¬ Whole [] (slice mem p (e - p)) := by
  intro h
  have hlen := congrArg List.length h
  rw [length_slice, List.length_nil] at hlen
  omega

/-- A whole attribute stands at the beginning, and whole ones behind its padding. -/
theorem Whole.attributeAt {attr : StunAttribute} {attrs : List StunAttribute}
    (h : Whole (attr :: attrs) (slice mem p (e - p))) :
    attr = attributeAt mem p ∧ p + 4 + attr.value_len.toNat ≤ e ∧
      Whole attrs (slice mem (p + attr.size) (e - (p + attr.size))) := by
  obtain ⟨pad, rest, heq, hpad, hfull, hrest⟩ := h
  obtain ⟨hwire, hbehind, hlen⟩ := slice_eq_append heq
  obtain ⟨-, hrest', -⟩ := slice_eq_append hbehind
  rw [attr.length_wire] at hrest' hlen
  rw [List.length_append] at hlen
  refine ⟨(attributeAt_eq hwire).symm, by omega, ?_⟩
  by_cases hnil : rest = []
  -- the padding may be cut off, and nothing is left
  · have hzero : e - (p + attr.size) = 0 := by
      rw [hnil, List.length_nil] at hlen
      rw [StunAttribute.size]
      omega
    rw [hzero]
    rwa [hnil] at hrest
  · have hpos : p + (4 + attr.value_len.toNat) + pad.length = p + attr.size := by
      rw [hfull hnil, StunAttribute.size]
      omega
    rw [hpos] at hrest'
    have hcount : e - (p + attr.size) = rest.length := by omega
    rwa [hcount, hrest']

/-- The bytes up to the place behind an attribute, where that is inside. -/
theorem slice_eq_wire_append (hin : p + 4 + (attributeAt mem p).value_len.toNat ≤ e) :
    slice mem p (e - p) = (attributeAt mem p).wire ++
      slice mem (p + (4 + (attributeAt mem p).value_len.toNat))
        (e - (p + (4 + (attributeAt mem p).value_len.toNat))) := by
  rw [wire_attributeAt, ← slice_add]
  congr 1
  omega

theorem whole_cons_attributeAt {attrs : List StunAttribute}
    (hin : p + 4 + (attributeAt mem p).value_len.toNat ≤ e)
    (hrest : Whole attrs (slice mem (p + (attributeAt mem p).size)
      (e - (p + (attributeAt mem p).size)))) :
    Whole (attributeAt mem p :: attrs) (slice mem p (e - p)) := by
  set attr := attributeAt mem p
  set q := p + (4 + attr.value_len.toNat)
  have hsize : p + attr.size = q + attr.value_len.toNat % 4 := by
    rw [StunAttribute.size]
    omega
  have hwire : slice mem p (e - p) = attr.wire ++ slice mem q (e - q) := slice_eq_wire_append hin
  rw [hsize] at hrest
  by_cases hcut : e ≤ q + attr.value_len.toNat % 4
  -- all that is left is padding
  · refine ⟨slice mem q (e - q), [], ?_, ?_, fun h => absurd rfl h, ?_⟩
    · rw [hwire, List.append_nil]
    · rw [length_slice]
      omega
    · rwa [Nat.sub_eq_zero_of_le hcut] at hrest
  · refine ⟨slice mem q (attr.value_len.toNat % 4), _, ?_, ?_, ?_, hrest⟩
    · rw [hwire, ← slice_add]
      congr 2
      omega
    · rw [length_slice]
    · intro _
      rw [length_slice]

/-- Bytes in memory that begin with a whole attribute. -/
theorem whole_cons_slice_iff {attr : StunAttribute} {attrs : List StunAttribute} :
    Whole (attr :: attrs) (slice mem p (e - p)) ↔
      attr = attributeAt mem p ∧ p + 4 + attr.value_len.toNat ≤ e ∧
        Whole attrs (slice mem (p + attr.size) (e - (p + attr.size))) := by
  constructor
  · exact Whole.attributeAt
  · rintro ⟨rfl, hin, hrest⟩
    exact whole_cons_attributeAt hin hrest

/-- Where bytes are left, a sequence of attributes begins with the one at the cursor. -/
theorem exists_whole_slice_iff (hp : p < e) (k : ℕ) :
    (∃ attrs, Whole attrs (slice mem p (e - p)) ∧ k + attrs.length ≤ 30) ↔
      p + 4 + (attributeAt mem p).value_len.toNat ≤ e ∧
        ∃ attrs, Whole attrs (slice mem (p + (attributeAt mem p).size)
          (e - (p + (attributeAt mem p).size))) ∧ k + 1 + attrs.length ≤ 30 := by
  constructor
  · rintro ⟨_ | ⟨attr, attrs⟩, hw, hle⟩
    · exact absurd hw (not_whole_nil_slice hp)
    · obtain ⟨rfl, hin, hrest⟩ := whole_cons_slice_iff.mp hw
      rw [List.length_cons] at hle
      exact ⟨hin, attrs, hrest, by omega⟩
  · rintro ⟨hin, attrs, hrest, hle⟩
    refine ⟨_ :: attrs, whole_cons_slice_iff.mpr ⟨rfl, hin, hrest⟩, ?_⟩
    rw [List.length_cons]
    omega

end

/-! ### The loop over a response -/

section

variable {heap : ℕ → StunAttribute} {mem : ℕ → UInt8}

/-- The copies of a round. -/
def copies (mem : ℕ → UInt8) (p : ℕ) : List StunEvent :=
  [.copied p 2, .copied (p + 2) 2, .copied (p + 4) (attributeAt mem p).value_len.toNat]

theorem good_copies_iff {bufend p : ℕ} :
    (∀ e ∈ copies mem p, e.Good bufend) ↔
      p + 4 + (attributeAt mem p).value_len.toNat ≤ bufend := by
  constructor
  · intro h
    exact h (.copied (p + 4) _) (by simp [copies])
  · intro h e he
    simp only [copies, List.mem_cons, List.not_mem_nil, or_false] at he
    rcases he with rfl | rfl | rfl
    · show p + 2 ≤ bufend
      omega
    · show p + 2 + 2 ≤ bufend
      omega
    · exact h

theorem readAttribute_eq (heap : ℕ → StunAttribute) (mem : ℕ → UInt8) (p : ℕ) (msg : StunMessage) :
    readAttribute heap mem ⟨p, msg⟩ =
      let r := addAttribute heap (attributeAt mem p) ⟨p + (attributeAt mem p).size, msg⟩
      (copies mem p ++ r.1, r.2) := by
  have hpos : p + (attributeAt mem p).size = p + 2 + 2 +
      ((attributeAt mem p).value_len.toNat + (attributeAt mem p).value_len.toNat % 4) := by
    rw [StunAttribute.size]
    omega
  rw [hpos]
  rfl

theorem addAttribute_eq_added {attr : StunAttribute} {p : ℕ} {msg msg' : StunMessage}
    (h : stunMessageAddAttribute heap msg attr = some msg') :
    addAttribute heap attr ⟨p, msg⟩ = ([.added msg msg'], .returned () ⟨p, msg'⟩) := by
  rw [addAttribute, Prog.get_bind, h]
  rfl

theorem addAttribute_eq_undefined {attr : StunAttribute} {p : ℕ} {msg : StunMessage}
    (h : stunMessageAddAttribute heap msg attr = none) :
    addAttribute heap attr ⟨p, msg⟩ = ([], .undefined) := by
  rw [addAttribute, Prog.get_bind, h]
  rfl

theorem readLoop_of_not_lt {bufend p n : ℕ} {msg : StunMessage} (hp : ¬ p < bufend) :
    readLoop heap mem bufend (n + 1) ⟨p, msg⟩ = ([], .returned 0 ⟨p, msg⟩) := by
  rw [readLoop, Prog.get_bind, if_neg hp]
  rfl

/-- A round that adds its attribute, and the rounds after it. -/
theorem readLoop_of_lt {bufend p n : ℕ} {msg msg' : StunMessage} (hp : p < bufend)
    (h : stunMessageAddAttribute heap msg (attributeAt mem p) = some msg') :
    readLoop heap mem bufend (n + 1) ⟨p, msg⟩ =
      let r := readLoop heap mem bufend n ⟨p + (attributeAt mem p).size, msg'⟩
      (copies mem p ++ [.added msg msg'] ++ r.1, r.2) := by
  have hround := readAttribute_eq heap mem p msg
  rw [addAttribute_eq_added h] at hround
  rw [readLoop, Prog.get_bind, if_pos hp]
  exact Prog.bind_of_returned hround

theorem readLoop_of_full {bufend p n : ℕ} {msg : StunMessage} (hp : p < bufend)
    (h : stunMessageAddAttribute heap msg (attributeAt mem p) = none) :
    (readLoop heap mem bufend (n + 1) ⟨p, msg⟩).2 = .undefined := by
  have hround := readAttribute_eq heap mem p msg
  rw [addAttribute_eq_undefined h] at hround
  rw [readLoop, Prog.get_bind, if_pos hp]
  exact congrArg Prod.snd (Prog.bind_of_undefined hround)

/-- A round that adds its attribute is safe where what it copies is inside. -/
theorem safeRun_readLoop_of_lt {bufend p n : ℕ} {msg msg' : StunMessage} (hp : p < bufend)
    (h : stunMessageAddAttribute heap msg (attributeAt mem p) = some msg')
    (hkeeps : KeepsAttributes msg msg') :
    SafeRun bufend (readLoop heap mem bufend (n + 1) ⟨p, msg⟩) ↔
      p + 4 + (attributeAt mem p).value_len.toNat ≤ bufend ∧
        SafeRun bufend (readLoop heap mem bufend n ⟨p + (attributeAt mem p).size, msg'⟩) := by
  rw [readLoop_of_lt hp h, ← good_copies_iff]
  constructor
  · rintro ⟨hreturns, hgood⟩
    exact ⟨fun e he => hgood e (List.mem_append_left _ (List.mem_append_left _ he)), hreturns,
      fun e he => hgood e (List.mem_append_right _ he)⟩
  · rintro ⟨hcopies, hreturns, hgood⟩
    refine ⟨hreturns, fun e he => ?_⟩
    rw [List.mem_append, List.mem_append, List.mem_singleton] at he
    rcases he with (he | rfl) | he
    · exact hcopies e he
    · exact hkeeps
    · exact hgood e he

theorem not_safeRun_readLoop_of_full {bufend p n : ℕ} {msg : StunMessage} (hp : p < bufend)
    (h : stunMessageAddAttribute heap msg (attributeAt mem p) = none) :
    ¬ SafeRun bufend (readLoop heap mem bufend (n + 1) ⟨p, msg⟩) := by
  rintro ⟨⟨s, hreturns⟩, -⟩
  rw [readLoop_of_full hp h] at hreturns
  cases hreturns

/-- **The loop from any place on**, with what has been added so far. -/
theorem safeRun_readLoop_iff {bufend : ℕ} (n : ℕ) {p : ℕ} {msg : StunMessage}
    {l : List StunAttribute} (hn : bufend - p < n) (h : msg.Holds l) :
    SafeRun bufend (readLoop heap mem bufend n ⟨p, msg⟩) ↔
      ∃ attrs, Whole attrs (slice mem p (bufend - p)) ∧ l.length + attrs.length ≤ 30 := by
  induction n generalizing p msg l with
  | zero => exact absurd hn (Nat.not_lt_zero _)
  | succ n ih =>
    by_cases hp : p < bufend
    · have hnext : bufend - (p + (attributeAt mem p).size) < n := by
        rw [StunAttribute.size]
        omega
      rw [exists_whole_slice_iff hp]
      by_cases hl : l.length < 30
      · obtain ⟨msg', hadd, hholds⟩ := h.add heap (attributeAt mem p) hl
        rw [safeRun_readLoop_of_lt hp hadd (h.keeps hholds), ih hnext hholds, List.length_append,
          List.length_singleton]
      -- there is no room for this one
      · refine iff_of_false (not_safeRun_readLoop_of_full hp (h.add_eq_none heap _ hl)) ?_
        rintro ⟨-, attrs, -, hle⟩
        omega
    · rw [readLoop_of_not_lt hp, Nat.sub_eq_zero_of_le (Nat.not_lt.mp hp)]
      exact iff_of_true ⟨⟨_, rfl⟩, fun e he => absurd he List.not_mem_nil⟩
        ⟨[], rfl, h.length_le⟩

/-- Whole attributes are put in behind those that are there. -/
theorem readLoop_of_whole (heap : ℕ → StunAttribute) {bufend : ℕ} (n : ℕ) {p : ℕ}
    {msg : StunMessage} {l attrs : List StunAttribute} (hn : bufend - p < n) (h : msg.Holds l)
    (hw : Whole attrs (slice mem p (bufend - p))) (hle : l.length + attrs.length ≤ 30) :
    ∃ s, (readLoop heap mem bufend n ⟨p, msg⟩).2 = .returned 0 s ∧ s.msg.Holds (l ++ attrs) := by
  induction n generalizing p msg l attrs with
  | zero => exact absurd hn (Nat.not_lt_zero _)
  | succ n ih =>
    by_cases hp : p < bufend
    · cases attrs with
      | nil => exact absurd hw (not_whole_nil_slice hp)
      | cons attr attrs =>
        obtain ⟨hattr, -, hrest⟩ := whole_cons_slice_iff.mp hw
        rw [List.length_cons] at hle
        obtain ⟨msg', hadd, hholds⟩ := h.add heap attr (by omega)
        have hnext : bufend - (p + attr.size) < n := by
          rw [StunAttribute.size]
          omega
        obtain ⟨s, hs, hfinal⟩ := ih hnext hholds hrest (by
          rw [List.length_append, List.length_singleton]
          omega)
        rw [hattr] at hadd hs
        rw [readLoop_of_lt hp hadd]
        refine ⟨s, hs, ?_⟩
        rwa [List.append_assoc] at hfinal
    · rw [Nat.sub_eq_zero_of_le (Nat.not_lt.mp hp)] at hw
      have hnil : attrs = [] := by
        cases attrs with
        | nil => rfl
        | cons attr attrs =>
          obtain ⟨pad, rest, heq, -⟩ := hw
          have hlen := congrArg List.length heq
          rw [length_slice, List.length_append, attr.length_wire] at hlen
          omega
      rw [readLoop_of_not_lt hp, hnil, List.append_nil]
      exact ⟨_, rfl, h⟩

/-- What the loop leaves is a list of attributes that have room. -/
theorem holds_of_readLoop {bufend : ℕ} (n : ℕ) {p : ℕ} {msg : StunMessage}
    {l : List StunAttribute} (h : msg.Holds l) {r : ℤ} {s : StunReader}
    (hs : (readLoop heap mem bufend n ⟨p, msg⟩).2 = .returned r s) : ∃ l', s.msg.Holds l' := by
  induction n generalizing p msg l with
  | zero => cases hs
  | succ n ih =>
    by_cases hp : p < bufend
    · by_cases hl : l.length < 30
      · obtain ⟨msg', hadd, hholds⟩ := h.add heap (attributeAt mem p) hl
        rw [readLoop_of_lt hp hadd] at hs
        exact ih hholds hs
      · rw [readLoop_of_full hp (h.add_eq_none heap _ hl)] at hs
        cases hs
    · rw [readLoop_of_not_lt hp] at hs
      cases hs
      exact ⟨l, h⟩

theorem stunReadMessageArributes_eq (p n : ℕ) (msg : StunMessage) :
    stunReadMessageArributes heap mem n ⟨p, msg⟩ = readLoop heap mem (p + n) (n + 1) ⟨p, msg⟩ :=
  Prog.get_bind _ _

end

/-- **The loop stays inside the response, and the insertions keep what is there, exactly
where the response is a sequence of at most 30 whole attributes.** -/
theorem readsSafely_iff (heap : ℕ → StunAttribute) (mem : ℕ → UInt8) (header : StunHeader) (p : ℕ)
    (body : StunBody) :
    ReadsSafely heap mem header p body ↔
      ∃ attrs, Whole attrs body.bytes ∧ attrs.length ≤ 30 := by
  rw [ReadsSafely, stunReadMessageArributes_eq,
    safeRun_readLoop_iff _ (by omega) (holds_create header), Nat.add_sub_cancel_left,
    slice_overlay_self]
  simp only [List.length_nil, Nat.zero_add]

/-- A value that is announced, but has not come. -/
theorem not_readsSafely_short :
    ¬ ReadsSafely (fun _ => ⟨0, 0, [], rfl⟩) (fun _ => 0)
      ⟨0x0100, 0, 4, 0x42a41221, List.replicate 12 0, rfl⟩ 0 ⟨[0, 1, 0, 4], by decide⟩ := by
  intro h
  have hcopied : 4 + 4 ≤ 0 + 4 := h.good (.copied 4 4) (List.mem_of_getElem? (i := 2) rfl)
  exact absurd hcopied (by decide)

end SniffDogSniff
