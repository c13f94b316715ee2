import SniffDogSniff.Net.Stun

/-!
# Writing STUN messages

`stun_write_message` writes the attributes behind the room for the header, and the header
last; `stun_read_message_header` and `stun_read_message_arributes` read what was written.
The two sides do not agree on the byte order of the method and of the types.

## Main definitions

* `stunWriteMessage`, `stunReadMessageHeader` — the writer, and the reader of the header.
* `SentMessage` — a message whose length fits into the header.
* `MessageRoundTrips` — what is asked of the bytes that are written.

## Main results

* `bytes_stunWriteMessage` — the bytes are the header and the attributes.
* `aligned_iff` — attributes stay on 4-byte boundaries where the lengths are even.
* `masked_htons_iff` — the methods that are read back.
* `messageRoundTrips_iff` — **a message is read back, and aligned, exactly where the bytes of the
  method and of each type are equal, the lengths are even, and there are at most 30
  attributes.**
-/

namespace SniffDogSniff

open SdsBytesBuf Bytes

def STUN_HEADER_LEN : ℕ := 20

def STUN_MAGIC_COOKIE : UInt32 := 0x2112A442

/-- The four bytes of a word the other way round. -/
def htonl (n : UInt32) : UInt32 :=
  (n <<< 24) ||| ((n <<< 8) &&& (0xff0000 : UInt32)) ||| ((n >>> 8) &&& (0xff00 : UInt32)) |||
    (n >>> 24)

/-! ### The writer -/

/-- The memory of the message, and the cursor in it. -/
structure StunWriter where
  mem : ℕ → UInt8
  buffer : ℕ

/-- `memcpy` to the cursor, which moves on. -/
def StunWriter.put (w : StunWriter) (bs : Bytes) : StunWriter where
  mem := overlay w.mem w.buffer bs
  buffer := w.buffer + bs.length

def stunMessageWriteHeader (w : StunWriter) (header : StunHeader) : StunWriter :=
  let w := w.put (Word.uint16.encode (htons header.method))
  let w := w.put (Word.uint16.encode (htons header.msg_len))
  let w := w.put (Word.uint32.encode (htonl STUN_MAGIC_COOKIE))
  w.put header.txid

/-- A round of the loop; the type stays in the byte order of the host. -/
def writeAttribute (w : StunWriter) (attr : StunAttribute) : StunWriter :=
  let w := w.put (Word.uint16.encode attr.attr_type)
  let w := w.put (Word.uint16.encode (htons attr.value_len))
  let w := w.put attr.value
  let padding := attr.value_len.toNat % 4
  if padding > 0 then w.put (List.replicate padding 0) else w

/-- The length that is reserved. -/
def messageLength (attrs : List StunAttribute) : ℕ :=
  attrs.foldl
    (fun buf_len attr => buf_len + 2 * 2 + attr.value_len.toNat + attr.value_len.toNat % 4)
    STUN_HEADER_LEN

/-- The cursor behind the header, and then behind some of the attributes. -/
def writeAttributes (mem : ℕ → UInt8) (attrs : List StunAttribute) : StunWriter :=
  attrs.foldl writeAttribute ⟨mem, STUN_HEADER_LEN⟩

/-- The bytes that are written, and the message with its length. -/
structure WrittenMessage where
  bytes : Bytes
  msg : StunMessage

def stunWriteMessage (mem : ℕ → UInt8) (msg : StunMessage) : WrittenMessage :=
  let buf_len := messageLength msg.attributes
  let w := writeAttributes mem msg.attributes
  let header := { msg.header with msg_len := UInt16.ofNat (buf_len - STUN_HEADER_LEN) }
  { bytes := slice (stunMessageWriteHeader ⟨w.mem, 0⟩ header).mem 0 buf_len
    msg := { msg with header := header } }

/-! ### The reader of the header -/

/-- The class and the method are taken from the word as it stands in memory. -/
def stunReadMessageHeader (mem : ℕ → UInt8) (buffer : ℕ) : StunHeader :=
  let ht := Word.uint16.decode (slice mem buffer 2)
  { msg_class := ht &&& 0x0110
    method := ht &&& 0xfeef
    msg_len := htons (Word.uint16.decode (slice mem (buffer + 2) 2))
    magic_cookie := Word.uint32.decode (slice mem (buffer + 4) 4)
    txid := slice mem (buffer + 8) STUN_TRANSACTION_ID_SIZE
    length_txid := length_slice _ _ _ }

/-! ### What is asked -/

/-- A message whose attributes take less than 65536 bytes. -/
structure SentMessage where
  msg : StunMessage
  array : msg.attrs = none → msg.attrs_len = 0
  total_lt : (msg.attributes.map StunAttribute.size).sum < 65536

/-- Every attribute starts and ends on a 4-byte boundary. -/
def Aligned (mem : ℕ → UInt8) (attrs : List StunAttribute) : Prop :=
  ∀ i ≤ attrs.length, 4 ∣ (writeAttributes mem (attrs.take i)).buffer

/-- What the bytes of a message have to be: aligned, and, wherever they are received, read as
the message that was written. -/
structure MessageRoundTrips (heap : ℕ → StunAttribute) (mem mem' : ℕ → UInt8) (m : SentMessage) :
    Prop where
  aligned : Aligned mem m.msg.attributes
  method : (stunReadMessageHeader (overlay mem' 0 (stunWriteMessage mem m.msg).bytes) 0).method =
    m.msg.header.method
  txid : (stunReadMessageHeader (overlay mem' 0 (stunWriteMessage mem m.msg).bytes) 0).txid =
    m.msg.header.txid
  msg_len : (stunReadMessageHeader (overlay mem' 0 (stunWriteMessage mem m.msg).bytes) 0).msg_len =
    (stunWriteMessage mem m.msg).msg.header.msg_len
  attributes : ∀ header, ∃ s,
    (stunReadMessageArributes heap (overlay mem' 0 (stunWriteMessage mem m.msg).bytes)
      (stunWriteMessage mem m.msg).msg.header.msg_len.toNat
      ⟨STUN_HEADER_LEN, .create header⟩).2 = .returned 0 s ∧
    s.msg.attributes = m.msg.attributes

/-! ### What is written -/

theorem StunWriter.put_put (w : StunWriter) (a b : Bytes) : (w.put a).put b = w.put (a ++ b) := by
  simp only [put, overlay_append, List.length_append, Nat.add_assoc]

theorem StunWriter.put_nil (w : StunWriter) : w.put [] = w := by
  have hmem : overlay w.mem w.buffer [] = w.mem := by
    funext i
    simp [overlay]
  rw [put, hmem]
  rfl

def headerBytes (header : StunHeader) : Bytes :=
  Word.uint16.encode (htons header.method) ++ (Word.uint16.encode (htons header.msg_len) ++
    (Word.uint32.encode (htonl STUN_MAGIC_COOKIE) ++ header.txid))

theorem length_headerBytes (header : StunHeader) :
    (headerBytes header).length = STUN_HEADER_LEN := by
  simp only [headerBytes, List.length_append, Word.length_encode, header.length_txid]
  rfl

theorem stunMessageWriteHeader_eq (w : StunWriter) (header : StunHeader) :
    stunMessageWriteHeader w header = w.put (headerBytes header) := by
  simp only [stunMessageWriteHeader, headerBytes, StunWriter.put_put, List.append_assoc]

/-- The attribute that is read where this one was written. -/
def StunAttribute.swapped (attr : StunAttribute) : StunAttribute :=
  { attr with attr_type := htons attr.attr_type }

/-- The bytes of an attribute with its padding. -/
def StunAttribute.written (attr : StunAttribute) : Bytes :=
  attr.swapped.wire ++ List.replicate (attr.value_len.toNat % 4) 0

theorem StunAttribute.length_written (attr : StunAttribute) :
    attr.written.length = attr.size := by
  rw [written, List.length_append, length_wire, List.length_replicate, size, Nat.add_assoc]
  rfl

theorem writeAttribute_eq (w : StunWriter) (attr : StunAttribute) :
    writeAttribute w attr = w.put attr.written := by
  have hwire : attr.swapped.wire = Word.uint16.encode attr.attr_type ++
      Word.uint16.encode (htons attr.value_len) ++ attr.value := by
    simp only [StunAttribute.wire, StunAttribute.swapped, htons_htons]
  rw [StunAttribute.written, hwire, writeAttribute]
  simp only [StunWriter.put_put]
  split
  · rfl
  · next h =>
    rw [Nat.eq_zero_of_not_pos h, List.replicate_zero, List.append_nil]

theorem writeAttributes_eq (mem : ℕ → UInt8) (attrs : List StunAttribute) :
    writeAttributes mem attrs =
      (⟨mem, STUN_HEADER_LEN⟩ : StunWriter).put (attrs.flatMap StunAttribute.written) := by
  rw [writeAttributes]
  generalize (⟨mem, STUN_HEADER_LEN⟩ : StunWriter) = w
  induction attrs generalizing w with
  | nil => exact w.put_nil.symm
  | cons attr attrs ih =>
    rw [List.foldl_cons, ih, writeAttribute_eq, StunWriter.put_put, List.flatMap_cons]

theorem length_written (attrs : List StunAttribute) :
    (attrs.flatMap StunAttribute.written).length = (attrs.map StunAttribute.size).sum := by
  rw [List.length_flatMap]
  exact congrArg List.sum (List.map_congr_left fun attr _ => attr.length_written)

theorem messageLength_eq (attrs : List StunAttribute) :
    messageLength attrs = STUN_HEADER_LEN + (attrs.map StunAttribute.size).sum := by
  rw [messageLength]
  generalize STUN_HEADER_LEN = n
  induction attrs generalizing n with
  | nil => rfl
  | cons attr attrs ih =>
    rw [List.foldl_cons, ih, List.map_cons, List.sum_cons, StunAttribute.size]
    omega

/-- **The bytes are the header and the attributes.** -/
theorem bytes_stunWriteMessage (mem : ℕ → UInt8) (msg : StunMessage) :
    (stunWriteMessage mem msg).bytes =
      headerBytes (stunWriteMessage mem msg).msg.header ++
        msg.attributes.flatMap StunAttribute.written := by
  set header := (stunWriteMessage mem msg).msg.header
  have hlen := length_headerBytes header
  show slice (stunMessageWriteHeader ⟨(writeAttributes mem msg.attributes).mem, 0⟩ header).mem 0
    (messageLength msg.attributes) = _
  rw [stunMessageWriteHeader_eq, messageLength_eq, ← length_written, slice_add,
    writeAttributes_eq]
  refine congrArg₂ (· ++ ·) ?_ ?_
  · rw [← hlen]
    exact slice_overlay_self _ 0 _
  · have hbehind : 0 + (headerBytes header).length ≤ STUN_HEADER_LEN := by
      rw [hlen, Nat.zero_add]
    rw [Nat.zero_add]
    exact (slice_overlay_of_ge _ hbehind).trans (slice_overlay_self _ _ _)

/-! ### Boundaries -/

theorem StunAttribute.dvd_size_iff (attr : StunAttribute) :
    4 ∣ attr.size ↔ attr.value_len.toNat % 2 = 0 := by
  rw [size]
  omega

theorem dvd_take_iff (attrs : List StunAttribute) (n : ℕ) :
    (∀ i ≤ attrs.length, 4 ∣ n + ((attrs.take i).map StunAttribute.size).sum) ↔
      4 ∣ n ∧ ∀ attr ∈ attrs, 4 ∣ attr.size := by
  induction attrs generalizing n with
  | nil => simp
  | cons attr attrs ih =>
    have hstep : (∀ i ≤ (attr :: attrs).length,
        4 ∣ n + (((attr :: attrs).take i).map StunAttribute.size).sum) ↔
          4 ∣ n ∧ ∀ i ≤ attrs.length,
            4 ∣ n + attr.size + ((attrs.take i).map StunAttribute.size).sum := by
      constructor
      · intro h
        refine ⟨h 0 (Nat.zero_le _), fun i hi => ?_⟩
        have hnext := h (i + 1) (Nat.succ_le_succ hi)
        rwa [List.take_succ_cons, List.map_cons, List.sum_cons, ← Nat.add_assoc] at hnext
      · rintro ⟨hn, h⟩ (_ | i) hi
        · exact hn
        · rw [List.take_succ_cons, List.map_cons, List.sum_cons, ← Nat.add_assoc]
          exact h i (Nat.le_of_succ_le_succ hi)
    rw [hstep, ih, List.forall_mem_cons, ← and_assoc, ← and_assoc]
    exact and_congr_left' (and_congr_right fun hn => Nat.dvd_add_right hn)

/-- **Attributes stay on 4-byte boundaries where the lengths are even.** -/
theorem aligned_iff (mem : ℕ → UInt8) (attrs : List StunAttribute) :
    Aligned mem attrs ↔ ∀ attr ∈ attrs, attr.value_len.toNat % 2 = 0 := by
  have hbuffer : ∀ i, (writeAttributes mem (attrs.take i)).buffer =
      STUN_HEADER_LEN + ((attrs.take i).map StunAttribute.size).sum := by
    intro i
    rw [writeAttributes_eq, ← length_written]
    rfl
  simp only [Aligned, hbuffer]
  rw [dvd_take_iff]
  constructor
  · rintro ⟨-, h⟩ attr hattr
    exact attr.dvd_size_iff.mp (h attr hattr)
  · intro h
    exact ⟨by decide, fun attr hattr => attr.dvd_size_iff.mpr (h attr hattr)⟩

/-! ### What is read -/

theorem stunReadMessageHeader_eq {mem : ℕ → UInt8} {header : StunHeader}
    (h : slice mem 0 STUN_HEADER_LEN = headerBytes header) :
    stunReadMessageHeader mem 0 =
      { header with
        msg_class := htons header.method &&& 0x0110
        method := htons header.method &&& 0xfeef
        magic_cookie := htonl STUN_MAGIC_COOKIE } := by
  obtain ⟨hmethod, h, -⟩ := slice_eq_append h
  obtain ⟨hlen, h, -⟩ := slice_eq_append h
  obtain ⟨hcookie, htxid, -⟩ := slice_eq_append h
  rw [header.length_txid] at htxid
  have hmethod' : slice mem 0 2 = Word.uint16.encode (htons header.method) := hmethod
  have hlen' : slice mem (0 + 2) 2 = Word.uint16.encode (htons header.msg_len) := hlen
  have hcookie' : slice mem (0 + 4) 4 = Word.uint32.encode (htonl STUN_MAGIC_COOKIE) := hcookie
  have htxid' : slice mem (0 + 8) STUN_TRANSACTION_ID_SIZE = header.txid := htxid
  simp only [stunReadMessageHeader, hmethod', hlen', hcookie', htxid', Word.decode_encode,
    htons_htons]

theorem and_bit (m n : UInt16) (i : ℕ) :
    (m &&& n).toBitVec.getLsbD i = (m.toBitVec.getLsbD i && n.toBitVec.getLsbD i) := by
  rw [UInt16.toBitVec_and, BitVec.getLsbD_and]

/-- **The methods that are read back** are those with equal bytes and without a bit of the
class. -/
theorem masked_htons_iff (mask n : UInt16) :
    htons n &&& mask = n ↔ htons n = n ∧ n &&& mask = n := by
  constructor
  · intro h
    -- each bit is set only where the one 8 places away is
    have hbit : ∀ i < 16, n.toBitVec.getLsbD i = true →
        n.toBitVec.getLsbD ((i + 8) % 16) = true := by
      intro i hi hset
      rw [← h, and_bit, htons_bit _ hi, Bool.and_eq_true] at hset
      exact hset.1
    have hswap : htons n = n := by
      refine eq_iff_bits.mpr fun i hi => ?_
      rw [htons_bit _ hi, Bool.eq_iff_iff]
      refine ⟨fun hset => ?_, hbit i hi⟩
      have hback := hbit _ (Nat.mod_lt _ (by decide)) hset
      have hpos : ((i + 8) % 16 + 8) % 16 = i := by omega
      rwa [hpos] at hback
    exact ⟨hswap, by rwa [hswap] at h⟩
  · rintro ⟨hswap, hmask⟩
    rw [hswap, hmask]

theorem whole_written (attrs : List StunAttribute) :
    Whole (attrs.map StunAttribute.swapped) (attrs.flatMap StunAttribute.written) := by
  induction attrs with
  | nil => rfl
  | cons attr attrs ih =>
    refine ⟨List.replicate (attr.value_len.toNat % 4) 0, attrs.flatMap StunAttribute.written,
      ?_, ?_, fun _ => ?_, ih⟩
    · rw [List.flatMap_cons, StunAttribute.written, List.append_assoc]
    · rw [List.length_replicate]
      rfl
    · rw [List.length_replicate]
      rfl

theorem StunAttribute.swapped_eq_iff (attr : StunAttribute) :
    attr.swapped = attr ↔ htons attr.attr_type = attr.attr_type := by
  cases attr
  simp [swapped]

theorem map_swapped_eq_iff (attrs : List StunAttribute) :
    attrs.map StunAttribute.swapped = attrs ↔
      ∀ attr ∈ attrs, htons attr.attr_type = attr.attr_type := by
  induction attrs with
  | nil => simp
  | cons attr attrs ih =>
    rw [List.map_cons, List.cons.injEq, List.forall_mem_cons, ih, attr.swapped_eq_iff]

/-- The attributes that are read from the bytes of a message. -/
theorem attributes_iff (heap : ℕ → StunAttribute) {mem : ℕ → UInt8} {attrs : List StunAttribute}
    {n : ℕ} (h : slice mem STUN_HEADER_LEN n = attrs.flatMap StunAttribute.written)
    (header : StunHeader) :
    (∃ s, (stunReadMessageArributes heap mem n ⟨STUN_HEADER_LEN, .create header⟩).2 =
        .returned 0 s ∧ s.msg.attributes = attrs) ↔
      (∀ attr ∈ attrs, htons attr.attr_type = attr.attr_type) ∧ attrs.length ≤ 30 := by
  have hrounds : STUN_HEADER_LEN + n - STUN_HEADER_LEN < n + 1 := by omega
  have hwhole : Whole (attrs.map StunAttribute.swapped)
      (slice mem STUN_HEADER_LEN (STUN_HEADER_LEN + n - STUN_HEADER_LEN)) := by
    rw [Nat.add_sub_cancel_left, h]
    exact whole_written attrs
  have hread := fun hle => readLoop_of_whole heap _ hrounds (holds_create header) hwhole hle
  rw [List.length_nil, List.length_map, Nat.zero_add] at hread
  rw [stunReadMessageArributes_eq, ← map_swapped_eq_iff]
  constructor
  · rintro ⟨s, hs, hattrs⟩
    obtain ⟨l, hl⟩ := holds_of_readLoop _ (holds_create header) hs
    have hle : attrs.length ≤ 30 := by
      rw [← hattrs, hl.attributes]
      exact hl.length_le
    obtain ⟨s', hs', hholds⟩ := hread hle
    rw [hs] at hs'
    cases hs'
    have hswapped := hholds.attributes
    rw [hattrs, List.nil_append] at hswapped
    exact ⟨hswapped.symm, hle⟩
  · rintro ⟨hswapped, hle⟩
    obtain ⟨s, hs, hholds⟩ := hread hle
    refine ⟨s, hs, ?_⟩
    rw [hholds.attributes, List.nil_append, hswapped]

/-- The length in the header is the length of what follows. -/
theorem SentMessage.msg_len_eq (m : SentMessage) (mem : ℕ → UInt8) :
    (stunWriteMessage mem m.msg).msg.header.msg_len.toNat =
      (m.msg.attributes.flatMap StunAttribute.written).length := by
  show (UInt16.ofNat (messageLength m.msg.attributes - STUN_HEADER_LEN)).toNat = _
  rw [messageLength_eq, Nat.add_sub_cancel_left, length_written, UInt16.toNat_ofNat',
    Nat.mod_eq_of_lt m.total_lt]

/-- **A message is read back, and aligned, exactly where the bytes of the method and of each
type are equal, the lengths are even, and there are at most 30 attributes.** -/
theorem messageRoundTrips_iff (heap : ℕ → StunAttribute) (mem mem' : ℕ → UInt8) (m : SentMessage) :
    MessageRoundTrips heap mem mem' m ↔
      (htons m.msg.header.method = m.msg.header.method ∧
        m.msg.header.method &&& 0xfeef = m.msg.header.method) ∧
      (∀ attr ∈ m.msg.attributes, htons attr.attr_type = attr.attr_type ∧
        attr.value_len.toNat % 2 = 0) ∧
      m.msg.attributes.length ≤ 30 := by
  set header := (stunWriteMessage mem m.msg).msg.header with hheader
  have hself := slice_overlay_self mem' 0 (stunWriteMessage mem m.msg).bytes
  rw [bytes_stunWriteMessage] at hself
  obtain ⟨hfront, hbody, -⟩ := slice_eq_append hself
  rw [length_headerBytes] at hfront hbody
  rw [← bytes_stunWriteMessage] at hfront hbody
  rw [Nat.zero_add, ← m.msg_len_eq mem] at hbody
  have hread := stunReadMessageHeader_eq hfront
  have hattrs := attributes_iff heap hbody
  constructor
  · rintro ⟨haligned, hmethod, -, -, hattributes⟩
    rw [hread] at hmethod
    obtain ⟨htypes, hle⟩ := (hattrs m.msg.header).mp (hattributes m.msg.header)
    have heven := (aligned_iff mem _).mp haligned
    exact ⟨(masked_htons_iff _ _).mp hmethod, fun attr h => ⟨htypes attr h, heven attr h⟩, hle⟩
  · rintro ⟨hmethod, hall, hle⟩
    refine ⟨(aligned_iff mem _).mpr fun attr h => (hall attr h).2, ?_, ?_, ?_, fun header => ?_⟩
    · rw [hread]
      exact (masked_htons_iff _ _).mpr hmethod
    · rw [hread]
      rfl
    · rw [hread]
    · exact (hattrs header).mpr ⟨fun attr h => (hall attr h).1, hle⟩

/-- The method of the code's own request comes back as another one. -/
theorem not_messageRoundTrips_bind :
    ¬ MessageRoundTrips (fun _ => ⟨0, 0, [], rfl⟩) (fun _ => 0) (fun _ => 0)
      ⟨.create ⟨0, 1, 0, 0, List.replicate 12 0, rfl⟩, fun _ => rfl, by decide⟩ := by
  intro h
  exact absurd h.method (by decide)

end SniffDogSniff
