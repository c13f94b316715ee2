import SniffDogSniff.Common.SdsBytesBuf
import SniffDogSniff.Net.NetUtil
import Mathlib.Data.List.Induction

/-!
# Replies of the Tor controller

`read_reply` works on the reply in its buffer: it takes out the carriage returns, puts
blanks for the line feeds, and keeps a pointer to the start of the last line.  There it
looks for a number; a line without one leaves the variable at the code for success.

## Main definitions

* `scanInt` — `sscanf` for an `int`.
* `replyStep`, `replyLoop`, `readReply` — the function on the memory of its buffer.
* `clean`, `lastLine` — the text of a reply, and its last line.
* `ReadsReply` — what the callers rely on.

## Main results

* `compacted_replyLoop` — the loop leaves the text, and the pointer at the last line.
* `readsReply_iff` — **the function does its work exactly where the text leaves room for
  the terminator and the last line begins with the code or with another number that is
  not 0.**
-/

namespace SniffDogSniff

open SdsBytesBuf

def TOR_CODE_SUCCESS : ℤ := 250

/-- The size of the buffers of the callers. -/
def REPLY_SIZE : ℕ := 2048

/-! ### The function -/

def isdigit (c : UInt8) : Bool := decide (48 ≤ c ∧ c ≤ 57)

/-- The digits behind a sign. -/
def scanDigits (s : Bytes) : Option ℕ :=
  match s with
  | c :: _ => if isdigit c then some (leadingDigits 0 s) else none
  | [] => none

/-- The number that `sscanf` finds for `%d`, if there is one. -/
def scanInt (s : Bytes) : Option ℤ :=
  match s.dropWhile isspace with
  | 45 :: s => (scanDigits s).map fun n => -(n : ℤ)
  | 43 :: s => (scanDigits s).map fun n => (n : ℤ)
  | s => (scanDigits s).map fun n => (n : ℤ)

/-- The numbers that an `int` can hold. -/
def FitsInt (n : ℤ) : Prop := -2 ^ 31 ≤ n ∧ n < 2 ^ 31

instance (n : ℤ) : Decidable (FitsInt n) := inferInstanceAs (Decidable (_ ∧ _))

/-- The value that is returned for the line at `resultp`.  For a number that does not fit
into `errcode`, the conversion is not defined. -/
def replyCode (line : Bytes) : Option ℤ :=
  match scanInt line with
  | none => some 0
  | some n => if FitsInt n then some (if n ≠ TOR_CODE_SUCCESS then n else 0) else none

/-- The buffer and the variables of the loop. -/
structure ReplyBuffer where
  mem : ℕ → UInt8
  v : ℕ
  /-- How far `resultp` is into the buffer. -/
  resultp : ℕ
  /-- The places that have been written to. -/
  written : List ℕ

/-- `reply_buf[v++] = c`. -/
def ReplyBuffer.put (b : ReplyBuffer) (c : UInt8) : ReplyBuffer where
  mem := overlay b.mem b.v [c]
  v := b.v + 1
  resultp := b.resultp
  written := b.v :: b.written

/-- A round of the loop. -/
def replyStep (reply_sz i : ℕ) (b : ReplyBuffer) : ReplyBuffer :=
  if b.mem i = 10 then
    let b := b.put 32
    if i < reply_sz - 1 then { b with resultp := b.v } else b
  else if b.mem i ≠ 13 then b.put (b.mem i)
  else b

/-- The first `n` rounds. -/
def replyLoop (reply_sz : ℕ) (b : ReplyBuffer) : ℕ → ReplyBuffer
  | 0 => b
  | n + 1 => replyStep reply_sz n (replyLoop reply_sz b n)

/-- What a call of `read_reply` leaves and returns. -/
structure ReplyRun where
  mem : ℕ → UInt8
  written : List ℕ
  ret : Option ℤ

/-- `read_reply`, where `recv` has put the reply into the buffer. -/
def readReply (mem : ℕ → UInt8) (reply : Bytes) : ReplyRun :=
  let b := replyLoop reply.length ⟨overlay mem 0 reply, 0, 0, []⟩ reply.length
  let mem := overlay b.mem b.v [0]
  { mem := mem
    written := b.v :: b.written
    ret := replyCode (cstr (slice mem b.resultp (b.v + 1 - b.resultp))) }

/-! ### What it is there for -/

/-- A reply that fits into the buffer. -/
structure TorReply where
  bytes : Bytes
  length_le : bytes.length ≤ REPLY_SIZE

/-- The text without carriage returns, and with blanks for line feeds. -/
def clean (s : Bytes) : Bytes := (s.filter (· ≠ 13)).map fun c => if c = 10 then 32 else c

/-- Where the last line starts; a line feed at the very end does not start one. -/
def lineStart (s : Bytes) : ℕ :=
  match strrchr 10 s with
  | none => 0
  | some i => i + 1

/-- The last line, as it is left in the buffer. -/
def lastLine (reply : Bytes) : Bytes := clean (reply.drop (lineStart reply.dropLast))

/-- The line begins with the status code 250. -/
def BeginsWithSuccess (text : Bytes) : Prop :=
  text.take 3 = [50, 53, 48] ∧ ∀ c, text[3]? = some c → isdigit c = false

/-- The buffer is not overrun, the text is left in it, and 0 is returned exactly for the
code for success. -/
structure ReadsReply (mem : ℕ → UInt8) (reply : TorReply) : Prop where
  inside : ∀ p ∈ (readReply mem reply.bytes).written, p < REPLY_SIZE
  text : slice (readReply mem reply.bytes).mem 0 ((clean reply.bytes).length + 1) =
    clean reply.bytes ++ [0]
  success : ∃ code, (readReply mem reply.bytes).ret = some code ∧
    (code = 0 ↔ BeginsWithSuccess (lastLine reply.bytes))

/-! ### Text -/

theorem clean_append (a b : Bytes) : clean (a ++ b) = clean a ++ clean b := by
  rw [clean, List.filter_append, List.map_append]
  rfl

theorem strrchr_append_singleton (c : UInt8) (s : Bytes) (x : UInt8) :
    strrchr c (s ++ [x]) = if x = c then some s.length else strrchr c s := by
  induction s with
  | nil => rfl
  | cons y s ih =>
    rw [List.cons_append, strrchr, ih, strrchr]
    by_cases hx : x = c
    · rw [if_pos hx, if_pos hx]
      rfl
    · rw [if_neg hx, if_neg hx]

theorem lineStart_append_singleton (s : Bytes) (x : UInt8) :
    lineStart (s ++ [x]) = if x = 10 then s.length + 1 else lineStart s := by
  rw [lineStart, strrchr_append_singleton]
  by_cases hx : x = 10
  · rw [if_pos hx, if_pos hx]
  · rw [if_neg hx, if_neg hx, lineStart]

/-! ### The loop -/

/-- The buffer after `n` rounds. -/
structure Compacted (reply : Bytes) (n : ℕ) (b : ReplyBuffer) : Prop where
  v_eq : b.v = (clean (reply.take n)).length
  text : slice b.mem 0 b.v = clean (reply.take n)
  rest : ∀ i c, n ≤ i → reply[i]? = some c → b.mem i = c
  resultp_eq : b.resultp = (clean (reply.take (lineStart (reply.dropLast.take n)))).length
  written_lt : ∀ p ∈ b.written, p < b.v

theorem slice_overlay_append (mem : ℕ → UInt8) (p : ℕ) (bs : Bytes) :
    slice (overlay mem p bs) 0 (p + bs.length) = slice mem 0 p ++ bs := by
  rw [slice_add, slice_overlay_of_le mem (Nat.zero_add p).le, Nat.zero_add, slice_overlay_self]

theorem length_clean_le (s : Bytes) : (clean s).length ≤ s.length := by
  rw [clean, List.length_map]
  exact List.length_filter_le _ _

/-- One more character of the text. -/
theorem Compacted.put {reply : Bytes} {n : ℕ} {b : ReplyBuffer} {c d : UInt8}
    (h : Compacted reply n b) (hc : reply[n]? = some c) (hd : clean [c] = [d]) :
    (b.put d).v = (clean (reply.take (n + 1))).length ∧
      slice (b.put d).mem 0 (b.put d).v = clean (reply.take (n + 1)) ∧
      (∀ i c, n + 1 ≤ i → reply[i]? = some c → (b.put d).mem i = c) ∧
      ∀ p ∈ (b.put d).written, p < (b.put d).v := by
  obtain ⟨hlt, hget⟩ := List.getElem?_eq_some_iff.mp hc
  have htake : clean (reply.take (n + 1)) = clean (reply.take n) ++ [d] := by
    rw [List.take_succ_eq_append_getElem hlt, hget, clean_append, hd]
  have hv : b.v ≤ n := by
    rw [h.v_eq]
    exact (length_clean_le _).trans (List.length_take_le _ _)
  refine ⟨?_, ?_, fun i c hi hic => ?_, fun p hp => ?_⟩
  · rw [htake, List.length_append, ← h.v_eq]
    rfl
  · rw [htake, ← h.text]
    exact slice_overlay_append b.mem b.v [d]
  · have hbehind : ([d] : Bytes)[i - b.v]? = none := List.getElem?_eq_none (by simp; omega)
    show overlay b.mem b.v [d] i = c
    rw [overlay, if_pos (by omega), hbehind]
    exact h.rest i c (by omega) hic
  · rcases List.mem_cons.mp hp with rfl | hp
    · exact Nat.lt_succ_self _
    · exact Nat.lt_succ_of_lt (h.written_lt p hp)

/-- The start of the last line, one character further on. -/
theorem lineStart_take_succ {reply : Bytes} {n : ℕ} {c : UInt8} (hc : reply[n]? = some c) :
    lineStart (reply.dropLast.take (n + 1)) =
      if c = 10 ∧ n < reply.length - 1 then n + 1 else lineStart (reply.dropLast.take n) := by
  by_cases hn : n < reply.length - 1
  · have hlt : n < reply.dropLast.length := by rwa [List.length_dropLast]
    have hget : reply.dropLast[n] = c := by
      rw [List.getElem_dropLast]
      exact (List.getElem?_eq_some_iff.mp hc).2
    rw [List.take_succ_eq_append_getElem hlt, hget, lineStart_append_singleton, List.length_take,
      Nat.min_eq_left hlt.le]
    simp [hn]
  · have hle : reply.dropLast.length ≤ n := by
      rw [List.length_dropLast]
      omega
    rw [if_neg (fun h => hn h.2), List.take_of_length_le hle,
      List.take_of_length_le (Nat.le_succ_of_le hle)]

/-- **A round keeps the text and the pointer.** -/
theorem Compacted.step {reply : Bytes} {n : ℕ} {b : ReplyBuffer} {c : UInt8}
    (h : Compacted reply n b) (hc : reply[n]? = some c) :
    Compacted reply (n + 1) (replyStep reply.length n b) := by
  have hmem : b.mem n = c := h.rest n c le_rfl hc
  have hline := lineStart_take_succ hc
  rw [replyStep, hmem]
  by_cases hfeed : c = 10
  · obtain ⟨hv, htext, hrest, hwritten⟩ := h.put (d := 32) hc (by rw [hfeed]; rfl)
    rw [if_pos hfeed]
    simp only
    split
    · next hlast =>
      refine ⟨hv, htext, hrest, ?_, hwritten⟩
      rw [hline, if_pos ⟨hfeed, hlast⟩]
      exact hv
    · next hlast =>
      refine ⟨hv, htext, hrest, ?_, hwritten⟩
      rw [hline, if_neg fun hboth => hlast hboth.2]
      exact h.resultp_eq
  rw [if_neg fun hboth => hfeed hboth.1] at hline
  rw [if_neg hfeed]
  by_cases hreturn : c = 13
  · have htake : clean (reply.take (n + 1)) = clean (reply.take n) := by
      obtain ⟨hlt, hget⟩ := List.getElem?_eq_some_iff.mp hc
      rw [List.take_succ_eq_append_getElem hlt, hget, clean_append, hreturn]
      exact List.append_nil _
    rw [if_neg (not_not.mpr hreturn)]
    refine ⟨?_, ?_, fun i c hi => h.rest i c (Nat.le_of_succ_le hi), ?_, h.written_lt⟩
    · rw [htake, h.v_eq]
    · rw [htake, h.text]
    · rw [hline, h.resultp_eq]
  · have hkept : clean [c] = [c] := by simp [clean, hfeed, hreturn]
    obtain ⟨hv, htext, hrest, hwritten⟩ := h.put hc hkept
    rw [if_pos hreturn]
    refine ⟨hv, htext, hrest, ?_, hwritten⟩
    rw [hline]
    exact h.resultp_eq

/-- **The loop leaves the text**, and the pointer at the last line. -/
theorem compacted_replyLoop (mem : ℕ → UInt8) (reply : Bytes) :
    ∀ n ≤ reply.length,
      Compacted reply n (replyLoop reply.length ⟨overlay mem 0 reply, 0, 0, []⟩ n) := by
  intro n
  induction n with
  | zero =>
    intro _
    refine ⟨rfl, rfl, fun i c _ hc => ?_, rfl, fun p hp => absurd hp List.not_mem_nil⟩
    show overlay mem 0 reply i = c
    rw [overlay, if_pos (Nat.zero_le i), Nat.sub_zero, hc, Option.getD_some]
  | succ n ih =>
    intro hn
    rw [replyLoop]
    exact (ih (Nat.le_of_succ_le hn)).step (List.getElem?_eq_getElem hn)

/-! ### The code -/

/-- What `read_reply` leaves in the buffer, where it writes, and which line it looks at. -/
theorem readReply_spec (mem : ℕ → UInt8) (reply : Bytes) :
    slice (readReply mem reply).mem 0 ((clean reply).length + 1) = clean reply ++ [0] ∧
      (clean reply).length ∈ (readReply mem reply).written ∧
      (∀ p ∈ (readReply mem reply).written, p ≤ (clean reply).length) ∧
      (readReply mem reply).ret = replyCode (cstr (lastLine reply ++ [0])) := by
  have h := compacted_replyLoop mem reply reply.length le_rfl
  generalize hb : replyLoop reply.length ⟨overlay mem 0 reply, 0, 0, []⟩ reply.length = b at h
  have hv := h.v_eq
  have htext := h.text
  have hresultp := h.resultp_eq
  rw [List.take_length] at hv htext
  have hlen : reply.dropLast.length ≤ reply.length := by
    rw [List.length_dropLast]
    exact Nat.sub_le _ _
  rw [List.take_of_length_le hlen] at hresultp
  have hall : slice (overlay b.mem b.v [0]) 0 (b.v + 1) = clean reply ++ [0] := by
    rw [← htext]
    exact slice_overlay_append b.mem b.v [0]
  have hsplit : clean reply = clean (reply.take (lineStart reply.dropLast)) ++ lastLine reply := by
    rw [lastLine, ← clean_append, List.take_append_drop]
  have hline : slice (overlay b.mem b.v [0]) b.resultp (b.v + 1 - b.resultp) =
      lastLine reply ++ [0] := by
    have hle : b.resultp ≤ b.v + 1 := by
      rw [hv, hresultp, hsplit, List.length_append]
      omega
    have hsum : b.v + 1 = b.resultp + (b.v + 1 - b.resultp) := by omega
    rw [hsum, slice_add, Nat.zero_add, hsplit, List.append_assoc] at hall
    refine (List.append_inj hall ?_).2
    rw [length_slice, hresultp]
  rw [readReply, hb, ← hv]
  refine ⟨hall, List.mem_cons_self, fun p hp => ?_, ?_⟩
  · rcases List.mem_cons.mp hp with rfl | hp
    · exact le_rfl
    · exact (h.written_lt p hp).le
  · simp only [hline]

theorem cstr_append_nul (s behind : Bytes) : cstr (s ++ 0 :: behind) = cstr s := by
  induction s with
  | nil => rfl
  | cons c s ih =>
    rw [cstr, cstr] at ih ⊢
    rw [List.cons_append, List.takeWhile_cons, List.takeWhile_cons, ih]

/-- The number of a line that begins with the code. -/
theorem scanInt_of_beginsWithSuccess {text : Bytes} (h : BeginsWithSuccess text) :
    scanInt (cstr text) = some 250 := by
  obtain ⟨hfront, hnext⟩ := h
  have htext : text = 50 :: 53 :: 48 :: text.drop 3 := by
    conv_lhs => rw [← List.take_append_drop 3 text, hfront]
    rfl
  have hcstr : cstr text = 50 :: 53 :: 48 :: cstr (text.drop 3) := by
    conv_lhs => rw [htext]
    rfl
  -- the number ends where the digits do
  have hend : leadingDigits 250 (cstr (text.drop 3)) = 250 := by
    rw [cstr]
    cases hdrop : text.drop 3 with
    | nil => rfl
    | cons c rest =>
      have hc : text[3]? = some c := by
        rw [← List.head?_drop, hdrop]
        rfl
      have hdigit := hnext c hc
      rw [isdigit, decide_eq_false_iff_not] at hdigit
      rw [List.takeWhile_cons]
      split
      · rw [leadingDigits, if_neg hdigit]
      · rfl
  have hscan : scanInt (50 :: 53 :: 48 :: cstr (text.drop 3)) =
      some (leadingDigits 250 (cstr (text.drop 3)) : ℤ) := rfl
  rw [hcstr, hscan, hend]
  rfl

/-- **When the code that is returned tells success.** -/
theorem replyCode_iff (line : Bytes) :
    (∃ code, replyCode (cstr line) = some code ∧ (code = 0 ↔ BeginsWithSuccess line)) ↔
      BeginsWithSuccess line ∨
        ∃ n, scanInt (cstr line) = some n ∧ FitsInt n ∧ n ≠ 0 ∧ n ≠ TOR_CODE_SUCCESS := by
  rw [replyCode]
  by_cases hbegins : BeginsWithSuccess line
  · rw [scanInt_of_beginsWithSuccess hbegins]
    exact iff_of_true ⟨0, rfl, iff_of_true rfl hbegins⟩ (Or.inl hbegins)
  cases hscan : scanInt (cstr line) with
  | none => simp [hbegins]
  | some n =>
    by_cases hfits : FitsInt n
    · by_cases hcode : n = TOR_CODE_SUCCESS
      · simp [hbegins, hcode]
      · simp [hbegins, hfits, hcode]
    · simp [hbegins, hfits]

/-- **`read_reply` does its work if and only if the text leaves room for the terminator,
and its last line begins with 250 or with another number, which fits an `int` and is not
0.** -/
theorem readsReply_iff (mem : ℕ → UInt8) (reply : TorReply) :
    ReadsReply mem reply ↔ (clean reply.bytes).length < REPLY_SIZE ∧
      (BeginsWithSuccess (lastLine reply.bytes) ∨
        ∃ n, scanInt (cstr (lastLine reply.bytes)) = some n ∧ FitsInt n ∧ n ≠ 0 ∧
          n ≠ TOR_CODE_SUCCESS) := by
  obtain ⟨htext, hlast, hwritten, hret⟩ := readReply_spec mem reply.bytes
  rw [cstr_append_nul] at hret
  rw [← replyCode_iff, ← hret]
  constructor
  · intro h
    exact ⟨h.inside _ hlast, h.success⟩
  · rintro ⟨hlt, hsuccess⟩
    exact ⟨fun p hp => (hwritten p hp).trans_lt hlt, htext, hsuccess⟩

/-- An empty reply counts as a success. -/
theorem not_readsReply_empty : ¬ ReadsReply (fun _ => 0) ⟨[], Nat.zero_le _⟩ := by
  intro h
  obtain ⟨code, hcode, hiff⟩ := h.success
  have hzero : code = 0 := (Option.some.inj hcode).symm
  exact absurd (hiff.mp hzero).1 (by decide)

end SniffDogSniff
