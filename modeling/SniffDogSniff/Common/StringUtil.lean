import SniffDogSniff.Base.LittleEndian
import Mathlib.Data.List.TakeWhile

/-!
# Strings

What the string functions make of a string of bytes.  `strchr` finds the
terminator as well, so a NUL counts as a member of every set of characters.

## Main definitions

* `cstr` — a string up to its first NUL; `CString`, the bytes of a string, none of them
  zero.
* `StringUtil.find` — the first place of one string in another.
* `StringUtil.split`, `StringUtil.trim`, `StringUtil.toLower`, `StringUtil.tokenize`.

## Main results

* `split_intercalate` — it takes a joined string apart.
-/

namespace SniffDogSniff

/-- The string that a `const char *` to the bytes stands for. -/
def cstr (s : Bytes) : Bytes := s.takeWhile (· ≠ 0)

theorem cstr_of_not_mem {s : Bytes} (h : 0 ∉ s) : cstr s = s := by
  apply List.takeWhile_eq_self_iff.mpr
  intro c hc
  simpa using ne_of_mem_of_not_mem hc h

/-- What is in front of a byte that a string does not have. -/
theorem takeWhile_append_cons {s : Bytes} {b : UInt8} (hs : b ∉ s) (rest : Bytes) :
    (s ++ b :: rest).takeWhile (· ≠ b) = s := by
  have hall : ∀ c ∈ s, decide (c ≠ b) = true := fun c hc => by simpa using ne_of_mem_of_not_mem hc hs
  rw [List.takeWhile_append_of_pos hall, List.takeWhile_cons, if_neg (by simp), List.append_nil]

/-- What is behind the bytes that a test holds of. -/
theorem drop_length_takeWhile (p : UInt8 → Bool) (l r : Bytes) :
    (l ++ r).drop (l.takeWhile p).length = l.dropWhile p ++ r := by
  have hsplit : l ++ r = l.takeWhile p ++ (l.dropWhile p ++ r) := by
    rw [← List.append_assoc, List.takeWhile_append_dropWhile]
  rw [hsplit, List.drop_left]

theorem cstr_append_zero {s : Bytes} (h : 0 ∉ s) (behind : Bytes) : cstr (s ++ 0 :: behind) = s :=
  takeWhile_append_cons h behind

theorem zero_not_mem_cstr (mem : Bytes) : 0 ∉ cstr mem := by
  intro h
  have hzero := List.mem_takeWhile_imp h
  simp at hzero

/-- The bytes of a string in front of its terminator. -/
structure CString where
  bytes : Bytes
  nonzero : 0 ∉ bytes

namespace CString

/-- The string in memory, with what lies behind it. -/
def inMemory (s : CString) (behind : Bytes) : Bytes := s.bytes ++ 0 :: behind

/-- The string at the start of a buffer. -/
def ofMemory (mem : Bytes) : CString := ⟨cstr mem, zero_not_mem_cstr mem⟩

end CString

namespace StringUtil

/-- `strchr(set, c) != nullptr`. -/
def strchr (set : Bytes) (c : UInt8) : Bool := c == 0 || set.contains c

/-- The first place of `needle` in a string. -/
def find (needle : Bytes) : Bytes → Option ℕ
  | [] => if needle = [] then some 0 else none
  | c :: s => if needle.isPrefixOf (c :: s) then some 0 else (find needle s).map (· + 1)

/-- The loop of `split`, on what lies behind `begin`. -/
def splitLoop (delim : Bytes) : ℕ → Bytes → Option (List Bytes)
  | 0, _ => none
  | n + 1, rest =>
      match find delim rest with
      | none => some [rest]
      | some i => (splitLoop delim n (rest.drop (i + delim.length))).map (rest.take i :: ·)

/-- `split`; every round takes at least one byte away, unless the delimiter is
empty, for which the source does not return. -/
def split (str delim : Bytes) : Option (List Bytes) := splitLoop delim (str.length + 1) str

/-! ### Joined pieces -/

/-- Nothing is found where the string starts with something else all along. -/
theorem find_append {needle : Bytes} (b : Bytes) :
    ∀ a : Bytes, (∀ i < a.length, ¬ needle <+: (a ++ b).drop i) →
      find needle (a ++ b) = (find needle b).map (· + a.length) := by
  intro a
  induction a with
  | nil => intro _; simp
  | cons c a ih =>
    intro h
    have hhead : ¬ needle <+: c :: (a ++ b) := h 0 (Nat.zero_lt_succ _)
    have htail := ih fun i hi => h (i + 1) (Nat.succ_lt_succ hi)
    rw [List.cons_append, find, if_neg (by simpa using hhead), htail, Option.map_map]
    congr 1

theorem find_self_append (needle b : Bytes) : find needle (needle ++ b) = some 0 := by
  cases needle with
  | nil => cases b <;> rfl
  | cons c needle => rw [List.cons_append, find, if_pos (by simp)]

/-- A needle is found behind a string without its first character. -/
theorem find_append_of_not_mem {c : UInt8} (needle : Bytes) {a : Bytes} (h : c ∉ a) (b : Bytes) :
    find (c :: needle) (a ++ (c :: needle ++ b)) = some a.length := by
  rw [find_append, find_self_append, Option.map_some, Nat.zero_add]
  intro i hi hprefix
  rw [List.drop_append_of_le_length hi.le, List.drop_eq_getElem_cons hi, List.cons_append] at hprefix
  exact h ((List.cons_prefix_cons.mp hprefix).1 ▸ List.getElem_mem hi)

theorem find_of_not_mem {c : UInt8} (needle : Bytes) {a : Bytes} (h : c ∉ a) :
    find (c :: needle) a = none := by
  have hnone : ∀ i < a.length, ¬ c :: needle <+: (a ++ []).drop i := by
    intro i hi hprefix
    rw [List.append_nil, List.drop_eq_getElem_cons hi] at hprefix
    exact h ((List.cons_prefix_cons.mp hprefix).1 ▸ List.getElem_mem hi)
  have hfind := find_append [] a hnone
  rwa [List.append_nil] at hfind

/-- **`split` takes a joined string apart**, if the first character of the delimiter
occurs in no piece. -/
theorem split_intercalate {c : UInt8} (delim : Bytes) {pieces : List Bytes} (hne : pieces ≠ [])
    (h : ∀ p ∈ pieces, c ∉ p) :
    split ((c :: delim).intercalate pieces) (c :: delim) = some pieces := by
  -- every piece but the last takes a round and at least one byte
  suffices hloop : ∀ (pieces : List Bytes), pieces ≠ [] → (∀ p ∈ pieces, c ∉ p) → ∀ n,
      ((c :: delim).intercalate pieces).length < n →
        splitLoop (c :: delim) n ((c :: delim).intercalate pieces) = some pieces by
    exact hloop pieces hne h _ (Nat.lt_succ_self _)
  intro pieces
  induction pieces with
  | nil => intro hne; exact absurd rfl hne
  | cons p pieces ih =>
    intro _ hmem n hlt
    cases n with
    | zero => exact absurd hlt (Nat.not_lt_zero _)
    | succ n =>
      have hp : c ∉ p := hmem p List.mem_cons_self
      by_cases hlast : pieces = []
      · subst hlast
        rw [List.intercalate_singleton, splitLoop, find_of_not_mem delim hp]
      · rw [List.intercalate_cons_of_ne_nil hlast, List.append_assoc] at hlt ⊢
        simp only [List.length_append, List.length_cons] at hlt
        have hrest := ih hlast (fun q hq => hmem q (List.mem_cons_of_mem _ hq)) n (by omega)
        rw [splitLoop, find_append_of_not_mem delim hp]
        simp only
        rw [← List.drop_drop, List.drop_left, List.drop_left, hrest, List.take_left]
        rfl

/-! ### Trimming -/

/-- The first place of a character that is not in the set. -/
def startpos (cutset : Bytes) : Bytes → Option ℕ
  | [] => none
  | c :: s => if strchr cutset c then (startpos cutset s).map (· + 1) else some 0

/-- The last place of a character that is not in the set. -/
def endpos (cutset : Bytes) : Bytes → Option ℕ
  | [] => none
  | c :: s =>
      match endpos cutset s with
      | some i => some (i + 1)
      | none => if strchr cutset c then none else some 0

/-- `trim`.  Where every character is in the set, the source goes on looking below
the string; what it finds there does not change the result. -/
def trim (target cutset : Bytes) : Bytes :=
  if cutset = [] then target
  else
    match startpos cutset target, endpos cutset target with
    -- the last place is not in front of the first one
    | some i, some j => (target.drop i).take (j - i + 1)
    | _, _ => []

/-- `tolower` in the C locale. -/
def tolower (c : UInt8) : UInt8 := if 65 ≤ c ∧ c ≤ 90 then c + 32 else c

def toLower (s : Bytes) : Bytes := s.map tolower

/-- The loop of `tokenize`, on what lies behind `i`; every round takes at least
one byte away. -/
def tokenizeLoop (delimsset cutset : Bytes) : ℕ → Bytes → List Bytes
  | 0, _ => []
  | n + 1, s =>
      match s.dropWhile (strchr delimsset) with
      | [] => []
      | c :: s =>
          trim ((c :: s).takeWhile fun c => !strchr delimsset c) cutset ::
            tokenizeLoop delimsset cutset n ((c :: s).dropWhile fun c => !strchr delimsset c)

def tokenize (str delimsset cutset : Bytes) : List Bytes :=
  tokenizeLoop delimsset cutset str.length (toLower str)

/-- Space, newline and carriage return. -/
def wordDelims : Bytes := [32, 10, 13]

/-- The punctuation that is trimmed off a word: stop, colon, comma, semicolon, the
six brackets, hash and at sign. -/
def wordCutset : Bytes := [46, 58, 44, 59, 40, 41, 91, 93, 123, 125, 35, 64]

/-- The text "A cat, (B)!". -/
example : tokenize [65, 32, 99, 97, 116, 44, 32, 40, 66, 41, 33] wordDelims wordCutset =
    [[97], [99, 97, 116], [98, 41, 33]] := by decide

end StringUtil

end SniffDogSniff
