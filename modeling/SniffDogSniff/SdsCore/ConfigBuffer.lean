import SniffDogSniff.Common.StringUtil
import Mathlib.Data.List.Basic

/-!
# The line buffer

The parser of the configuration file reads it in pieces of a buffer: a piece ends with a
line or where the buffer is full.  It works on the piece in place: it cuts it at a `#`,
trims it, and takes it for the name of a section, or for a key and a value.

`strlrtrim` leaves trailing blanks behind: its loop looks at one and the same byte.  Of
an empty string this is the byte in front, and if that one is a blank it is overwritten.

## Main definitions

* `fgets`, `pieces` — the pieces of a text.
* `strlrtrim`; `trimmed` — what is left of a string.
* `Entry` — what a line can give; `parseBuf` — what becomes of a piece.

## Main results

* `pieces_append`, `pieces_line` — a text falls into the pieces of its lines.
* `strlrtrim_of_ne_nil` — **all blanks go in front, and one behind.**
* `parseBuf_eq_skipped_iff`, `parseBuf_eq_header_iff`, `parseBuf_eq_value_iff` — when a
  piece is skipped, or gives a section or a value.
-/

namespace SniffDogSniff

/-! ### Pieces -/

def newline : UInt8 := 10

def hashMark : UInt8 := 35

def equalsSign : UInt8 := 61

def leftBracket : UInt8 := 91

def rightBracket : UInt8 := 93

/-- The bytes that `fgets` puts into `buf`, which has 512 of them, in front of the NUL. -/
def BUF_ROOM : ℕ := 511

/-- `fgets` for at most some bytes: those that it reads, and those that are left. -/
def fgets : ℕ → Bytes → Bytes × Bytes
  | 0, s => ([], s)
  | _ + 1, [] => ([], [])
  | n + 1, b :: s =>
      if b = newline then ([b], s) else (b :: (fgets n s).1, (fgets n s).2)

theorem length_fgets_le (n : ℕ) (s : Bytes) : (fgets n s).2.length ≤ s.length := by
  induction n generalizing s with
  | zero => exact le_rfl
  | succ n ih =>
    cases s with
    | nil => exact le_rfl
    | cons b s =>
      rw [fgets]
      split
      · exact Nat.le_succ _
      · exact (ih s).trans (Nat.le_succ _)

/-- Something is read where there is room. -/
theorem length_fgets_succ_lt (n : ℕ) (b : UInt8) (s : Bytes) :
    (fgets (n + 1) (b :: s)).2.length < (b :: s).length := by
  rw [fgets]
  split
  · exact Nat.lt_succ_self _
  · exact Nat.lt_succ_of_le (length_fgets_le _ s)

theorem length_fgets_lt (b : UInt8) (s : Bytes) :
    (fgets BUF_ROOM (b :: s)).2.length < (b :: s).length :=
  length_fgets_succ_lt 510 b s

/-- The pieces that the calls of `fgets` read. -/
def pieces : Bytes → List Bytes
  | [] => []
  | b :: s => (fgets BUF_ROOM (b :: s)).1 :: pieces (fgets BUF_ROOM (b :: s)).2
termination_by s => s.length
decreasing_by exact length_fgets_lt b s

theorem pieces_of_ne_nil {s : Bytes} (h : s ≠ []) :
    pieces s = (fgets BUF_ROOM s).1 :: pieces (fgets BUF_ROOM s).2 := by
  cases s with
  | nil => exact absurd rfl h
  | cons b s => rw [pieces]

section

variable {line : Bytes} (hline : newline ∉ line)

include hline

/-- The buffer gets full in front of the end of the line. -/
theorem fgets_append_of_le {n : ℕ} (hn : n ≤ line.length) (rest : Bytes) :
    fgets n (line ++ rest) = (line.take n, line.drop n ++ rest) := by
  induction line generalizing n with
  | nil =>
    obtain rfl := Nat.le_zero.mp hn
    rfl
  | cons b line ih =>
    cases n with
    | zero => rfl
    | succ n =>
      rw [List.mem_cons, not_or] at hline
      rw [List.cons_append, fgets, if_neg (Ne.symm hline.1), ih hline.2 (Nat.le_of_succ_le_succ hn)]
      rfl

/-- The line ends in the buffer. -/
theorem fgets_newline {n : ℕ} (hn : line.length < n) (rest : Bytes) :
    fgets n (line ++ newline :: rest) = (line ++ [newline], rest) := by
  induction line generalizing n with
  | nil =>
    obtain ⟨n, rfl⟩ := Nat.exists_eq_succ_of_ne_zero (Nat.ne_of_gt hn)
    rfl
  | cons b line ih =>
    obtain ⟨n, rfl⟩ := Nat.exists_eq_succ_of_ne_zero (Nat.ne_of_gt (Nat.zero_lt_of_lt hn))
    rw [List.mem_cons, not_or] at hline
    rw [List.cons_append, fgets, if_neg (Ne.symm hline.1), ih hline.2 (Nat.lt_of_succ_lt_succ hn)]
    rfl

/-- The text ends in the buffer. -/
theorem fgets_end {n : ℕ} (hn : line.length ≤ n) : fgets n line = (line, []) := by
  induction line generalizing n with
  | nil => cases n <;> rfl
  | cons b line ih =>
    obtain ⟨n, rfl⟩ := Nat.exists_eq_succ_of_ne_zero (Nat.ne_of_gt (Nat.zero_lt_of_lt hn))
    rw [List.mem_cons, not_or] at hline
    rw [fgets, if_neg (Ne.symm hline.1), ih hline.2 (Nat.le_of_succ_le_succ hn)]

/-- **The pieces of a line and those of the rest.** -/
theorem pieces_append (rest : Bytes) :
    pieces (line ++ newline :: rest) = pieces (line ++ [newline]) ++ pieces rest := by
  induction hlen : line.length using Nat.strong_induction_on generalizing line with
  | _ k ih =>
    rw [pieces_of_ne_nil (by simp), pieces_of_ne_nil (s := line ++ [newline]) (by simp)]
    by_cases hn : BUF_ROOM ≤ line.length
    · rw [fgets_append_of_le hline hn, fgets_append_of_le hline hn]
      have hroom : BUF_ROOM = 511 := rfl
      have hlt : (line.drop BUF_ROOM).length < k := by
        rw [List.length_drop]
        omega
      rw [ih _ hlt (fun h => hline (List.mem_of_mem_drop h)) rfl]
      rfl
    · rw [fgets_newline hline (Nat.lt_of_not_le hn), fgets_newline hline (Nat.lt_of_not_le hn), pieces]
      rfl

/-- **The pieces of a line**, with its end. -/
theorem pieces_line {ending : Bytes} (hending : ending = [] ∨ ending = [newline])
    (hne : line ++ ending ≠ []) :
    pieces (line ++ ending) =
      (line ++ ending).take BUF_ROOM :: pieces ((line ++ ending).drop BUF_ROOM) := by
  rw [pieces_of_ne_nil hne]
  by_cases hn : BUF_ROOM ≤ line.length
  · rw [fgets_append_of_le hline hn, List.take_append_of_le_length hn,
      List.drop_append_of_le_length hn]
  have hlen : (line ++ ending).length ≤ BUF_ROOM := by
    rcases hending with rfl | rfl
    · simpa using Nat.le_of_not_le hn
    · rw [List.length_append, List.length_singleton]
      exact Nat.lt_of_not_le hn
  rw [List.take_of_length_le hlen, List.drop_of_length_le hlen]
  rcases hending with rfl | rfl
  · rw [List.append_nil, fgets_end hline (Nat.le_of_not_le hn)]
  · rw [fgets_newline hline (Nat.lt_of_not_le hn)]

end

/-! ### Trimming -/

/-- The blanks that are trimmed in front, space and tab. -/
def isBlank (b : UInt8) : Bool := b == 32 || b == 9

/-- Those that are trimmed behind. -/
def isTrailing (b : UInt8) : Bool := isBlank b || b == newline

/-- `strlrtrim`: what is left of the string, and of the string from the returned pointer
on; `none` where it writes to the byte in front of the string. -/
def strlrtrim (front : UInt8) (s : Bytes) : Option (Bytes × Bytes) :=
  match s.getLast? with
  | none => if isTrailing front then none else some ([], [])
  | some sep =>
      -- the first loop stops at `sep`; the second one ends when `sep` is overwritten
      let skip := min (s.takeWhile isBlank).length (s.length - 1)
      let left := if isTrailing sep then s.dropLast else s
      some (left, left.drop skip)

/-- The string without a trailing blank. -/
def dropTrailing (s : Bytes) : Bytes :=
  match s.getLast? with
  | none => []
  | some sep => if isTrailing sep then s.dropLast else s

/-- The string without a trailing blank, and without those in front. -/
def trimmed (s : Bytes) : Bytes := (dropTrailing s).dropWhile isBlank

theorem dropTrailing_concat (s : Bytes) (b : UInt8) :
    dropTrailing (s ++ [b]) = if isTrailing b then s else s ++ [b] := by
  rw [dropTrailing, List.getLast?_concat, List.dropLast_concat]

theorem prefix_dropTrailing (s : Bytes) : dropTrailing s <+: s := by
  rcases List.eq_nil_or_concat' s with rfl | ⟨l, b, rfl⟩
  · exact List.prefix_rfl
  · rw [dropTrailing_concat]
    split
    · exact List.prefix_append _ _
    · exact List.prefix_rfl

theorem trimmed_sublist (s : Bytes) : (trimmed s).Sublist s :=
  (List.dropWhile_sublist _).trans (prefix_dropTrailing s).sublist

/-- A byte that is no blank stops the loop over the blanks in front. -/
theorem dropWhile_append_of_not_isBlank (l r : Bytes) {b : UInt8} (hb : isBlank b = false) :
    (l ++ b :: r).dropWhile isBlank = l.dropWhile isBlank ++ b :: r := by
  rw [List.dropWhile_append]
  split
  · next hnil => rw [List.isEmpty_iff.mp hnil, List.dropWhile_cons, hb]; rfl
  · rfl

/-- One of the blanks behind a string is taken off. -/
theorem dropTrailing_append {w r : Bytes} (hw : w.getLast?.any (!isTrailing ·) = true)
    (hr : ∀ b ∈ r, isTrailing b = true) : dropTrailing (w ++ r) = w ++ r.dropLast := by
  rcases List.eq_nil_or_concat' r with rfl | ⟨r, b, rfl⟩
  · obtain ⟨l, b, rfl⟩ := (List.eq_nil_or_concat' w).resolve_left fun h => by simp [h] at hw
    rw [List.getLast?_concat, Option.any_some, Bool.not_eq_true'] at hw
    rw [List.append_nil, dropTrailing_concat, hw]
    simp
  · have hb := hr b (List.mem_append_right _ (List.mem_singleton_self b))
    rw [← List.append_assoc, dropTrailing_concat, if_pos hb, List.dropLast_concat]

theorem any_getLast?_append {w : Bytes} {p : UInt8 → Bool} (hw : w.getLast?.any p = true)
    (a : Bytes) : (a ++ w).getLast?.any p = true := by
  rw [List.getLast?_append]
  cases hlast : w.getLast? with
  | none => rw [hlast] at hw; cases hw
  | some b => rw [hlast] at hw; exact hw

/-- And all of those in front. -/
theorem trimmed_append {a w r : Bytes} (ha : ∀ b ∈ a, isBlank b = true)
    (hfirst : w.head?.any (!isBlank ·) = true) (hlast : w.getLast?.any (!isTrailing ·) = true)
    (hr : ∀ b ∈ r, isTrailing b = true) : trimmed (a ++ (w ++ r)) = w ++ r.dropLast := by
  rw [trimmed, ← List.append_assoc, dropTrailing_append (any_getLast?_append hlast a) hr,
    List.append_assoc, List.dropWhile_append_of_pos ha]
  cases w with
  | nil => cases hfirst
  | cons b w =>
    rw [List.head?_cons, Option.any_some, Bool.not_eq_true'] at hfirst
    rw [List.cons_append, List.dropWhile_cons, hfirst]
    rfl

/-- What is behind the blanks in front. -/
theorem drop_dropTrailing (l : Bytes) (b : UInt8) :
    (dropTrailing (l ++ [b])).drop (l.takeWhile isBlank).length = trimmed (l ++ [b]) := by
  rw [trimmed, dropTrailing_concat]
  split
  · have hdrop := drop_length_takeWhile isBlank l []
    rwa [List.append_nil, List.append_nil] at hdrop
  · next hb =>
    rw [isTrailing, Bool.or_eq_true, not_or] at hb
    rw [drop_length_takeWhile, dropWhile_append_of_not_isBlank l [] (by simpa using hb.1)]

/-- **`strlrtrim` takes all blanks off in front, and one behind.** -/
theorem strlrtrim_of_ne_nil (front : UInt8) {s : Bytes} (h : s ≠ []) :
    strlrtrim front s = some (dropTrailing s, trimmed s) := by
  obtain ⟨l, b, rfl⟩ := (List.eq_nil_or_concat' s).resolve_left h
  -- the blanks in front, without the last byte
  have hskip : min ((l ++ [b]).takeWhile isBlank).length ((l ++ [b]).length - 1) =
      (l.takeWhile isBlank).length := by
    have htake : (l ++ [b]).take l.length = l := List.take_left
    rw [List.length_append, List.length_singleton, Nat.add_sub_cancel, Nat.min_comm,
      ← List.length_take, List.take_takeWhile, htake]
  rw [strlrtrim, List.getLast?_concat, ← drop_dropTrailing]
  simp only [hskip, List.dropLast_concat, dropTrailing_concat]

/-! ### The parser -/

/-- What a line can give. -/
inductive Entry
  | header (name : Bytes)
  | value (key value : Bytes)
  deriving DecidableEq

/-- What becomes of a piece. -/
inductive Parsed
  | skipped
  | entry (e : Entry)
  | error (what : String)
  | undefined
  deriving DecidableEq

/-- The string in front of the first `#`. -/
def uncommented (buf : Bytes) : Bytes := (cstr buf).takeWhile (· ≠ hashMark)

theorem uncommented_take (buf : Bytes) (n : ℕ) :
    uncommented (buf.take n) = (uncommented buf).take n := by
  rw [uncommented, uncommented, cstr, cstr, ← List.take_takeWhile, ← List.take_takeWhile]

theorem uncommented_of_not_mem {s : Bytes} (h0 : 0 ∉ s) (hhash : hashMark ∉ s) :
    uncommented s = s := by
  rw [uncommented, cstr_of_not_mem h0, List.takeWhile_eq_self_iff]
  intro b hb
  simpa using ne_of_mem_of_not_mem hb hhash

theorem uncommented_append {s : Bytes} (h0 : 0 ∉ s) (hhash : hashMark ∉ s) (comment : Bytes) :
    uncommented (s ++ hashMark :: comment) = s := by
  have hall : ∀ (c : UInt8), c ∉ s → ∀ b ∈ s, decide (b ≠ c) = true :=
    fun c hc b hb => by simpa using ne_of_mem_of_not_mem hb hc
  rw [uncommented, cstr, List.takeWhile_append_of_pos (hall 0 h0), List.takeWhile_cons,
    if_pos (by decide), List.takeWhile_append_of_pos (hall hashMark hhash), List.takeWhile_cons,
    if_neg (by simp), List.append_nil]

/-- The string between the first brackets; where the closing one comes first, the string
behind the opening one. -/
def sectionName (s : Bytes) : Bytes :=
  let behind := (s.dropWhile (· ≠ leftBracket)).drop 1
  if rightBracket ∈ s.takeWhile (· ≠ leftBracket) then behind
  else behind.takeWhile (· ≠ rightBracket)

/-- The string behind the first `=`. -/
def behindEquals (s : Bytes) : Bytes := (s.dropWhile (· ≠ equalsSign)).drop 1

theorem sectionName_sublist (s : Bytes) : (sectionName s).Sublist s := by
  have hbehind : ((s.dropWhile (· ≠ leftBracket)).drop 1).Sublist s :=
    (List.drop_sublist _ _).trans (List.dropWhile_sublist _)
  rw [sectionName]
  split
  · exact hbehind
  · exact (List.takeWhile_sublist _).trans hbehind

theorem behindEquals_sublist (s : Bytes) : (behindEquals s).Sublist s :=
  (List.drop_sublist _ _).trans (List.dropWhile_sublist _)

/-- A string in a message. -/
def showBytes (s : Bytes) : String := String.ofList (s.map fun b => Char.ofNat b.toNat)

/-- The branch for a section. -/
def parseSection (lineno : ℕ) (s : Bytes) : Parsed :=
  if sectionName s = [] then .error s!"parse error: invalid section name at line {lineno}"
  else .entry (.header (sectionName s))

/-- The branch for a key and a value, where there is a `=`. -/
def parsePair (front : UInt8) (lineno : ℕ) (s : Bytes) : Parsed :=
  match strlrtrim front (s.takeWhile (· ≠ equalsSign)) with
  | none => .undefined
  | some (_, k) =>
    if k = [] then .error s!"parse error: invalid syntax at line {lineno}"
    else
      -- the byte in front of the value is the NUL that `=` was replaced by
      match strlrtrim 0 (behindEquals s) with
      | none => .undefined
      | some (_, v) =>
        if v = [] then
          let key := showBytes k
          .error s!"parse error: empty value for key \"{key}\" at line {lineno}"
        else .entry (.value k v)

/-- The body of the loop of `parse`, with the byte in front of the buffer. -/
def parseBuf (front : UInt8) (lineno : ℕ) (buf : Bytes) : Parsed :=
  match strlrtrim front (uncommented buf) with
  | none => .undefined
  | some (s, _) =>
    if s = [] then .skipped
    else if leftBracket ∈ s ∧ rightBracket ∈ s then parseSection lineno s
    else if equalsSign ∈ s then parsePair front lineno s
    else .error s!"parse error: invalid syntax at line {lineno}"

theorem trimmed_nil : trimmed [] = [] := rfl

/-- When the second branch gives a value. -/
theorem parsePair_eq_value_iff (front : UInt8) (lineno : ℕ) (s k v : Bytes) :
    parsePair front lineno s = .entry (.value k v) ↔
      (trimmed (s.takeWhile (· ≠ equalsSign)) = k ∧ k ≠ []) ∧
        trimmed (behindEquals s) = v ∧ v ≠ [] := by
  have hvalue : strlrtrim 0 (behindEquals s) =
      some (dropTrailing (behindEquals s), trimmed (behindEquals s)) := by
    by_cases hnil : behindEquals s = []
    · rw [hnil]
      rfl
    · exact strlrtrim_of_ne_nil 0 hnil
  rw [parsePair, hvalue]
  by_cases hkey : s.takeWhile (· ≠ equalsSign) = []
  · rw [hkey, trimmed_nil, strlrtrim]
    refine iff_of_false ?_ fun h => h.1.2 h.1.1.symm
    cases isTrailing front <;> simp
  · rw [strlrtrim_of_ne_nil front hkey]
    dsimp only
    split
    · next hk => exact iff_of_false (by simp) fun h => h.1.2 (h.1.1 ▸ hk)
    next hk =>
    split
    · next hv => exact iff_of_false (by simp) fun h => h.2.2 (h.2.1 ▸ hv)
    next hv =>
    rw [Parsed.entry.injEq, Entry.value.injEq]
    constructor
    · rintro ⟨rfl, rfl⟩
      exact ⟨⟨rfl, hk⟩, rfl, hv⟩
    · exact fun h => ⟨h.1.1, h.2.1⟩

theorem parsePair_ne (front : UInt8) (lineno : ℕ) (s : Bytes) :
    parsePair front lineno s ≠ .skipped ∧
      ∀ name, parsePair front lineno s ≠ .entry (.header name) := by
  rw [parsePair]
  repeat' split
  all_goals simp

theorem parseSection_eq_header_iff (lineno : ℕ) (s name : Bytes) :
    parseSection lineno s = .entry (.header name) ↔ sectionName s = name ∧ name ≠ [] := by
  rw [parseSection]
  split
  · next hnil => exact iff_of_false (by simp) fun h => h.2 (h.1 ▸ hnil)
  · next hne =>
    rw [Parsed.entry.injEq, Entry.header.injEq]
    exact ⟨fun h => ⟨h, h ▸ hne⟩, fun h => h.1⟩

theorem parseSection_ne (lineno : ℕ) (s : Bytes) :
    parseSection lineno s ≠ .skipped ∧ ∀ k v, parseSection lineno s ≠ .entry (.value k v) := by
  rw [parseSection]
  split <;> simp

/-- What is skipped: a string of one blank, and the empty one, unless there is a blank in
front of it. -/
def Skipped (front : UInt8) (buf : Bytes) : Prop :=
  (uncommented buf = [] ∧ isTrailing front = false) ∨
    ∃ b, uncommented buf = [b] ∧ isTrailing b = true

theorem dropTrailing_eq_nil_iff {s : Bytes} :
    dropTrailing s = [] ↔ s = [] ∨ ∃ b, s = [b] ∧ isTrailing b = true := by
  rcases List.eq_nil_or_concat' s with rfl | ⟨l, b, rfl⟩
  · exact iff_of_true rfl (Or.inl rfl)
  · rw [dropTrailing_concat]
    cases l with
    | nil => cases hb : isTrailing b <;> simp [hb]
    | cons c l => split <;> simp

theorem parseBuf_eq_skipped_iff (front : UInt8) (lineno : ℕ) (buf : Bytes) :
    parseBuf front lineno buf = .skipped ↔ Skipped front buf := by
  rw [parseBuf, Skipped]
  by_cases hnil : uncommented buf = []
  · rw [hnil, strlrtrim]
    cases isTrailing front <;> simp
  · rw [strlrtrim_of_ne_nil front hnil]
    dsimp only
    have hskipped : dropTrailing (uncommented buf) = [] ↔
        ∃ b, uncommented buf = [b] ∧ isTrailing b = true :=
      dropTrailing_eq_nil_iff.trans (or_iff_right hnil)
    rw [← hskipped, or_iff_right fun h => hnil h.1]
    split
    · next h => exact iff_of_true rfl h
    next h =>
    refine iff_of_false ?_ h
    split
    · exact (parseSection_ne _ _).1
    split
    · exact (parsePair_ne _ _ _).1
    · exact Parsed.noConfusion

/-- When a piece gives a section. -/
theorem parseBuf_eq_header_iff (front : UInt8) (lineno : ℕ) (buf name : Bytes) :
    parseBuf front lineno buf = .entry (.header name) ↔
      (leftBracket ∈ dropTrailing (uncommented buf) ∧
        rightBracket ∈ dropTrailing (uncommented buf)) ∧
      sectionName (dropTrailing (uncommented buf)) = name ∧ name ≠ [] := by
  rw [parseBuf]
  by_cases hnil : uncommented buf = []
  · rw [hnil, strlrtrim]
    refine iff_of_false ?_ fun h => (List.not_mem_nil h.1.1)
    cases isTrailing front <;> simp
  · rw [strlrtrim_of_ne_nil front hnil]
    dsimp only
    split
    · next h =>
      rw [h]
      exact iff_of_false (by simp) fun h => List.not_mem_nil h.1.1
    split
    · next h => rw [parseSection_eq_header_iff, and_iff_right h]
    next h =>
    refine iff_of_false ?_ fun h' => h h'.1
    split
    · exact (parsePair_ne _ _ _).2 name
    · simp

/-- When a piece gives a value. -/
theorem parseBuf_eq_value_iff (front : UInt8) (lineno : ℕ) (buf k v : Bytes) :
    parseBuf front lineno buf = .entry (.value k v) ↔
      ¬ (leftBracket ∈ dropTrailing (uncommented buf) ∧
        rightBracket ∈ dropTrailing (uncommented buf)) ∧
      equalsSign ∈ dropTrailing (uncommented buf) ∧
      (trimmed ((dropTrailing (uncommented buf)).takeWhile (· ≠ equalsSign)) = k ∧ k ≠ []) ∧
      trimmed (behindEquals (dropTrailing (uncommented buf))) = v ∧ v ≠ [] := by
  rw [parseBuf]
  by_cases hnil : uncommented buf = []
  · rw [hnil, strlrtrim]
    refine iff_of_false ?_ fun h => (List.not_mem_nil h.2.1)
    cases isTrailing front <;> simp
  · rw [strlrtrim_of_ne_nil front hnil]
    dsimp only
    split
    · next h =>
      rw [h]
      exact iff_of_false (by simp) fun h => List.not_mem_nil h.2.1
    split
    · next h => exact iff_of_false ((parseSection_ne _ _).2 k v) fun h' => h'.1 h
    next h =>
    rw [and_iff_right h]
    split
    · next heq => rw [parsePair_eq_value_iff, and_iff_right heq]
    · next heq => exact iff_of_false (by simp) fun h' => heq h'.1

/-- The strings of an entry have no NUL. -/
def Entry.Clean : Entry → Prop
  | .header name => 0 ∉ name
  | .value k v => 0 ∉ k ∧ 0 ∉ v

theorem not_mem_uncommented (buf : Bytes) : 0 ∉ uncommented buf := by
  intro h
  have hcstr : (0 : UInt8) ∈ cstr buf := (List.takeWhile_sublist _).subset h
  simpa using List.mem_takeWhile_imp hcstr

theorem clean_of_parseBuf {front : UInt8} {lineno : ℕ} {buf : Bytes} {e : Entry}
    (h : parseBuf front lineno buf = .entry e) : e.Clean := by
  have hclean : 0 ∉ dropTrailing (uncommented buf) :=
    fun h => not_mem_uncommented buf ((prefix_dropTrailing _).subset h)
  cases e with
  | header name =>
    obtain ⟨-, rfl, -⟩ := (parseBuf_eq_header_iff _ _ _ _).mp h
    exact fun h => hclean ((sectionName_sublist _).subset h)
  | value k v =>
    obtain ⟨-, -, ⟨rfl, -⟩, rfl, -⟩ := (parseBuf_eq_value_iff _ _ _ _ _).mp h
    refine ⟨fun h => hclean ?_, fun h => hclean ?_⟩
    · exact (List.takeWhile_sublist _).subset ((trimmed_sublist _).subset h)
    · have hbehind := (trimmed_sublist _).subset h
      exact (behindEquals_sublist _).subset hbehind

end SniffDogSniff
