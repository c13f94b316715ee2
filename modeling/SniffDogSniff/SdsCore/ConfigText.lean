import SniffDogSniff.SdsCore.SdsConfigFile

/-!
# Texts of a configuration file

A text is made of blank lines, sections, and keys with values, with any spaces and tabs
around them and a comment behind.  The parser reads it as it is meant only if there are
few blanks behind a key and a value, no two brackets in a value, and if what it has to
read of a line is in the first piece of it.

## Main definitions

* `ConfigText` — a text, with its lines; `ConfigText.listed` — the sections that it lists.
* `ConfigText.Fits` — the lines that the parser reads as they are meant.

## Main results

* `entries_line_iff` — the pieces of a line give what it lists exactly where it fits.
* `parse_iff_fits` — **the parser yields the sections that a text lists exactly where all
  its lines fit.**
-/

namespace SniffDogSniff

namespace ConfigText

/-! ### Lines -/

/-- Spaces and tabs. -/
abbrev Pad := { s : Bytes // ∀ b ∈ s, isBlank b = true }

/-- There is something, without spaces and tabs around it. -/
def Bare (s : Bytes) : Prop :=
  s.head?.any (!isBlank ·) = true ∧ s.getLast?.any (!isBlank ·) = true

instance (s : Bytes) : Decidable (Bare s) := inferInstanceAs (Decidable (_ ∧ _))

structure Key where
  text : Bytes
  bare : Bare text
  free : ∀ b ∈ text, b ∉ [newline, equalsSign, hashMark, leftBracket, rightBracket]

structure Value where
  text : Bytes
  bare : Bare text
  free : ∀ b ∈ text, b ∉ [newline, hashMark]

/-- The name of a section. -/
structure Name where
  text : Bytes
  ne_nil : text ≠ []
  free : ∀ b ∈ text, b ∉ [newline, hashMark, rightBracket]

/-- What is behind the `#`. -/
abbrev Comment := { s : Bytes // newline ∉ s }

/-- A line without its comment. -/
inductive Content
  | blank (pad : Pad)
  | header (pad : Pad) (name : Name) (pad' : Pad)
  | value (pad : Pad) (key : Key) (pad₁ pad₂ : Pad) (value : Value) (pad₃ : Pad)

structure Line where
  content : Content
  comment : Option Comment

/-- A section with the blanks in front of it. -/
def headerBytes (pad : Pad) (name : Name) : Bytes :=
  pad.val ++ leftBracket :: name.text ++ [rightBracket]

/-- A key and a value, with the blanks around the key and in front of the value. -/
def valueBytes (pad : Pad) (key : Key) (pad₁ pad₂ : Pad) (value : Value) : Bytes :=
  pad.val ++ key.text ++ pad₁.val ++ equalsSign :: (pad₂.val ++ value.text)

def Content.bytes : Content → Bytes
  | .blank pad => pad.val
  | .header pad name pad' => headerBytes pad name ++ pad'.val
  | .value pad key pad₁ pad₂ v pad₃ => valueBytes pad key pad₁ pad₂ v ++ pad₃.val

namespace Line

variable (l : Line)

def bytes : Bytes :=
  match l.comment with
  | none => l.content.bytes
  | some c => l.content.bytes ++ hashMark :: c.val

/-- What a line lists. -/
def entries : List Entry :=
  match l.content with
  | .blank _ => []
  | .header _ name _ => [.header name.text]
  | .value _ key _ _ v _ => [.value key.text v.text]

/-- What is read of the end of a line, if it is not behind a comment. -/
def readEnding (ending : Bytes) : Bytes :=
  match l.comment with
  | none => ending
  | some _ => []

/-- The line is read as it is meant, up to `ending`. -/
def Fits (front : ℕ → UInt8) (lineno : ℕ) (ending : Bytes) : Prop :=
  match l.content with
  | .blank _ => AllSkipped front lineno (pieces (l.bytes ++ ending))
  | .header pad name _ =>
      (0 ∉ name.text ∧ (headerBytes pad name).length ≤ BUF_ROOM) ∧
        AllSkipped front (lineno + 1) (pieces ((l.bytes ++ ending).drop BUF_ROOM))
  | .value pad key pad₁ pad₂ v pad₃ =>
      ((0 ∉ key.text ∧ 0 ∉ v.text) ∧
        ¬ (leftBracket ∈ v.text ∧ rightBracket ∈ v.text) ∧ pad₁.val.length ≤ 1 ∧
        (valueBytes pad key pad₁ pad₂ v).length ≤ BUF_ROOM ∧
        -- of the blanks behind the value, two are taken off
        min (BUF_ROOM - (valueBytes pad key pad₁ pad₂ v).length)
          (pad₃.val.length + (l.readEnding ending).length) ≤ 2) ∧
      AllSkipped front (lineno + 1) (pieces ((l.bytes ++ ending).drop BUF_ROOM))

end Line

end ConfigText

/-- Lines, and the last one, which does not end with a newline. -/
structure ConfigText where
  lines : List ConfigText.Line
  last : ConfigText.Line

namespace ConfigText

def bytes (t : ConfigText) : Bytes :=
  (t.lines.flatMap fun l => l.bytes ++ [newline]) ++ t.last.bytes

/-- What the lines list. -/
def entries (t : ConfigText) : List Entry := t.lines.flatMap Line.entries ++ t.last.entries

/-- The sections that a text lists. -/
def listed (t : ConfigText) : SdsConfigFile := SdsConfigFile.ofEntries t.entries

/-- All lines are read as they are meant. -/
def FitsFrom (front : ℕ → UInt8) (last : Line) : ℕ → List Line → Prop
  | lineno, [] => last.Fits front lineno []
  | lineno, l :: ls =>
      l.Fits front lineno [newline] ∧
        FitsFrom front last (lineno + (pieces (l.bytes ++ [newline])).length) ls

def Fits (t : ConfigText) (front : ℕ → UInt8) : Prop := FitsFrom front t.last 0 t.lines

/-! ### The bytes of a line -/

/-- A byte that is no blank is not one of a pad. -/
theorem not_mem_pad (pad : Pad) {b : UInt8} (hb : isBlank b = false) : b ∉ pad.val := by
  intro h
  rw [pad.property b h] at hb
  cases hb

theorem isTrailing_of_isBlank {b : UInt8} (h : isBlank b = true) : isTrailing b = true := by
  rw [isTrailing, h, Bool.true_or]

/-- Without a newline, no blank at the end is one that is taken off. -/
theorem Bare.last {s : Bytes} (h : Bare s) (hline : newline ∉ s) :
    s.getLast?.any (!isTrailing ·) = true := by
  rcases List.eq_nil_or_concat' s with rfl | ⟨l, b, rfl⟩
  · exact h.2
  · have hne : b ≠ newline := fun heq => hline (by simp [heq])
    have hlast := h.2
    rw [List.getLast?_concat, Option.any_some, Bool.not_eq_true'] at hlast ⊢
    rw [isTrailing, hlast, Bool.false_or]
    simpa using hne

/-- The strings of a line do not have a byte. -/
def Content.Lacks (b : UInt8) : Content → Prop
  | .blank _ => True
  | .header _ name _ => b ∉ name.text
  | .value _ key _ _ v _ => b ∉ key.text ∧ b ∉ v.text

/-- Then the line does not have it. -/
theorem Content.not_mem_bytes {b : UInt8} (hpad : isBlank b = false)
    (hsep : b ∉ [equalsSign, leftBracket, rightBracket]) {c : Content} (hc : c.Lacks b) :
    b ∉ c.bytes := by
  have hpads : ∀ pad : Pad, b ∉ pad.val := fun pad => not_mem_pad pad hpad
  simp only [List.mem_cons, List.not_mem_nil, or_false, not_or] at hsep
  cases c with
  | blank pad => exact hpads pad
  | header pad name pad' =>
    have hname : b ∉ name.text := hc
    simp [Content.bytes, headerBytes, hpads, hname, hsep]
  | value pad key pad₁ pad₂ v pad₃ =>
    have hkey : b ∉ key.text := hc.1
    have hv : b ∉ v.text := hc.2
    simp [Content.bytes, valueBytes, hpads, hkey, hv, hsep]

/-- No string of a line has the two bytes that end its content. -/
theorem Content.not_mem_of_mem {b : UInt8} (hb : b ∈ [newline, hashMark]) (c : Content) :
    b ∉ c.bytes := by
  obtain ⟨hpad, hsep, hkey⟩ : isBlank b = false ∧ b ∉ [equalsSign, leftBracket, rightBracket] ∧
      b ∈ [newline, equalsSign, hashMark, leftBracket, rightBracket] := by
    rcases List.mem_pair.mp hb with rfl | rfl
    · exact ⟨by decide, by decide, by decide⟩
    · exact ⟨by decide, by decide, by decide⟩
  have hname : b ∈ [newline, hashMark, rightBracket] := List.mem_append_left [rightBracket] hb
  refine not_mem_bytes hpad hsep ?_
  cases c with
  | blank pad => trivial
  | header pad name pad' => exact fun h => name.free _ h hname
  | value pad key pad₁ pad₂ v pad₃ => exact ⟨fun h => key.free _ h hkey, fun h => v.free _ h hb⟩

theorem Content.newline_not_mem (c : Content) : newline ∉ c.bytes :=
  c.not_mem_of_mem (by decide)

theorem Content.hashMark_not_mem (c : Content) : hashMark ∉ c.bytes :=
  c.not_mem_of_mem (by decide)

theorem Bare.length_pos {s : Bytes} (h : Bare s) : 0 < s.length := by
  cases s with
  | nil => exact Bool.noConfusion h.1
  | cons b s => exact Nat.succ_pos _

namespace Line

theorem newline_not_mem (l : Line) : newline ∉ l.bytes := by
  rw [bytes]
  cases l.comment with
  | none => exact l.content.newline_not_mem
  | some c =>
    have hne : newline ≠ hashMark := by decide
    simp [l.content.newline_not_mem, c.property, hne]

/-- What is left of a line without its comment. -/
theorem uncommented_bytes {l : Line} (h0 : l.content.Lacks 0) {ending : Bytes}
    (hending : ending = [] ∨ ending = [newline]) :
    uncommented (l.bytes ++ ending) = l.content.bytes ++ l.readEnding ending := by
  have hzero : 0 ∉ l.content.bytes := Content.not_mem_bytes rfl (by decide) h0
  rw [bytes, readEnding]
  cases l.comment with
  | none =>
    have hend : 0 ∉ ending ∧ hashMark ∉ ending := by
      rcases hending with rfl | rfl
      · simp
      · decide
    exact uncommented_of_not_mem (by simp [hzero, hend])
      (by simp [l.content.hashMark_not_mem, hend])
  | some c =>
    rw [List.append_assoc, List.cons_append, uncommented_append hzero l.content.hashMark_not_mem,
      List.append_nil]

end Line

/-! ### The first piece of a line -/

/-- What is there from a byte on that a pad does not have. -/
theorem dropWhile_append_cons {s : Bytes} {b : UInt8} (hs : b ∉ s) (rest : Bytes) :
    (s ++ b :: rest).dropWhile (· ≠ b) = b :: rest := by
  have hall : ∀ c ∈ s, decide (c ≠ b) = true := fun c hc => by simpa using ne_of_mem_of_not_mem hc hs
  rw [List.dropWhile_append_of_pos hall, List.dropWhile_cons, if_neg (by simp)]

section

variable (pad : Pad) (name : Name)

theorem sectionName_headerBytes (rest : Bytes) :
    sectionName (headerBytes pad name ++ rest) = name.text := by
  have hname : rightBracket ∉ name.text := fun h => name.free _ h (by decide)
  have hbytes : headerBytes pad name ++ rest =
      pad.val ++ leftBracket :: (name.text ++ rightBracket :: rest) := by
    simp [headerBytes]
  rw [hbytes, sectionName, takeWhile_append_cons (not_mem_pad pad rfl),
    dropWhile_append_cons (not_mem_pad pad rfl), if_neg (not_mem_pad pad rfl), List.drop_one,
    List.tail_cons, takeWhile_append_cons hname]

/-- **A section is read where its brackets are in the buffer.** -/
theorem parseBuf_header_iff {front : UInt8} {lineno : ℕ} {buf rest : Bytes}
    (hrest : ∀ b ∈ rest, isTrailing b = true)
    (hbuf : uncommented buf = (headerBytes pad name ++ rest).take BUF_ROOM) :
    parseBuf front lineno buf = .entry (.header name.text) ↔
      (headerBytes pad name).length ≤ BUF_ROOM := by
  rw [parseBuf_eq_header_iff, hbuf]
  by_cases hle : (headerBytes pad name).length ≤ BUF_ROOM
  · have hlast : (headerBytes pad name).getLast?.any (!isTrailing ·) = true := by
      rw [headerBytes, List.getLast?_concat]
      rfl
    rw [List.take_append, List.take_of_length_le hle,
      dropTrailing_append hlast fun b hb => hrest b (List.mem_of_mem_take hb)]
    refine iff_of_true ⟨⟨?_, ?_⟩, sectionName_headerBytes pad name _, name.ne_nil⟩ hle
    · simp [headerBytes]
    · simp [headerBytes]
  · refine iff_of_false (fun h => ?_) hle
    have hmem := (prefix_dropTrailing _).subset h.1.2
    have hlen : (headerBytes pad name).length = (pad.val ++ leftBracket :: name.text).length + 1 :=
      List.length_append
    rw [List.take_append_of_le_length (by omega), headerBytes,
      List.take_append_of_le_length (by omega)] at hmem
    rcases List.mem_append.mp (List.mem_of_mem_take hmem) with hmem | hmem
    · exact not_mem_pad pad rfl hmem
    · rcases List.mem_cons.mp hmem with heq | hmem
      · exact absurd heq (by decide)
      · exact name.free _ hmem (by decide)

end

section

variable (pad : Pad) (key : Key) (pad₁ pad₂ : Pad) (v : Value)

theorem equalsSign_not_mem : equalsSign ∉ pad.val ++ key.text ++ pad₁.val := by
  have hkey : equalsSign ∉ key.text := fun h => key.free _ h (by decide)
  simp [not_mem_pad pad (b := equalsSign) rfl, not_mem_pad pad₁ (b := equalsSign) rfl, hkey]

theorem valueBytes_append (rest : Bytes) :
    valueBytes pad key pad₁ pad₂ v ++ rest =
      pad.val ++ key.text ++ pad₁.val ++ equalsSign :: (pad₂.val ++ (v.text ++ rest)) := by
  simp [valueBytes]

/-- The key is left, with all blanks behind it but one. -/
theorem trimmed_key : trimmed (pad.val ++ key.text ++ pad₁.val) = key.text ++ pad₁.val.dropLast := by
  rw [List.append_assoc]
  exact trimmed_append pad.property key.bare.1 (key.bare.last fun h => key.free _ h (by decide))
    fun b hb => isTrailing_of_isBlank (pad₁.property b hb)

theorem trimmed_value {rest : Bytes} (hrest : ∀ b ∈ rest, isTrailing b = true) :
    trimmed (pad₂.val ++ (v.text ++ rest)) = v.text ++ rest.dropLast :=
  trimmed_append pad₂.property v.bare.1 (v.bare.last fun h => v.free _ h (by decide)) hrest

theorem behindEquals_append (rest : Bytes) :
    behindEquals (pad.val ++ key.text ++ pad₁.val ++ equalsSign :: rest) = rest := by
  rw [behindEquals, dropWhile_append_cons (equalsSign_not_mem pad key pad₁), List.drop_one,
    List.tail_cons]

/-- Brackets are in a value, if anywhere. -/
theorem mem_valueBytes_iff {b : UInt8} (hb : b = leftBracket ∨ b = rightBracket) {rest : Bytes}
    (hrest : ∀ b ∈ rest, isTrailing b = true) :
    b ∈ valueBytes pad key pad₁ pad₂ v ++ rest ↔ b ∈ v.text := by
  have hblank : isBlank b = false ∧ isTrailing b = false ∧ b ≠ equalsSign := by
    rcases hb with rfl | rfl <;> decide
  have hkey : b ∉ key.text := by
    rcases hb with rfl | rfl <;> exact fun h => key.free _ h (by decide)
  have hpads : ∀ pad : Pad, b ∉ pad.val := fun pad => not_mem_pad pad hblank.1
  have hend : b ∉ rest := by
    intro h
    rw [hrest b h] at hblank
    exact Bool.noConfusion hblank.2.1
  simp [valueBytes, hpads, hkey, hend, hblank.2.2]

/-- When what is left of a value is the value. -/
theorem append_dropLast_eq_self {s r : Bytes} : s ++ r.dropLast = s ↔ r.length ≤ 1 := by
  rw [List.append_right_eq_self, ← List.length_eq_zero_iff, List.length_dropLast]
  omega

/-- A value that is cut is not read. -/
theorem trimmed_ne_of_cut {s : Bytes} (hs : s <+: pad₂.val ++ v.text)
    (hlt : s.length < (pad₂.val ++ v.text).length) : trimmed s ≠ v.text := by
  intro h
  have hleft := (prefix_dropTrailing s).trans hs
  have hlen := (prefix_dropTrailing s).length_le
  rw [trimmed, List.prefix_iff_eq_take.mp hleft, List.take_append,
    List.dropWhile_append_of_pos fun b hb => pad₂.property b (List.mem_of_mem_take hb)] at h
  have hle : v.text.length ≤
      (v.text.take ((dropTrailing s).length - pad₂.val.length)).length := by
    conv_lhs => rw [← h]
    exact (List.dropWhile_sublist _).length_le
  have hpos := v.bare.length_pos
  rw [List.length_append] at hlt
  rw [List.length_take] at hle
  omega

/-- Behind the `=` of a piece is the beginning of what is behind that of the line. -/
theorem behindEquals_append_eq {s r : Bytes} (hs : s ++ r = valueBytes pad key pad₁ pad₂ v)
    (hequals : equalsSign ∈ s) : behindEquals s ++ r = pad₂.val ++ v.text := by
  obtain ⟨s₁, s₂, rfl, hs₁⟩ := List.eq_append_cons_of_mem hequals
  have hdrop := congrArg (List.dropWhile (· ≠ equalsSign)) hs
  rw [List.append_assoc, List.cons_append, dropWhile_append_cons hs₁, valueBytes,
    dropWhile_append_cons (equalsSign_not_mem pad key pad₁)] at hdrop
  rw [behindEquals, dropWhile_append_cons hs₁]
  exact List.tail_eq_of_cons_eq hdrop

/-- So of a value behind the end of the buffer. -/
theorem trimmed_behindEquals_ne (hlt : BUF_ROOM < (valueBytes pad key pad₁ pad₂ v).length)
    (hequals : equalsSign ∈ dropTrailing ((valueBytes pad key pad₁ pad₂ v).take BUF_ROOM)) :
    trimmed (behindEquals (dropTrailing ((valueBytes pad key pad₁ pad₂ v).take BUF_ROOM))) ≠
      v.text := by
  obtain ⟨r, hr⟩ := (prefix_dropTrailing _).trans <|
    List.take_prefix BUF_ROOM (valueBytes pad key pad₁ pad₂ v)
  have hbehind := behindEquals_append_eq pad key pad₁ pad₂ v hr hequals
  refine trimmed_ne_of_cut pad₂ v ⟨r, hbehind⟩ ?_
  have hread := (prefix_dropTrailing ((valueBytes pad key pad₁ pad₂ v).take BUF_ROOM)).length_le
  have hlen := congrArg List.length hr
  rw [List.length_take] at hread
  rw [List.length_append] at hlen
  rw [← hbehind, List.length_append]
  omega

theorem any_getLast?_valueBytes :
    (valueBytes pad key pad₁ pad₂ v).getLast?.any (!isTrailing ·) = true := by
  have hv := any_getLast?_append (v.bare.last fun h => v.free _ h (by decide)) pad₂.val
  exact any_getLast?_append (any_getLast?_append hv [equalsSign]) _

/-- **A value is read where it is in the buffer, with few blanks.** -/
theorem parseBuf_value_iff {front : UInt8} {lineno : ℕ} {buf rest : Bytes}
    (hrest : ∀ b ∈ rest, isTrailing b = true)
    (hbuf : uncommented buf = (valueBytes pad key pad₁ pad₂ v ++ rest).take BUF_ROOM) :
    parseBuf front lineno buf = .entry (.value key.text v.text) ↔
      ¬ (leftBracket ∈ v.text ∧ rightBracket ∈ v.text) ∧ pad₁.val.length ≤ 1 ∧
        (valueBytes pad key pad₁ pad₂ v).length ≤ BUF_ROOM ∧
        min (BUF_ROOM - (valueBytes pad key pad₁ pad₂ v).length) rest.length ≤ 2 := by
  rw [parseBuf_eq_value_iff, hbuf]
  by_cases hle : (valueBytes pad key pad₁ pad₂ v).length ≤ BUF_ROOM
  · rw [List.take_append, List.take_of_length_le hle,
      dropTrailing_append (any_getLast?_valueBytes pad key pad₁ pad₂ v) fun b hb =>
        hrest b (List.mem_of_mem_take hb)]
    have hlen := List.length_take (l := rest)
      (i := BUF_ROOM - (valueBytes pad key pad₁ pad₂ v).length)
    generalize hleft : rest.take (BUF_ROOM - (valueBytes pad key pad₁ pad₂ v).length) = left
      at hlen ⊢
    have htrail : ∀ b ∈ left.dropLast, isTrailing b = true := by
      intro b hb
      have hb' := (List.dropLast_sublist left).subset hb
      rw [← hleft] at hb'
      exact hrest b (List.mem_of_mem_take hb')
    rw [mem_valueBytes_iff pad key pad₁ pad₂ v (Or.inl rfl) htrail,
      mem_valueBytes_iff pad key pad₁ pad₂ v (Or.inr rfl) htrail, valueBytes_append,
      takeWhile_append_cons (equalsSign_not_mem pad key pad₁), behindEquals_append, trimmed_key,
      trimmed_value pad₂ v htrail, append_dropLast_eq_self, append_dropLast_eq_self]
    have hequals : equalsSign ∈ pad.val ++ key.text ++ pad₁.val ++
        equalsSign :: (pad₂.val ++ (v.text ++ left.dropLast)) := by
      simp
    have hkey := List.ne_nil_of_length_pos key.bare.length_pos
    have hv := List.ne_nil_of_length_pos v.bare.length_pos
    have htwo : left.dropLast.length ≤ 1 ↔
        min (BUF_ROOM - (valueBytes pad key pad₁ pad₂ v).length) rest.length ≤ 2 := by
      rw [List.length_dropLast, hlen]
      omega
    rw [and_iff_right hequals, and_iff_left hkey, and_iff_left hv, and_iff_right hle, htwo]
  · refine iff_of_false ?_ fun h => hle h.2.2.1
    rintro ⟨-, hequals, -, hv, -⟩
    have hcut := Nat.not_le.mp hle
    rw [List.take_append_of_le_length hcut.le] at hequals hv
    exact trimmed_behindEquals_ne pad key pad₁ pad₂ v hcut hequals hv

end

/-! ### All pieces of a line -/

theorem length_le_one_of_skipped {front : UInt8} {buf : Bytes} (h : Skipped front buf) :
    (uncommented buf).length ≤ 1 := by
  rcases h with ⟨hnil, -⟩ | ⟨b, hone, -⟩
  · rw [hnil]
    exact Nat.zero_le 1
  · rw [hone]
    exact le_rfl

namespace Line

variable {l : Line} {ending : Bytes}

theorem isTrailing_readEnding (hending : ending = [] ∨ ending = [newline]) :
    ∀ b ∈ l.readEnding ending, isTrailing b = true := by
  intro b hb
  rw [readEnding] at hb
  split at hb
  · rcases hending with rfl | rfl
    · exact absurd hb List.not_mem_nil
    · rw [List.mem_singleton.mp hb]
      rfl
  · exact absurd hb List.not_mem_nil

theorem uncommented_take_bytes (h0 : l.content.Lacks 0)
    (hending : ending = [] ∨ ending = [newline]) :
    uncommented ((l.bytes ++ ending).take BUF_ROOM) =
      (l.content.bytes ++ l.readEnding ending).take BUF_ROOM := by
  rw [uncommented_take, uncommented_bytes h0 hending]

/-- A section or a value has two bytes at least. -/
theorem two_le_length_of_entries_ne_nil (h : l.entries ≠ []) : 2 ≤ l.content.bytes.length := by
  rw [entries] at h
  cases hcontent : l.content with
  | blank pad =>
    rw [hcontent] at h
    exact absurd rfl h
  | header pad name pad' =>
    simp only [Content.bytes, headerBytes, List.length_append, List.length_cons, List.length_nil]
    omega
  | value pad key pad₁ pad₂ v pad₃ =>
    have hkey := key.bare.length_pos
    simp only [Content.bytes, valueBytes, List.length_append, List.length_cons]
    omega

/-- A line with a section or a value has a first piece, which is not skipped. -/
theorem pieces_bytes (h0 : l.content.Lacks 0) (hne : l.entries ≠ [])
    (hending : ending = [] ∨ ending = [newline]) (front : UInt8) :
    pieces (l.bytes ++ ending) =
        (l.bytes ++ ending).take BUF_ROOM :: pieces ((l.bytes ++ ending).drop BUF_ROOM) ∧
      ¬ Skipped front ((l.bytes ++ ending).take BUF_ROOM) := by
  have hroom : BUF_ROOM = 511 := rfl
  have hlong := two_le_length_of_entries_ne_nil hne
  have hread := congrArg List.length (uncommented_take_bytes h0 hending)
  rw [List.length_take, List.length_append] at hread
  constructor
  · refine pieces_line l.newline_not_mem hending fun hnil => ?_
    rw [hnil] at hread
    have hzero : (uncommented (List.take BUF_ROOM ([] : Bytes))).length = 0 := rfl
    omega
  · intro hskipped
    have hle := length_le_one_of_skipped hskipped
    omega

theorem lacks_of_clean (h : ∀ e ∈ l.entries, e.Clean) : l.content.Lacks 0 := by
  rw [entries] at h
  cases hcontent : l.content with
  | blank pad => trivial
  | header pad name pad' =>
    rw [hcontent] at h
    exact h _ (List.mem_singleton_self _)
  | value pad key pad₁ pad₂ v pad₃ =>
    rw [hcontent] at h
    exact h _ (List.mem_singleton_self _)

theorem isTrailing_pad_append (pad : Pad) (l : Line)
    (hending : ending = [] ∨ ending = [newline]) :
    ∀ b ∈ pad.val ++ l.readEnding ending, isTrailing b = true := by
  intro b hb
  rcases List.mem_append.mp hb with hb | hb
  · exact isTrailing_of_isBlank (pad.property b hb)
  · exact isTrailing_readEnding hending b hb

/-- **The pieces of a line give what it lists exactly where it fits.** -/
theorem entries_line_iff (front : ℕ → UInt8) (lineno : ℕ) (l : Line)
    (hending : ending = [] ∨ ending = [newline]) :
    SniffDogSniff.entries front lineno (pieces (l.bytes ++ ending)) = some l.entries ↔
      l.Fits front lineno ending := by
  by_cases h0 : l.content.Lacks 0
  · have hread := uncommented_take_bytes h0 hending
    have hpieces := fun hne => pieces_bytes h0 hne hending (front (lineno + 1))
    rw [entries] at hpieces ⊢
    rw [Fits]
    cases hcontent : l.content with
    | blank pad => exact entries_eq_nil_iff _ _ _
    | header pad name pad' =>
      rw [hcontent] at h0 hread hpieces
      rw [Content.bytes, List.append_assoc] at hread
      obtain ⟨hfirst, hskipped⟩ := hpieces (List.cons_ne_nil _ _)
      have hname : 0 ∉ name.text := h0
      dsimp only
      rw [hfirst, entries_cons_eq_singleton_iff hskipped,
        parseBuf_header_iff pad name (isTrailing_pad_append pad' l hending) hread,
        and_iff_right hname]
    | value pad key pad₁ pad₂ v pad₃ =>
      rw [hcontent] at h0 hread hpieces
      rw [Content.bytes, List.append_assoc] at hread
      obtain ⟨hfirst, hskipped⟩ := hpieces (List.cons_ne_nil _ _)
      have htexts : 0 ∉ key.text ∧ 0 ∉ v.text := h0
      dsimp only
      rw [hfirst, entries_cons_eq_singleton_iff hskipped, parseBuf_value_iff pad key pad₁ pad₂ v
        (isTrailing_pad_append pad₃ l hending) hread, List.length_append, and_iff_right htexts]
  · refine iff_of_false (fun h => h0 (lacks_of_clean (clean_of_entries h))) fun h => h0 ?_
    rw [Fits] at h
    cases hcontent : l.content with
    | blank pad => trivial
    | header pad name pad' =>
      rw [hcontent] at h
      exact h.1.1
    | value pad key pad₁ pad₂ v pad₃ =>
      rw [hcontent] at h
      exact h.1.1

theorem length_entries_le_one (l : Line) : l.entries.length ≤ 1 := by
  rw [entries]
  cases l.content with
  | blank pad => exact Nat.zero_le 1
  | header pad name pad' => exact le_rfl
  | value pad key pad₁ pad₂ v pad₃ => exact le_rfl

/-- They give as much at least. -/
theorem length_entries_le {front : ℕ → UInt8} {lineno : ℕ} {l : Line} {es : List Entry}
    (hclean : ∀ e ∈ l.entries, e.Clean) (hending : ending = [] ∨ ending = [newline])
    (h : SniffDogSniff.entries front lineno (pieces (l.bytes ++ ending)) = some es) :
    l.entries.length ≤ es.length := by
  by_cases hne : l.entries = []
  · rw [hne]
    exact Nat.zero_le _
  · obtain ⟨hfirst, hskipped⟩ := pieces_bytes (lacks_of_clean hclean) hne hending
      (front (lineno + 1))
    rw [hfirst] at h
    exact (length_entries_le_one l).trans (length_pos_of_entries_cons hskipped h)

end Line

/-! ### All lines -/

section

variable {front : ℕ → UInt8} {last : Line}

theorem entries_cons (l : Line) (ls : List Line) :
    entries ⟨l :: ls, last⟩ = l.entries ++ entries ⟨ls, last⟩ := by
  rw [entries, entries, List.flatMap_cons, List.append_assoc]

/-- The pieces of the first line, and those of the rest. -/
theorem pieces_bytes_cons (l : Line) (ls : List Line) :
    pieces (bytes ⟨l :: ls, last⟩) =
      pieces (l.bytes ++ [newline]) ++ pieces (bytes ⟨ls, last⟩) := by
  rw [← pieces_append l.newline_not_mem, bytes, bytes, List.flatMap_cons]
  simp only [List.append_assoc, List.cons_append, List.nil_append]

/-- What the pieces of some lines give is at least what the lines list. -/
theorem length_entries_le {ls : List Line} {lineno : ℕ} {es : List Entry}
    (hclean : ∀ e ∈ entries ⟨ls, last⟩, e.Clean)
    (h : SniffDogSniff.entries front lineno (pieces (bytes ⟨ls, last⟩)) = some es) :
    (entries ⟨ls, last⟩).length ≤ es.length := by
  induction ls generalizing lineno es with
  | nil =>
    have hlast : SniffDogSniff.entries front lineno (pieces (last.bytes ++ [])) = some es := by
      rwa [List.append_nil]
    exact Line.length_entries_le hclean (Or.inl rfl) hlast
  | cons l ls ih =>
    rw [pieces_bytes_cons, entries_append, Option.bind_eq_some_iff] at h
    obtain ⟨es₁, hes₁, h⟩ := h
    obtain ⟨es₂, hes₂, rfl⟩ := Option.map_eq_some_iff.mp h
    rw [entries_cons, List.forall_mem_append] at hclean
    rw [entries_cons, List.length_append, List.length_append]
    exact Nat.add_le_add (Line.length_entries_le hclean.1 (Or.inr rfl) hes₁) (ih hclean.2 hes₂)

/-- **The pieces of some lines give what these list exactly where all of them fit.** -/
theorem entries_iff_fitsFrom (ls : List Line) (lineno : ℕ) :
    SniffDogSniff.entries front lineno (pieces (bytes ⟨ls, last⟩)) = some (entries ⟨ls, last⟩) ↔
      FitsFrom front last lineno ls := by
  induction ls generalizing lineno with
  | nil =>
    have hlast := Line.entries_line_iff front lineno last (Or.inl rfl)
    rwa [List.append_nil] at hlast
  | cons l ls ih =>
    rw [FitsFrom, ← ih, ← Line.entries_line_iff front lineno l (Or.inr rfl), pieces_bytes_cons,
      entries_append, Option.bind_eq_some_iff]
    constructor
    · rintro ⟨es₁, hes₁, h⟩
      obtain ⟨es₂, hes₂, heq⟩ := Option.map_eq_some_iff.mp h
      have hclean : ∀ e ∈ es₁ ++ es₂, e.Clean :=
        List.forall_mem_append.mpr ⟨clean_of_entries hes₁, clean_of_entries hes₂⟩
      rw [entries_cons] at heq
      rw [heq, List.forall_mem_append] at hclean
      -- no line gives less than it lists, so none gives more
      have hle₁ := Line.length_entries_le hclean.1 (Or.inr rfl) hes₁
      have hle₂ := length_entries_le hclean.2 hes₂
      have hlen := congrArg List.length heq
      rw [List.length_append, List.length_append] at hlen
      obtain ⟨rfl, rfl⟩ := List.append_inj heq (by omega)
      exact ⟨hes₁, hes₂⟩
    · rintro ⟨h₁, h₂⟩
      refine ⟨_, h₁, ?_⟩
      rw [h₂, entries_cons]
      rfl

end

/-- **The parser yields the sections that a text lists exactly where all its lines fit.** -/
theorem parse_iff_fits (front : ℕ → UInt8) (t : ConfigText) :
    SdsConfigFile.parse front .new (.ok t.bytes) = .returned () t.listed ↔ t.Fits front := by
  rw [listed, SdsConfigFile.parse_eq_iff, Fits, ← entries_iff_fitsFrom]

/-- Some spaces. -/
def Pad.spaces (n : ℕ) : Pad :=
  ⟨List.replicate n 32, fun _ hb => (List.eq_of_mem_replicate hb).symm ▸ rfl⟩

/-- The text "k = v   # c". -/
def commentedText : ConfigText where
  lines := []
  last :=
    { content := .value (.spaces 0) ⟨[107], by decide, List.forall_mem_singleton.mpr (by decide)⟩
        (.spaces 1) (.spaces 1) ⟨[118], by decide, List.forall_mem_singleton.mpr (by decide)⟩
        (.spaces 3)
      comment := some ⟨[32, 99], by decide⟩ }

/-- One blank stays behind the value. -/
theorem not_parse_eq_listed : ¬ ∀ (front : ℕ → UInt8) (t : ConfigText),
    SdsConfigFile.parse front .new (.ok t.bytes) = .returned () t.listed := by
  intro h
  simp only [listed, SdsConfigFile.parse_eq_iff] at h
  have hfits := (entries_iff_fitsFrom [] 0).mp (h (fun _ => 0) commentedText)
  have hblanks := hfits.1.2.2.2.2
  revert hblanks
  decide

end ConfigText

end SniffDogSniff
