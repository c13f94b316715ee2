import SniffDogSniff.Base.Prog
import SniffDogSniff.SdsCore.ConfigBuffer
import Mathlib.Data.List.ModifyLast

/-!
# The configuration file

A file has a default section and further ones, each with its keys and values in their
order.  The parser adds what the pieces of a text give.

## Main definitions

* `SdsConfigFile`, `SdsConfigFile.Section`, `SdsConfigFile.parse`.
* `listed` — the values and sections that some entries make.
* `entries` — the entries of some pieces.

## Main results

* `entriesOf_listed` — the entries can be read off the sections.
* `parse_eq_iff` — **the parser succeeds with the sections that the entries of the pieces
  make.**
-/

namespace SniffDogSniff

/-! ### The file -/

/-- `SdsConfigFile::Section`. -/
structure SdsConfigFile.Section where
  name : Bytes
  valuesList : List (Bytes × Bytes)
  deriving DecidableEq

structure SdsConfigFile where
  defaultSection : SdsConfigFile.Section
  /-- The sections of the file, in its order. -/
  sections : List SdsConfigFile.Section
  deriving DecidableEq

namespace SdsConfigFile

/-- `SdsConfigFile()`, with the section "default". -/
def new : SdsConfigFile := ⟨⟨[100, 101, 102, 97, 117, 108, 116], []⟩, []⟩

/-- `new Section(name)`, which becomes the last one. -/
def addSection (file : SdsConfigFile) (name : Bytes) : SdsConfigFile :=
  { file with sections := file.sections ++ [⟨name, []⟩] }

/-- `section->valuesList.push_back`, where `section` is the last one or still the default
one. -/
def pushValue (file : SdsConfigFile) (inSection : Bool) (p : Bytes × Bytes) : SdsConfigFile :=
  if inSection then
    { file with
      sections := file.sections.modifyLast fun s => { s with valuesList := s.valuesList ++ [p] } }
  else
    { file with
      defaultSection :=
        { file.defaultSection with valuesList := file.defaultSection.valuesList ++ [p] } }

end SdsConfigFile

namespace SdsConfigFile

/-- The loop of `parse`. -/
def parseLoop (front : ℕ → UInt8) :
    ℕ → Bool → SdsConfigFile → List Bytes → Outcome SdsConfigFile Unit
  | _, _, file, [] => .returned () file
  | lineno, inSection, file, buf :: bufs =>
      match parseBuf (front (lineno + 1)) (lineno + 1) buf with
      | .skipped => parseLoop front (lineno + 1) inSection file bufs
      | .entry (.header name) => parseLoop front (lineno + 1) true (file.addSection name) bufs
      | .entry (.value k v) =>
          parseLoop front (lineno + 1) inSection (file.pushValue inSection (k, v)) bufs
      | .error what => .threw what file
      | .undefined => .undefined

/-- `parse` of a file, with the bytes that are in front of the buffer as the lines are
read; what cannot be opened is an error of the system. -/
def parse (front : ℕ → UInt8) (file : SdsConfigFile) : Except String Bytes →
    Outcome SdsConfigFile Unit
  | .error what => .threw what file
  | .ok text => parseLoop front 0 false file (pieces text)

end SdsConfigFile

/-! ### Entries -/

/-- The values in front of the first section and the sections that some entries make. -/
def listed : List Entry → List (Bytes × Bytes) × List SdsConfigFile.Section
  | [] => ([], [])
  | .header name :: es => ([], ⟨name, (listed es).1⟩ :: (listed es).2)
  | .value k v :: es => ((k, v) :: (listed es).1, (listed es).2)

/-- The entries that make these values and sections. -/
def entriesOf (l : List (Bytes × Bytes) × List SdsConfigFile.Section) : List Entry :=
  l.1.map (fun p => .value p.1 p.2) ++
    l.2.flatMap fun s => .header s.name :: s.valuesList.map fun p => .value p.1 p.2

theorem entriesOf_listed (es : List Entry) : entriesOf (listed es) = es := by
  induction es with
  | nil => rfl
  | cons e es ih =>
    rw [entriesOf] at ih
    cases e with
    | header name =>
      rw [listed, entriesOf, List.map_nil, List.nil_append, List.flatMap_cons, List.cons_append, ih]
    | value k v => rw [listed, entriesOf, List.map_cons, List.cons_append, ih]

theorem listed_injective : Function.Injective listed :=
  Function.LeftInverse.injective entriesOf_listed

namespace SdsConfigFile

/-- The file that some entries make. -/
def ofEntries (es : List Entry) : SdsConfigFile where
  defaultSection := { new.defaultSection with valuesList := (listed es).1 }
  sections := (listed es).2

theorem ofEntries_injective : Function.Injective ofEntries := by
  intro es es' h
  rw [ofEntries, ofEntries, SdsConfigFile.mk.injEq, Section.mk.injEq] at h
  exact listed_injective (Prod.ext h.1.2 h.2)

/-- Several values. -/
def pushValues (file : SdsConfigFile) (inSection : Bool) (ps : List (Bytes × Bytes)) :
    SdsConfigFile :=
  if inSection then
    { file with
      sections := file.sections.modifyLast fun s => { s with valuesList := s.valuesList ++ ps } }
  else
    { file with
      defaultSection :=
        { file.defaultSection with valuesList := file.defaultSection.valuesList ++ ps } }

theorem pushValues_nil (file : SdsConfigFile) (inSection : Bool) :
    file.pushValues inSection [] = file := by
  obtain ⟨⟨name, values⟩, sections⟩ := file
  cases inSection with
  | false => simp [pushValues]
  | true =>
    rcases List.eq_nil_or_concat sections with rfl | ⟨ss, s, rfl⟩
    · rfl
    · simp [pushValues, List.modifyLast_concat]

theorem pushValues_cons (file : SdsConfigFile) (inSection : Bool) (p : Bytes × Bytes)
    (ps : List (Bytes × Bytes)) :
    (file.pushValue inSection p).pushValues inSection ps = file.pushValues inSection (p :: ps) := by
  obtain ⟨⟨name, values⟩, sections⟩ := file
  cases inSection with
  | false => simp [pushValues, pushValue]
  | true =>
    rcases List.eq_nil_or_concat sections with rfl | ⟨ss, s, rfl⟩
    · rfl
    · simp [pushValues, pushValue, List.modifyLast_concat]

/-- A file with further entries. -/
def extend (file : SdsConfigFile) (inSection : Bool) (es : List Entry) : SdsConfigFile :=
  { file.pushValues inSection (listed es).1 with
    sections := (file.pushValues inSection (listed es).1).sections ++ (listed es).2 }

theorem extend_nil (file : SdsConfigFile) (inSection : Bool) : file.extend inSection [] = file := by
  rw [extend, listed, pushValues_nil, List.append_nil]

theorem extend_header (file : SdsConfigFile) (inSection : Bool) (name : Bytes) (es : List Entry) :
    (file.addSection name).extend true es = file.extend inSection (.header name :: es) := by
  rw [extend, extend, listed, pushValues_nil]
  simp [pushValues, addSection, List.modifyLast_concat]

theorem extend_value (file : SdsConfigFile) (inSection : Bool) (k v : Bytes) (es : List Entry) :
    (file.pushValue inSection (k, v)).extend inSection es =
      file.extend inSection (.value k v :: es) := by
  rw [extend, extend, listed, pushValues_cons]

theorem extend_new (es : List Entry) : new.extend false es = ofEntries es := by
  rw [extend, ofEntries]
  simp [pushValues, new]

end SdsConfigFile

/-- The entries of some pieces, `none` where the parser fails. -/
def entries (front : ℕ → UInt8) : ℕ → List Bytes → Option (List Entry)
  | _, [] => some []
  | lineno, buf :: bufs =>
      match parseBuf (front (lineno + 1)) (lineno + 1) buf with
      | .skipped => entries front (lineno + 1) bufs
      | .entry e => (entries front (lineno + 1) bufs).map (e :: ·)
      | .error _ => none
      | .undefined => none

theorem entries_append (front : ℕ → UInt8) (lineno : ℕ) (bufs bufs' : List Bytes) :
    entries front lineno (bufs ++ bufs') = (entries front lineno bufs).bind fun es =>
      (entries front (lineno + bufs.length) bufs').map (es ++ ·) := by
  induction bufs generalizing lineno with
  | nil => simp [entries]
  | cons buf bufs ih =>
    have hlineno : lineno + 1 + bufs.length = lineno + (buf :: bufs).length := by
      rw [List.length_cons]
      omega
    rw [List.cons_append, entries, entries, ih, hlineno]
    cases parseBuf (front (lineno + 1)) (lineno + 1) buf with
    | skipped => rfl
    | entry e =>
      cases entries front (lineno + 1) bufs with
      | none => rfl
      | some es =>
        dsimp only
        rw [Option.bind_some, Option.map_map, Option.map_some, Option.bind_some]
        rfl
    | error what => rfl
    | undefined => rfl

/-- All pieces are skipped. -/
def AllSkipped (front : ℕ → UInt8) : ℕ → List Bytes → Prop
  | _, [] => True
  | lineno, buf :: bufs =>
      Skipped (front (lineno + 1)) buf ∧ AllSkipped front (lineno + 1) bufs

theorem entries_eq_nil_iff (front : ℕ → UInt8) (lineno : ℕ) (bufs : List Bytes) :
    entries front lineno bufs = some [] ↔ AllSkipped front lineno bufs := by
  induction bufs generalizing lineno with
  | nil => exact iff_of_true rfl trivial
  | cons buf bufs ih =>
    rw [entries, AllSkipped, ← ih, ← parseBuf_eq_skipped_iff _ (lineno + 1)]
    cases parseBuf (front (lineno + 1)) (lineno + 1) buf <;> simp

/-- Pieces that give one entry, by the first one. -/
theorem entries_cons_eq_singleton_iff {front : ℕ → UInt8} {lineno : ℕ} {buf : Bytes}
    (hbuf : ¬ Skipped (front (lineno + 1)) buf) (bufs : List Bytes) (e : Entry) :
    entries front lineno (buf :: bufs) = some [e] ↔
      parseBuf (front (lineno + 1)) (lineno + 1) buf = .entry e ∧
        AllSkipped front (lineno + 1) bufs := by
  rw [← parseBuf_eq_skipped_iff _ (lineno + 1)] at hbuf
  rw [entries, ← entries_eq_nil_iff]
  cases hparsed : parseBuf (front (lineno + 1)) (lineno + 1) buf with
  | skipped => exact absurd hparsed hbuf
  | entry e' =>
    cases entries front (lineno + 1) bufs with
    | none => simp
    | some es => simp
  | error what => simp
  | undefined => simp

/-- They give one at least. -/
theorem length_pos_of_entries_cons {front : ℕ → UInt8} {lineno : ℕ} {buf : Bytes}
    (hbuf : ¬ Skipped (front (lineno + 1)) buf) {bufs : List Bytes} {es : List Entry}
    (h : entries front lineno (buf :: bufs) = some es) : 0 < es.length := by
  rw [← parseBuf_eq_skipped_iff _ (lineno + 1)] at hbuf
  rw [entries] at h
  split at h
  · next hparsed => exact absurd hparsed hbuf
  · obtain ⟨es', -, rfl⟩ := Option.map_eq_some_iff.mp h
    exact Nat.succ_pos _
  · cases h
  · cases h

theorem clean_of_entries {front : ℕ → UInt8} {lineno : ℕ} {bufs : List Bytes} {es : List Entry}
    (h : entries front lineno bufs = some es) : ∀ e ∈ es, e.Clean := by
  induction bufs generalizing lineno es with
  | nil =>
    cases h
    exact fun _ he => absurd he List.not_mem_nil
  | cons buf bufs ih =>
    rw [entries] at h
    split at h
    · exact ih h
    · next hparsed =>
      obtain ⟨es', hes', rfl⟩ := Option.map_eq_some_iff.mp h
      exact List.forall_mem_cons.mpr ⟨clean_of_parseBuf hparsed, ih hes'⟩
    · cases h
    · cases h

namespace SdsConfigFile

/-- The loop adds the entries of the pieces. -/
theorem parseLoop_eq_returned_iff (front : ℕ → UInt8) (bufs : List Bytes) (lineno : ℕ)
    (inSection : Bool) (file file' : SdsConfigFile) :
    parseLoop front lineno inSection file bufs = .returned () file' ↔
      ∃ es, entries front lineno bufs = some es ∧ file.extend inSection es = file' := by
  induction bufs generalizing lineno inSection file with
  | nil =>
    simp [parseLoop, entries, extend_nil]
  | cons buf bufs ih =>
    rw [parseLoop, entries]
    cases parseBuf (front (lineno + 1)) (lineno + 1) buf with
    | skipped => exact ih _ _ _
    | entry e =>
      cases e with
      | header name =>
        simp [ih, extend_header _ inSection]
      | value k v =>
        simp [ih, extend_value]
    | error what => simp
    | undefined => simp

/-- **The parser succeeds with the sections that the entries of its pieces make.** -/
theorem parse_eq_iff (front : ℕ → UInt8) (text : Bytes) (es : List Entry) :
    parse front new (.ok text) = .returned () (ofEntries es) ↔
      entries front 0 (pieces text) = some es := by
  rw [parse, parseLoop_eq_returned_iff]
  simp only [extend_new, ofEntries_injective.eq_iff, exists_eq_right]

end SdsConfigFile

end SniffDogSniff
