import SniffDogSniff.Base.Prog
import SniffDogSniff.Crawler.CrawlerUtils
import SniffDogSniff.SdsCore.SearchEntry

/-!
# Results of a search engine

`extractSearchResults` goes through the children of the results container with a cursor.
`getNextElementByAttr` looks behind the cursor, and puts it on what it finds; the loop
starts with the cursor on the first child.

## Main definitions

* `SearchEngine` — the selectors of the configuration.
* `getNextElementByAttr`, `extractLoop` — the search, and the loop over it.
* `VisitsAll` — what is asked of the loop.

## Main results

* `nextLoop_eq_some`, `nextLoop_eq_none` — the search finds the next match.
* `exists_extractLoop` — the loop visits the matches behind the cursor.
* `visitsAll_iff` — **the loop visits every match exactly where the first child is none.**
-/

namespace SniffDogSniff

/-! ### The configuration -/

/-- A selector, which is not empty: what kind of attribute it is about, and its value. -/
structure Selector where
  first : UInt8
  value : Bytes

/-- `attrb`: the id for `#`, else the class. -/
def Selector.attrb (s : Selector) : Bytes :=
  if s.first = 35 then [105, 100] else [99, 108, 97, 115, 115]

structure SearchEngine where
  resultContainerElement : Selector
  resultUrlElement : Selector
  resultUrlProperty : Bytes
  resultTitleElement : Selector
  resultTitleProperty : Bytes

section

variable [Gumbo]

/-! ### The cursor -/

/-- The loop of `getNextElementByAttr`, over the children from the `i`-th on. -/
def nextLoop (attrName attrValue : Bytes) : ℕ → List GumboNode → Option (GumboNode × ℕ)
  | _, [] => none
  | i, child :: rest =>
    if child.isMatch attrName attrValue then some (child, i)
    else nextLoop attrName attrValue (i + 1) rest

/-- `getNextElementByAttr`, for an element with these children; what it finds comes with its
place, which is where the cursor is put. -/
def getNextElementByAttr (children : List GumboNode) (pos : Option ℕ) (attrName attrValue : Bytes) :
    Option (GumboNode × ℕ) :=
  let i := match pos with
    | some pos => pos + 1
    | none => 0
  nextLoop attrName attrValue i (children.drop i)

theorem nextLoop_eq_some {attrName attrValue : Bytes} {l : List GumboNode} {i j : ℕ}
    {node : GumboNode} (h : nextLoop attrName attrValue i l = some (node, j)) :
    ∃ front behind, l = front ++ node :: behind ∧ j = i + front.length ∧
      (∀ e ∈ front, e.isMatch attrName attrValue = false) ∧
        node.isMatch attrName attrValue = true := by
  induction l generalizing i with
  | nil => cases h
  | cons child rest ih =>
    rw [nextLoop] at h
    split at h
    · next hmatch =>
      cases h
      exact ⟨[], rest, rfl, rfl, fun e he => absurd he List.not_mem_nil, hmatch⟩
    · next hmatch =>
      obtain ⟨front, behind, rfl, rfl, hfront, hnode⟩ := ih h
      refine ⟨child :: front, behind, rfl, ?_, ?_, hnode⟩
      · rw [List.length_cons]
        omega
      · rw [List.forall_mem_cons]
        exact ⟨Bool.not_eq_true _ ▸ hmatch, hfront⟩

theorem nextLoop_eq_none {attrName attrValue : Bytes} {l : List GumboNode} {i : ℕ}
    (h : nextLoop attrName attrValue i l = none) :
    ∀ e ∈ l, e.isMatch attrName attrValue = false := by
  induction l generalizing i with
  | nil => exact fun e he => absurd he List.not_mem_nil
  | cons child rest ih =>
    rw [nextLoop] at h
    split at h
    · cases h
    · next hmatch =>
      rw [List.forall_mem_cons]
      exact ⟨Bool.not_eq_true _ ▸ hmatch, ih h⟩

theorem getNextElementByAttr_some (children : List GumboNode) (pos : ℕ)
    (attrName attrValue : Bytes) :
    getNextElementByAttr children (some pos) attrName attrValue =
      nextLoop attrName attrValue (pos + 1) (children.drop (pos + 1)) := rfl

/-- The matches among some nodes, with their places from `i` on. -/
def matchesFrom (attrName attrValue : Bytes) (i : ℕ) (l : List GumboNode) :
    List (GumboNode × ℕ) :=
  (l.zipIdx i).filter fun v => v.1.isMatch attrName attrValue

theorem matchesFrom_of_forall {attrName attrValue : Bytes} {l : List GumboNode}
    (h : ∀ e ∈ l, e.isMatch attrName attrValue = false) (i : ℕ) :
    matchesFrom attrName attrValue i l = [] := by
  refine List.filter_eq_nil_iff.mpr fun v hv => ?_
  exact Bool.eq_false_iff.mp (h v.1 (List.fst_mem_of_mem_zipIdx hv))

theorem matchesFrom_append {attrName attrValue : Bytes} (i : ℕ) (l l' : List GumboNode) :
    matchesFrom attrName attrValue i (l ++ l') =
      matchesFrom attrName attrValue i l ++ matchesFrom attrName attrValue (i + l.length) l' := by
  rw [matchesFrom, List.zipIdx_append, List.filter_append]
  rfl

theorem matchesFrom_cons_of_match {attrName attrValue : Bytes} {node : GumboNode}
    (h : node.isMatch attrName attrValue = true) (i : ℕ) (l : List GumboNode) :
    matchesFrom attrName attrValue i (node :: l) =
      (node, i) :: matchesFrom attrName attrValue (i + 1) l :=
  List.filter_cons_of_pos h

theorem matchesFrom_cons_of_not_match {attrName attrValue : Bytes} {node : GumboNode}
    (h : node.isMatch attrName attrValue = false) (i : ℕ) (l : List GumboNode) :
    matchesFrom attrName attrValue i (node :: l) = matchesFrom attrName attrValue (i + 1) l :=
  List.filter_cons_of_neg (Bool.eq_false_iff.mp h)

/-- The matches behind a place begin with the next one. -/
theorem matchesFrom_drop_of_some {attrName attrValue : Bytes} {children : List GumboNode}
    {pos j : ℕ} {node : GumboNode}
    (h : nextLoop attrName attrValue pos (children.drop pos) = some (node, j)) :
    matchesFrom attrName attrValue pos (children.drop pos) =
        (node, j) :: matchesFrom attrName attrValue (j + 1) (children.drop (j + 1)) ∧
      children[j]? = some node ∧ pos ≤ j := by
  obtain ⟨front, behind, hdrop, rfl, hfront, hnode⟩ := nextLoop_eq_some h
  have hget : children[pos + front.length]? = some node := by
    rw [← List.getElem?_drop, hdrop, List.getElem?_append_right le_rfl, Nat.sub_self]
    rfl
  -- what is left is what is behind the node that was found
  have hbehind : children.drop (pos + front.length + 1) = behind := by
    rw [Nat.add_assoc, ← List.drop_drop, hdrop, ← List.drop_drop, List.drop_left]
    rfl
  refine ⟨?_, hget, Nat.le_add_right _ _⟩
  rw [hbehind, hdrop, matchesFrom_append, matchesFrom_of_forall hfront, List.nil_append,
    matchesFrom_cons_of_match hnode]

/-- A search below an element without documents has a result. -/
theorem exists_getElementByAttr {node : GumboNode}
    (h : ∀ v ∈ preorder [] node, v.2.isDocument = false) (attrName attrValue : Bytes) :
    ∃ r, getElementByAttr attrName attrValue node = some r := by
  rw [getElementByAttr_eq_scan]
  refine ⟨_, (scan_eq_find?_iff attrName attrValue (shown node)).mpr ?_⟩
  intro front d behind heq hd
  have hmem : d ∈ shown node := by
    rw [heq]
    exact List.mem_append_right _ List.mem_cons_self
  obtain ⟨v, hv, rfl⟩ := List.mem_map.mp hmem
  rw [h v (List.mem_of_mem_filter hv)] at hd
  cases hd

/-! ### The entries -/

variable [Hashing]

/-- A property of an element, or its text where none is configured. -/
def elementValue (property : Bytes) : GumboNode → Bytes
  | .element _ _ attributes children =>
    if property.length > 0 then (Gumbo.getAttribute attributes property).getD []
    else getNodeText children []
  | _ => []

/-- The entry that a result gives, if it does; undefined where a search in it is. -/
def extractEntry (engine : SearchEngine) (resultContainerNode : GumboNode) :
    Option (Option SearchEntry) := do
  let resultUrlNode ← getElementByAttr engine.resultUrlElement.attrb engine.resultUrlElement.value
    resultContainerNode
  match resultUrlNode with
  | none => pure none
  | some resultUrlNode =>
    let rlink := elementValue engine.resultUrlProperty resultUrlNode
    let resultTitleNode ← getElementByAttr engine.resultTitleElement.attrb
      engine.resultTitleElement.value resultContainerNode
    let title := match resultTitleNode with
      | some node => elementValue engine.resultTitleProperty node
      | none => []
    pure (if title.length > 0 then some (SearchEntry.new title rlink .SITE ∅) else none)

/-- The loop with its cursor, which notes what it visits, for a number of rounds that is
enough. -/
def extractLoop (engine : SearchEngine) (children : List GumboNode) :
    ℕ → ℕ → Prog (GumboNode × ℕ) (List SearchEntry) Unit
  | 0, _ => Prog.stuck
  | n + 1, pos =>
    match getNextElementByAttr children (some pos) engine.resultContainerElement.attrb
      engine.resultContainerElement.value with
    | none => pure ()
    | some (node, pos) => do
      Prog.note (node, pos)
      let se ← Prog.ofOption (extractEntry engine node) Prog.undefined
      Prog.modify (· ++ se.toList)
      extractLoop engine children n pos

/-- The loop of `extractSearchResults` over the results container. -/
def extractSearchResults (engine : SearchEngine) (children : List GumboNode) :
    Prog (GumboNode × ℕ) (List SearchEntry) Unit :=
  extractLoop engine children (children.length + 1) 0

/-! ### What is asked -/

/-- The children of an element; the document is not among what is inside an element. -/
structure ResultsContainer where
  children : List GumboNode
  no_document : ∀ child ∈ children, ∀ v ∈ preorder [] child, v.2.isDocument = false

/-- The loop comes to its end, and visits the children that match, in their order. -/
structure VisitsAll (engine : SearchEngine) (container : ResultsContainer)
    (entries : List SearchEntry) : Prop where
  returns : ∃ entries', (extractSearchResults engine container.children entries).2 =
    .returned () entries'
  visits : (extractSearchResults engine container.children entries).1 =
    container.children.zipIdx.filter fun v =>
      v.1.isMatch engine.resultContainerElement.attrb engine.resultContainerElement.value

/-! ### The loop -/

theorem exists_extractEntry (engine : SearchEngine) {node : GumboNode}
    (h : ∀ v ∈ preorder [] node, v.2.isDocument = false) :
    ∃ se, extractEntry engine node = some se := by
  obtain ⟨url, hurl⟩ := exists_getElementByAttr h engine.resultUrlElement.attrb
    engine.resultUrlElement.value
  obtain ⟨title, htitle⟩ := exists_getElementByAttr h engine.resultTitleElement.attrb
    engine.resultTitleElement.value
  cases url with
  | none => exact ⟨none, by rw [extractEntry, hurl]; rfl⟩
  | some urlNode => exact ⟨_, by rw [extractEntry, hurl, htitle]; rfl⟩

/-- A round that finds a node, and the rounds after it. -/
theorem extractLoop_of_some {engine : SearchEngine} {children : List GumboNode} {n pos j : ℕ}
    {node : GumboNode} {se : Option SearchEntry}
    (hnext : getNextElementByAttr children (some pos) engine.resultContainerElement.attrb
      engine.resultContainerElement.value = some (node, j))
    (hse : extractEntry engine node = some se) (entries : List SearchEntry) :
    extractLoop engine children (n + 1) pos entries =
      let r := extractLoop engine children n j (entries ++ se.toList)
      ((node, j) :: r.1, r.2) := by
  rw [extractLoop, hnext]
  show (Prog.note (node, j) >>= fun _ => Prog.ofOption (extractEntry engine node)
    Prog.undefined >>= fun se => Prog.modify (· ++ se.toList) >>= fun _ =>
      extractLoop engine children n j) entries = _
  rw [Prog.note_bind, hse]
  rfl

/-- **The loop visits the matches behind the cursor.** -/
theorem exists_extractLoop (engine : SearchEngine) (container : ResultsContainer) (n pos : ℕ)
    (hn : container.children.length - (pos + 1) < n) (entries : List SearchEntry) :
    ∃ entries', extractLoop engine container.children n pos entries =
      (matchesFrom engine.resultContainerElement.attrb engine.resultContainerElement.value
        (pos + 1) (container.children.drop (pos + 1)), .returned () entries') := by
  induction n generalizing pos entries with
  | zero => exact absurd hn (Nat.not_lt_zero _)
  | succ n ih =>
    have hcursor := getNextElementByAttr_some container.children pos
      engine.resultContainerElement.attrb engine.resultContainerElement.value
    cases hnext : nextLoop engine.resultContainerElement.attrb engine.resultContainerElement.value
        (pos + 1) (container.children.drop (pos + 1)) with
    | none =>
      rw [hnext] at hcursor
      rw [extractLoop, hcursor, matchesFrom_of_forall (nextLoop_eq_none hnext)]
      exact ⟨entries, rfl⟩
    | some found =>
      obtain ⟨node, j⟩ := found
      obtain ⟨hmatches, hget, hle⟩ := matchesFrom_drop_of_some hnext
      obtain ⟨se, hse⟩ := exists_extractEntry engine
        (container.no_document node (List.mem_of_getElem? hget))
      have hlt : container.children.length - (j + 1) < n := by
        have hj := (List.getElem?_eq_some_iff.mp hget).1
        omega
      obtain ⟨entries', hrun⟩ := ih j hlt (entries ++ se.toList)
      rw [hnext] at hcursor
      refine ⟨entries', ?_⟩
      rw [extractLoop_of_some hcursor hse, hrun, hmatches]

/-- What is visited are the matches from the second child on. -/
theorem visitsAll_iff_matchesFrom (engine : SearchEngine) (container : ResultsContainer)
    (entries : List SearchEntry) :
    VisitsAll engine container entries ↔
      matchesFrom engine.resultContainerElement.attrb engine.resultContainerElement.value 1
          (container.children.drop 1) =
        matchesFrom engine.resultContainerElement.attrb engine.resultContainerElement.value 0
          container.children := by
  obtain ⟨entries', hrun⟩ := exists_extractLoop engine container
    (container.children.length + 1) 0 (by omega) entries
  constructor
  · rintro ⟨-, hvisits⟩
    rwa [extractSearchResults, hrun] at hvisits
  · intro heq
    refine ⟨⟨entries', ?_⟩, ?_⟩
    · rw [extractSearchResults, hrun]
    · rw [extractSearchResults, hrun]
      exact heq

/-- **The loop visits every match exactly where the first child is none.** -/
theorem visitsAll_iff (engine : SearchEngine) (container : ResultsContainer)
    (entries : List SearchEntry) :
    VisitsAll engine container entries ↔
      ∀ child, container.children.head? = some child →
        child.isMatch engine.resultContainerElement.attrb engine.resultContainerElement.value =
          false := by
  rw [visitsAll_iff_matchesFrom]
  cases container.children with
  | nil => exact iff_of_true rfl fun child h => by cases h
  | cons child rest =>
    rw [List.drop_one, List.tail_cons, List.head?_cons]
    cases hmatch : child.isMatch engine.resultContainerElement.attrb
        engine.resultContainerElement.value with
    | true =>
      rw [matchesFrom_cons_of_match hmatch]
      refine iff_of_false (List.ne_cons_self) fun h => ?_
      rw [h child rfl] at hmatch
      cases hmatch
    | false =>
      rw [matchesFrom_cons_of_not_match hmatch]
      refine iff_of_true rfl fun e he => ?_
      cases he
      exact hmatch

end

/-- A result that is the only child is not visited. -/
theorem not_visitsAll_single :
    letI := Gumbo.exact
    letI := Hashing.blank
    ¬ VisitsAll ⟨⟨46, [114]⟩, ⟨46, [117]⟩, [], ⟨46, [116]⟩, []⟩
      ⟨[.element 0 (.other 0) [⟨[99, 108, 97, 115, 115], [114]⟩] []], by
        intro child hchild v hv
        rw [List.mem_singleton.mp hchild] at hv
        rw [List.mem_singleton.mp hv]
        rfl⟩ [] := by
  let _ := Gumbo.exact
  let _ := Hashing.blank
  intro h
  have hlen := congrArg List.length h.visits
  exact absurd hlen (by decide)

end SniffDogSniff
