import SniffDogSniff.Common.Splits

/-!
# Trees of parsed documents

`getElementByAttr` searches a tree from a node on.  It goes into a document node as if this
were an element, and asks for a tag and for attributes that such a node does not have.

## Main definitions

* `GumboNode` — a parsed tree; `Gumbo`, the look at the attributes of an element.
* `getElementByAttr`, `getNodeText` — the functions on them.
* `preorder` — the nodes of a tree in document order, each with the nodes above it.
* `FindsFirst` — what is asked of the search.

## Main results

* `getElementByAttr_eq_scan` — the search goes along the shown nodes in document order.
* `findsFirst_iff` — **the search finds the first element exactly where no shown document
  node stands in front of it.**
-/

namespace SniffDogSniff

/-! ### Trees -/

inductive GumboTag
  | A
  | STYLE
  | SCRIPT
  | META
  | other (n : ℕ)
  deriving DecidableEq

structure GumboAttribute where
  name : Bytes
  value : Bytes
  deriving DecidableEq

/-- A node; elements are told apart by where they are in memory. -/
inductive GumboNode
  | document (children : List GumboNode)
  | element (address : ℕ) (tag : GumboTag) (attributes : List GumboAttribute)
      (children : List GumboNode)
  | text (text : Bytes)
  /-- A comment or another node that none of the functions looks into. -/
  | other

/-- What the parser's library is asked for. -/
class Gumbo where
  /-- `gumbo_get_attribute`: the value of the attribute with a name, if there is one. -/
  getAttribute : List GumboAttribute → Bytes → Option Bytes

/-- The first attribute with exactly the name. -/
@[reducible] def Gumbo.exact : Gumbo where
  getAttribute attributes name := (attributes.find? (·.name == name)).map (·.value)

/-- The elements that are left out with everything in them. -/
def GumboTag.isSkipped (tag : GumboTag) : Bool :=
  tag == .STYLE || tag == .SCRIPT || tag == .META

/-- `strstr(value, needle) != nullptr`. -/
def strstr (value needle : Bytes) : Bool := (StringUtil.find needle value).isSome

/-- `getNodeText`, for an element with these children: the text, or what was in the string. -/
def getNodeText (children : List GumboNode) (text : Bytes) : Bytes :=
  match children with
  | [.text t] => t
  | _ => text

/-! ### Document order -/

mutual

/-- The nodes of a tree in document order, each with the nodes above it. -/
def preorder (above : List GumboNode) : GumboNode → List (List GumboNode × GumboNode)
  | .document children => (above, .document children) ::
      preorderIn (.document children :: above) children
  | .element address tag attributes children =>
      (above, .element address tag attributes children) ::
        preorderIn (.element address tag attributes children :: above) children
  | .text t => [(above, .text t)]
  | .other => [(above, .other)]

def preorderIn (above : List GumboNode) : List GumboNode → List (List GumboNode × GumboNode)
  | [] => []
  | node :: rest => preorder above node ++ preorderIn above rest

end

def GumboNode.isSkipped : GumboNode → Bool
  | .element _ tag _ _ => tag.isSkipped
  | _ => false

def GumboNode.isDocument : GumboNode → Bool
  | .document _ => true
  | _ => false

/-- The entries of a walk that are shown. -/
def isShown (v : List GumboNode × GumboNode) : Bool := (v.2 :: v.1).all fun node => !node.isSkipped

theorem isShown_of_above {above : List GumboNode} {node : GumboNode}
    (h : ∀ n ∈ above, n.isSkipped = false) (hnode : node.isSkipped = false) :
    isShown (above, node) = true := by
  rw [isShown, List.all_cons, hnode, Bool.not_false, Bool.true_and, List.all_eq_true]
  intro n hn
  rw [h n hn]
  rfl

/-- The nodes in document order that are not a skipped element and not inside one. -/
def shown (root : GumboNode) : List GumboNode :=
  ((preorder [] root).filter isShown).map (·.2)

mutual

/-- What is above the start of a walk is above every node of it. -/
theorem suffix_of_mem_preorder {above : List GumboNode} :
    ∀ (node : GumboNode) {v : List GumboNode × GumboNode}, v ∈ preorder above node → above <:+ v.1
  | .document children, v, hv => by
    rcases List.mem_cons.mp hv with rfl | hv
    · exact List.suffix_refl _
    · exact (List.suffix_cons _ _).trans (suffix_of_mem_preorderIn children hv)
  | .element address tag attributes children, v, hv => by
    rcases List.mem_cons.mp hv with rfl | hv
    · exact List.suffix_refl _
    · exact (List.suffix_cons _ _).trans (suffix_of_mem_preorderIn children hv)
  | .text t, v, hv => by
    rw [List.mem_singleton.mp hv]
  | .other, v, hv => by
    rw [List.mem_singleton.mp hv]

theorem suffix_of_mem_preorderIn {above : List GumboNode} :
    ∀ (nodes : List GumboNode) {v : List GumboNode × GumboNode},
      v ∈ preorderIn above nodes → above <:+ v.1
  | node :: rest, v, hv => by
    rcases List.mem_append.mp hv with hv | hv
    · exact suffix_of_mem_preorder node hv
    · exact suffix_of_mem_preorderIn rest hv

end

theorem not_isShown_of_skipped {v : List GumboNode × GumboNode} {node : GumboNode}
    (hv : node ∈ v.2 :: v.1) (h : node.isSkipped = true) : ¬ isShown v = true := by
  intro hshown
  have hnot := List.all_eq_true.mp hshown node hv
  rw [h] at hnot
  cases hnot

/-- Nothing inside a skipped element is shown. -/
theorem filter_preorderIn_of_skipped {node : GumboNode} {above : List GumboNode}
    (h : node.isSkipped = true) (nodes : List GumboNode) :
    (preorderIn (node :: above) nodes).filter isShown = [] := by
  refine List.filter_eq_nil_iff.mpr fun v hv => ?_
  have hmem : node ∈ v.1 := (suffix_of_mem_preorderIn nodes hv).mem List.mem_cons_self
  exact not_isShown_of_skipped (List.mem_cons_of_mem _ hmem) h

section

variable [Gumbo]

/-- The attribute is there, and has the value in it. -/
def hasAttr (attrName attrValue : Bytes) (attributes : List GumboAttribute) : Bool :=
  match Gumbo.getAttribute attributes attrName with
  | none => false
  | some value => strstr value attrValue

mutual

/-- `getElementByAttr`; for a document node the language does not say what `v.element` is. -/
def getElementByAttr (attrName attrValue : Bytes) : GumboNode → Option (Option GumboNode)
  | .document _ => none
  | .element address tag attributes children =>
    if tag.isSkipped then some none
    else if hasAttr attrName attrValue attributes then
      some (some (.element address tag attributes children))
    else getElementByAttrIn attrName attrValue children
  | .text _ => some none
  | .other => some none

/-- The loop over the children. -/
def getElementByAttrIn (attrName attrValue : Bytes) :
    List GumboNode → Option (Option GumboNode)
  | [] => some none
  | e :: rest =>
    match getElementByAttr attrName attrValue e with
    | none => none
    | some (some child) => some (some child)
    | some none => getElementByAttrIn attrName attrValue rest

end

/-- The node is an element whose attribute has the value in it. -/
def GumboNode.isMatch (attrName attrValue : Bytes) : GumboNode → Bool
  | .element _ _ attributes _ => hasAttr attrName attrValue attributes
  | _ => false

/-- The search finds the first match among the shown nodes, and nothing where there is none. -/
def FindsFirst (attrName attrValue : Bytes) (root : GumboNode) : Prop :=
  getElementByAttr attrName attrValue root =
    some ((shown root).find? (GumboNode.isMatch attrName attrValue))

/-! ### The search as a walk -/

/-- Going along nodes: a document node is the end of it, and so is the first match. -/
def scan (attrName attrValue : Bytes) : List GumboNode → Option (Option GumboNode)
  | [] => some none
  | node :: rest =>
    if node.isDocument then none
    else if node.isMatch attrName attrValue then some (some node)
    else scan attrName attrValue rest

theorem scan_append (attrName attrValue : Bytes) (l l' : List GumboNode) :
    scan attrName attrValue (l ++ l') =
      match scan attrName attrValue l with
      | none => none
      | some (some node) => some (some node)
      | some none => scan attrName attrValue l' := by
  induction l with
  | nil => rfl
  | cons node l ih =>
    rw [List.cons_append, scan, scan, ih]
    split
    · rfl
    · split
      · rfl
      · rfl

mutual

/-- The search from a node goes along the shown nodes of its part of the tree. -/
theorem getElementByAttr_eq_scan_of {above : List GumboNode} (attrName attrValue : Bytes)
    (h : ∀ node ∈ above, node.isSkipped = false) : ∀ node : GumboNode,
      getElementByAttr attrName attrValue node =
        scan attrName attrValue (((preorder above node).filter isShown).map (·.2))
  | .document children => by
    rw [preorder, List.filter_cons_of_pos (isShown_of_above h rfl)]
    rfl
  | .element address tag attributes children => by
    rw [preorder, getElementByAttr]
    cases htag : tag.isSkipped with
    -- nothing inside is shown
    | true =>
      have hself : (GumboNode.element address tag attributes children).isSkipped = true := htag
      rw [List.filter_cons_of_neg (not_isShown_of_skipped List.mem_cons_self hself),
        filter_preorderIn_of_skipped hself]
      rfl
    | false =>
      have hbelow : ∀ node ∈ GumboNode.element address tag attributes children :: above,
          node.isSkipped = false := by
        rw [List.forall_mem_cons]
        exact ⟨htag, h⟩
      have hself : (GumboNode.element address tag attributes children).isSkipped = false := htag
      rw [List.filter_cons_of_pos (isShown_of_above h hself), List.map_cons, scan,
        getElementByAttrIn_eq_scan_of attrName attrValue hbelow children]
      rfl
  | .text t => by
    rw [preorder, List.filter_cons_of_pos (isShown_of_above h rfl)]
    rfl
  | .other => by
    rw [preorder, List.filter_cons_of_pos (isShown_of_above h rfl)]
    rfl

theorem getElementByAttrIn_eq_scan_of {above : List GumboNode} (attrName attrValue : Bytes)
    (h : ∀ node ∈ above, node.isSkipped = false) : ∀ nodes : List GumboNode,
      getElementByAttrIn attrName attrValue nodes =
        scan attrName attrValue (((preorderIn above nodes).filter isShown).map (·.2))
  | [] => rfl
  | node :: rest => by
    rw [getElementByAttrIn, preorderIn, List.filter_append, List.map_append, scan_append,
      getElementByAttr_eq_scan_of attrName attrValue h node,
      getElementByAttrIn_eq_scan_of attrName attrValue h rest]

end

/-- **The search goes along the shown nodes in document order.** -/
theorem getElementByAttr_eq_scan (attrName attrValue : Bytes) (root : GumboNode) :
    getElementByAttr attrName attrValue root = scan attrName attrValue (shown root) :=
  getElementByAttr_eq_scan_of attrName attrValue (fun _ h => absurd h List.not_mem_nil) root

/-- In front of every document node there is a match. -/
def MatchesFirst (attrName attrValue : Bytes) (nodes : List GumboNode) : Prop :=
  ∀ front node behind, nodes = front ++ node :: behind → node.isDocument = true →
    ∃ e ∈ front, e.isMatch attrName attrValue = true

theorem matchesFirst_cons_iff {attrName attrValue : Bytes} {node : GumboNode}
    {nodes : List GumboNode} (hdoc : node.isDocument = false)
    (hmatch : node.isMatch attrName attrValue = false) :
    MatchesFirst attrName attrValue (node :: nodes) ↔ MatchesFirst attrName attrValue nodes := by
  constructor
  · intro h front d behind heq hd
    obtain ⟨e, he, hem⟩ := h (node :: front) d behind (by rw [heq, List.cons_append]) hd
    rcases List.mem_cons.mp he with rfl | he
    · rw [hmatch] at hem
      cases hem
    · exact ⟨e, he, hem⟩
  · rintro h (_ | ⟨n, front⟩) d behind heq hd
    · obtain ⟨rfl, -⟩ := List.cons.inj heq
      rw [hdoc] at hd
      cases hd
    · obtain ⟨-, heq⟩ := List.cons.inj heq
      obtain ⟨e, he, hem⟩ := h front d behind heq hd
      exact ⟨e, List.mem_cons_of_mem _ he, hem⟩

/-- The walk finds the first match where it comes to no document node before. -/
theorem scan_eq_find?_iff (attrName attrValue : Bytes) (nodes : List GumboNode) :
    scan attrName attrValue nodes = some (nodes.find? (GumboNode.isMatch attrName attrValue)) ↔
      MatchesFirst attrName attrValue nodes := by
  induction nodes with
  | nil =>
    refine iff_of_true rfl fun front node behind heq => ?_
    exact absurd heq.symm (List.append_ne_nil_of_right_ne_nil _ (List.cons_ne_nil _ _))
  | cons node nodes ih =>
    rw [scan]
    cases hdoc : node.isDocument with
    | true =>
      refine iff_of_false (Option.some_ne_none _).symm fun h => ?_
      obtain ⟨e, he, -⟩ := h [] node nodes rfl hdoc
      exact List.not_mem_nil he
    | false =>
      cases hmatch : node.isMatch attrName attrValue with
      | true =>
        rw [List.find?_cons_of_pos hmatch]
        refine iff_of_true rfl ?_
        rintro (_ | ⟨n, front⟩) d behind heq hd
        · obtain ⟨rfl, -⟩ := List.cons.inj heq
          rw [hdoc] at hd
          cases hd
        · obtain ⟨rfl, -⟩ := List.cons.inj heq
          exact ⟨_, List.mem_cons_self, hmatch⟩
      | false =>
        rw [List.find?_cons_of_neg (Bool.eq_false_iff.mp hmatch),
          matchesFirst_cons_iff hdoc hmatch, ← ih]
        rfl

/-- **The search finds the first element exactly where every shown document node has a match
in front of it.** -/
theorem findsFirst_iff (attrName attrValue : Bytes) (root : GumboNode) :
    FindsFirst attrName attrValue root ↔ MatchesFirst attrName attrValue (shown root) := by
  rw [FindsFirst, getElementByAttr_eq_scan, scan_eq_find?_iff]

end

/-- A document with one element, which is looked for. -/
theorem not_findsFirst_document :
    letI := Gumbo.exact
    ¬ FindsFirst [105, 100] [114]
      (.document [.element 0 (.other 0) [⟨[105, 100], [114]⟩] []]) := by
  intro h
  have hnone : (none : Option (Option GumboNode)) = some _ := h
  cases hnone

end SniffDogSniff
