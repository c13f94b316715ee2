import SniffDogSniff.Crawler.CrawlerUtils
import SniffDogSniff.SdsCore.SearchEntry

/-!
# Links of a document

`scanDocument` goes through the elements below a node and keeps an entry for every link.
The variable for the title belongs to the loop over the children, so a text can stay in it
from one link to the next.

## Main definitions

* `scanDocument` — the function, with the loop over the children.
* `anchors` — the links of a tree in document order, each with what stands in front of it.
* `Reached` — the nodes that the function gets to.
* `RecordsLinks` — what is asked of the entries.

## Main results

* `mem_anchors_iff` — the links are those of the anchors that are reached.
* `scanDocument_eq` — the function writes an entry for each of them, one after the other.
* `recordsLinks_iff` — **the entries are those of the last links exactly where no text is carried
  over to one of them.**
-/

namespace SniffDogSniff

open SimHash

def HREF : Bytes := [104, 114, 101, 102]

/-- A link as it is kept: without a scheme it is put behind the url of the site. -/
def absoluteLink (siteUrl rlink : Bytes) : Bytes :=
  if StringUtil.find [58, 47, 47] rlink = none then siteUrl ++ rlink else rlink

/-! ### The links of a tree -/

/-- The element is an anchor. -/
def GumboNode.isAnchor : GumboNode → Bool
  | .element _ tag _ _ => tag == .A
  | _ => false

/-- The text of an element that consists of exactly one text. -/
def GumboNode.singleText : GumboNode → Option Bytes
  | .element _ _ _ [.text t] => some t
  | _ => none

/-- A link, with the siblings in front of it. -/
structure Anchor where
  before : List GumboNode
  node : GumboNode
  link : Bytes

/-- The children of elements, reached without going through an anchor or a skipped element;
each with the siblings in front of it. -/
inductive Reached : GumboNode → List GumboNode → GumboNode → Prop
  | child {address : ℕ} {tag : GumboTag} {attributes : List GumboAttribute}
      {before behind : List GumboNode} {node : GumboNode} (htag : tag.isSkipped = false) :
      Reached (.element address tag attributes (before ++ node :: behind)) before node
  | deeper {address : ℕ} {tag : GumboTag} {attributes : List GumboAttribute}
      {children before : List GumboNode} {e node : GumboNode} (htag : tag.isSkipped = false)
      (he : e ∈ children) (hnot : e.isAnchor = false) (h : Reached e before node) :
      Reached (.element address tag attributes children) before node

theorem getNodeText_eq (address : ℕ) (tag : GumboTag) (attributes : List GumboAttribute)
    (children : List GumboNode) (text : Bytes) :
    getNodeText children text =
      (GumboNode.element address tag attributes children).singleText.getD text := by
  rcases children with _ | ⟨node, _ | ⟨sibling, rest⟩⟩
  · rfl
  · cases node <;> rfl
  · cases node <;> rfl

section

variable [Gumbo]

/-- Where a node links to, if it is an anchor that does. -/
def GumboNode.href : GumboNode → Option Bytes
  | .element _ tag attributes _ => if tag = .A then Gumbo.getAttribute attributes HREF else none
  | _ => none

mutual

/-- The links below a node, in document order. -/
def anchors (siteUrl : Bytes) : GumboNode → List Anchor
  | .element _ tag _ children => if tag.isSkipped then [] else anchorsIn siteUrl [] children
  | _ => []

def anchorsIn (siteUrl : Bytes) (before : List GumboNode) : List GumboNode → List Anchor
  | [] => []
  | node :: rest =>
    (if node.isAnchor then
      (node.href.map fun rlink => Anchor.mk before node (absoluteLink siteUrl rlink)).toList
    else anchors siteUrl node) ++ anchorsIn siteUrl (before ++ [node]) rest

end

/-- What the links below a node are like. -/
def Anchor.IsOf (siteUrl : Bytes) (a : Anchor) : Prop :=
  ∃ rlink, a.node.href = some rlink ∧ a.link = absoluteLink siteUrl rlink

theorem isAnchor_of_href {node : GumboNode} {rlink : Bytes} (h : node.href = some rlink) :
    node.isAnchor = true := by
  cases node with
  | element address tag attributes children =>
    rw [GumboNode.href] at h
    split at h
    · next htag =>
      rw [htag]
      rfl
    · cases h
  | document children => cases h
  | text t => cases h
  | other => cases h

mutual

theorem reached_of_mem_anchors {siteUrl : Bytes} {a : Anchor} : ∀ root : GumboNode,
    a ∈ anchors siteUrl root → Reached root a.before a.node ∧ a.IsOf siteUrl
  | .element address tag attributes children, h => by
    rw [anchors] at h
    split at h
    · exact absurd h List.not_mem_nil
    · next htag =>
      have htag : tag.isSkipped = false := by simpa using htag
      rcases reached_of_mem_anchorsIn children h with ⟨front, behind, rfl, hbefore, hof⟩ |
        ⟨e, he, hnot, hreached, hof⟩
      · rw [hbefore, List.nil_append]
        exact ⟨.child htag, hof⟩
      · exact ⟨.deeper htag he hnot hreached, hof⟩

theorem reached_of_mem_anchorsIn {siteUrl : Bytes} {a : Anchor} {before : List GumboNode} :
    ∀ nodes : List GumboNode, a ∈ anchorsIn siteUrl before nodes →
      (∃ front behind, nodes = front ++ a.node :: behind ∧ a.before = before ++ front ∧
        a.IsOf siteUrl) ∨
      ∃ e ∈ nodes, e.isAnchor = false ∧ Reached e a.before a.node ∧ a.IsOf siteUrl
  | node :: rest, h => by
    rw [anchorsIn, List.mem_append] at h
    rcases h with h | h
    · split at h
      · obtain ⟨rlink, hrlink, rfl⟩ := Option.map_eq_some_iff.mp (Option.mem_toList.mp h)
        exact Or.inl ⟨[], rest, rfl, (List.append_nil _).symm, rlink, hrlink, rfl⟩
      · next hnot =>
        obtain ⟨hreached, hof⟩ := reached_of_mem_anchors node h
        exact Or.inr ⟨node, List.mem_cons_self, by simpa using hnot, hreached, hof⟩
    · rcases reached_of_mem_anchorsIn rest h with ⟨front, behind, rfl, hbefore, hof⟩ |
        ⟨e, he, hrest⟩
      · refine Or.inl ⟨node :: front, behind, rfl, ?_, hof⟩
        rw [hbefore, List.append_assoc]
        rfl
      · exact Or.inr ⟨e, List.mem_cons_of_mem _ he, hrest⟩

end

theorem anchorsIn_append (siteUrl : Bytes) (before l l' : List GumboNode) :
    anchorsIn siteUrl before (l ++ l') =
      anchorsIn siteUrl before l ++ anchorsIn siteUrl (before ++ l) l' := by
  induction l generalizing before with
  | nil => rw [List.append_nil]; rfl
  | cons node l ih =>
    rw [List.cons_append, anchorsIn, anchorsIn, ih, List.append_assoc, List.append_assoc]
    rfl

theorem mem_anchors_of_reached (siteUrl : Bytes) {root node : GumboNode}
    {before : List GumboNode} (hreached : Reached root before node) {rlink : Bytes}
    (hrlink : node.href = some rlink) :
    Anchor.mk before node (absoluteLink siteUrl rlink) ∈ anchors siteUrl root := by
  induction hreached with
  | @child address tag attributes before behind node htag =>
    rw [anchors, if_neg (Bool.eq_false_iff.mp htag), anchorsIn_append, anchorsIn,
      if_pos (isAnchor_of_href hrlink), List.nil_append, hrlink]
    exact List.mem_append_right _ (List.mem_append_left _ List.mem_cons_self)
  | @deeper address tag attributes children before e node htag he hnot _ ih =>
    obtain ⟨front, behind, rfl⟩ := List.append_of_mem he
    rw [anchors, if_neg (Bool.eq_false_iff.mp htag), anchorsIn_append, anchorsIn,
      if_neg (Bool.eq_false_iff.mp hnot)]
    exact List.mem_append_right _ (List.mem_append_left _ (ih hrlink))

/-- **The links of a tree are those of the anchors that are reached.** -/
theorem mem_anchors_iff {siteUrl : Bytes} {a : Anchor} {root : GumboNode} :
    a ∈ anchors siteUrl root ↔ Reached root a.before a.node ∧ a.IsOf siteUrl := by
  refine ⟨reached_of_mem_anchors root, ?_⟩
  rintro ⟨hreached, rlink, hrlink, hlink⟩
  have hmem := mem_anchors_of_reached siteUrl hreached hrlink
  rwa [← hlink] at hmem

/-- The text of the nearest link among some siblings that has one. -/
def lastText (before : List GumboNode) : Option Bytes :=
  (before.reverse.filter fun node => node.href.isSome).findSome? GumboNode.singleText

theorem lastText_append (before : List GumboNode) (node : GumboNode) :
    lastText (before ++ [node]) =
      if node.href.isSome then node.singleText.or (lastText before) else lastText before := by
  rw [lastText, List.reverse_append, List.reverse_singleton, List.singleton_append,
    List.filter_cons]
  split
  · rw [List.findSome?_cons]
    cases node.singleText with
    | none => rfl
    | some t => rfl
  · rfl

/-! ### The function -/

variable [Hashing]

abbrev Entries : Type := OrdMap stringOrder SearchEntry

mutual

def scanDocument (siteUrl : Bytes) : GumboNode → Entries → Entries
  | .element _ tag _ children, entries =>
    if tag.isSkipped then entries else scanChildren siteUrl [] children entries
  | _, entries => entries

/-- The loop over the children, with the variable for the title. -/
def scanChildren (siteUrl title : Bytes) : List GumboNode → Entries → Entries
  | [], entries => entries
  | node :: rest, entries =>
    match node with
    | .element _ tag attributes children =>
      if tag = .A then
        match Gumbo.getAttribute attributes HREF with
        | some rlink =>
          let title := getNodeText children title
          let rlink := absoluteLink siteUrl rlink
          scanChildren siteUrl title rest
            (entries.set rlink (SearchEntry.new title rlink .SITE ∅))
        | none => scanChildren siteUrl title rest entries
      else scanChildren siteUrl title rest (scanDocument siteUrl node entries)
    | _ => scanChildren siteUrl title rest entries

end

/-! ### What is asked -/

/-- Where the function starts: the body, or another element that is no link. -/
structure ScanRoot where
  node : GumboNode
  not_anchor : node.isAnchor = false

/-- The last link that goes to an address. -/
def lastAnchor (siteUrl : Bytes) (root : GumboNode) (link : Bytes) : Option Anchor :=
  (anchors siteUrl root).reverse.find? fun a => decide (a.link = link)

/-- There is an entry for every link, with the text of the last anchor that goes there, and
there are no others. -/
structure RecordsLinks (siteUrl : Bytes) (root : ScanRoot) : Prop where
  recorded : ∀ link a, lastAnchor siteUrl root.node link = some a →
    ∃ se, ((scanDocument siteUrl root.node ∅).find? link).map Prod.snd = some se ∧
      se.url = link ∧ se.title = a.node.singleText.getD []
  nothing : ∀ link, lastAnchor siteUrl root.node link = none →
    (scanDocument siteUrl root.node ∅).find? link = none

/-! ### What is written -/

/-- What is written for a link. -/
def Anchor.entry (a : Anchor) : Bytes × SearchEntry :=
  (a.link, SearchEntry.new (a.node.singleText.getD ((lastText a.before).getD [])) a.link .SITE ∅)

omit [Gumbo] in
theorem setAll_append (entries : Entries) (l l' : List (Bytes × SearchEntry)) :
    entries.setAll (l ++ l') = (entries.setAll l).setAll l' :=
  List.foldl_append

theorem scanChildren_anchor (siteUrl : Bytes) {node : GumboNode} (h : node.isAnchor = true)
    (before rest : List GumboNode) (entries : Entries) :
    scanChildren siteUrl ((lastText before).getD []) (node :: rest) entries =
      scanChildren siteUrl ((lastText (before ++ [node])).getD []) rest
        (entries.setAll ((node.href.map fun rlink =>
          Anchor.mk before node (absoluteLink siteUrl rlink)).toList.map Anchor.entry)) := by
  cases node with
  | element address tag attributes children =>
    have htag : tag = .A := beq_iff_eq.mp h
    subst htag
    have hhref : (GumboNode.element address .A attributes children).href =
        Gumbo.getAttribute attributes HREF := by
      rw [GumboNode.href, if_pos rfl]
    rw [scanChildren, if_pos rfl, lastText_append, hhref]
    cases Gumbo.getAttribute attributes HREF with
    | none => rfl
    -- the text, or the one that is still in the variable
    | some rlink =>
      rw [Option.isSome_some, if_pos rfl, Option.getD_or,
        getNodeText_eq address .A attributes children]
      rfl
  | document children => cases h
  | text t => cases h
  | other => cases h

theorem scanChildren_of_not_anchor (siteUrl : Bytes) {node : GumboNode}
    (h : node.isAnchor = false) (before rest : List GumboNode) (entries : Entries) :
    scanChildren siteUrl ((lastText before).getD []) (node :: rest) entries =
      scanChildren siteUrl ((lastText (before ++ [node])).getD []) rest
        (scanDocument siteUrl node entries) := by
  rw [lastText_append]
  cases node with
  | element address tag attributes children =>
    have htag : tag ≠ .A := beq_eq_false_iff_ne.mp h
    have hhref : (GumboNode.element address tag attributes children).href = none := if_neg htag
    rw [scanChildren, if_neg htag, hhref]
    rfl
  | document children => rfl
  | text t => rfl
  | other => rfl

mutual

/-- **The function writes an entry for each link, one after the other.** -/
theorem scanDocument_eq (siteUrl : Bytes) : ∀ (node : GumboNode) (entries : Entries),
    scanDocument siteUrl node entries =
      entries.setAll ((anchors siteUrl node).map Anchor.entry)
  | .element address tag attributes children, entries => by
    rw [scanDocument, anchors]
    split
    · rfl
    · exact scanChildren_eq siteUrl children [] entries
  | .document children, entries => rfl
  | .text t, entries => rfl
  | .other, entries => rfl

theorem scanChildren_eq (siteUrl : Bytes) : ∀ (nodes before : List GumboNode) (entries : Entries),
    scanChildren siteUrl ((lastText before).getD []) nodes entries =
      entries.setAll ((anchorsIn siteUrl before nodes).map Anchor.entry)
  | [], before, entries => rfl
  | node :: rest, before, entries => by
    rw [anchorsIn, List.map_append, setAll_append]
    cases hanchor : node.isAnchor with
    | true =>
      rw [scanChildren_anchor siteUrl hanchor, if_pos rfl]
      exact scanChildren_eq siteUrl rest (before ++ [node]) _
    | false =>
      rw [scanChildren_of_not_anchor siteUrl hanchor, if_neg Bool.false_ne_true,
        scanDocument_eq siteUrl node entries]
      exact scanChildren_eq siteUrl rest (before ++ [node]) _

end

/-- **What is found under a link is what was written for the last anchor that goes there.** -/
theorem find?_scanDocument (siteUrl : Bytes) (root : GumboNode) (link : Bytes) :
    ((scanDocument siteUrl root ∅).find? link).map Prod.snd =
      (lastAnchor siteUrl root link).map fun a => a.entry.2 := by
  have hnone : ((∅ : Entries).find? link).map Prod.snd = none := rfl
  rw [scanDocument_eq, OrdMap.find?_setAll_of_eq eq_of_stringOrder_equiv, hnone, Option.or_none,
    ← List.map_reverse, List.find?_map, Option.map_map]
  rfl

/-- **The entries are those of the last links exactly where no text is carried over to one
of them**: where such an anchor has no text of its own, the nearest link among its siblings
in front of it that has one has an empty one. -/
theorem recordsLinks_iff (siteUrl : Bytes) (root : ScanRoot) :
    RecordsLinks siteUrl root ↔
      ∀ link a, lastAnchor siteUrl root.node link = some a → a.node.singleText = none →
        ∀ t, lastText a.before = some t → t = [] := by
  constructor
  · rintro ⟨hrecorded, -⟩ link a ha hown t ht
    obtain ⟨se, hse, -, htitle⟩ := hrecorded link a ha
    rw [find?_scanDocument, ha] at hse
    cases hse
    have hcarried : (a.node.singleText.getD ((lastText a.before).getD [])) =
      a.node.singleText.getD [] := htitle
    rwa [hown, ht] at hcarried
  · intro h
    refine ⟨fun link a ha => ⟨a.entry.2, ?_, ?_, ?_⟩, fun link hnone => ?_⟩
    · rw [find?_scanDocument, ha]
      rfl
    · have hlink := List.find?_some ha
      exact of_decide_eq_true hlink
    · show a.node.singleText.getD ((lastText a.before).getD []) = a.node.singleText.getD []
      cases hown : a.node.singleText with
      | some t => rfl
      | none =>
        cases ht : lastText a.before with
        | none => rfl
        | some t => exact h link a ha hown t ht
    · have hfind := find?_scanDocument siteUrl root.node link
      rw [hnone] at hfind
      exact Option.map_eq_none_iff.mp hfind

end

/-- The text of a link, in the entry of one that has none. -/
theorem not_recordsLinks_carried :
    letI := Gumbo.exact
    letI := Hashing.blank
    ¬ RecordsLinks [104, 116, 116, 112, 58, 47, 47, 115, 47] ⟨.element 0 (.other 0) []
      [.element 1 .A [⟨HREF, [97]⟩] [.text [120]], .element 2 .A [⟨HREF, [98]⟩] []], rfl⟩ := by
  let _ := Gumbo.exact
  let _ := Hashing.blank
  intro h
  obtain ⟨se, hse, -, htitle⟩ := h.recorded [104, 116, 116, 112, 58, 47, 47, 115, 47, 98]
    ⟨[.element 1 .A [⟨HREF, [97]⟩] [.text [120]]], .element 2 .A [⟨HREF, [98]⟩] [],
      [104, 116, 116, 112, 58, 47, 47, 115, 47, 98]⟩ rfl
  rw [find?_scanDocument] at hse
  cases hse
  have hcarried : ([120] : Bytes) = [] := htitle
  exact absurd hcarried (by decide)

end SniffDogSniff
