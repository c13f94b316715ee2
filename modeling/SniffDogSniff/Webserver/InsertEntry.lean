import SniffDogSniff.SdsCore.LocalNode
import SniffDogSniff.Webserver.HttpServer

/-!
# The form for a new link

`insertSearchEntry` makes an entry of the values of a form and hands it to the node.  The
type that is chosen in the form is looked up, but not given to the constructor, which has
a default for it.

## Main definitions

* `insertSearchEntry` — the function, which notes the entry that it hands on.
* `LinkForm` — a form with a title and a url.
* `StoresForm` — what is asked of the entry.

## Main results

* `insertSearchEntry_events` — the entry that is handed on.
* `hasProperties_formEntry` — its properties are those that are not empty in the form.
* `storesForm_iff` — **the entry is that of the form exactly where neither an image nor a
  video is chosen.**
-/

namespace SniffDogSniff

/-- "link_title". -/
def LINK_TITLE : Bytes := [108, 105, 110, 107, 95, 116, 105, 116, 108, 101]

/-- "link_url". -/
def LINK_URL : Bytes := [108, 105, 110, 107, 95, 117, 114, 108]

/-- "data_type". -/
def DATA_TYPE : Bytes := [100, 97, 116, 97, 95, 116, 121, 112, 101]

/-- "image". -/
def IMAGE_TYPE : Bytes := [105, 109, 97, 103, 101]

/-- "video". -/
def VIDEO_TYPE : Bytes := [118, 105, 100, 101, 111]

/-- A property of an entry, and the name of its value in the form. -/
structure FormProperty where
  idx : UInt8
  name : Bytes

/-- `PROPERTY_DESCRIPTION`, "property_description". -/
def PROPERTY_DESCRIPTION : FormProperty :=
  ⟨0, [112, 114, 111, 112, 101, 114, 116, 121, 95, 100, 101, 115, 99, 114, 105, 112, 116, 105, 111,
    110]⟩

/-- `PROPERTY_TAGS`, "property_tags". -/
def PROPERTY_TAGS : FormProperty :=
  ⟨1, [112, 114, 111, 112, 101, 114, 116, 121, 95, 116, 97, 103, 115]⟩

/-- `PROPERTY_ORIGIN`, "property_origin". -/
def PROPERTY_ORIGIN : FormProperty :=
  ⟨2, [112, 114, 111, 112, 101, 114, 116, 121, 95, 111, 114, 105, 103, 105, 110]⟩

/-! ### The function -/

/-- `request.values[name]`. -/
def HttpRequest.value (request : HttpRequest) (name : Bytes) : Bytes :=
  ((request.values.find? name).map Prod.snd).getD []

/-- The type that is chosen. -/
def HttpRequest.dataType (request : HttpRequest) : EntryType :=
  if request.value DATA_TYPE = IMAGE_TYPE then .IMAGE
  else if request.value DATA_TYPE = VIDEO_TYPE then .VIDEO
  else .SITE

section

variable [Hashing]

/-- What is put on the page. -/
inductive InsertMessage
  /-- "Result insertion error: ", and the text. -/
  | error (text : String)
  /-- "Result added: ", and the entry. -/
  | added (se : SearchEntry)

def SearchEntry.addProperty (se : SearchEntry) (idx : UInt8) (value : Bytes) : SearchEntry :=
  { se with properties := se.properties.set idx value }

/-- A property is added where its value is not empty. -/
def addFormProperty (request : HttpRequest) (property : FormProperty) (se : SearchEntry) :
    SearchEntry :=
  if request.value property.name = [] then se
  else se.addProperty property.idx (request.value property.name)

/-- The entry of a form; the type is the default of the constructor. -/
def formEntry (request : HttpRequest) : SearchEntry :=
  let se := SearchEntry.new (request.value LINK_TITLE) (request.value LINK_URL) .SITE ∅
  let se := addFormProperty request PROPERTY_DESCRIPTION se
  let se := addFormProperty request PROPERTY_TAGS se
  addFormProperty request PROPERTY_ORIGIN se

variable {db : BerkeleyDB}

/-- `insertSearchEntry`; `request.dataType` is computed in it, and not used. -/
def insertSearchEntry (env : Surroundings) (request : HttpRequest) :
    Prog SearchEntry (LocalNode db) InsertMessage :=
  if request.value LINK_TITLE = [] then pure (.error "title is empty")
  else if request.value LINK_URL = [] then pure (.error "url is empty")
  else
    let se := formEntry request
    Prog.tryCatch
      (do
        Prog.note se
        let _ ← LocalNode.storeResult env se
        pure (.added se))
      fun what => pure (.error what)

/-! ### What is asked -/

/-- A form with a title and a url. -/
structure LinkForm where
  request : HttpRequest
  title_ne_nil : request.value LINK_TITLE ≠ []
  url_ne_nil : request.value LINK_URL ≠ []

/-- The properties are those of a list that have a value in the form. -/
def HasProperties (request : HttpRequest) (l : List FormProperty) (se : SearchEntry) : Prop :=
  ∀ p, p ∈ se.properties.entries ↔
    p.2 ≠ [] ∧ ∃ property ∈ l, p = (property.idx, request.value property.name)

/-- One entry is handed to the node, and it is that of the form. -/
def StoresForm (env : Surroundings) (form : LinkForm) (n : LocalNode db) : Prop :=
  ∃ se, (insertSearchEntry env form.request : Prog SearchEntry (LocalNode db) _).events n = [se] ∧
    se.title = form.request.value LINK_TITLE ∧ se.url = form.request.value LINK_URL ∧
    se.type = form.request.dataType ∧
    HasProperties form.request [PROPERTY_DESCRIPTION, PROPERTY_TAGS, PROPERTY_ORIGIN] se

/-! ### The entry -/

omit [Hashing] in
theorem eq_of_propertyOrder_equiv (a b : UInt8) (h : propertyOrder.Equiv a b) : a = b := by
  have hlt := h.1
  have hgt := h.2
  simp only [propertyOrder, Comparator.ofKey, decide_eq_false_iff_not, not_lt, Nat.cast_le]
    at hlt hgt
  exact UInt8.toNat_inj.mp (le_antisymm hgt hlt)

/-- One more property, under an index of its own. -/
theorem HasProperties.add {request : HttpRequest} {l : List FormProperty} {se : SearchEntry}
    (h : HasProperties request l se) (property : FormProperty)
    (hnew : ∀ q ∈ l, q.idx ≠ property.idx) :
    HasProperties request (l ++ [property]) (addFormProperty request property se) := by
  intro p
  have hsplit : (∃ q ∈ l ++ [property], p = (q.idx, request.value q.name)) ↔
      (∃ q ∈ l, p = (q.idx, request.value q.name)) ∨
        p = (property.idx, request.value property.name) := by
    simp only [List.mem_append, List.mem_singleton, or_and_right, exists_or, exists_eq_left]
  rw [hsplit, and_or_left, ← h p, addFormProperty]
  split
  · next hempty =>
    refine (or_iff_left ?_).symm
    rintro ⟨hne, rfl⟩
    exact hne hempty
  · next hne =>
    show p ∈ (se.properties.set property.idx (request.value property.name)).entries ↔ _
    rw [OrdMap.mem_set_iff_of_eq eq_of_propertyOrder_equiv]
    constructor
    · rintro (rfl | ⟨hp, -⟩)
      · exact Or.inr ⟨hne, rfl⟩
      · exact Or.inl hp
    · rintro (hp | ⟨-, rfl⟩)
      · obtain ⟨-, q, hq, rfl⟩ := (h p).mp hp
        exact Or.inr ⟨hp, hnew q hq⟩
      · exact Or.inl rfl

/-- **The properties of the entry are those that are not empty in the form.** -/
theorem hasProperties_formEntry (request : HttpRequest) :
    HasProperties request [PROPERTY_DESCRIPTION, PROPERTY_TAGS, PROPERTY_ORIGIN]
      (formEntry request) := by
  have hnone : HasProperties request []
      (SearchEntry.new (request.value LINK_TITLE) (request.value LINK_URL) .SITE ∅) := by
    intro p
    refine iff_of_false List.not_mem_nil ?_
    rintro ⟨-, q, hq, -⟩
    exact List.not_mem_nil hq
  have hdescription := hnone.add PROPERTY_DESCRIPTION (by decide)
  have htags := hdescription.add PROPERTY_TAGS (by decide)
  exact htags.add PROPERTY_ORIGIN (by decide)

/-- The title, the url and the type stay as they are made. -/
theorem fields_formEntry (request : HttpRequest) :
    (formEntry request).title = request.value LINK_TITLE ∧
      (formEntry request).url = request.value LINK_URL ∧ (formEntry request).type = .SITE := by
  have hkeep : ∀ property (se : SearchEntry),
      (addFormProperty request property se).title = se.title ∧
        (addFormProperty request property se).url = se.url ∧
        (addFormProperty request property se).type = se.type := by
    intro property se
    rw [addFormProperty]
    split
    · exact ⟨rfl, rfl, rfl⟩
    · exact ⟨rfl, rfl, rfl⟩
  simp only [formEntry, hkeep]
  exact ⟨rfl, rfl, rfl⟩

omit [Hashing] in
/-- A program that notes one event, and nothing else. -/
theorem events_tryCatch_note {ε σ α : Type} {m : Prog ε σ α} {handler : String → Prog ε σ α}
    (hm : Prog.Silent m) (hh : ∀ what, Prog.Silent (handler what)) (e : ε) (s : σ) :
    (Prog.tryCatch (Prog.note e >>= fun _ => m) handler).events s = [e] := by
  rw [Prog.events, Prog.tryCatch, Prog.note_bind, hm.run s]
  cases m.outcome s with
  | threw what s' =>
    show [e] ++ [] ++ (handler what s').1 = [e]
    rw [(hh what).run s']
    rfl
  | returned a s' => rfl
  | aborted => rfl
  | undefined => rfl
  | stuck => rfl

/-- **The entry that is handed on.** -/
theorem insertSearchEntry_events (env : Surroundings) (form : LinkForm) (n : LocalNode db) :
    (insertSearchEntry env form.request : Prog SearchEntry (LocalNode db) _).events n =
      [formEntry form.request] := by
  rw [insertSearchEntry, if_neg form.title_ne_nil, if_neg form.url_ne_nil]
  refine events_tryCatch_note ?_ (fun what => Prog.notes_pure _) _ n
  exact (LocalNode.silent_storeResult env _).bind fun _ => Prog.notes_pure _

/-- **The entry is that of the form exactly where neither an image nor a video is chosen.** -/
theorem storesForm_iff (env : Surroundings) (form : LinkForm) (n : LocalNode db) :
    StoresForm env form n ↔
      form.request.value DATA_TYPE ≠ IMAGE_TYPE ∧ form.request.value DATA_TYPE ≠ VIDEO_TYPE := by
  obtain ⟨htitle, hurl, htype⟩ := fields_formEntry form.request
  have hstores : StoresForm env form n ↔ EntryType.SITE = form.request.dataType := by
    rw [StoresForm, insertSearchEntry_events]
    constructor
    · rintro ⟨se, hse, -, -, hchosen, -⟩
      rw [← (List.cons.inj hse).1, htype] at hchosen
      exact hchosen
    · intro hchosen
      exact ⟨_, rfl, htitle, hurl, htype.trans hchosen, hasProperties_formEntry _⟩
  rw [hstores, HttpRequest.dataType]
  split
  · next himage => exact iff_of_false (by decide) fun h => h.1 himage
  · next himage =>
    split
    · next hvideo => exact iff_of_false (by decide) fun h => h.2 hvideo
    · next hvideo => exact iff_of_true rfl ⟨himage, hvideo⟩

end

/-- The form for an image. -/
def imageForm : LinkForm where
  request :=
    { HttpRequest.fresh .HTTP_POST with
      values := (OrdMap.empty : OrdMap SimHash.stringOrder Bytes).setAll
        [(LINK_TITLE, [97]), (LINK_URL, [98]), (DATA_TYPE, IMAGE_TYPE)] }
  title_ne_nil := by decide
  url_ne_nil := by decide

/-- The entry for an image is one for a site. -/
theorem not_storesForm_image :
    letI := Hashing.blank
    ¬ StoresForm Surroundings.zero imageForm
      (⟨false, KadRoutingTable.init (KadId.ofNat 0), ⟨∅, some []⟩, []⟩ :
        LocalNode BerkeleyDB.inMemory) := by
  let _ := Hashing.blank
  rintro ⟨se, hse, -, -, htype, -⟩
  rw [insertSearchEntry_events] at hse
  rw [← (List.cons.inj hse).1, (fields_formEntry _).2.2] at htype
  exact absurd htype (by decide)

end SniffDogSniff
