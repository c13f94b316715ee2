import SniffDogSniff.Webserver.HttpServer

/-!
# Messages to the web interface

A message is a request as a client writes it, with its parameters in the target or in the
body.  The text of a message is cut where it was put together, and of the two maps only
the one that is filled last is left: a `GET` request loses its parameters to its headers,
and a `POST` request its headers to its parameters.

## Main definitions

* `HttpMessage` — a well-formed request, and its text.
* `HttpMessage.Parsed` — the record has the values and the headers of the message.

## Main results

* `find_headerLines` — where the headers end.
* `parsed_iff` — **the messages that are parsed as they were written.**
-/

namespace SniffDogSniff

open StringUtil SimHash

/-- None of these characters occurs. -/
def Without (cs : List UInt8) (s : Bytes) : Prop := ∀ c ∈ cs, c ∉ s

/-- A well-formed request.  The parameters are written with their escapes; they stand in
the body of a `POST` request, and else in the target, where a space would end them. -/
structure HttpMessage where
  method : HttpMethod
  path : Bytes
  version : Bytes
  params : List (Bytes × Bytes)
  headers : List (Bytes × Bytes)
  headers_ne_nil : headers ≠ []
  path_without : Without [13, 32] path
  path_without_query : method ≠ .HTTP_POST → 63 ∉ path
  version_without : Without [13, 32] version
  params_without : ∀ p ∈ params, Without [38, 61] p.1 ∧ Without [38] p.2
  params_without_space : method ≠ .HTTP_POST →
    ∀ p ∈ params, Without [13, 32] p.1 ∧ Without [13, 32] p.2
  headers_without : ∀ p ∈ headers, Without [13, 58] p.1 ∧ Without [13] p.2

namespace HttpMessage

variable (m : HttpMessage)

/-- The parameters in one string. -/
def attrs : Bytes := [38].intercalate (m.params.map (pairText 61))

def target : Bytes :=
  if m.method = .HTTP_POST ∨ m.params = [] then m.path else m.path ++ ([63] ++ m.attrs)

def line : Bytes := [32].intercalate [m.method.word, m.target, m.version]

def body : Bytes := if m.method = .HTTP_POST then m.attrs else []

/-- The lines of the headers. -/
def headerLines : Bytes := CRLF.intercalate (m.headers.map (pairText 58))

def text : Bytes := m.line ++ (CRLF ++ (m.headerLines ++ (CRLF ++ CRLF ++ m.body)))

/-- The record has the values and the headers of the message, and nothing else there. -/
def Parsed (unescape : Bytes → Bytes) (method₀ : HttpMethod) (m : HttpMessage) : Prop :=
  ∃ req, parseHttpReqest (HttpRequest.fresh method₀) m.text = some (.HTTP_OK, req) ∧
    (∀ p, p ∈ req.values.entries ↔ p ∈ m.params.map fun q => (q.1, unescape q.2)) ∧
    ∀ p, p ∈ req.headers.entries ↔ p ∈ m.headers

/-! ### Where the text is cut -/

theorem not_mem_intercalate {c : UInt8} {sep : Bytes} (hsep : c ∉ sep) {pieces : List Bytes}
    (h : ∀ p ∈ pieces, c ∉ p) : c ∉ sep.intercalate pieces := by
  induction pieces with
  | nil => exact List.not_mem_nil
  | cons p pieces ih =>
    have hp : c ∉ p := h p List.mem_cons_self
    have hrest := ih fun q hq => h q (List.mem_cons_of_mem _ hq)
    by_cases hlast : pieces = []
    · subst hlast
      rwa [List.intercalate_singleton]
    · rw [List.intercalate_cons_of_ne_nil hlast]
      simp only [List.mem_append, not_or]
      exact ⟨⟨hp, hsep⟩, hrest⟩

theorem attrs_without (hpost : m.method ≠ .HTTP_POST) : Without [13, 32] m.attrs := by
  have hsep : ∀ c ∈ ([13, 32] : List UInt8), c ∉ ([38] : Bytes) ∧ c ≠ 61 := by simp
  intro c hc
  refine not_mem_intercalate (hsep c hc).1 fun line hmem => ?_
  obtain ⟨p, hp, rfl⟩ := List.mem_map.mp hmem
  obtain ⟨hname, hvalue⟩ := m.params_without_space hpost p hp
  simp only [pairText, List.mem_append, List.mem_singleton, not_or]
  exact ⟨hname c hc, (hsep c hc).2, hvalue c hc⟩

theorem target_without : Without [13, 32] m.target := by
  have hsep : ∀ c ∈ ([13, 32] : List UInt8), c ≠ 63 := by simp
  rw [target]
  split
  · exact m.path_without
  · next h =>
    intro c hc
    simp only [List.mem_append, List.mem_singleton, not_or]
    exact ⟨m.path_without c hc, hsep c hc, m.attrs_without (fun hpost => h (Or.inl hpost)) c hc⟩

theorem line_without : 13 ∉ m.line := by
  refine not_mem_intercalate (by decide) fun p hp => ?_
  simp only [List.mem_cons, List.not_mem_nil, or_false] at hp
  rcases hp with rfl | rfl | rfl
  · cases m.method <;> decide
  · exact m.target_without 13 (by decide)
  · exact m.version_without 13 (by decide)

theorem split_line : split m.line [32] = some [m.method.word, m.target, m.version] := by
  refine split_intercalate [] (List.cons_ne_nil _ _) fun p hp => ?_
  simp only [List.mem_cons, List.not_mem_nil, or_false] at hp
  rcases hp with rfl | rfl | rfl
  · cases m.method <;> decide
  · exact m.target_without 32 (by decide)
  · exact m.version_without 32 (by decide)

/-- A line end is no empty line, if a line follows that begins with something else. -/
theorem find_append_line {l x : Bytes} (hl : 13 ∉ l) (hx : x.head? ≠ some 13) :
    find (CRLF ++ CRLF) (l ++ CRLF ++ x) =
      (find (CRLF ++ CRLF) x).map (· + (l ++ CRLF).length) := by
  refine find_append x _ fun i hi hprefix => ?_
  rw [List.length_append] at hi
  rcases lt_trichotomy i l.length with hlt | rfl | hgt
  · rw [List.append_assoc, List.drop_append_of_le_length hlt.le, List.drop_eq_getElem_cons hlt,
      List.cons_append] at hprefix
    exact hl ((List.cons_prefix_cons.mp hprefix).1 ▸ List.getElem_mem hlt)
  -- the two line ends would be one behind the other
  · rw [List.append_assoc, List.drop_left] at hprefix
    have htail := (List.prefix_append_right_inj CRLF).mp hprefix
    cases x with
    | nil => exact absurd (List.prefix_nil.mp htail) (by decide)
    | cons c x => exact hx (congrArg some (List.cons_prefix_cons.mp htail).1.symm)
  · obtain rfl : i = l.length + 1 := by
      have hlen : CRLF.length = 2 := rfl
      omega
    rw [List.append_assoc, ← List.drop_drop, List.drop_left] at hprefix
    exact absurd (List.cons_prefix_cons.mp hprefix).1 (by decide)

theorem find_lines (body : Bytes) {lines : List Bytes} (hne : lines ≠ [])
    (h : ∀ l ∈ lines, l ≠ [] ∧ 13 ∉ l) :
    find (CRLF ++ CRLF) (CRLF.intercalate lines ++ (CRLF ++ CRLF ++ body)) =
      some (CRLF.intercalate lines).length := by
  induction lines with
  | nil => exact absurd rfl hne
  | cons l lines ih =>
    obtain ⟨hl, hl'⟩ := h l List.mem_cons_self
    by_cases hlast : lines = []
    · subst hlast
      rw [List.intercalate_singleton]
      exact find_append_of_not_mem [10, 13, 10] hl' body
    · have hrest := ih hlast fun k hk => h k (List.mem_cons_of_mem _ hk)
      have hhead : (CRLF.intercalate lines ++ (CRLF ++ CRLF ++ body)).head? ≠ some 13 := by
        obtain ⟨k, ks, rfl⟩ := List.exists_cons_of_ne_nil hlast
        obtain ⟨hk, hk'⟩ := h k (List.mem_cons_of_mem _ List.mem_cons_self)
        obtain ⟨c, k, rfl⟩ := List.exists_cons_of_ne_nil hk
        rw [List.intercalate_cons_cons_left, List.cons_append, List.head?_cons]
        exact fun hc => hk' (Option.some.inj hc ▸ List.mem_cons_self)
      rw [List.intercalate_cons_of_ne_nil hlast, List.append_assoc (l ++ CRLF),
        find_append_line hl' hhead, hrest, Option.map_some, Nat.add_comm, ← List.length_append]

theorem find_headerLines : find (CRLF ++ CRLF) (m.headerLines ++ (CRLF ++ CRLF ++ m.body)) =
    some m.headerLines.length := by
  refine find_lines m.body (by simpa using m.headers_ne_nil) fun l hl => ?_
  obtain ⟨p, hp, rfl⟩ := List.mem_map.mp hl
  obtain ⟨hname, hvalue⟩ := m.headers_without p hp
  simp only [pairText, List.mem_append, List.mem_singleton, not_or]
  refine ⟨by simp, hname 13 (by decide), by decide, hvalue 13 (by decide)⟩

/-! ### The record -/

/-- The second half, when the headers have been read. -/
theorem parseHttpRest_text (req : HttpRequest) :
    parseHttpRest req (m.headerLines ++ (CRLF ++ CRLF ++ m.body)) =
      if req.method = .HTTP_POST then
        (parseHttpAttrs ⟨req.url, req.method, req.version, req.headers.setAll m.headers, ∅, m.body⟩
          m.body).bind fun r =>
            if r.1 ≠ 0 then some (.HTTP_BAD_REQUEST, r.2) else some (.HTTP_OK, r.2)
      else
        some (.HTTP_OK,
          ⟨req.url, req.method, req.version, req.headers.setAll m.headers, ∅, m.body⟩) := by
  have hheaders := parseHttpHeaders_intercalate req m.headers_ne_nil
    (fun p hp => (m.headers_without p hp).1 58 (by decide))
    (fun p hp => ⟨(m.headers_without p hp).1 13 (by decide),
      (m.headers_without p hp).2 13 (by decide)⟩)
  have hdata : (m.headerLines ++ (CRLF ++ CRLF ++ m.body)).drop (m.headerLines.length + 4) =
      m.body := by
    rw [← List.drop_drop, List.drop_left]
    rfl
  rw [parseHttpRest, m.find_headerLines]
  simp only [List.take_left, hdata]
  rw [headerLines, hheaders]
  simp only [Option.bind_eq_bind, Option.bind_some]
  rw [if_neg (not_not.mpr rfl)]
  split
  · next hpost =>
    refine congrArg (Option.bind _) (funext fun r => ?_)
    split <;> rfl
  · next hpost => rfl

theorem parseHttpReqest_text (req : HttpRequest) :
    parseHttpReqest req m.text = (parseHttpFirstLine req m.line).bind fun r =>
      if r.1 ≠ .HTTP_OK then some (.HTTP_BAD_REQUEST, r.2)
      else parseHttpRest r.2 (m.headerLines ++ (CRLF ++ CRLF ++ m.body)) := by
  have hfind : find CRLF m.text = some m.line.length :=
    find_append_of_not_mem [10] m.line_without _
  have hrest : m.text.drop (m.line.length + 2) = m.headerLines ++ (CRLF ++ CRLF ++ m.body) := by
    rw [text, ← List.drop_drop, List.drop_left]
    rfl
  rw [parseHttpReqest, hfind]
  simp only [hrest]
  rw [show m.text.take m.line.length = m.line from List.take_left]
  refine congrArg (Option.bind _) (funext fun r => ?_)
  split <;> rfl

/-- The method is the one of the message. -/
theorem method_of_parseHttpFirstLine {req req' : HttpRequest}
    (h : parseHttpFirstLine req m.line = some (.HTTP_OK, req')) : req'.method = m.method := by
  rw [parseHttpFirstLine, m.split_line] at h
  simp only [Option.bind_eq_bind, Option.bind_some] at h
  by_cases hpost : m.method = .HTTP_POST
  · rw [hpost, if_neg (by decide), if_pos rfl] at h
    cases h
    exact hpost.symm
  · have hword : m.method.word = HttpMethod.HTTP_GET.word ∨
        m.method.word = HttpMethod.HTTP_HEAD.word := by
      cases hmethod : m.method with
      | HTTP_GET => exact Or.inl rfl
      | HTTP_HEAD => exact Or.inr rfl
      | HTTP_POST => exact absurd hmethod hpost
    have hget : (if m.method.word = HttpMethod.HTTP_GET.word then HttpMethod.HTTP_GET
        else .HTTP_HEAD) = m.method := by
      cases hmethod : m.method with
      | HTTP_GET => rfl
      | HTTP_HEAD => rfl
      | HTTP_POST => exact absurd hmethod hpost
    rw [if_pos hword, hget] at h
    split at h
    · cases h
      rfl
    · obtain ⟨⟨ret, req₁⟩, hattrs, hret⟩ := Option.bind_eq_some_iff.mp h
      have hmethod := (headers_of_parseHttpAttrs hattrs).2
      split at hret
      · cases hret
      · cases hret
        exact hmethod

/-- Without parameters, the target is the path. -/
theorem parseHttpFirstLine_of_plain (req : HttpRequest) (hpost : m.method ≠ .HTTP_POST)
    (hparams : m.params = []) : parseHttpFirstLine req m.line =
      some (.HTTP_OK, ⟨m.path, m.method, m.version, req.headers, req.values, req.data⟩) := by
  have htarget : m.target = m.path := if_pos (Or.inr hparams)
  have hfind : find [63] m.path = none := find_of_not_mem [] (m.path_without_query hpost)
  rw [parseHttpFirstLine, m.split_line, htarget]
  simp only [Option.bind_eq_bind, Option.bind_some, hfind]
  cases hmethod : m.method with
  | HTTP_GET => rfl
  | HTTP_HEAD => rfl
  | HTTP_POST => exact absurd hmethod hpost

/-- A message that is parsed as it was written has its headers alone, and none of them
twice. -/
theorem of_parsed {unescape : Bytes → Bytes} {method₀ : HttpMethod}
    (h : m.Parsed unescape method₀) : m.method ≠ .HTTP_POST ∧ m.params = [] ∧
      ∀ p ∈ m.headers, ∀ q ∈ m.headers, p.1 = q.1 → p = q := by
  obtain ⟨req, hparse, hvalues, hheaders⟩ := h
  rw [m.parseHttpReqest_text, Option.bind_eq_some_iff] at hparse
  obtain ⟨⟨code, req₁⟩, hline, hrest⟩ := hparse
  by_cases hcode : code = .HTTP_OK
  · subst hcode
    have hmethod := m.method_of_parseHttpFirstLine hline
    rw [if_neg (not_not.mpr rfl), m.parseHttpRest_text, hmethod] at hrest
    have hfirst : ∃ p, p ∈ m.headers := List.exists_mem_of_ne_nil _ m.headers_ne_nil
    split at hrest
    -- the attributes of the body drop the headers
    · obtain ⟨⟨ret, req₂⟩, hattrs, hret⟩ := Option.bind_eq_some_iff.mp hrest
      have hnone := (headers_of_parseHttpAttrs hattrs).1
      obtain ⟨p, hp⟩ := hfirst
      split at hret
      · cases hret
      · cases hret
        have hmem := (hheaders p).mpr hp
        rw [hnone] at hmem
        exact absurd hmem List.not_mem_nil
    -- the headers have dropped the values
    · next hpost =>
      cases hrest
      refine ⟨hpost, ?_, fun p hp q hq hkey => ?_⟩
      · by_contra hne
        obtain ⟨p, hp⟩ := List.exists_mem_of_ne_nil _ hne
        have hmem := (hvalues _).mpr (List.mem_map_of_mem hp)
        exact absurd hmem List.not_mem_nil
      · refine OrdMap.eq_of_equiv ((hheaders p).mpr hp) ((hheaders q).mpr hq) ?_
        rw [hkey]
        exact Comparator.Equiv.refl _
  · rw [if_pos hcode] at hrest
    cases hrest

/-- **The messages that are parsed as they were written**, whatever the escapes stand for. -/
theorem parsed_iff (unescape : Bytes → Bytes) (method₀ : HttpMethod) :
    m.Parsed unescape method₀ ↔ m.method ≠ .HTTP_POST ∧ m.params = [] ∧
      ∀ p ∈ m.headers, ∀ q ∈ m.headers, p.1 = q.1 → p = q := by
  refine ⟨m.of_parsed, ?_⟩
  rintro ⟨hpost, hparams, hagree⟩
  refine ⟨⟨m.path, m.method, m.version, (∅ : OrdMap stringOrder Bytes).setAll m.headers, ∅,
    m.body⟩, ?_, ?_, ?_⟩
  · rw [m.parseHttpReqest_text, m.parseHttpFirstLine_of_plain _ hpost hparams]
    rw [Option.bind_some, if_neg (not_not.mpr rfl), m.parseHttpRest_text, if_neg hpost]
    rfl
  · intro p
    rw [hparams]
    rfl
  · intro p
    rw [OrdMap.mem_setAll_iff_of_eq eq_of_stringOrder_equiv hagree]
    simp

end HttpMessage

/-- "GET /search?q=a HTTP/1.1" with a line for the host. -/
def searchMessage : HttpMessage where
  method := .HTTP_GET
  path := [47, 115, 101, 97, 114, 99, 104]
  version := [72, 84, 84, 80, 47, 49, 46, 49]
  params := [([113], [97])]
  headers := [([72, 111, 115, 116], [120])]
  headers_ne_nil := List.cons_ne_nil _ _
  path_without := by simp [Without]
  path_without_query := by simp
  version_without := by simp [Without]
  params_without := by simp [Without]
  params_without_space := by simp [Without]
  headers_without := by simp [Without]

/-- The query of a search is lost. -/
theorem searchMessage_not_parsed :
    ¬ searchMessage.Parsed (fun v => (httpUnescape v).getD v) .HTTP_GET :=
  fun h => List.cons_ne_nil _ _ (searchMessage.of_parsed h).2.1

end SniffDogSniff
