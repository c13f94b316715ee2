import SniffDogSniff.Common.Hex
import SniffDogSniff.SdsCore.SimHash

/-!
# Requests of the web interface

A request is parsed by three helpers, which fill the same record: the first line, the
headers and the attributes.  The attributes stand in the target of a `GET` or `HEAD`
request and in the body of a `POST` request.  The helper for the attributes drops the
headers that are there when it starts, and the one for the headers the values.

## Main definitions

* `HttpRequest` — the record.
* `httpUnescape`, `parseHttpAttrs`, `parseHttpHeaders`, `parseHttpFirstLine`,
  `parseHttpReqest` — the parser.

## Main results

* `parseHttpHeaders_intercalate` — the headers are the lines, and the values are gone.
* `headers_of_parseHttpAttrs` — behind the attributes, the headers are.
-/

namespace SniffDogSniff

open StringUtil SimHash

inductive HttpCode
  | HTTP_OK
  | HTTP_CREATED
  | HTTP_ACCEPTED
  | HTTP_NO_CONTENT
  | HTTP_RESET_CONTENT
  | HTTP_PARTIAL_CONTENT
  | HTTP_BAD_REQUEST
  | HTTP_UNAUTHORIZED
  | HTTP_FORBIDDEN
  | HTTP_NOT_FOUND
  | HTTP_METHOD_NOT_ALLOWED
  | HTTP_NOT_ACCEPTABLE
  | HTTP_REQUEST_TIMEOUT
  | HTTP_INTERNAL_ERROR
  | HTTP_NOT_IMPLEMENTED
  deriving DecidableEq

inductive HttpMethod
  | HTTP_GET
  | HTTP_HEAD
  | HTTP_POST
  deriving DecidableEq

structure HttpRequest where
  url : Bytes
  method : HttpMethod
  version : Bytes
  headers : OrdMap stringOrder Bytes
  values : OrdMap stringOrder Bytes
  data : Bytes

/-- A new record; its method is not initialised. -/
def HttpRequest.fresh (method : HttpMethod) : HttpRequest := ⟨[], method, [], ∅, ∅, []⟩

/-- "\r\n". -/
def CRLF : Bytes := [13, 10]

/-- The word for a method. -/
def HttpMethod.word : HttpMethod → Bytes
  | HTTP_GET => [71, 69, 84]
  | HTTP_HEAD => [72, 69, 65, 68]
  | HTTP_POST => [80, 79, 83, 84]

/-! ### The parser -/

/-- `httpUnescape`; it can read one character behind the string, which is a NUL, but
not two. -/
def httpUnescape : Bytes → Option Bytes
  | [] => some []
  | 43 :: ss => (httpUnescape ss).map (32 :: ·)
  | c :: ss =>
      if c = 37 ∨ c = 36 then
        match ss with
        | hi :: lo :: ss => (httpUnescape ss).map (hexByte hi lo :: ·)
        | [hi] => some [hexByte hi 0]
        | [] => none
      else (httpUnescape ss).map (c :: ·)

/-- The loop of the two helpers that follow: it puts the name and the value on the two
sides of a delimiter into a map, and gives up at a token without one. -/
def parsePairs (delim : UInt8) (value : Bytes → Option Bytes) :
    List Bytes → OrdMap stringOrder Bytes → Option (ℤ × OrdMap stringOrder Bytes)
  | [], m => some (0, m)
  | tok :: toks, m =>
      match find [delim] tok with
      | none => some (-1, m)
      | some delimPos => do
          let v ← value (tok.drop (delimPos + 1))
          parsePairs delim value toks (m.set (tok.take delimPos) v)

/-- `parseHttpAttrs`; the headers are gone afterwards. -/
def parseHttpAttrs (req : HttpRequest) (attrsString : Bytes) : Option (ℤ × HttpRequest) := do
  let toks ← split attrsString [38]
  let (ret, values) ← parsePairs 61 httpUnescape toks req.values
  pure (ret, { req with headers := ∅, values := values })

/-- `parseHttpHeaders`; the values are gone afterwards. -/
def parseHttpHeaders (req : HttpRequest) (headersString : Bytes) : Option (ℤ × HttpRequest) := do
  let toks ← split headersString CRLF
  let (ret, headers) ← parsePairs 58 some toks req.headers
  pure (ret, { req with values := ∅, headers := headers })

def parseHttpFirstLine (req : HttpRequest) (line : Bytes) : Option (HttpCode × HttpRequest) := do
  let toks ← split line [32]
  match toks with
  | method :: target :: version :: _ =>
      if method = HttpMethod.HTTP_GET.word ∨ method = HttpMethod.HTTP_HEAD.word then
        let req := { req with
          url := target
          method := if method = HttpMethod.HTTP_GET.word then .HTTP_GET else .HTTP_HEAD }
        match find [63] target with
        | none => pure (.HTTP_OK, { req with version := version })
        | some attrsPos =>
            let (ret, req) ← parseHttpAttrs { req with url := target.take attrsPos }
              (target.drop (attrsPos + 1))
            if ret ≠ 0 then pure (.HTTP_BAD_REQUEST, req)
            else pure (.HTTP_OK, { req with version := version })
      else if method = HttpMethod.HTTP_POST.word then
        pure (.HTTP_OK, { req with url := target, method := .HTTP_POST, version := version })
      else pure (.HTTP_NOT_IMPLEMENTED, { req with url := target })
  | _ => pure (.HTTP_BAD_REQUEST, req)

/-- The second half of `parseHttpReqest`: what comes behind the first line. -/
def parseHttpRest (req : HttpRequest) (rest : Bytes) : Option (HttpCode × HttpRequest) :=
  match find (CRLF ++ CRLF) rest with
  | none => some (.HTTP_OK, req)
  | some lineEnd => do
      let (ret, req) ← parseHttpHeaders req (rest.take lineEnd)
      if ret ≠ 0 then pure (.HTTP_BAD_REQUEST, req)
      else
        let req := { req with data := rest.drop (lineEnd + 4) }
        if req.method = .HTTP_POST then
          let (ret, req) ← parseHttpAttrs req req.data
          if ret ≠ 0 then pure (.HTTP_BAD_REQUEST, req) else pure (.HTTP_OK, req)
        else pure (.HTTP_OK, req)

/-- `parseHttpReqest`. -/
def parseHttpReqest (req : HttpRequest) (sbuffer : Bytes) : Option (HttpCode × HttpRequest) :=
  match find CRLF sbuffer with
  | none => some (.HTTP_BAD_REQUEST, req)
  | some lineEnd => do
      let (code, req) ← parseHttpFirstLine req (sbuffer.take lineEnd)
      if code ≠ .HTTP_OK then pure (.HTTP_BAD_REQUEST, req)
      else parseHttpRest req (sbuffer.drop (lineEnd + 2))

/-! ### The helpers -/

/-- The text of a pair. -/
def pairText (delim : UInt8) (p : Bytes × Bytes) : Bytes := p.1 ++ ([delim] ++ p.2)

/-- The loop puts pairs into the map. -/
theorem parsePairs_map (delim : UInt8) {pairs : List (Bytes × Bytes)}
    (h : ∀ p ∈ pairs, delim ∉ p.1) (m : OrdMap stringOrder Bytes) :
    parsePairs delim some (pairs.map (pairText delim)) m = some (0, m.setAll pairs) := by
  induction pairs generalizing m with
  | nil => rfl
  | cons p pairs ih =>
    have hfind := find_append_of_not_mem [] (h p List.mem_cons_self) p.2
    rw [List.map_cons, parsePairs, pairText, hfind]
    simp only
    rw [List.take_left, ← List.drop_drop, List.drop_left, OrdMap.setAll_cons]
    exact ih (fun q hq => h q (List.mem_cons_of_mem _ hq)) _

/-- The headers are the lines, and the values are gone. -/
theorem parseHttpHeaders_intercalate (req : HttpRequest) {headers : List (Bytes × Bytes)}
    (hne : headers ≠ []) (hname : ∀ p ∈ headers, 58 ∉ p.1)
    (hline : ∀ p ∈ headers, 13 ∉ p.1 ∧ 13 ∉ p.2) :
    parseHttpHeaders req (CRLF.intercalate (headers.map (pairText 58))) =
      some (0, { req with values := ∅, headers := req.headers.setAll headers }) := by
  have hsplit : split (CRLF.intercalate (headers.map (pairText 58))) CRLF =
      some (headers.map (pairText 58)) := by
    refine split_intercalate [10] (by simpa using hne) fun line hmem => ?_
    obtain ⟨p, hp, rfl⟩ := List.mem_map.mp hmem
    have hp' := hline p hp
    simp only [pairText, List.mem_append, List.mem_singleton, not_or]
    exact ⟨hp'.1, by decide, hp'.2⟩
  rw [parseHttpHeaders, hsplit]
  simp only [Option.bind_eq_bind, Option.bind_some, parsePairs_map 58 hname]
  rfl

/-- Whatever the attributes are, there are no headers afterwards. -/
theorem headers_of_parseHttpAttrs {req req' : HttpRequest} {attrsString : Bytes} {ret : ℤ}
    (h : parseHttpAttrs req attrsString = some (ret, req')) :
    req'.headers = ∅ ∧ req'.method = req.method := by
  simp only [parseHttpAttrs, Option.bind_eq_bind, Option.bind_eq_some_iff, Option.pure_def,
    Option.some.injEq, Prod.mk.injEq] at h
  obtain ⟨toks, -, ⟨r, values⟩, -, -, rfl⟩ := h
  exact ⟨rfl, rfl⟩

end SniffDogSniff
