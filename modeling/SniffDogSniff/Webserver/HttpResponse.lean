import SniffDogSniff.Webserver.HttpServer
import SniffDogSniff.Common.Decimal

/-!
# Responses of the web interface

The worker thread parses a request, lets the handler for its target fill a response, or
puts a page for the error in, and prints the response.  The code of a request is kept in a
variable; the status line is printed from a field of the response, which no function of
the server writes, so that only a handler can have put the code there.

## Main definitions

* `HttpCode.value`, `HttpResponse`, `HttpRequestHandler`, `HttpServer`.
* `HttpServer.dispatch` — the code that is decided for a request.
* `HttpServer.respond` — what the worker sends for it.
* `HttpServer.Announces` — the response begins with the line for this code.
* `HttpServer.Stores` — a handler has stored the code.

## Main results

* `statusLine_prefix_iff` — a response begins with one status line, that of its field.
* `announces_iff` — **the code is announced exactly where a handler is called and stores
  the code that it returns.**
* `not_announces_of_frame` — handlers that leave the field alone never announce it.
-/

namespace SniffDogSniff

open StringUtil SimHash

/-! ### The records -/

/-- The number of a code. -/
def HttpCode.value : HttpCode → Int32
  | HTTP_OK => 200
  | HTTP_CREATED => 201
  | HTTP_ACCEPTED => 202
  | HTTP_NO_CONTENT => 204
  | HTTP_RESET_CONTENT => 205
  | HTTP_PARTIAL_CONTENT => 206
  | HTTP_BAD_REQUEST => 400
  | HTTP_UNAUTHORIZED => 401
  | HTTP_FORBIDDEN => 403
  | HTTP_NOT_FOUND => 404
  | HTTP_METHOD_NOT_ALLOWED => 405
  | HTTP_NOT_ACCEPTABLE => 406
  | HTTP_REQUEST_TIMEOUT => 408
  | HTTP_INTERNAL_ERROR => 500
  | HTTP_NOT_IMPLEMENTED => 501

/-- A response; the field for the code holds the number of a code only if one has been
stored in it. -/
structure HttpResponse where
  headers : OrdMap stringOrder Bytes
  buffer : Bytes
  code : Int32

/-- A new response; `code` is what stood in its memory. -/
def HttpResponse.fresh (code : Int32) : HttpResponse := ⟨∅, [], code⟩

/-- `HttpRequestHandler::handleRequest`; it may change both records. -/
abbrev HttpRequestHandler := HttpRequest → HttpResponse → HttpCode × HttpRequest × HttpResponse

structure HttpServer where
  handlers : OrdMap stringOrder HttpRequestHandler
  defaultContentType : Bytes

/-! ### What the worker does with a request -/

/-- The status line for a number. -/
def statusLine (code : Int32) : Bytes := ascii "HTTP/1.1 " ++ stdToString code.toInt ++ CRLF

/-- `createResponse`. -/
def createResponse (resp : HttpResponse) : Bytes :=
  statusLine resp.code ++ (resp.headers.entries.flatMap (fun h => pairText 58 h ++ CRLF) ++
    (CRLF ++ resp.buffer))

namespace HttpServer

/-- The response that a handler gets. -/
def freshResponse (srv : HttpServer) (code : Int32) : HttpResponse :=
  { HttpResponse.fresh code with
    headers := (∅ : OrdMap stringOrder Bytes).set (ascii "Content-Type") srv.defaultContentType }

/-- `handleRequest`, with a new response. -/
def handleRequest (srv : HttpServer) (request : HttpRequest) (code : Int32) :
    HttpCode × HttpRequest × HttpResponse :=
  match srv.handlers.find? request.url with
  | some (_, h) => h request (srv.freshResponse code)
  | none => (.HTTP_NOT_FOUND, request, srv.freshResponse code)

/-- `handleError`; the end of the page is put together but not added. -/
def handleError (request : HttpRequest) (response : HttpResponse) (errorCode : HttpCode) :
    HttpResponse :=
  { response with
    buffer := ascii "<html><body>" ++
      (ascii "<h2> Error " ++ stdToString errorCode.value.toInt ++ ascii "</h2>") ++
      match errorCode with
      | .HTTP_NOT_FOUND => ascii "<h4>" ++ request.url ++ ascii " Not Found" ++ ascii "</h4>"
      | .HTTP_INTERNAL_ERROR => ascii "<h4> Internal Server Error </h4>"
      | .HTTP_NOT_IMPLEMENTED => ascii "<h4> Method Not Implemented </h4>"
      | _ => [] }

/-- The code for a request and the records when it has been decided, for the contents of
the memory that the records take. -/
def dispatch (srv : HttpServer) (method : HttpMethod) (code : Int32) (ss : Bytes) :
    Option (HttpCode × HttpRequest × HttpResponse) := do
  let (httpErr, request) ← parseHttpReqest (HttpRequest.fresh method) ss
  pure (if httpErr = .HTTP_OK then srv.handleRequest request code
    else (httpErr, request, HttpResponse.fresh code))

/-- What `accessHandlerCallback` sends for a request. -/
def respond (srv : HttpServer) (method : HttpMethod) (code : Int32) (ss : Bytes) : Option Bytes := do
  let (httpErr, request, response) ← srv.dispatch method code ss
  pure (createResponse
    (if httpErr = .HTTP_OK then response else handleError request response httpErr))

/-- **The response begins with the line for the code that has been decided**, whatever
stood in the memory. -/
def Announces (srv : HttpServer) (ss : Bytes) : Prop :=
  ∀ method code, ∃ r, srv.dispatch method code ss = some r ∧
    ∃ out, srv.respond method code ss = some out ∧ statusLine r.1.value <+: out

/-- A handler is called for the request, and the code that it returns is in the response. -/
def Stores (srv : HttpServer) (ss : Bytes) : Prop :=
  ∀ method, ∃ request h, parseHttpReqest (HttpRequest.fresh method) ss = some (.HTTP_OK, request) ∧
    srv.handlers.find? request.url = some h ∧
    ∀ code, (h.2 request (srv.freshResponse code)).2.2.code =
      (h.2 request (srv.freshResponse code)).1.value

/-! ### Which line a response begins with -/

theorem statusLine_prefix_iff (code : Int32) (resp : HttpResponse) :
    statusLine code <+: createResponse resp ↔ resp.code = code := by
  constructor
  · rintro ⟨rest, hrest⟩
    unfold createResponse statusLine at hrest
    simp only [List.append_assoc, List.append_cancel_left_eq] at hrest
    -- both numbers end at the first line end
    have hfind := find_append_of_not_mem [10] (not_mem_stdToString code.toInt) rest
    have hfind' := find_append_of_not_mem [10] (not_mem_stdToString resp.code.toInt)
      (resp.headers.entries.flatMap (fun h => pairText 58 h ++ CRLF) ++ (CRLF ++ resp.buffer))
    have hlen := Option.some.inj (hfind.symm.trans ((congrArg (find CRLF) hrest).trans hfind'))
    have hnum := List.append_inj_left hrest hlen
    exact (Int32.toInt_inj.mp (stdToString_injective hnum)).symm
  · rintro rfl
    exact List.prefix_append _ _

/-- A page for an error leaves the field alone. -/
theorem announces_iff_code (srv : HttpServer) (ss : Bytes) :
    srv.Announces ss ↔ ∀ method code, ∃ r, srv.dispatch method code ss = some r ∧
      r.2.2.code = r.1.value := by
  refine forall_congr' fun method => forall_congr' fun code => exists_congr fun r =>
    and_congr_right fun hr => ?_
  rw [respond, hr]
  simp only [Option.bind_eq_bind, Option.bind_some, Option.pure_def, Option.some.injEq,
    exists_eq_left', statusLine_prefix_iff]
  split <;> rfl

theorem value_ne_zero (code : HttpCode) : code.value ≠ 0 := by cases code <;> decide

/-- With handlers that leave the field alone, it holds what stood in the memory. -/
theorem code_dispatch_of_frame {srv : HttpServer}
    (hframe : ∀ e ∈ srv.handlers.entries, ∀ request response,
      (e.2 request response).2.2.code = response.code) {method : HttpMethod} {code : Int32}
    {ss : Bytes} {r : HttpCode × HttpRequest × HttpResponse}
    (h : srv.dispatch method code ss = some r) : r.2.2.code = code := by
  rw [dispatch] at h
  obtain ⟨⟨httpErr, request⟩, -, hr⟩ := Option.bind_eq_some_iff.mp h
  obtain rfl := Option.some.inj hr
  by_cases hok : httpErr = .HTTP_OK
  · rw [if_pos hok, handleRequest]
    split
    · next hfind => exact hframe _ (List.mem_of_find?_eq_some hfind) _ _
    · rfl
  · rw [if_neg hok]
    rfl

/-- Such handlers never announce their code. -/
theorem not_announces_of_frame {srv : HttpServer}
    (hframe : ∀ e ∈ srv.handlers.entries, ∀ request response,
      (e.2 request response).2.2.code = response.code) (ss : Bytes) : ¬ srv.Announces ss := by
  intro h
  obtain ⟨r, hdispatch, hcode⟩ := (announces_iff_code srv ss).mp h .HTTP_GET 0
  rw [code_dispatch_of_frame hframe hdispatch] at hcode
  exact value_ne_zero _ hcode.symm

/-- **The code is announced exactly where a handler is called and stores the code that it
returns.** -/
theorem announces_iff (srv : HttpServer) (ss : Bytes) : srv.Announces ss ↔ srv.Stores ss := by
  rw [announces_iff_code]
  refine forall_congr' fun method => ?_
  cases hparse : parseHttpReqest (HttpRequest.fresh method) ss with
  | none => simp [dispatch, hparse]
  | some p =>
    obtain ⟨httpErr, request⟩ := p
    simp only [dispatch, hparse, Option.bind_eq_bind, Option.bind_some, Option.pure_def,
      Option.some.injEq, exists_eq_left', Prod.mk.injEq]
    by_cases hok : httpErr = .HTTP_OK
    · subst hok
      cases hfind : srv.handlers.find? request.url with
      | some h => simp [handleRequest, hfind]
      -- nothing stores the code, and the memory may hold a zero
      | none =>
        have hzero : ¬ ∀ code : Int32, code = HttpCode.HTTP_NOT_FOUND.value := fun h =>
          value_ne_zero _ (h 0).symm
        simpa [handleRequest, hfind, freshResponse, HttpResponse.fresh] using hzero
    · have hzero : ¬ ∀ code : Int32, code = httpErr.value := fun h => value_ne_zero _ (h 0).symm
      simpa [hok, HttpResponse.fresh] using hzero

/-- A server without handlers, and a request without a line end. -/
theorem not_announces : ¬ ∀ (srv : HttpServer) (ss : Bytes), srv.Announces ss := by
  intro h
  exact not_announces_of_frame (fun _ he => absurd he List.not_mem_nil) [] (h ⟨∅, []⟩ [])

end HttpServer

end SniffDogSniff
