import SniffDogSniff.Webserver.HttpMessage
import SniffDogSniff.Webserver.HttpResponse

/-!
# Receiving a request

The worker takes a request from its connection in pieces of at most 512 bytes and stops at
the first piece that is shorter, whatever the headers say about the length.  How a text is
cut into pieces is up to the network.

## Main definitions

* `PostRequest` — a well-formed `POST` request, and its text.
* `RequestDelivery` — a text cut into pieces.
* `receiveRequest` — the loop.
* `RequestDelivery.FullUntilLast` — no piece is short but the last one.

## Main results

* `receiveRequest_eq_some_flatten_iff` — when the loop ends with all pieces.
* `handsOver_iff` — **a request is handed to the parser as a whole exactly where no piece
  is short but the last one.**
-/

namespace SniffDogSniff

open StringUtil

/-! ### Requests -/

/-- The header for the length of the body. -/
def CONTENT_LENGTH : Bytes := ascii "Content-Length"

/-- A well-formed `POST` request. -/
structure PostRequest where
  target : Bytes
  version : Bytes
  headers : List (Bytes × Bytes)
  body : Bytes
  target_without : Without [13, 32] target
  version_without : Without [13, 32] version
  headers_without : ∀ p ∈ headers, Without [13, 58] p.1 ∧ Without [13] p.2
  content_length : ∃ blanks, (∀ c ∈ blanks, c = 32) ∧
    (CONTENT_LENGTH, blanks ++ decimal body.length) ∈ headers

namespace PostRequest

def line (m : PostRequest) : Bytes := [32].intercalate [HttpMethod.HTTP_POST.word, m.target, m.version]

def text (m : PostRequest) : Bytes :=
  m.line ++ (CRLF ++ (CRLF.intercalate (m.headers.map (pairText 58)) ++ (CRLF ++ CRLF ++ m.body)))

end PostRequest

/-! ### The loop -/

/-- `sizeof(buf)`. -/
def RECV_SIZE : ℕ := 512

/-- The loop around `recv`, for the pieces that come.  Behind them `recv` answers 0, if the
other side closes its end, and else does not return. -/
def receiveRequest (closes : Bool) : List Bytes → Option Bytes
  | [] => if closes then some [] else none
  | piece :: pieces =>
      if piece.length < RECV_SIZE then some piece else (receiveRequest closes pieces).map (piece ++ ·)

/-- A text in pieces, as `recv` hands them over, and whether the other side closes its end
when all have been sent. -/
structure RequestDelivery (text : Bytes) where
  pieces : List Bytes
  closes : Bool
  flatten_eq : pieces.flatten = text
  ne_nil : ∀ piece ∈ pieces, piece ≠ []
  length_le : ∀ piece ∈ pieces, piece.length ≤ RECV_SIZE

namespace RequestDelivery

variable {text : Bytes} (d : RequestDelivery text)

/-- The string for the parser. -/
def received : Option Bytes := receiveRequest d.closes d.pieces

/-- The text comes through as a whole, and what is parsed is the text. -/
def HandsOver : Prop :=
  d.received = some text ∧
    ∀ method, d.received.bind (parseHttpReqest (HttpRequest.fresh method)) =
      parseHttpReqest (HttpRequest.fresh method) text

/-- No piece is short but the last one, and that one is short or the connection ends
behind it. -/
def FullUntilLast : Prop :=
  (∀ piece ∈ d.pieces.dropLast, piece.length = RECV_SIZE) ∧
    (d.closes = true ∨ ∃ piece ∈ d.pieces.getLast?, piece.length < RECV_SIZE)

end RequestDelivery

/-- The loop ends with all pieces. -/
theorem receiveRequest_eq_some_flatten_iff (closes : Bool) {pieces : List Bytes}
    (hne : ∀ piece ∈ pieces, piece ≠ []) (hle : ∀ piece ∈ pieces, piece.length ≤ RECV_SIZE) :
    receiveRequest closes pieces = some pieces.flatten ↔
      (∀ piece ∈ pieces.dropLast, piece.length = RECV_SIZE) ∧
        (closes = true ∨ ∃ piece ∈ pieces.getLast?, piece.length < RECV_SIZE) := by
  induction pieces with
  | nil => cases closes <;> simp [receiveRequest]
  | cons piece pieces ih =>
    rw [List.forall_mem_cons] at hne hle
    have hrest := ih hne.2 hle.2
    rw [receiveRequest]
    cases pieces with
    | nil =>
      cases closes <;> simp [receiveRequest]
    | cons next pieces =>
      rw [List.dropLast_cons_cons, List.forall_mem_cons, List.getLast?_cons_cons, List.flatten_cons]
      split
      · next hshort =>
        -- something is left behind the short piece
        have hleft : (next :: pieces).flatten ≠ [] := by
          rw [List.flatten_cons]
          simp [(List.forall_mem_cons.mp hne.2).1]
        constructor
        · intro h
          exact absurd (List.self_eq_append_right.mp (Option.some.inj h)) hleft
        · rintro ⟨⟨hfull, -⟩, -⟩
          omega
      · next hfull =>
        have hlen : piece.length = RECV_SIZE := le_antisymm hle.1 (not_lt.mp hfull)
        rw [and_assoc, ← hrest]
        simp [hlen]

namespace RequestDelivery

theorem received_eq_some_iff {text : Bytes} (d : RequestDelivery text) :
    d.received = some text ↔ d.FullUntilLast := by
  have hiff := receiveRequest_eq_some_flatten_iff d.closes d.ne_nil d.length_le
  rw [d.flatten_eq] at hiff
  exact hiff

/-- What comes through as a whole is parsed as a whole. -/
theorem handsOver_of_received {text : Bytes} {d : RequestDelivery text}
    (h : d.received = some text) : d.HandsOver := by
  refine ⟨h, fun method => ?_⟩
  rw [h, Option.bind_some]

/-- **A request is handed to the parser as a whole exactly where no piece is short but the
last one.** -/
theorem handsOver_iff (m : PostRequest) (d : RequestDelivery m.text) : d.HandsOver ↔ d.FullUntilLast := by
  rw [← d.received_eq_some_iff]
  exact ⟨And.left, handsOver_of_received⟩

end RequestDelivery

/-- "POST / HTTP/1.1" with the length of its body and the body "q=a". -/
def formRequest : PostRequest where
  target := ascii "/"
  version := ascii "HTTP/1.1"
  headers := [(CONTENT_LENGTH, ascii "3")]
  body := ascii "q=a"
  target_without := by simp [Without, ascii]
  version_without := by simp [Without, ascii]
  headers_without := by simp [Without, ascii, CONTENT_LENGTH]
  content_length := ⟨[], by simp, by simp [decimal, ascii]⟩

/-- The body comes in a piece of its own. -/
def formDelivery : RequestDelivery formRequest.text where
  pieces := [formRequest.text.take 37, formRequest.text.drop 37]
  closes := false
  flatten_eq := by simp
  ne_nil := by decide
  length_le := by decide

/-- The form loses its values. -/
theorem not_handsOver : ¬ ∀ (m : PostRequest) (d : RequestDelivery m.text), d.HandsOver := by
  intro h
  have hfull := (formDelivery.received_eq_some_iff.mp (h formRequest formDelivery).1).1
  exact absurd (hfull (formRequest.text.take 37) List.mem_cons_self) (by decide)

end SniffDogSniff
