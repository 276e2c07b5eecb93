import Simple.Coro.NetworkProcess
import Simple.Web.Http

/-! `http::parser`: a message is read line by line, then its content. -/

namespace Simple.Web.Http

open Simple.Lib Simple.Lib.Bytes Simple.Lib.Search Simple.Lib.Reader Simple.Coro.Network

/-- What `parser(request&)` and `parser(reply&)` differ in. -/
structure Target (R : Type) where
  start : R
  parserLine : R → List UInt8 → Option R
  lineFailure : String
  headers : R → List Header
  withHeaders : R → List Header → R
  withContent : R → List UInt8 → R
  headers_withHeaders : ∀ r hs, headers (withHeaders r hs) = hs
  withHeaders_withHeaders : ∀ r hs hs', withHeaders (withHeaders r hs) hs' = withHeaders r hs'
  withHeaders_headers : ∀ r, withHeaders r (headers r) = r

def request : Target Request where
  start := {}
  parserLine := parserRequestLine
  lineFailure := "parser request line fail"
  headers := Request.headers
  withHeaders := fun req headers => { req with headers := headers }
  withContent := fun req content => { req with content := content }
  headers_withHeaders := fun _ _ => rfl
  withHeaders_withHeaders := fun _ _ _ => rfl
  withHeaders_headers := fun _ => rfl

def reply : Target Reply where
  start := {}
  parserLine := parserReplyLine
  lineFailure := "parser reply line fail"
  headers := Reply.headers
  withHeaders := fun rep headers => { rep with headers := headers }
  withContent := fun rep content => { rep with content := content }
  headers_withHeaders := fun _ _ => rfl
  withHeaders_withHeaders := fun _ _ _ => rfl
  withHeaders_headers := fun _ => rfl

inductive Failure
  | logicError (what : String)
  | network (outcome : Outcome)

inductive Position
  | firstLine
  | header (bodySize : ℕ)
  | body (size : ℕ) (pos : 0 < size)
  | done
  | failed (e : Failure)

structure ParserState (R : Type) where
  message : R
  position : Position := .firstLine

def contentLength : List UInt8 := ascii "Content-Length"

namespace ParserState

variable {R : Type} (T : Target R)

def call (s : ParserState R) : Option Call :=
  match s.position with
  | .firstLine => some (.readUntil crlf)
  | .header _ => some (.readUntil crlf)
  | .body size _ => some (.readSize size)
  | .done => none
  | .failed _ => none

def fail (s : ParserState R) (what : String) : ParserState R × Option R :=
  ({ s with position := .failed (.logicError what) }, none)

def lineOf (bytes : List UInt8) : List UInt8 := bytes.take (bytes.length - crlf.length)

/-- The size of the body after a header line, as `parser_header_body` keeps it. -/
def nextBodySize (headers : List Header) (bodySize : ℕ) : ℕ :=
  match headers.getLast? with
  | some h => if h.name = contentLength then (fromChars h.value).getD bodySize else bodySize
  | none => bodySize

def take (s : ParserState R) (bytes : List UInt8) : ParserState R × Option R :=
  match s.position with
  | .firstLine =>
    match T.parserLine s.message (lineOf bytes) with
    | none => s.fail T.lineFailure
    | some message => (⟨message, .header 0⟩, none)
  | .header bodySize =>
    let line := lineOf bytes
    if line = [] then
      if pos : 0 < bodySize then ({ s with position := .body bodySize pos }, none)
      else ({ s with position := .done }, some s.message)
    else
      match parserHeader (T.headers s.message) line with
      | none => s.fail "parser header fail"
      | some headers =>
        (⟨T.withHeaders s.message headers, .header (nextBodySize headers bodySize)⟩, none)
  | .body _ _ =>
    let message := T.withContent s.message bytes
    (⟨message, .done⟩, some message)
  | .done => (s, none)
  | .failed _ => (s, none)

def resume (s : ParserState R) : Outcome → ParserState R × Option R
  | .bytes [] => s.fail "recv eof"
  | .bytes xs => s.take T xs
  | .eof => s.fail "recv eof"
  | o => ({ s with position := .failed (.network o) }, none)

end ParserState

def parser {R : Type} (T : Target R) : Program (ParserState R) R where
  call := ParserState.call
  resume := ParserState.resume T
  exact := by
    rintro ⟨message, position⟩ c h
    cases position with
    | body size pos =>
      obtain rfl := Option.some.inj h
      exact pos
    | done => cases h
    | failed e => cases h
    | _ =>
      obtain rfl := Option.some.inj h
      exact List.cons_ne_nil _ _

section Steps

variable {R : Type} {T : Target R} {s t : ParserState R} {line rest : List UInt8} {ys : List R}
  {d : Cursor (ParserState R) UInt8 R} {o : Option R}

lemma lineOf_append (line : List UInt8) : ParserState.lineOf (line ++ crlf) = line := by
  simp [ParserState.lineOf]

lemma line_step (hline : (13 : UInt8) ∉ line) (hc : s.call = some (.readUntil crlf))
    (ht : s.take T (line ++ crlf) = (t, o))
    (h : (parser T).consumer.Steps ⟨t, rest, ys ++ o.toList⟩ d) :
    (parser T).consumer.Steps ⟨s, line ++ crlf ++ rest, ys⟩ d := by
  refine .head (Consumer.step_append ?_ ?_) h
  · have hfind : find crlf (line ++ crlf) = some line.length := find_pair hline []
    simp [Program.consumer, parser, hc, Call.cut, hfind]
  · cases hx : line ++ crlf with
    | nil => simp [crlf] at hx
    | cons b xs =>
      rw [hx] at ht
      exact ht

lemma body_step {message : R} {body : List UInt8} (hpos : 0 < body.length)
    (h : (parser T).consumer.Steps
      ⟨⟨T.withContent message body, .done⟩, rest, ys ++ [T.withContent message body]⟩ d) :
    (parser T).consumer.Steps ⟨⟨message, .body body.length hpos⟩, body ++ rest, ys⟩ d := by
  refine .head (Consumer.step_append (o := some (T.withContent message body)) ?_ ?_) h
  · simp [Program.consumer, parser, ParserState.call, Call.cut]
  · obtain ⟨b, xs, rfl⟩ := List.exists_cons_of_ne_nil (List.length_pos_iff.mp hpos)
    rfl

lemma quiet_done {message : R} {pending : List UInt8} :
    (parser T).consumer.step ⟨⟨message, .done⟩, pending, ys⟩ = none := rfl

end Steps

end Simple.Web.Http
