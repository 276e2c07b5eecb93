import Simple.Lib.Bytes

/-! HTTP messages: how replies are written, and the three state machines that read lines. -/

namespace Simple.Web.Http

open Simple.Lib.Bytes

structure Header where
  name : List UInt8 := []
  value : List UInt8 := []
  deriving DecidableEq

structure Request where
  method : List UInt8 := []
  uri : List UInt8 := []
  versionMajor : ℤ := 0
  versionMinor : ℤ := 0
  headers : List Header := []
  content : List UInt8 := []
  deriving DecidableEq

inductive Status
  | switchingProtocols | ok | created | accepted | noContent
  | multipleChoices | movedPermanently | movedTemporarily | notModified
  | badRequest | unauthorized | forbidden | notFound
  | internalServerError | notImplemented | badGateway | serviceUnavailable
  deriving DecidableEq

namespace Status

def all : List Status :=
  [switchingProtocols, ok, created, accepted, noContent, multipleChoices, movedPermanently,
    movedTemporarily, notModified, badRequest, unauthorized, forbidden, notFound,
    internalServerError, notImplemented, badGateway, serviceUnavailable]

def code : Status → ℤ
  | switchingProtocols => 101 | ok => 200 | created => 201 | accepted => 202 | noContent => 204
  | multipleChoices => 300 | movedPermanently => 301 | movedTemporarily => 302 | notModified => 304
  | badRequest => 400 | unauthorized => 401 | forbidden => 403 | notFound => 404
  | internalServerError => 500 | notImplemented => 501 | badGateway => 502
  | serviceUnavailable => 503

def line : Status → List UInt8
  | switchingProtocols => ascii "HTTP/1.1 101 Switching Protocols\r\n"
  | ok => ascii "HTTP/1.1 200 OK\r\n"
  | created => ascii "HTTP/1.1 201 Created\r\n"
  | accepted => ascii "HTTP/1.1 202 Accepted\r\n"
  | noContent => ascii "HTTP/1.1 204 No Content\r\n"
  | multipleChoices => ascii "HTTP/1.1 300 Multiple Choices\r\n"
  | movedPermanently => ascii "HTTP/1.1 301 Moved Permanently\r\n"
  | movedTemporarily => ascii "HTTP/1.1 302 Moved Temporarily\r\n"
  | notModified => ascii "HTTP/1.1 304 Not Modified\r\n"
  | badRequest => ascii "HTTP/1.1 400 Bad Request\r\n"
  | unauthorized => ascii "HTTP/1.1 401 Unauthorized\r\n"
  | forbidden => ascii "HTTP/1.1 403 Forbidden\r\n"
  | notFound => ascii "HTTP/1.1 404 Not Found\r\n"
  | internalServerError => ascii "HTTP/1.1 500 Internal Server Error\r\n"
  | notImplemented => ascii "HTTP/1.1 501 Not Implemented\r\n"
  | badGateway => ascii "HTTP/1.1 502 Bad Gateway\r\n"
  | serviceUnavailable => ascii "HTTP/1.1 503 Service Unavailable\r\n"

end Status

/-- The status of a reply that was read may be none of the enumerators. -/
structure Reply where
  status : ℤ := Status.ok.code
  headers : List Header := []
  content : List UInt8 := []
  deriving DecidableEq

def toStringView (status : ℤ) : List UInt8 :=
  ((Status.all.find? fun s => s.code = status).getD .internalServerError).line

def crlf : List UInt8 := [13, 10]

def nameValueSeparator : List UInt8 := ascii ": "

def Header.bytes (h : Header) : List UInt8 := h.name ++ nameValueSeparator ++ h.value ++ crlf

def Reply.toBuffer (r : Reply) : List UInt8 :=
  toStringView r.status ++ r.headers.flatMap Header.bytes ++ crlf ++ r.content

def isChar (c : UInt8) : Bool := c ≤ 127

def isCtl (c : UInt8) : Bool := c ≤ 31 || c == 127

def isSpecial (c : UInt8) : Bool := (ascii "()<>@,;:\\\"/[]?=\x7b\x7d \t").contains c

def isDigit (c : UInt8) : Bool := 48 ≤ c && c ≤ 57

def isToken (c : UInt8) : Bool := isChar c && !isCtl c && !isSpecial c

def digit (c : UInt8) : ℤ := (c.toNat : ℤ) - 48

inductive LineState
  | methodStart | method | uri
  | versionH | versionT1 | versionT2 | versionP | versionSlash
  | versionMajorStart | versionMajor | versionMinorStart | versionMinor
  | statusStart | status | reason
  deriving DecidableEq

def requestLineStep : Request × LineState → UInt8 → Option (Request × LineState)
  | (req, .methodStart), ch =>
    if !isChar ch || isCtl ch || isSpecial ch then none
    else some ({ req with method := req.method ++ [ch] }, .method)
  | (req, .method), ch =>
    if ch = 32 then some (req, .uri)
    else if !isChar ch || isCtl ch || isSpecial ch then none
    else some ({ req with method := req.method ++ [ch] }, .method)
  | (req, .uri), ch =>
    if ch = 32 then some (req, .versionH)
    else if isCtl ch then none
    else some ({ req with uri := req.uri ++ [ch] }, .uri)
  | (req, .versionH), ch => if ch ≠ 72 then none else some (req, .versionT1)
  | (req, .versionT1), ch => if ch ≠ 84 then none else some (req, .versionT2)
  | (req, .versionT2), ch => if ch ≠ 84 then none else some (req, .versionP)
  | (req, .versionP), ch => if ch ≠ 80 then none else some (req, .versionSlash)
  | (req, .versionSlash), ch => if ch ≠ 47 then none else some (req, .versionMajorStart)
  | (req, .versionMajorStart), ch =>
    if !isDigit ch then none else some ({ req with versionMajor := digit ch }, .versionMajor)
  | (req, .versionMajor), ch =>
    if ch = 46 then some (req, .versionMinorStart)
    else if !isDigit ch then none
    else some ({ req with versionMajor := req.versionMajor * 10 + digit ch }, .versionMajor)
  | (req, .versionMinorStart), ch =>
    if !isDigit ch then none else some ({ req with versionMinor := digit ch }, .versionMinor)
  | (req, .versionMinor), ch =>
    if !isDigit ch then none
    else some ({ req with versionMinor := req.versionMinor * 10 + digit ch }, .versionMinor)
  | (req, state), _ => some (req, state)

def parserRequestLine (req : Request) (line : List UInt8) : Option Request :=
  match line.foldlM requestLineStep (req, .methodStart) with
  | some (req, .versionMinor) => some req
  | _ => none

def replyLineStep : Reply × LineState → UInt8 → Option (Reply × LineState)
  | (rep, .versionH), ch => if ch ≠ 72 then none else some (rep, .versionT1)
  | (rep, .versionT1), ch => if ch ≠ 84 then none else some (rep, .versionT2)
  | (rep, .versionT2), ch => if ch ≠ 84 then none else some (rep, .versionP)
  | (rep, .versionP), ch => if ch ≠ 80 then none else some (rep, .versionSlash)
  | (rep, .versionSlash), ch => if ch ≠ 47 then none else some (rep, .versionMajorStart)
  | (rep, .versionMajorStart), ch => if !isDigit ch then none else some (rep, .versionMajor)
  | (rep, .versionMajor), ch =>
    if ch = 46 then some (rep, .versionMinorStart)
    else if !isDigit ch then none
    else some (rep, .versionMajor)
  | (rep, .versionMinorStart), ch => if !isDigit ch then none else some (rep, .versionMinor)
  | (rep, .versionMinor), ch =>
    if ch = 32 then some (rep, .statusStart)
    else if !isDigit ch then none
    else some (rep, .versionMinor)
  | (rep, .statusStart), ch =>
    if !isDigit ch then none else some ({ rep with status := digit ch }, .status)
  | (rep, .status), ch =>
    if ch = 32 then some (rep, .reason)
    else if !isDigit ch then none
    else some ({ rep with status := rep.status * 10 + digit ch }, .status)
  | (rep, state), _ => some (rep, state)

def parserReplyLine (rep : Reply) (line : List UInt8) : Option Reply :=
  match line.foldlM replyLineStep (rep, .versionH) with
  | some (rep, .reason) => some rep
  | _ => none

inductive HeaderState
  | start | lws | name | spaceBeforeValue | value
  deriving DecidableEq

/-- `current` is the last header from the moment the source sets it. -/
def headerStep : List Header × HeaderState → UInt8 → Option (List Header × HeaderState)
  | (headers, .start), ch =>
    if headers ≠ [] ∧ (ch = 32 ∨ ch = 9) then some (headers, .lws)
    else if !isChar ch || isCtl ch || isSpecial ch then none
    else some (headers ++ [{ name := [ch] }], .name)
  | (headers, .lws), ch =>
    if ch = 32 ∨ ch = 9 then some (headers, .lws)
    else if isCtl ch then none
    else some (headers.modifyLast (fun h => { h with value := h.value ++ [ch] }), .value)
  | (headers, .name), ch =>
    if ch = 58 then some (headers, .spaceBeforeValue)
    else if !isChar ch || isCtl ch || isSpecial ch then none
    else some (headers.modifyLast (fun h => { h with name := h.name ++ [ch] }), .name)
  | (headers, .spaceBeforeValue), ch => if ch ≠ 32 then none else some (headers, .value)
  | (headers, .value), ch =>
    if isCtl ch then none
    else some (headers.modifyLast (fun h => { h with value := h.value ++ [ch] }), .value)

def parserHeader (headers : List Header) (line : List UInt8) : Option (List Header) :=
  match line.foldlM headerStep (headers, .start) with
  | some (headers, .value) => some headers
  | _ => none

/-- `std::from_chars` on a `size_t`, which is left alone when there is no number. -/
def fromChars (text : List UInt8) : Option ℕ :=
  let digits := text.takeWhile isDigit
  let n := digits.foldl (fun n c => n * 10 + (c.toNat - 48)) 0
  if digits = [] ∨ 2 ^ 64 ≤ n then none else some n

end Simple.Web.Http
