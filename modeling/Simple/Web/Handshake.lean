import Simple.Utils.Base64
import Simple.Utils.Sha1
import Simple.Web.HttpReply
import Simple.Web.WebSocket

/-! The two `handshake` functions of a WebSocket: what each writes, and when each is content with
what it has read. -/

namespace Simple.Web.WebSocket

open Simple.Lib Simple.Lib.Bytes Simple.Coro.Network
open Simple.Web.Http (Header Request Reply Status crlf isCtl)

def websocketKeyName : List UInt8 := ascii "Sec-WebSocket-Key"

def websocketAcceptName : List UInt8 := ascii "Sec-WebSocket-Accept"

def connectionName : List UInt8 := ascii "Connection"

def upgradeName : List UInt8 := ascii "Upgrade"

def upgradeValueRight : List UInt8 := ascii "websocket"

def handshakeGuid : List UInt8 := ascii "258EAFA5-E914-47DA-95CA-C5AB0DC85B11"

/-- What the loop over the headers has found; `key` is the value of the key or of the accept. -/
structure Seen where
  key : List UInt8 := []
  connection : List UInt8 := []
  upgrade : List UInt8 := []

def Seen.next (keyName : List UInt8) (s : Seen) (h : Header) : Seen :=
  if s.key = [] ∧ h.name = keyName then { s with key := h.value }
  else if s.connection = [] ∧ h.name = connectionName then { s with connection := h.value }
  else if s.upgrade = [] ∧ h.name = upgradeName then { s with upgrade := h.value }
  else s

def seen (keyName : List UInt8) (headers : List Header) : Seen :=
  headers.foldl (Seen.next keyName) {}

def acceptOf (key : List UInt8) : List UInt8 :=
  Utils.Base64.base64Encode (((Utils.Sha1.Context.init {}).update key).update handshakeGuid).final

def upgradeInvalid : String := "handshake upgrade_value is invalid"

def connectionInvalid : String := "handshake connection_value is invalid"

def acceptInvalid : String := "handshake websocket_accept_value is invalid"

def keyInvalid : String := "handshake websocket_key_value is invalid"

def requestBytes (host uri keyBase64 : List UInt8) : List UInt8 :=
  ascii "GET " ++ uri ++ ascii " HTTP/1.1\r\n" ++ ascii "Host: " ++ host ++ ascii "\r\n" ++
    ascii "Connection: Upgrade\r\n" ++ ascii "Upgrade: websocket\r\n" ++
    ascii "Sec-WebSocket-Version: 13\r\n" ++ ascii "Sec-WebSocket-Key: " ++ keyBase64 ++
    ascii "\r\n\r\n"

def clientStart (tp : Role) (host uri key : List UInt8) : Except String (List UInt8) :=
  if tp ≠ .client then .error "tp_ must be websocket_type::client"
  else .ok (requestBytes host uri (Utils.Base64.base64Encode key))

def clientCheck (keyBase64 : List UInt8) (rep : Reply) : Except String Unit :=
  let s := seen websocketAcceptName rep.headers
  if s.upgrade ≠ upgradeValueRight then .error upgradeInvalid
  else if Search.find upgradeName s.connection = none then .error connectionInvalid
  else if s.key = [] then .error acceptInvalid
  else if acceptOf keyBase64 ≠ s.key then .error acceptInvalid
  else .ok ()

def clientHandshake (key : List UInt8) : Program (Http.ParserState Reply) (Except String Unit) :=
  (Http.parser Http.reply).map (clientCheck (Utils.Base64.base64Encode key))

def serverStart (tp : Role) : Except String Unit :=
  if tp ≠ .server then .error "tp_ must be websocket_type::server" else .ok ()

def acceptReply (key : List UInt8) : Reply where
  status := Status.switchingProtocols.code
  headers := [⟨connectionName, upgradeName⟩, ⟨upgradeName, upgradeValueRight⟩,
    ⟨websocketAcceptName, acceptOf key⟩]

def serverAnswer (req : Request) : Reply × Except String Unit :=
  let s := seen websocketKeyName req.headers
  if s.upgrade ≠ upgradeValueRight then (Reply.stock .badRequest, .error upgradeInvalid)
  else if Search.find upgradeName s.connection = none then
    (Reply.stock .badRequest, .error connectionInvalid)
  else if s.key = [] then (Reply.stock .badRequest, .error keyInvalid)
  else (acceptReply s.key, .ok ())

def serverHandshake : Program (Http.ParserState Request) (Reply × Except String Unit) :=
  (Http.parser Http.request).map serverAnswer

def firstValue (name : List UInt8) (headers : List Header) : List UInt8 :=
  ((headers.find? fun h => h.name = name ∧ h.value ≠ []).map Header.value).getD []

variable {headers : List Header} {h : Header} {key name keyName : List UInt8}

lemma firstValue_append : firstValue name (headers ++ [h]) =
    if firstValue name headers = [] ∧ h.name = name then h.value else firstValue name headers := by
  rw [firstValue, firstValue, List.find?_append]
  cases hfind : headers.find? fun h => h.name = name ∧ h.value ≠ [] with
  | some g =>
    have hg := List.find?_some hfind
    simp only [decide_eq_true_eq] at hg
    simp [hg.2]
  | none =>
    by_cases hname : h.name = name
    · by_cases hvalue : h.value = [] <;> simp [hname, hvalue]
    · simp [hname]

lemma seen_eq (hc : keyName ≠ connectionName) (hu : keyName ≠ upgradeName) :
    seen keyName headers = ⟨firstValue keyName headers, firstValue connectionName headers,
      firstValue upgradeName headers⟩ := by
  have hcu : connectionName ≠ upgradeName := by decide
  induction headers using List.reverseRecOn with
  | nil => rfl
  | append_singleton headers h ih =>
    have hseen : seen keyName (headers ++ [h]) = Seen.next keyName (seen keyName headers) h :=
      List.foldl_append
    rw [hseen, ih, firstValue_append, firstValue_append, firstValue_append, Seen.next]
    by_cases hkey : h.name = keyName
    · simp only [hkey, hc, hu, and_true, and_false, if_false]
      split_ifs <;> rfl
    by_cases hconnection : h.name = connectionName
    · simp only [hconnection, hc.symm, hcu, and_true, and_false, if_false]
      split_ifs <;> rfl
    by_cases hupgrade : h.name = upgradeName
    · simp only [hupgrade, hu.symm, hcu.symm, and_true, and_false, if_false]
      split_ifs <;> rfl
    · simp only [hkey, hconnection, hupgrade, and_false, if_false]

theorem acceptOf_eq (key : List UInt8) :
    acceptOf key = Lib.Base64.encode (Lib.Sha1.sha1 (key ++ handshakeGuid)) := by
  have hsha := Utils.Sha1.sha1_eq [key, handshakeGuid]
  rw [List.flatten_cons, List.flatten_singleton] at hsha
  rw [acceptOf, Utils.Base64.base64Encode_eq, ← hsha]
  rfl

example : acceptOf (ascii "dGhlIHNhbXBsZSBub25jZQ==") = ascii "s3pPLMBiTxaQ9kYGzzhZRbK+xOo=" := by
  decide +kernel

end Simple.Web.WebSocket
