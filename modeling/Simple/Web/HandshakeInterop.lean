import Simple.Web.Handshake

/-! The two ends of a WebSocket come to terms, and the client with nobody else. -/

namespace Simple.Web.WebSocket

open Simple.Lib Simple.Lib.Bytes Simple.Lib.Reader Simple.Coro.Network
open Simple.Web.Http (Header Request Reply Status LineState crlf isCtl nameValueSeparator
  requestLineStep parserRequestLine announced)

variable {host uri key rest : List UInt8} {c : UInt8}

lemma isCtl_base64 {xs : List UInt8} (h : c ∈ Lib.Base64.encode xs) : isCtl c = false := by
  have halphabet : ∀ c ∈ Lib.Base64.alphabet, isCtl c = false := Http.isCtl_of_any (by decide)
  rcases Lib.Base64.encode_mem h with hc | rfl
  · exact halphabet c hc
  · rfl

lemma base64_ne_nil {xs : List UInt8} (h : xs ≠ []) : Lib.Base64.encode xs ≠ [] := by
  have hpos := List.length_pos_iff.mpr h
  rw [← List.length_pos_iff, Lib.Base64.encode_length]
  omega

lemma acceptOf_ne_nil (key : List UInt8) : acceptOf key ≠ [] := by
  rw [acceptOf_eq]
  apply base64_ne_nil
  simp [Lib.Sha1.sha1, Lib.Sha1.State.bytes, ← List.length_pos_iff]

lemma acceptReply_sendable (key : List UInt8) : (acceptReply key).Sendable where
  status := ⟨.switchingProtocols, rfl⟩
  headers := by
    intro h hmem
    simp only [acceptReply, List.mem_cons, List.not_mem_nil, or_false] at hmem
    rcases hmem with rfl | rfl | rfl
    · exact Header.writable_of (by decide) (by decide) (Http.isCtl_of_any (by decide))
    · exact Header.writable_of (by decide) (by decide) (Http.isCtl_of_any (by decide))
    · refine Header.writable_of (by decide) (by decide) fun c hc => ?_
      rw [acceptOf_eq] at hc
      exact isCtl_base64 hc
  content := rfl

def requestLine (uri : List UInt8) : List UInt8 := ascii "GET " ++ uri ++ ascii " HTTP/1.1"

def requestHeaders (host keyBase64 : List UInt8) : List Header :=
  [⟨ascii "Host", host⟩, ⟨connectionName, upgradeName⟩, ⟨upgradeName, upgradeValueRight⟩,
    ⟨ascii "Sec-WebSocket-Version", ascii "13"⟩, ⟨websocketKeyName, keyBase64⟩]

lemma requestBytes_eq (host uri key : List UInt8) : requestBytes host uri key =
    requestLine uri ++ crlf ++ ((requestHeaders host key).flatMap Header.bytes ++ crlf) := by
  have hline : ascii " HTTP/1.1\r\n" = ascii " HTTP/1.1" ++ crlf := by decide
  have hhost : ascii "Host: " = ascii "Host" ++ nameValueSeparator := by decide
  have hcrlf : ascii "\r\n" = crlf := by decide
  have hconnection : ascii "Connection: Upgrade\r\n" =
      connectionName ++ nameValueSeparator ++ upgradeName ++ crlf := by decide
  have hupgrade : ascii "Upgrade: websocket\r\n" =
      upgradeName ++ nameValueSeparator ++ upgradeValueRight ++ crlf := by decide
  have hversion : ascii "Sec-WebSocket-Version: 13\r\n" =
      ascii "Sec-WebSocket-Version" ++ nameValueSeparator ++ ascii "13" ++ crlf := by decide
  have hkey : ascii "Sec-WebSocket-Key: " = websocketKeyName ++ nameValueSeparator := by decide
  have hend : ascii "\r\n\r\n" = crlf ++ crlf := by decide
  rw [requestBytes, hline, hhost, hcrlf, hconnection, hupgrade, hversion, hkey, hend]
  simp only [requestLine, requestHeaders, List.flatMap_cons, List.flatMap_nil, Http.Header.bytes,
    List.append_assoc, List.nil_append]

lemma fold_uri {req : Request} {xs : List UInt8} (h : ∀ c ∈ xs, isCtl c = false ∧ c ≠ 32) :
    xs.foldlM requestLineStep (req, .uri) = some ({ req with uri := req.uri ++ xs }, .uri) := by
  induction xs generalizing req with
  | nil => simp
  | cons c xs ih =>
    obtain ⟨⟨hc, hspace⟩, hxs⟩ := List.forall_mem_cons.mp h
    have hstep : requestLineStep (req, .uri) c =
        some ({ req with uri := req.uri ++ [c] }, .uri) := by
      simp only [requestLineStep, if_neg hspace, hc]
      rfl
    have hrest := @ih { req with uri := req.uri ++ [c] } hxs
    rw [List.foldlM_cons, hstep]
    simpa using hrest

def upgradeRequest (uri : List UInt8) : Request :=
  { method := ascii "GET", uri := uri, versionMajor := 1, versionMinor := 1 }

lemma parserRequestLine_requestLine (h : ∀ c ∈ uri, isCtl c = false ∧ c ≠ 32) :
    parserRequestLine {} (requestLine uri) = some (upgradeRequest uri) := by
  have hmethod : (ascii "GET ").foldlM requestLineStep ({}, .methodStart) =
      some ({ method := ascii "GET" }, .uri) := by decide
  have hversion : ∀ req : Request, (ascii " HTTP/1.1").foldlM requestLineStep (req, .uri) =
      some ({ req with versionMajor := 1, versionMinor := 1 }, .versionMinor) := fun _ => rfl
  rw [parserRequestLine, requestLine, List.append_assoc, List.foldlM_append, hmethod]
  simp only [List.foldlM_append, fold_uri h, hversion, Option.bind_eq_bind, Option.bind_some,
    List.nil_append]
  rfl

lemma cr_not_mem_requestLine (h : ∀ c ∈ uri, isCtl c = false ∧ c ≠ 32) :
    (13 : UInt8) ∉ requestLine uri := by
  intro hmem
  rcases List.mem_append.mp hmem with hmem | hmem
  · rcases List.mem_append.mp hmem with hmem | hmem
    · revert hmem
      decide
    · exact Http.cr_of_isCtl (h _ hmem).1 rfl
  · revert hmem
    decide

lemma requestHeaders_writable (hhost : ∀ c ∈ host, isCtl c = false)
    (hkey : ∀ c ∈ key, isCtl c = false) : ∀ h ∈ requestHeaders host key, h.Writable := by
  intro h hmem
  simp only [requestHeaders, List.mem_cons, List.not_mem_nil, or_false] at hmem
  rcases hmem with rfl | rfl | rfl | rfl | rfl
  · exact Header.writable_of (by decide) (by decide) hhost
  · exact Header.writable_of (by decide) (by decide) (Http.isCtl_of_any (by decide))
  · exact Header.writable_of (by decide) (by decide) (Http.isCtl_of_any (by decide))
  · exact Header.writable_of (by decide) (by decide) (Http.isCtl_of_any (by decide))
  · exact Header.writable_of (by decide) (by decide) hkey

lemma firstValue_cons (name : List UInt8) (h : Header) (hs : List Header) :
    firstValue name (h :: hs) =
      if h.name = name ∧ h.value ≠ [] then h.value else firstValue name hs := by
  by_cases hh : h.name = name ∧ h.value ≠ [] <;> simp [firstValue, hh]

lemma seen_requestHeaders (hkey : key ≠ []) : seen websocketKeyName (requestHeaders host key) =
    ⟨key, upgradeName, upgradeValueRight⟩ := by
  have hdiff : ∀ {name name' value : List UInt8}, name ≠ name' →
      ¬(name = name' ∧ value ≠ []) := fun hne h => hne h.1
  have hnone : ∀ name, firstValue name [] = [] := fun _ => rfl
  rw [seen_eq (by decide) (by decide), requestHeaders]
  simp only [firstValue_cons, hnone]
  rw [if_neg (hdiff (by decide)), if_neg (hdiff (by decide)), if_neg (hdiff (by decide)),
    if_neg (hdiff (by decide)), if_pos ⟨trivial, hkey⟩, if_neg (hdiff (by decide)),
    if_pos (by decide), if_neg (hdiff (by decide)), if_neg (hdiff (by decide)),
    if_pos (by decide)]

lemma seen_acceptReply (key : List UInt8) :
    seen websocketAcceptName (acceptReply key).headers =
      ⟨acceptOf key, upgradeName, upgradeValueRight⟩ := by
  have hdiff : ∀ {name name' value : List UInt8}, name ≠ name' →
      ¬(name = name' ∧ value ≠ []) := fun hne h => hne h.1
  rw [seen_eq (by decide) (by decide), acceptReply]
  simp only [firstValue_cons]
  rw [if_neg (hdiff (by decide)), if_neg (hdiff (by decide)),
    if_pos ⟨trivial, acceptOf_ne_nil key⟩, if_pos (by decide), if_neg (hdiff (by decide)),
    if_pos (by decide)]

lemma serverAnswer_requestHeaders {req : Request} (hkey : key ≠ [])
    (hreq : req.headers = requestHeaders host key) : serverAnswer req = (acceptReply key, .ok ()) := by
  have hfind : Search.find upgradeName upgradeName ≠ none := by decide
  simp only [serverAnswer, hreq, seen_requestHeaders hkey, ne_eq, not_true_eq_false, if_false,
    if_neg hfind, if_neg hkey]

lemma clientCheck_acceptReply (key : List UInt8) : clientCheck key (acceptReply key) = .ok () := by
  have hfind : Search.find upgradeName upgradeName ≠ none := by decide
  simp only [clientCheck, seen_acceptReply, ne_eq, not_true_eq_false, if_false, if_neg hfind,
    if_neg (acceptOf_ne_nil key)]

def acceptValue (rep : Reply) : List UInt8 := firstValue websocketAcceptName rep.headers

lemma clientCheck_of_ne {rep : Reply} (h : acceptValue rep ≠ acceptOf key) :
    ∃ what, clientCheck key rep = .error what := by
  have hkey : (seen websocketAcceptName rep.headers).key = acceptValue rep := by
    rw [seen_eq (by decide) (by decide)]
    rfl
  simp only [clientCheck, hkey]
  split_ifs with hu hn hk ha
  · exact ⟨_, rfl⟩
  · exact ⟨_, rfl⟩
  · exact ⟨_, rfl⟩
  · exact ⟨_, rfl⟩
  · exact absurd (not_not.mp ha).symm h

def askedRequest (host uri key : List UInt8) : Request :=
  { upgradeRequest uri with headers := requestHeaders host key }

lemma announced_requestHeaders : announced (requestHeaders host key) = some 0 := by
  have hdiff : ∀ {name value : List UInt8}, name ≠ Http.contentLength →
      decide (Header.name ⟨name, value⟩ = Http.contentLength) = false :=
    fun hne => decide_eq_false hne
  have hnone : (requestHeaders host key).filter (fun h => h.name = Http.contentLength) = [] := by
    simp only [requestHeaders, List.filter_eq_nil_iff, List.forall_mem_cons]
    refine ⟨?_, ?_, ?_, ?_, ?_, by simp⟩ <;> rw [hdiff (by decide)] <;> simp
  rw [announced, hnone]
  rfl

lemma request_steps (hhost : ∀ c ∈ host, isCtl c = false)
    (huri : ∀ c ∈ uri, isCtl c = false ∧ c ≠ 32) (hkey : ∀ c ∈ key, isCtl c = false)
    (rest : List UInt8) (ys : List Request) : (Http.parser Http.request).consumer.Steps
      ⟨⟨{}, .firstLine⟩, requestBytes host uri key ++ rest, ys⟩
      ⟨⟨askedRequest host uri key, .done⟩, rest, ys ++ [askedRequest host uri key]⟩ := by
  have hbytes : requestBytes host uri key ++ rest = requestLine uri ++ crlf ++
      ((requestHeaders host key).flatMap Header.bytes ++ (crlf ++ ([] ++ rest))) := by
    simp only [requestBytes_eq, List.append_assoc, List.nil_append]
  have hwhole : Http.request.withBody (Http.request.withHeaders (upgradeRequest uri)
      (Http.request.headers (upgradeRequest uri) ++ requestHeaders host key)) [] =
      askedRequest host uri key := rfl
  have hsize : announced (requestHeaders host key) = some ([] : List UInt8).length :=
    announced_requestHeaders
  have hsteps := Http.message_steps (T := Http.request) (cr_not_mem_requestLine huri)
    (parserRequestLine_requestLine huri) (requestHeaders_writable hhost hkey) hsize rest ys
  simp only [hwhole] at hsteps
  rw [hbytes]
  exact hsteps

/-- The server takes what the client asks, the client takes what the server answers, and what
comes after either is left to be read. The client refuses every other accept value. -/
theorem handshake (key host uri : List UInt8) (hlen : key.length = 16)
    (hhost : ∀ c ∈ host, isCtl c = false) (huri : ∀ c ∈ uri, isCtl c = false ∧ c ≠ 32) :
    (∃ asked answer, clientStart .client host uri key = .ok asked ∧ serverStart .server = .ok () ∧
      (∀ schedule rest, schedule.flatMap Event.data = asked ++ rest →
        (serverHandshake.settle (serverHandshake.run ⟨{}, .firstLine⟩ schedule)).results =
          [(answer, .ok ())] ∧
        (serverHandshake.settle
          (serverHandshake.run ⟨{}, .firstLine⟩ schedule)).socket.pending = rest) ∧
      ∀ schedule rest, schedule.flatMap Event.data = answer.toBuffer ++ rest →
        ((clientHandshake key).settle ((clientHandshake key).run ⟨{}, .firstLine⟩ schedule)).results =
          [.ok ()] ∧
        ((clientHandshake key).settle
          ((clientHandshake key).run ⟨{}, .firstLine⟩ schedule)).socket.pending = rest) ∧
    ∀ schedule rep,
      ((Http.parser Http.reply).settle
        ((Http.parser Http.reply).run ⟨{}, .firstLine⟩ schedule)).results = [rep] →
      acceptValue rep ≠
        Lib.Base64.encode (Lib.Sha1.sha1 (Lib.Base64.encode key ++ handshakeGuid)) →
      ∃ what, ((clientHandshake key).settle
        ((clientHandshake key).run ⟨{}, .firstLine⟩ schedule)).results = [.error what] := by
  have hctl : ∀ c ∈ Lib.Base64.encode key, isCtl c = false := fun _ => isCtl_base64
  have hnil : Lib.Base64.encode key ≠ [] := by
    apply base64_ne_nil
    rintro rfl
    cases hlen
  refine ⟨⟨requestBytes host uri (Lib.Base64.encode key), acceptReply (Lib.Base64.encode key),
    ?_, rfl, ?_, ?_⟩, ?_⟩
  · rw [clientStart, Utils.Base64.base64Encode_eq]
    rfl
  · intro schedule rest hdata
    have hsteps := request_steps hhost huri hctl rest []
    rw [← hdata] at hsteps
    have hcursor := Program.settle_map_cursor (g := serverAnswer)
      (Program.settle_cursor hsteps Http.quiet_done)
    rw [List.nil_append, List.map_singleton, serverAnswer_requestHeaders hnil rfl] at hcursor
    exact ⟨congrArg Cursor.yielded hcursor, congrArg Cursor.pending hcursor⟩
  · intro schedule rest hdata
    have hsteps : (Http.parser Http.reply).consumer.Steps ⟨⟨{}, .firstLine⟩,
        (acceptReply (Lib.Base64.encode key)).toBuffer ++ rest, []⟩ _ :=
      Http.reply_steps (acceptReply_sendable _)
    rw [← hdata] at hsteps
    have hcursor := Program.settle_map_cursor (g := clientCheck (Lib.Base64.encode key))
      (Program.settle_cursor hsteps Http.quiet_done)
    rw [List.nil_append, List.map_singleton, clientCheck_acceptReply] at hcursor
    rw [clientHandshake, Utils.Base64.base64Encode_eq]
    exact ⟨congrArg Cursor.yielded hcursor, congrArg Cursor.pending hcursor⟩
  · intro schedule rep hrep hne
    rw [← acceptOf_eq] at hne
    obtain ⟨what, hwhat⟩ := clientCheck_of_ne hne
    refine ⟨what, ?_⟩
    rw [clientHandshake, Utils.Base64.base64Encode_eq, Program.settle_map, Program.mapProcess, hrep,
      List.map_singleton, hwhat]

theorem handshake_chat : ∃ asked answer,
    clientStart .client (ascii "localhost") (ascii "/chat") (ascii "0123456789abcdef") = .ok asked ∧
      (serverHandshake.settle (serverHandshake.run ⟨{}, .firstLine⟩
        [.handRead (fun _ => 0) (asked.take 10), .proceed,
          .handRead (fun _ => 0) (asked.drop 10 ++ [0x81])])).results = [(answer, .ok ())] := by
  have huri : ∀ c ∈ ascii "/chat", isCtl c = false ∧ c ≠ 32 := by
    have hall : (ascii "/chat").all (fun c => !isCtl c && c != 32) = true := by decide
    simpa only [List.all_eq_true, Bool.and_eq_true, Bool.not_eq_true', bne_iff_ne] using hall
  obtain ⟨⟨asked, answer, hasked, -, hserver, -⟩, -⟩ := handshake (ascii "0123456789abcdef")
    (ascii "localhost") (ascii "/chat") (by decide) (Http.isCtl_of_any (by decide)) huri
  refine ⟨asked, answer, hasked, (hserver _ [0x81] ?_).1⟩
  simp only [List.flatMap_cons, List.flatMap_nil, Event.data, List.nil_append, List.append_nil]
  rw [← List.append_assoc, List.take_append_drop]

end Simple.Web.WebSocket
