import Simple.Web.HttpLines

/-! A reply that is written is read back. -/

namespace Simple.Web.Http

open Simple.Lib Simple.Lib.Bytes Simple.Lib.Reader Simple.Coro.Network

structure Reply.Sendable (r : Reply) : Prop where
  status : ∃ s : Status, s.code = r.status
  headers : ∀ h ∈ r.headers, h.Writable
  content : announced r.headers = some r.content.length

variable {r : Reply} {rest : List UInt8} {ys : List Reply}

def Status.text (s : Status) : List UInt8 := ParserState.lineOf s.line

lemma Status.line_spec (s : Status) : s.line = s.text ++ crlf ∧ (13 : UInt8) ∉ s.text ∧
    parserReplyLine {} s.text = some { status := s.code } ∧ toStringView s.code = s.line := by
  cases s <;> decide +kernel

lemma Status.line_eq (s : Status) : s.line = s.text ++ crlf := s.line_spec.1

lemma Status.cr_not_mem (s : Status) : (13 : UInt8) ∉ s.text := s.line_spec.2.1

lemma Status.parserReplyLine_text (s : Status) :
    parserReplyLine {} s.text = some { status := s.code } := s.line_spec.2.2.1

lemma Status.toStringView_code (s : Status) : toStringView s.code = s.line := s.line_spec.2.2.2

lemma reply_steps (hr : r.Sendable) :
    (parser reply).consumer.Steps ⟨⟨{}, .firstLine⟩, r.toBuffer ++ rest, ys⟩
      ⟨⟨r, .done⟩, rest, ys ++ [r]⟩ := by
  obtain ⟨⟨s, hs⟩, hheaders, hcontent⟩ := hr
  obtain ⟨status, headers, content⟩ := r
  simp only at hs hheaders hcontent
  subst hs
  have hbuffer : Reply.toBuffer ⟨s.code, headers, content⟩ ++ rest =
      s.text ++ crlf ++ (headers.flatMap Header.bytes ++ (crlf ++ (content ++ rest))) := by
    simp only [Reply.toBuffer, s.toStringView_code, s.line_eq, List.append_assoc]
  have hsteps := message_steps (T := reply) s.cr_not_mem s.parserReplyLine_text hheaders hcontent
    rest ys
  have hwhole : reply.withBody (reply.withHeaders { status := s.code }
      (reply.headers { status := s.code } ++ headers)) content =
      ⟨s.code, headers, content⟩ := by cases content <;> rfl
  simp only [hwhole] at hsteps
  rw [hbuffer]
  exact hsteps

/-- A reply is read back from its bytes, however they are cut, and what follows them is left. -/
theorem reply_round_trip (hr : r.Sendable) (rest : List UInt8) (schedule : List Event)
    (h : schedule.flatMap Event.data = r.toBuffer ++ rest) :
    ((parser reply).settle ((parser reply).run ⟨{}, .firstLine⟩ schedule)).results = [r] ∧
      ((parser reply).settle
        ((parser reply).run ⟨{}, .firstLine⟩ schedule)).socket.pending = rest := by
  have hsteps : (parser reply).consumer.Steps ⟨⟨{}, .firstLine⟩, r.toBuffer ++ rest, []⟩ _ :=
    reply_steps hr
  rw [← h] at hsteps
  have hcursor := Program.settle_cursor hsteps quiet_done
  exact ⟨congrArg Cursor.yielded hcursor, congrArg Cursor.pending hcursor⟩

def htmlPage (title heading : String) : List UInt8 :=
  ascii "<html><head><title>" ++ ascii title ++ ascii "</title></head><body><h1>" ++ ascii heading ++
    ascii "</h1></body></html>"

def Status.toReplies : Status → List UInt8
  | switchingProtocols => []
  | ok => []
  | created => htmlPage "Created" "201 Created"
  | accepted => htmlPage "Accepted" "202 Accepted"
  | noContent => htmlPage "No Content" "204 Content"
  | multipleChoices => htmlPage "Multiple Choices" "300 Multiple Choices"
  | movedPermanently => htmlPage "Moved Permanently" "301 Moved Permanently"
  | movedTemporarily => htmlPage "Moved Temporarily" "302 Moved Temporarily"
  | notModified => htmlPage "Not Modified" "304 Not Modified"
  | badRequest => htmlPage "Bad Request" "400 Bad Request"
  | unauthorized => htmlPage "Unauthorized" "401 Unauthorized"
  | forbidden => htmlPage "Forbidden" "403 Forbidden"
  | notFound => htmlPage "Not Found" "404 Not Found"
  | internalServerError => htmlPage "Internal Server Error" "500 Internal Server Error"
  | notImplemented => htmlPage "Not Implemented" "501 Not Implemented"
  | badGateway => htmlPage "Bad Gateway" "502 Bad Gateway"
  | serviceUnavailable => htmlPage "Service Unavailable" "503 Service Unavailable"

def Reply.stock (s : Status) : Reply where
  status := s.code
  headers := [⟨contentLength, ascii (toString s.toReplies.length)⟩,
    ⟨ascii "Content-Type", ascii "text/html"⟩]
  content := s.toReplies

lemma Status.toReplies_length (s : Status) : s.toReplies.length < 2 ^ 64 := by
  cases s <;> decide +kernel

theorem Reply.stock_sendable (s : Status) : (stock s).Sendable where
  status := ⟨s, rfl⟩
  headers := by
    intro h hmem
    simp only [stock, List.mem_cons, List.not_mem_nil, or_false] at hmem
    rcases hmem with rfl | rfl
    · exact Header.writable_of (by decide) (by decide) fun _ => isCtl_toString
    · exact Header.writable_of (by decide) (by decide) (isCtl_of_any (by decide))
  content := fromChars_toString s.toReplies_length

def page : Reply :=
  { status := Status.notFound.code
    headers := [⟨contentLength, ascii "9"⟩, ⟨ascii "Server", []⟩, ⟨contentLength, ascii "3"⟩]
    content := ascii "404" }

lemma page_sendable : page.Sendable where
  status := ⟨.notFound, rfl⟩
  headers := by
    intro h hmem
    simp only [page, List.mem_cons, List.not_mem_nil, or_false] at hmem
    rcases hmem with rfl | rfl | rfl <;>
      exact Header.writable_of (by decide) (by decide) (isCtl_of_any (by decide))
  content := by decide

theorem reply_round_trip_page :
    ((parser reply).settle ((parser reply).run ⟨{}, .firstLine⟩
      [.handRead (fun _ => 0) (page.toBuffer.take 30), .proceed, .proceed,
        .handRead (fun _ => 0) (page.toBuffer.drop 30), .handRead (fun _ => 0) [1, 2]])).results =
      [page] :=
  (reply_round_trip page_sendable [1, 2] _ (by rfl)).1

end Simple.Web.Http
