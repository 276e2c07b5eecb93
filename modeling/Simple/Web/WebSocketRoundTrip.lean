import Simple.Web.WebSocketRead

/-! What is written at one end of a WebSocket is read at the other. -/

namespace Simple.Web.WebSocket

open Simple.Lib Simple.Lib.Bytes Simple.Lib.Reader Simple.Coro.Network

/-- A call of `websocket::write`, with the masking keys that it draws. -/
structure Sent where
  message : Message
  masks : ℕ → Key
  opcode : message.op ≠ .continuation ∧ message.op ≠ .none
  small : message.payload.length < 2 ^ 63

def wire (tp : Role) (e : Endian) (sent : List Sent) : List UInt8 :=
  sent.flatMap fun s => write tp e s.masks s.message

variable {tp : Role} {e e' : Endian} {op last : Opcode} {fin : Bool} {mask : Key}
  {data buf rest : List UInt8} {ys : List Received}

lemma encodeHeader_eq (tp : Role) (e : Endian) (fin : Bool) (mask : Key) (hop : op ≠ .none)
    (hlen : data.length < 2 ^ 63) :
    ∃ (form : LengthForm) (h : data.length < form.bound), ∀ f : Frame,
      f = ⟨fin, 0, op, data, form, mask, hop, h⟩ →
        encodeHeader tp e op data.length fin = f.first :: f.lengthBytes (tp.peer == .server) := by
  have hfirst : (if fin then 0x80 else 0 : UInt8) ||| op.code =
      (if fin then 0x80 else 0) ||| UInt8.ofNat ((0 : Fin 8) * 16) ||| op.code := by
    cases fin <;> cases op <;> rfl
  have hmask : (if tp = .client then 0x80 else 0 : UInt8) =
      if (tp.peer == .server) = true then 0x80 else 0 := by cases tp <;> rfl
  by_cases hs : data.length < 0x7E
  · refine ⟨.short, hs, ?_⟩
    rintro _ rfl
    rw [encodeHeader, if_pos hs, hfirst, hmask]
    rfl
  · by_cases hm : data.length ≤ 0xFFFF
    · refine ⟨.medium, Nat.lt_succ_of_le hm, ?_⟩
      rintro _ rfl
      rw [encodeHeader, if_neg hs, if_pos hm, hfirst, hmask, Endian.store_hton,
        Nat.mod_eq_of_lt (by omega)]
      rfl
    · refine ⟨.long, hlen.trans (by norm_num [LengthForm.bound]), ?_⟩
      rintro _ rfl
      rw [encodeHeader, if_neg hs, if_neg hm, hfirst, hmask, Endian.store_wsHtonll]
      rfl

lemma encode_eq (tp : Role) (e : Endian) (fin : Bool) (mask : Key) (hop : op ≠ .none)
    (hlen : data.length < 2 ^ 63) : ∃ f : Frame, f.fin = fin ∧ f.op = op ∧ f.payload = data ∧
      encode tp e op fin mask data = f.bytes (tp.peer == .server) := by
  obtain ⟨form, hfit, hheader⟩ := encodeHeader_eq tp e fin mask hop hlen
  refine ⟨⟨fin, 0, op, data, form, mask, hop, hfit⟩, rfl, rfl, rfl, ?_⟩
  rw [encode, hheader _ rfl, List.cons_append, encodeBody, Frame.bytes, Frame.body]
  cases tp <;> rfl

lemma encode_steps (hop : op ≠ .none) (hlen : data.length < 2 ^ 63)
    (hacc : accepts last fin op = true) :
    (read tp.peer e').consumer.Steps
      ⟨{ buf := buf, last := last }, encode tp e op fin mask data ++ rest, ys⟩
      (after (ReadState.finish { buf := buf ++ data, last := last } fin op) rest ys) := by
  obtain ⟨f, rfl, rfl, rfl, hbytes⟩ := encode_eq tp e fin mask hop hlen
  rw [hbytes]
  exact frame_steps f hacc

lemma fragment_steps (hop : op ≠ .none) (hlen : data.length < 2 ^ 63)
    (hacc : accepts last false op = true) {d : Cursor ReadState UInt8 Received}
    (h : (read tp.peer e').consumer.Steps
      ⟨{ buf := buf ++ data, last := if op = .continuation then last else op }, rest, ys⟩ d) :
    (read tp.peer e').consumer.Steps
      ⟨{ buf := buf, last := last }, encode tp e op false mask data ++ rest, ys⟩ d := by
  have hys : ys ++ (none : Option Received).toList = ys := List.append_nil ys
  refine (encode_steps hop hlen hacc).trans ?_
  rw [ReadState.finish, if_neg (by simp), after, hys]
  exact h

lemma rest_steps {masks : ℕ → Key} {payloadMax : ℕ} {hmax : 0 < payloadMax} {i : ℕ}
    (hlast : last ≠ .none) (hlen : data.length < 2 ^ 63) :
    (read tp.peer e').consumer.Steps
      ⟨{ buf := buf, last := last }, encodeRest tp e masks payloadMax hmax i data ++ rest, ys⟩
      ⟨{}, rest, ys ++ [(last, buf ++ data)]⟩ := by
  have hacc : ∀ fin, accepts last fin .continuation = true := by
    intro fin
    simp [accepts, Opcode.isControl, Opcode.code, hlast]
  induction i, data using encodeRest.induct payloadMax hmax generalizing buf with
  | case1 i data hlt ih =>
    rw [encodeRest, if_pos hlt, List.append_assoc]
    refine fragment_steps (by simp) ((List.length_take_le _ _).trans_lt (by omega)) (hacc false) ?_
    have hsplit : buf ++ data = buf ++ data.take payloadMax ++ data.drop payloadMax := by
      rw [List.append_assoc, List.take_append_drop]
    rw [hsplit]
    refine ih ?_
    rw [List.length_drop]
    omega
  | case2 i data hge =>
    rw [encodeRest, if_neg hge]
    exact encode_steps (by simp) hlen (hacc true)

lemma write_steps (s : Sent) :
    (read tp.peer e').consumer.Steps
      ⟨{}, write tp e s.masks s.message ++ rest, ys⟩
      ⟨{}, rest, ys ++ [(s.message.op, s.message.payload)]⟩ := by
  obtain ⟨⟨op, payload, payloadMax⟩, masks, ⟨hcont, hnone⟩, hsmall⟩ := s
  simp only at hcont hnone hsmall
  have hwhole : (read tp.peer e').consumer.Steps
      ⟨{}, encode tp e op true (masks 0) payload ++ rest, ys⟩
      ⟨{}, rest, ys ++ [(op, payload)]⟩ := by
    have hacc : accepts .none true op = true := by simp [accepts, hcont]
    refine (encode_steps hnone hsmall hacc).trans ?_
    rw [ReadState.finish, if_pos rfl, if_neg hcont]
    exact .refl
  rw [write]
  cases payloadMax with
  | none => exact hwhole
  | some payloadMax =>
    obtain ⟨payloadMax, hmax⟩ := payloadMax
    by_cases hle : payload.length ≤ payloadMax ∨ op.isControl
    · simp only [if_pos hle]
      exact hwhole
    · simp only [if_neg hle]
      obtain ⟨hlt, hcontrol⟩ := not_or.mp hle
      have hacc : accepts .none false op = true := by simp [accepts, hcont, hcontrol]
      rw [List.append_assoc]
      refine fragment_steps hnone ((List.length_take_le _ _).trans_lt (by omega)) hacc ?_
      rw [if_neg hcont]
      have hsplit : payload = payload.take payloadMax ++ payload.drop payloadMax :=
        (List.take_append_drop _ _).symm
      nth_rewrite 3 [hsplit]
      refine rest_steps hnone ?_
      rw [List.length_drop]
      omega

lemma wire_steps (sent : List Sent) (ys : List Received) :
    (read tp.peer e').consumer.Steps ⟨{}, wire tp e sent, ys⟩
      ⟨{}, [], ys ++ sent.map fun s => (s.message.op, s.message.payload)⟩ := by
  induction sent generalizing ys with
  | nil =>
    rw [List.map_nil, List.append_nil]
    exact .refl
  | cons s sent ih =>
    have hnext := ih (ys ++ [(s.message.op, s.message.payload)])
    rw [List.append_assoc, List.singleton_append] at hnext
    rw [wire, List.flatMap_cons, List.map_cons]
    exact (write_steps s).trans hnext

/-- However the bytes are delivered, the reads at the other end return the messages one after
another, and then wait for the first byte of the next frame. -/
theorem round_trip (tp : Role) (e e' : Endian) (sent : List Sent) (schedule : List Event)
    (h : schedule.flatMap Event.data = wire tp e sent) :
    ((read tp.peer e').settle ((read tp.peer e').run {} schedule)).results =
        sent.map (fun s => (s.message.op, s.message.payload)) ∧
      ((read tp.peer e').settle ((read tp.peer e').run {} schedule)).socket.pending = [] ∧
      ((read tp.peer e').settle ((read tp.peer e').run {} schedule)).state = {} := by
  have hsteps : (read tp.peer e').consumer.Steps ⟨{}, wire tp e sent, []⟩ _ := wire_steps sent []
  rw [← h] at hsteps
  have hcursor := Program.settle_cursor hsteps rfl
  exact ⟨congrArg Cursor.yielded hcursor, congrArg Cursor.pending hcursor,
    congrArg Cursor.state hcursor⟩

def greeting : List Sent :=
  [⟨⟨.text, [72, 105, 33], some ⟨2, by decide⟩⟩, fun i j => UInt8.ofNat (i + j), by decide, by decide⟩,
    ⟨⟨.ping, [], none⟩, fun _ _ => 7, by decide, by decide⟩]

theorem round_trip_greeting :
    ((read .server .big).settle ((read .server .big).run {}
      [.handRead (fun _ => 0) ((wire .client .little greeting).take 3), .proceed,
        .handRead (fun _ => 0) ((wire .client .little greeting).drop 3)])).results =
      [(.text, [72, 105, 33]), (.ping, [])] :=
  (round_trip .client .little .big greeting _ (by simp [Event.data])).1

end Simple.Web.WebSocket
