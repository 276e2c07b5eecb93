import Simple.Coro.NetworkProcess
import Simple.Web.WebSocket

/-! `websocket::read`, called again for each message. -/

namespace Simple.Web.WebSocket

open Simple.Lib Simple.Lib.Bytes Simple.Lib.Reader Simple.Coro.Network

inductive Failure
  | recvEof
  | readFail
  | network (outcome : Outcome)

def Failure.what : Failure → Option String
  | .recvEof => some "recv eof"
  | .readFail => some "websocket read fail"
  | .network _ => none

inductive Position
  | opcode
  | length (fin : Bool) (op : Opcode)
  | length16 (fin : Bool) (op : Opcode) (mask : Bool)
  | length64 (fin : Bool) (op : Opcode) (mask : Bool)
  | maskingKey (fin : Bool) (op : Opcode) (payloadLen : ℕ)
  | payload (fin : Bool) (op : Opcode) (mask : Option Key) (payloadLen : ℕ) (pos : 0 < payloadLen)
  | failed (e : Failure)

structure ReadState where
  buf : List UInt8 := []
  last : Opcode := .none
  position : Position := .opcode

abbrev Received := Opcode × List UInt8

namespace ReadState

def call (s : ReadState) : Option Call :=
  match s.position with
  | .opcode => some (.readSize 1)
  | .length _ _ => some (.readSize 1)
  | .length16 _ _ _ => some (.readSize 2)
  | .length64 _ _ _ => some (.readSize 8)
  | .maskingKey _ _ _ => some (.readSize 4)
  | .payload _ _ _ payloadLen _ => some (.readSize payloadLen)
  | .failed _ => none

def goTo (s : ReadState) (position : Position) : ReadState × Option Received :=
  ({ s with position := position }, none)

def finish (s : ReadState) (fin : Bool) (op : Opcode) : ReadState × Option Received :=
  if fin then ({}, some (if op = .continuation then s.last else op, s.buf))
  else
    ({ s with last := if op = .continuation then s.last else op, position := .opcode }, none)

def readPayload (s : ReadState) (fin : Bool) (op : Opcode) (mask : Option Key) (payloadLen : ℕ) :
    ReadState × Option Received :=
  if pos : 0 < payloadLen then s.goTo (.payload fin op mask payloadLen pos) else s.finish fin op

def readKey (s : ReadState) (fin : Bool) (op : Opcode) (mask : Bool) (payloadLen : ℕ) :
    ReadState × Option Received :=
  if mask then s.goTo (.maskingKey fin op payloadLen) else s.readPayload fin op none payloadLen

variable (tp : Role) (e : Endian)

def take (s : ReadState) (bytes : List UInt8) : ReadState × Option Received :=
  match s.position with
  | .opcode =>
    let val := bytes.headD 0
    let fin := val &&& 0x80 != 0
    let op := Opcode.ofCode (val &&& 0x0F)
    if op.isControl then
      if !fin then s.goTo (.failed .readFail) else s.goTo (.length fin op)
    else if (op == .continuation) == (s.last == .none) then s.goTo (.failed .readFail)
    else s.goTo (.length fin op)
  | .length fin op =>
    let val := bytes.headD 0
    let mask := val &&& 0x80 != 0
    if mask != (tp == .server) then s.goTo (.failed .readFail)
    else
      let len := (val &&& 0x7F).toNat
      if len < 0x7E then s.readKey fin op mask len
      else if len = 0x7E then s.goTo (.length16 fin op mask)
      else s.goTo (.length64 fin op mask)
  | .length16 fin op mask => s.readKey fin op mask (e.ntoh 2 (e.load bytes))
  | .length64 fin op mask => s.readKey fin op mask (e.wsNtohll (e.load bytes))
  | .maskingKey fin op payloadLen =>
    s.readPayload fin op (some fun i => bytes.getD i 0) payloadLen
  | .payload fin op mask _ _ =>
    let data := mask.elim bytes (umask bytes)
    finish { s with buf := s.buf ++ data } fin op
  | .failed f => s.goTo (.failed f)

def resume (s : ReadState) : Outcome → ReadState × Option Received
  | .bytes [] => s.goTo (.failed .recvEof)
  | .bytes xs => s.take tp e xs
  | .eof => s.goTo (.failed .recvEof)
  | o => s.goTo (.failed (.network o))

end ReadState

def read (tp : Role) (e : Endian) : Program ReadState Received where
  call := ReadState.call
  resume := ReadState.resume tp e
  exact := by
    rintro ⟨buf, last, position⟩ c h
    cases position with
    | failed f => cases h
    | payload fin op mask payloadLen pos =>
      obtain rfl := Option.some.inj h
      exact pos
    | _ =>
      obtain rfl := Option.some.inj h
      exact Nat.zero_lt_succ _

inductive LengthForm
  | short
  | medium
  | long

def LengthForm.bound : LengthForm → ℕ
  | .short => 0x7E
  | .medium => 2 ^ 16
  | .long => 2 ^ 64

structure Frame where
  fin : Bool
  rsv : Fin 8 := 0
  op : Opcode
  payload : List UInt8
  form : LengthForm
  mask : Key
  op_ne : op ≠ .none
  fits : payload.length < form.bound

namespace Frame

variable (f : Frame) (masked : Bool)

def first : UInt8 := (if f.fin then 0x80 else 0) ||| UInt8.ofNat (f.rsv * 16) ||| f.op.code

def lengthBytes : List UInt8 :=
  let mask : UInt8 := if masked then 0x80 else 0
  match f.form with
  | .short => [mask ||| UInt8.ofNat f.payload.length]
  | .medium => (mask ||| 0x7E) :: toBe 2 f.payload.length
  | .long => (mask ||| 0x7F) :: toBe 8 f.payload.length

def body : List UInt8 :=
  if masked then List.ofFn f.mask ++ umask f.payload f.mask else f.payload

def bytes : List UInt8 := f.first :: (f.lengthBytes masked ++ f.body masked)

end Frame

lemma first_fin (f : Frame) : (f.first &&& 0x80 != 0) = f.fin := by
  have h : ∀ (fin : Bool) (rsv : Fin 8) (op : Opcode), (((if fin then 0x80 else 0 : UInt8) |||
      UInt8.ofNat (rsv * 16) ||| op.code) &&& 0x80 != 0) = fin := by
    intro fin rsv op
    cases op <;> revert fin rsv <;> decide
  exact h f.fin f.rsv f.op

lemma first_op (f : Frame) : Opcode.ofCode (f.first &&& 0x0F) = f.op := by
  have h : ∀ (fin : Bool) (rsv : Fin 8) (op : Opcode), op ≠ .none →
      Opcode.ofCode (((if fin then 0x80 else 0 : UInt8) ||| UInt8.ofNat (rsv * 16) ||| op.code) &&&
        0x0F) = op := by
    intro fin rsv op hop
    cases op <;> first | exact absurd rfl hop | (revert fin rsv; decide)
  exact h f.fin f.rsv f.op f.op_ne

lemma second_mask (masked : Bool) (n : Fin 128) :
    (((if masked then 0x80 else 0 : UInt8) ||| UInt8.ofNat n) &&& 0x80 != 0) = masked := by
  revert masked n
  decide

lemma second_length (masked : Bool) (n : Fin 128) :
    (((if masked then 0x80 else 0 : UInt8) ||| UInt8.ofNat n) &&& 0x7F).toNat = n := by
  revert masked n
  decide

def after (r : ReadState × Option Received) (pending : List UInt8) (ys : List Received) :
    Cursor ReadState UInt8 Received :=
  ⟨r.1, pending, ys ++ r.2.toList⟩

@[simp] lemma after_goTo {s : ReadState} {p : Position} {pending : List UInt8}
    {ys : List Received} : after (s.goTo p) pending ys = ⟨{ s with position := p }, pending, ys⟩ := by
  simp [after, ReadState.goTo]

section Steps

variable {tp : Role} {e : Endian} {s : ReadState} {fin : Bool} {op last : Opcode}
  {bytes buf data rest : List UInt8} {ys : List Received} {d : Cursor ReadState UInt8 Received}

lemma read_step (hc : s.call = some (.readSize bytes.length)) (hpos : bytes ≠ [])
    (h : (read tp e).consumer.Steps (after (s.take tp e bytes) rest ys) d) :
    (read tp e).consumer.Steps ⟨s, bytes ++ rest, ys⟩ d := by
  obtain ⟨b, bytes, rfl⟩ := List.exists_cons_of_ne_nil hpos
  refine .head (Consumer.step_append ?_ rfl) h
  simp [Program.consumer, read, hc, Call.cut]

lemma first_step {b : UInt8} (hc : s.call = some (.readSize 1))
    (h : (read tp e).consumer.Steps (after (s.take tp e [b]) rest ys) d) :
    (read tp e).consumer.Steps ⟨s, b :: rest, ys⟩ d :=
  read_step hc (List.cons_ne_nil b []) h

lemma payload_steps (key : Option Key) :
    (read tp e).consumer.Steps (after (s.readPayload fin op key data.length) (data ++ rest) ys)
      (after (ReadState.finish { s with buf := s.buf ++ key.elim data (umask data) } fin op)
        rest ys) := by
  rw [ReadState.readPayload]
  by_cases hpos : 0 < data.length
  · rw [dif_pos hpos, after_goTo]
    exact read_step rfl (List.length_pos_iff.mp hpos) .refl
  · have hnil : data = [] := List.eq_nil_of_length_eq_zero (by omega)
    subst hnil
    have hbuf : key.elim [] (umask []) = [] := by cases key <;> rfl
    rw [dif_neg hpos, hbuf, List.append_nil, List.nil_append]
    exact .refl

lemma masked_steps (key : Key) :
    (read tp e).consumer.Steps
      (after (s.readPayload fin op (some key) data.length) (umask data key ++ rest) ys)
      (after (ReadState.finish { s with buf := s.buf ++ data } fin op) rest ys) := by
  have h : (read tp e).consumer.Steps
      (after (s.readPayload fin op (some key) (umask data key).length) (umask data key ++ rest) ys)
      _ := payload_steps (some key)
  rwa [umask_length, Option.elim_some, umask_umask] at h

lemma key_steps (masked : Bool) (key : Key) :
    (read tp e).consumer.Steps
      (after (s.readKey fin op masked data.length)
        ((if masked then List.ofFn key ++ umask data key else data) ++ rest) ys)
      (after (ReadState.finish { s with buf := s.buf ++ data } fin op) rest ys) := by
  cases masked with
  | false => exact payload_steps none
  | true =>
    have hkey : (fun i : Fin 4 => (List.ofFn key).getD i 0) = key := by
      funext i
      rw [List.getD_eq_getElem _ _ (by simp), List.getElem_ofFn]
    rw [if_pos rfl, List.append_assoc, ReadState.readKey, if_pos rfl, after_goTo]
    refine read_step (by simp [ReadState.call]) (by simp) ?_
    rw [ReadState.take, hkey]
    exact masked_steps key

lemma take_length {n : ℕ} (hn : n < 128) :
    ReadState.take tp e { s with position := .length fin op }
      [(if tp == .server then 0x80 else 0) ||| UInt8.ofNat n] =
        if n < 0x7E then s.readKey fin op (tp == .server) n
        else if n = 0x7E then s.goTo (.length16 fin op (tp == .server))
        else s.goTo (.length64 fin op (tp == .server)) := by
  have hmask := second_mask (tp == .server) ⟨n, hn⟩
  have hlen := second_length (tp == .server) ⟨n, hn⟩
  simp only [ReadState.take, List.headD_cons, hmask, hlen, bne_self_eq_false, Bool.false_eq_true,
    if_false]
  rfl

lemma length_steps (f : Frame) :
    (read tp e).consumer.Steps
      ⟨{ s with position := .length fin op },
        f.lengthBytes (tp == .server) ++ (f.body (tp == .server) ++ rest), ys⟩
      (after (ReadState.finish { s with buf := s.buf ++ f.payload } fin op) rest ys) := by
  have hfits := f.fits
  rw [Frame.lengthBytes, Frame.body]
  cases hf : f.form with
  | short =>
    rw [hf, LengthForm.bound] at hfits
    refine read_step rfl (by simp) ?_
    rw [take_length (by omega), if_pos hfits]
    exact key_steps _ f.mask
  | medium =>
    rw [hf, LengthForm.bound] at hfits
    have hvalue : e.ntoh 2 (e.load (toBe 2 f.payload.length)) = f.payload.length := by
      rw [Endian.ntoh_load (toBe_length _ _), ofBe_toBe, Nat.mod_eq_of_lt (by simpa using hfits)]
    have hfirst : ReadState.take tp e { s with position := .length fin op }
        [(if tp == .server then 0x80 else 0) ||| 0x7E] =
          s.goTo (.length16 fin op (tp == .server)) := take_length (n := 0x7E) (by omega)
    refine first_step rfl ?_
    rw [hfirst, after_goTo]
    refine read_step (by simp [ReadState.call]) (List.ne_nil_of_length_pos (by simp)) ?_
    rw [ReadState.take, hvalue]
    exact key_steps _ f.mask
  | long =>
    rw [hf, LengthForm.bound] at hfits
    have hvalue : e.wsNtohll (e.load (toBe 8 f.payload.length)) = f.payload.length := by
      rw [Endian.wsNtohll_load (toBe_length _ _), ofBe_toBe, Nat.mod_eq_of_lt (by simpa using hfits)]
    have hfirst : ReadState.take tp e { s with position := .length fin op }
        [(if tp == .server then 0x80 else 0) ||| 0x7F] =
          s.goTo (.length64 fin op (tp == .server)) := take_length (n := 0x7F) (by omega)
    refine first_step rfl ?_
    rw [hfirst, after_goTo]
    refine read_step (by simp [ReadState.call]) (List.ne_nil_of_length_pos (by simp)) ?_
    rw [ReadState.take, hvalue]
    exact key_steps _ f.mask

def accepts (last : Opcode) (fin : Bool) (op : Opcode) : Bool :=
  if op.isControl then fin else (op == .continuation) != (last == .none)

lemma take_first (f : Frame) :
    ReadState.take tp e { buf := buf, last := last } [f.first] =
      ReadState.goTo { buf := buf, last := last }
        (if accepts last f.fin f.op then .length f.fin f.op else .failed .readFail) := by
  simp only [ReadState.take, List.headD_cons, first_fin, first_op, accepts]
  by_cases hc : f.op.isControl
  · simp only [if_pos hc]
    by_cases hf : f.fin <;> simp [hf]
  · simp only [if_neg hc]
    by_cases ho : f.op = .continuation <;> by_cases hl : last = .none <;> simp [ho, hl]

lemma frame_steps (f : Frame) (h : accepts last f.fin f.op = true) :
    (read tp e).consumer.Steps ⟨{ buf := buf, last := last }, f.bytes (tp == .server) ++ rest, ys⟩
      (after (ReadState.finish { buf := buf ++ f.payload, last := last } f.fin f.op) rest ys) := by
  rw [Frame.bytes, List.cons_append, List.append_assoc]
  refine first_step rfl ?_
  rw [take_first, if_pos h, after_goTo]
  exact length_steps (s := { buf := buf, last := last }) f

lemma frame_refused (f : Frame) (h : accepts last f.fin f.op = false) :
    (read tp e).consumer.Steps ⟨{ buf := buf, last := last }, f.bytes (tp == .server) ++ rest, ys⟩
      ⟨{ buf := buf, last := last, position := .failed .readFail },
        f.lengthBytes (tp == .server) ++ (f.body (tp == .server) ++ rest), ys⟩ := by
  rw [Frame.bytes, List.cons_append, List.append_assoc]
  refine first_step rfl ?_
  rw [take_first, if_neg (by simp [h]), after_goTo]
  exact .refl

end Steps

end Simple.Web.WebSocket
