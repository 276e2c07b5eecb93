import Simple.Containers.MemoryBuffer
import Simple.Web.WebSocketRead

/-! `websocket::read` with the buffer that all messages of a connection are read into. -/

namespace Simple.Web.WebSocket

open Simple.Lib Simple.Lib.Bytes Simple.Lib.Reader Simple.Lib.Cyclic Simple.Containers

/-- A frame, and what a larger store holds if one is needed for its payload. -/
structure Arrival where
  frame : Frame
  fresh : ℕ → UInt8

structure Receiving where
  buf : MemoryBuffer
  last : Opcode := .none

def readAll (bytes : List UInt8) (last : Opcode) : List Frame → List Received
  | [] => []
  | f :: fs =>
    if accepts last f.fin f.op then
      let bytes := bytes ++ f.payload
      let last := if f.op = .continuation then last else f.op
      if f.fin then (last, bytes) :: if last = .close then [] else readAll [] .none fs
      else readAll bytes last fs
    else []

inductive Turn
  | failed
  | goesOn (s : Receiving)
  | returned (op : Opcode) (buf : MemoryBuffer)

namespace Receiving

def start (buf : MemoryBuffer) : Receiving := { buf := buf.clear 0 }

def store (buf : MemoryBuffer) (a : Arrival) : MemoryBuffer :=
  if 0 < a.frame.payload.length then
    ((buf.makeSureWritable a.fresh a.frame.payload.length).poke a.frame.payload).written
      a.frame.payload.length
  else buf

def turn (s : Receiving) (a : Arrival) : Turn :=
  if accepts s.last a.frame.fin a.frame.op then
    let buf := store s.buf a
    let last := if a.frame.op = .continuation then s.last else a.frame.op
    if a.frame.fin then .returned last buf else .goesOn { buf := buf, last := last }
  else .failed

end Receiving

variable {s : Receiving} {a : Arrival} {buf : MemoryBuffer} {op : Opcode}

lemma store_contents : (Receiving.store buf a).contents = buf.contents ++ a.frame.payload := by
  unfold Receiving.store
  split
  · have hle : a.frame.payload.length ≤
        (buf.makeSureWritable a.fresh a.frame.payload.length).writable :=
      MemoryBuffer.le_makeSureWritable _
    rw [MemoryBuffer.poke_written le_rfl hle, List.take_length,
      MemoryBuffer.makeSureWritable_contents]
  · next hpos =>
    have hnil : a.frame.payload = [] := List.eq_nil_of_length_eq_zero (by omega)
    rw [hnil, List.append_nil]

lemma store_read : (Receiving.store buf a).read = buf.read := by
  unfold Receiving.store MemoryBuffer.makeSureWritable
  split_ifs <;> rfl

lemma store_fits (h : a.frame.payload.length ≤ buf.writable) :
    (Receiving.store buf a).capacity = buf.capacity ∧
      (Receiving.store buf a).data = writeRange buf.data buf.write a.frame.payload := by
  have hsame : buf.makeSureWritable a.fresh a.frame.payload.length = buf := dif_neg (by omega)
  unfold Receiving.store
  split
  · rw [hsame]
    exact ⟨rfl, rfl⟩
  · next hpos =>
    have hnil : a.frame.payload = [] := List.eq_nil_of_length_eq_zero (by omega)
    refine ⟨rfl, ?_⟩
    funext k
    simp [writeRange, hnil]

lemma turn_cases : (accepts s.last a.frame.fin a.frame.op = false ∧ s.turn a = .failed) ∨
    (accepts s.last a.frame.fin a.frame.op = true ∧
      ((a.frame.fin = true ∧ s.turn a = .returned
          (if a.frame.op = .continuation then s.last else a.frame.op) (Receiving.store s.buf a)) ∨
        (a.frame.fin = false ∧ s.turn a = .goesOn
          ⟨Receiving.store s.buf a, if a.frame.op = .continuation then s.last else a.frame.op⟩))) := by
  unfold Receiving.turn
  cases hacc : accepts s.last a.frame.fin a.frame.op with
  | false => exact .inl ⟨rfl, if_neg (by decide)⟩
  | true =>
    cases hfin : a.frame.fin with
    | true => exact .inr ⟨rfl, .inl ⟨rfl, by simp⟩⟩
    | false => exact .inr ⟨rfl, .inr ⟨rfl, by simp⟩⟩

/-- What `read` does with the bytes of the frame. -/
def Turn.Follows (e : Endian) (c : Cursor ReadState UInt8 Received) (rest : List UInt8) : Turn → Prop
  | .failed => ∃ rest', (read .server e).consumer.Steps c
      ⟨{ c.state with position := .failed .readFail }, rest', c.yielded⟩
  | .goesOn s => (read .server e).consumer.Steps c
      ⟨{ buf := s.buf.contents, last := s.last }, rest, c.yielded⟩
  | .returned op buf => (read .server e).consumer.Steps c
      ⟨{}, rest, c.yielded ++ [(op, buf.contents)]⟩

lemma turn_follows {e : Endian} {rest : List UInt8} {ys : List Received} :
    (s.turn a).Follows e
      ⟨{ buf := s.buf.contents, last := s.last }, a.frame.bytes true ++ rest, ys⟩ rest := by
  have hframe (hacc : accepts s.last a.frame.fin a.frame.op = true) :
      (read .server e).consumer.Steps
        ⟨{ buf := s.buf.contents, last := s.last }, a.frame.bytes true ++ rest, ys⟩
        (after (ReadState.finish { buf := s.buf.contents ++ a.frame.payload, last := s.last }
          a.frame.fin a.frame.op) rest ys) := frame_steps a.frame hacc
  obtain ⟨hacc, hturn⟩ | ⟨hacc, ⟨hfin, hturn⟩ | ⟨hfin, hturn⟩⟩ := turn_cases (s := s) (a := a)
  · rw [hturn]
    exact ⟨_, frame_refused a.frame hacc⟩
  · have hsteps := hframe hacc
    rw [hfin, ReadState.finish, if_pos rfl, after] at hsteps
    rw [hturn, Turn.Follows, store_contents]
    exact hsteps
  · have hsteps := hframe hacc
    rw [hfin, ReadState.finish, if_neg (by decide), after] at hsteps
    rw [hturn, Turn.Follows, store_contents]
    simpa using hsteps

end Simple.Web.WebSocket
