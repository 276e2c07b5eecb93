import Simple.Gobang.Codec
import Simple.Web.WebSocketBuffer
import Simple.Web.WebSocketControl

/-! What `proxy::socket_start` forwards of the messages of a connection, all of which are read into
one buffer. -/

namespace Simple.Gobang.Proxy

open Simple.Lib Simple.Lib.Bytes Simple.Lib.Reader Simple.Lib.Cyclic Simple.Containers
open Simple.Web.WebSocket

structure WsHeader where
  flag : UInt8
  padding : List UInt8
  id : ℕ
  session : ℕ
deriving DecidableEq

def WsHeader.size : ℕ := 16

/-- `reinterpret_cast` of the bytes from `begin_read` on, whether they were received or not. -/
def header (e : Endian) (buf : MemoryBuffer) : WsHeader where
  flag := buf.data buf.read
  padding := readRange buf.data (buf.read + 1) 5
  id := e.load (readRange buf.data (buf.read + 6) 2)
  session := e.load (readRange buf.data (buf.read + 8) 8)

inductive Event
  | closed
  | pong (payload : List UInt8)
  | ignored
  | forward (id session : ℕ) (payload : List UInt8)
deriving DecidableEq

def handle (e : Endian) (op : Opcode) (buf : MemoryBuffer) : Event × MemoryBuffer :=
  if op = .close then (.closed, buf)
  else if op = .ping then (.pong buf.contents, buf)
  else if op.isControl then (.ignored, buf)
  else
    let header := header e buf
    let buf := buf.readBytes WsHeader.size
    (.forward header.id header.session buf.contents, buf)

structure Handled where
  op : Opcode
  bytes : List UInt8
  event : Event
deriving DecidableEq

def socketLoop (e : Endian) (s : Receiving) : List Arrival → List Handled
  | [] => []
  | a :: as =>
    match s.turn a with
    | .failed => []
    | .goesOn s => socketLoop e s as
    | .returned op buf =>
      let (event, after) := handle e op buf
      ⟨op, buf.contents, event⟩ ::
        if event = .closed then [] else socketLoop e (.start after) as

/-- The messages that are received in these frames, and what is done with each. -/
def socketStart (e : Endian) (as : List Arrival) : List Handled := socketLoop e (.start {}) as

/-- What is done with a message with data is the same wherever the same bytes are received. -/
def Isolated (e : Endian) (as : List Arrival) : Prop :=
  ∀ as', ∀ m ∈ socketStart e as, ∀ m' ∈ socketStart e as', ¬m.op.isControl → ¬m'.op.isControl →
    m.bytes = m'.bytes → m.event = m'.event

def Headed (as : List Arrival) : Prop :=
  ∀ m ∈ readAll [] .none (as.map Arrival.frame), ¬m.1.isControl → WsHeader.size ≤ m.2.length

variable {e : Endian} {s : Receiving} {a : Arrival} {as : List Arrival} {buf : MemoryBuffer}
  {op : Opcode} {m : Handled}

lemma socketLoop_returned (h : s.turn a = .returned op buf) : socketLoop e s (a :: as) =
    ⟨op, buf.contents, (handle e op buf).1⟩ ::
      if (handle e op buf).1 = .closed then [] else socketLoop e (.start (handle e op buf).2) as := by
  simp only [socketLoop, h]

lemma socketLoop_reads (as : List Arrival) (s : Receiving) (ys : List Received) :
    ∃ c, (read .server e).consumer.Steps
        ⟨{ buf := s.buf.contents, last := s.last },
          as.flatMap fun a => a.frame.bytes true, ys⟩ c ∧
      c.yielded = ys ++ (socketLoop e s as).map fun m => (m.op, m.bytes) := by
  induction as generalizing s ys with
  | nil => exact ⟨_, .refl, (List.append_nil ys).symm⟩
  | cons a as ih =>
    rw [List.flatMap_cons]
    have hturn : (s.turn a).Follows e
        ⟨{ buf := s.buf.contents, last := s.last },
          a.frame.bytes true ++ as.flatMap fun a => a.frame.bytes true, ys⟩
        (as.flatMap fun a => a.frame.bytes true) := turn_follows
    cases ht : s.turn a with
    | failed =>
      rw [ht] at hturn
      obtain ⟨rest, hsteps⟩ := hturn
      refine ⟨_, hsteps, ?_⟩
      simp [socketLoop, ht]
    | goesOn t =>
      rw [ht] at hturn
      obtain ⟨c, hsteps, hc⟩ := ih t ys
      refine ⟨c, Relation.ReflTransGen.trans hturn hsteps, ?_⟩
      simpa [socketLoop, ht] using hc
    | returned op buf =>
      rw [ht] at hturn
      by_cases hclosed : (handle e op buf).1 = .closed
      · refine ⟨_, hturn, ?_⟩
        simp [socketLoop_returned ht, hclosed]
      · obtain ⟨c, hsteps, hc⟩ := ih (.start (handle e op buf).2) (ys ++ [(op, buf.contents)])
        have hstart : ReadState.mk (Receiving.start (handle e op buf).2).buf.contents
            (Receiving.start (handle e op buf).2).last .opcode = {} := by
          simp [Receiving.start]
        rw [hstart] at hsteps
        refine ⟨c, Relation.ReflTransGen.trans hturn hsteps, ?_⟩
        simpa [socketLoop_returned ht, hclosed] using hc

lemma handle_closed : (handle e op buf).1 = .closed ↔ op = .close := by
  unfold handle
  split_ifs <;> simp [*]

lemma socketLoop_messages (as : List Arrival) (s : Receiving) :
    (socketLoop e s as).map (fun m => (m.op, m.bytes)) =
      readAll s.buf.contents s.last (as.map Arrival.frame) := by
  induction as generalizing s with
  | nil => rfl
  | cons a as ih =>
    rw [List.map_cons, readAll]
    obtain ⟨hacc, hturn⟩ | ⟨hacc, ⟨hfin, hturn⟩ | ⟨hfin, hturn⟩⟩ := turn_cases (s := s) (a := a)
    · simp only [socketLoop, hturn, hacc]
      rfl
    · rw [socketLoop_returned hturn, if_pos hacc, if_pos hfin]
      simp only [handle_closed, store_contents, List.map_cons, apply_ite (List.map _), List.map_nil, ih]
      simp [Receiving.start]
    · rw [if_pos hacc, hfin, if_neg (by decide)]
      simp only [socketLoop, hturn, ih, store_contents]

theorem socketStart_messages (e : Endian) (as : List Arrival) :
    (socketStart e as).map (fun m => (m.op, m.bytes)) =
      readAll [] .none (as.map Arrival.frame) := by
  rw [socketStart, socketLoop_messages]
  simp [Receiving.start]

/-- The bytes of the frames make `websocket::read` return the same messages. -/
theorem socketStart_reads (e : Endian) (as : List Arrival) :
    ∃ c, (read .server e).consumer.Steps ⟨{}, as.flatMap fun a => a.frame.bytes true, []⟩ c ∧
      c.yielded = (socketStart e as).map fun m => (m.op, m.bytes) := by
  obtain ⟨c, hsteps, hc⟩ := socketLoop_reads (e := e) as (.start {}) []
  refine ⟨c, ?_, hc⟩
  simpa [Receiving.start] using hsteps

lemma header_congr {buf buf' : MemoryBuffer} (h : buf.contents = buf'.contents)
    (hle : WsHeader.size ≤ buf.readable) : header e buf = header e buf' := by
  have hle' : WsHeader.size ≤ buf'.readable := by
    rw [← MemoryBuffer.contents_length, ← h, MemoryBuffer.contents_length]
    exact hle
  have hwindow : ∀ i n, i + n ≤ WsHeader.size →
      readRange buf.data (buf.read + i) n = readRange buf'.data (buf'.read + i) n := by
    intro i n hin
    rw [MemoryBuffer.readRange_contents (hin.trans hle),
      MemoryBuffer.readRange_contents (hin.trans hle'), h]
  have hflag : buf.data buf.read = buf'.data buf'.read := by
    simpa [readRange] using hwindow 0 1 (by decide)
  rw [header, header, hflag, hwindow 1 5 (by decide), hwindow 6 2 (by decide),
    hwindow 8 8 (by decide)]

lemma handle_data (hop : ¬op.isControl) : (handle e op buf).1 =
    .forward (header e buf).id (header e buf).session (buf.contents.drop WsHeader.size) := by
  have hclose : op ≠ .close := fun h => hop (h ▸ rfl)
  have hping : op ≠ .ping := fun h => hop (h ▸ rfl)
  rw [handle, if_neg hclose, if_neg hping, if_neg hop]
  simp only [MemoryBuffer.readBytes_contents]

/-- A message that `read` returns, as it lies in the buffer. -/
structure Returned (e : Endian) (m : Handled) (buf : MemoryBuffer) : Prop where
  bytes : m.bytes = buf.contents
  event : m.event = (handle e m.op buf).1
  op_ne : m.op ≠ .none ∧ m.op ≠ .continuation

lemma mem_socketLoop (hs : s.last ≠ .continuation) (hm : m ∈ socketLoop e s as) :
    ∃ buf, Returned e m buf := by
  induction as generalizing s with
  | nil => cases hm
  | cons a as ih =>
    have hlast : accepts s.last a.frame.fin a.frame.op = true →
        (if a.frame.op = .continuation then s.last else a.frame.op) ≠ .none ∧
          (if a.frame.op = .continuation then s.last else a.frame.op) ≠ .continuation := by
      intro hacc
      by_cases hop : a.frame.op = .continuation
      · rw [if_pos hop]
        refine ⟨fun hnone => ?_, hs⟩
        rw [hop, hnone] at hacc
        exact absurd hacc (by simp [accepts, Opcode.isControl, Opcode.code])
      · rw [if_neg hop]
        exact ⟨a.frame.op_ne, hop⟩
    obtain ⟨-, hturn⟩ | ⟨hacc, ⟨-, hturn⟩ | ⟨-, hturn⟩⟩ := turn_cases (s := s) (a := a)
    · simp [socketLoop, hturn] at hm
    · rw [socketLoop_returned hturn] at hm
      obtain rfl | hm := List.mem_cons.mp hm
      · exact ⟨_, rfl, rfl, hlast hacc⟩
      · by_cases hclosed : (handle e (if a.frame.op = .continuation then s.last else a.frame.op)
            (Receiving.store s.buf a)).1 = .closed
        · rw [if_pos hclosed] at hm
          cases hm
        · rw [if_neg hclosed] at hm
          exact ih (by simp [Receiving.start]) hm
    · simp only [socketLoop, hturn] at hm
      exact ih (hlast hacc).2 hm

lemma size_lt_bound : WsHeader.size < LengthForm.short.bound := by decide

def whole (op : Opcode) (bytes : List UInt8) (hop : op ≠ .none) (h : bytes.length ≤ WsHeader.size) :
    Arrival where
  frame :=
    { fin := true, op := op, payload := bytes, form := .short, mask := fun _ => 0, op_ne := hop,
      fits := h.trans_lt size_lt_bound }
  fresh := fun _ => 0

lemma whole_turn {bytes : List UInt8} {hop : op ≠ .none} {h : bytes.length ≤ WsHeader.size}
    (hdata : ¬op.isControl) (hcont : op ≠ .continuation) :
    (Receiving.start buf).turn (whole op bytes hop h) =
      .returned op (Receiving.store (buf.clear 0) (whole op bytes hop h)) := by
  have hacc : accepts .none true op = true := by simp [accepts, hdata, hcont]
  simp only [Receiving.turn, Receiving.start, whole, hacc, hcont, if_true, if_false]

lemma whole_data {bytes : List UInt8} {hop : op ≠ .none} {h : bytes.length ≤ WsHeader.size}
    (hroom : WsHeader.size ≤ buf.capacity) (k : ℕ) :
    (Receiving.store (buf.clear 0) (whole op bytes hop h)).capacity = buf.capacity ∧
      (Receiving.store (buf.clear 0) (whole op bytes hop h)).data k = bytes.getD k (buf.data k) := by
  have hfits : (whole op bytes hop h).frame.payload.length ≤ (buf.clear 0).writable := by
    simp only [whole, MemoryBuffer.writable, MemoryBuffer.clear]
    omega
  obtain ⟨hcapacity, hstored⟩ := store_fits hfits
  refine ⟨hcapacity, ?_⟩
  rw [hstored]
  simp [writeRange, MemoryBuffer.clear, whole]

lemma stale (c : UInt8) (bytes : List UInt8) (hop : op ≠ .none ∧ op ≠ .continuation)
    (hdata : ¬op.isControl) (hshort : bytes.length < WsHeader.size) :
    ∃ as, ∃ m ∈ socketStart e as, m.op = op ∧ m.bytes = bytes ∧ ∃ id session payload,
      m.event = .forward id session payload ∧ (e.store 8 session)[7]? = some c := by
  have hlen : (List.replicate WsHeader.size c).length ≤ WsHeader.size := by simp
  have hopen : ∀ buf, (handle e op buf).1 ≠ .closed := by
    intro buf hclosed
    rw [handle_data hdata] at hclosed
    cases hclosed
  let first := Receiving.store (MemoryBuffer.clear {} 0) (whole op _ hop.1 hlen)
  let left := (handle e op first).2
  let second := Receiving.store (left.clear 0) (whole op bytes hop.1 hshort.le)
  have hleft : left.capacity = first.capacity ∧ left.data = first.data := by
    simp only [left, handle]
    split_ifs <;> exact ⟨rfl, rfl⟩
  have hfirst : first.capacity = 1024 ∧ first.data 15 = c := whole_data (by decide) 15
  have hsecond : second.data 15 = c := by
    have hroom : WsHeader.size ≤ left.capacity := by
      rw [hleft.1, hfirst.1]
      decide
    have hshort' : bytes.length ≤ 15 := Nat.le_of_lt_succ hshort
    rw [(whole_data hroom 15).2, List.getD_eq_default _ _ hshort', hleft.2, hfirst.2]
  have hread : second.read = 0 := by
    rw [store_read]
    exact Nat.zero_min _
  have hcontents : second.contents = bytes := by
    rw [store_contents, MemoryBuffer.clear_contents, List.nil_append]
    rfl
  refine ⟨[whole op _ hop.1 hlen, whole op bytes hop.1 hshort.le],
    ⟨op, second.contents, (handle e op second).1⟩, ?_, rfl, hcontents, _, _, _,
    handle_data hdata, ?_⟩
  · rw [socketStart, socketLoop_returned (whole_turn hdata hop.2), if_neg (hopen _),
      socketLoop_returned (whole_turn hdata hop.2)]
    exact List.mem_cons_of_mem _ List.mem_cons_self
  · rw [header, Endian.store_load (readRange_length _ _), hread]
    simp [readRange, hsecond]

theorem isolated_iff_headed (e : Endian) (as : List Arrival) : Isolated e as ↔ Headed as := by
  constructor
  · intro h received hreceived hdata
    by_contra hshort
    rw [← socketStart_messages e, List.mem_map] at hreceived
    obtain ⟨m, hm, rfl⟩ := hreceived
    obtain ⟨buf, hreturned⟩ := mem_socketLoop (by simp [Receiving.start]) hm
    have hagree : ∀ c : UInt8, ∃ id session payload,
        m.event = .forward id session payload ∧ (e.store 8 session)[7]? = some c := by
      intro c
      obtain ⟨as', m', hm', hop, hbytes, hevent⟩ :=
        stale c m.bytes hreturned.op_ne hdata (Nat.lt_of_not_le hshort)
      rw [h as' m hm m' hm' hdata (hop ▸ hdata) hbytes.symm]
      exact hevent
    obtain ⟨id, session, payload, hevent, hzero⟩ := hagree 0
    obtain ⟨id', session', payload', hevent', hone⟩ := hagree 1
    rw [hevent, Event.forward.injEq] at hevent'
    rw [hevent'.2.1, hone] at hzero
    exact absurd hzero (by decide)
  · intro h as' m hm m' hm' hdata hdata' hbytes
    obtain ⟨buf, hreturned⟩ := mem_socketLoop (by simp [Receiving.start]) hm
    obtain ⟨buf', hreturned'⟩ := mem_socketLoop (by simp [Receiving.start]) hm'
    have hcontents : buf.contents = buf'.contents := by
      rw [← hreturned.bytes, hbytes, hreturned'.bytes]
    have hlong : WsHeader.size ≤ buf.readable := by
      rw [← MemoryBuffer.contents_length, ← hreturned.bytes]
      refine h (m.op, m.bytes) ?_ hdata
      rw [← socketStart_messages e]
      exact List.mem_map_of_mem hm
    rw [hreturned.event, hreturned'.event, handle_data hdata, handle_data hdata',
      header_congr hcontents hlong, hcontents]

def request (id session : UInt8) : Arrival :=
  whole .binary [0xe4, 0, 0, 0, 0, 0, id, 0, session, 0, 0, 0, 0, 0, 0, 0] (by decide) le_rfl

def empty : Arrival := whole .binary [] (by decide) (by decide)

/-- An empty message is forwarded with the header of the request before it. -/
theorem empty_forwarded : ¬Isolated .little [request 3 7, empty] := by
  intro h
  have hevent := h [request 4 8, empty] ⟨.binary, [], .forward 3 7 []⟩ (by decide)
    ⟨.binary, [], .forward 4 8 []⟩ (by decide) (by decide) (by decide) rfl
  exact absurd hevent (by decide)

end Simple.Gobang.Proxy
