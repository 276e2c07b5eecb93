import Simple.Lib.Bytes

/-! WebSocket frames: the byte order of their lengths, the masking, and the two writers. -/

namespace Simple.Web.WebSocket

open Simple.Lib.Bytes

/-- Where the most significant byte of a number stands in memory. -/
inductive Endian
  | little
  | big

namespace Endian

def store : Endian → ℕ → ℕ → List UInt8
  | .little => toLe
  | .big => toBe

def load : Endian → List UInt8 → ℕ
  | .little => ofLe
  | .big => ofBe

def isBig : Endian → Bool
  | .little => false
  | .big => true

variable (e : Endian)

/-- `htons`, `htonl`: the number that lies in memory with its most significant byte first. -/
def hton (width n : ℕ) : ℕ := e.load (toBe width n)

def ntoh (width n : ℕ) : ℕ := ofBe (e.store width n)

def wsHtonll (val : ℕ) : ℕ :=
  let memory := e.store 8 val
  let low := e.hton 4 (e.load (memory.drop 4))
  let high := e.hton 4 (e.load (memory.take 4))
  if !e.isBig then e.load (e.store 4 low ++ e.store 4 high)
  else e.load (e.store 4 high ++ e.store 4 low)

def wsNtohll (val : ℕ) : ℕ :=
  let memory := e.store 8 val
  let low := e.ntoh 4 (e.load (memory.drop 4))
  let high := e.ntoh 4 (e.load (memory.take 4))
  if !e.isBig then e.load (e.store 4 low ++ e.store 4 high)
  else e.load (e.store 4 high ++ e.store 4 low)

variable {e}

@[simp] lemma store_length (width n : ℕ) : (e.store width n).length = width := by
  cases e <;> simp [store]

lemma store_load {bytes : List UInt8} {width : ℕ} (h : bytes.length = width) :
    e.store width (e.load bytes) = bytes := by
  subst h
  cases e with
  | little => exact toLe_ofLe bytes
  | big => exact toBe_ofBe bytes

lemma store_hton (width n : ℕ) : e.store width (e.hton width n) = toBe width n :=
  store_load (toBe_length width n)

lemma ntoh_load {bytes : List UInt8} {width : ℕ} (h : bytes.length = width) :
    e.ntoh width (e.load bytes) = ofBe bytes := by
  rw [ntoh, store_load h]

lemma store_wsHtonll (n : ℕ) : e.store 8 (e.wsHtonll n) = toBe 8 n := by
  have hfirst : ((e.store 8 n).take 4).length = 4 := by simp
  have hlast : ((e.store 8 n).drop 4).length = 4 := by simp
  have hsplit : e.store 8 n = (e.store 8 n).take 4 ++ (e.store 8 n).drop 4 :=
    (List.take_append_drop 4 _).symm
  have hword {bytes : List UInt8} (h : bytes.length = 4) :
      e.store 4 (e.hton 4 (e.load bytes)) = toBe 4 (e.load bytes) := store_hton _ _
  cases e with
  | little =>
    have hrev {bytes : List UInt8} (h : bytes.length = 4) :
        toBe 4 (Endian.little.load bytes) = bytes.reverse := by
      rw [toBe, ← h]
      exact congrArg List.reverse (toLe_ofLe bytes)
    simp only [wsHtonll, isBig, Bool.not_false, if_true, hword hfirst, hword hlast, hrev hfirst,
      hrev hlast, ← List.reverse_append, List.take_append_drop]
    rw [store_load (by simp)]
    rfl
  | big =>
    have hsame {bytes : List UInt8} (h : bytes.length = 4) :
        toBe 4 (Endian.big.load bytes) = bytes := by
      rw [← h]
      exact toBe_ofBe bytes
    simp only [wsHtonll, isBig, Bool.not_true, Bool.false_eq_true, if_false, hword hfirst,
      hword hlast, hsame hfirst, hsame hlast, List.take_append_drop]
    rw [store_load (by simp)]
    rfl

lemma wsNtohll_load {bytes : List UInt8} (h : bytes.length = 8) :
    e.wsNtohll (e.load bytes) = ofBe bytes := by
  have hfirst : (bytes.take 4).length = 4 := by simp [h]
  have hlast : (bytes.drop 4).length = 4 := by simp [h]
  cases e with
  | little =>
    have hrev {bytes : List UInt8} (h : bytes.length = 4) :
        Endian.little.store 4 (ofBe bytes) = bytes.reverse := by
      have := toLe_ofLe bytes.reverse
      rwa [List.length_reverse, h] at this
    simp only [wsNtohll, isBig, Bool.not_false, if_true, store_load h, ntoh_load hfirst,
      ntoh_load hlast, hrev hfirst, hrev hlast, ← List.reverse_append, List.take_append_drop]
    rfl
  | big =>
    have hsame {bytes : List UInt8} (h : bytes.length = 4) :
        Endian.big.store 4 (ofBe bytes) = bytes := by
      rw [← h]
      exact toBe_ofBe bytes
    simp only [wsNtohll, isBig, Bool.not_true, Bool.false_eq_true, if_false, store_load h,
      ntoh_load hfirst, ntoh_load hlast, hsame hfirst, hsame hlast, List.take_append_drop]
    rfl

end Endian

inductive Opcode
  | continuation | text | binary | rsv3 | rsv4 | rsv5 | rsv6 | rsv7
  | close | ping | pong | controlRsvB | controlRsvC | controlRsvD | controlRsvE | controlRsvF
  | none
  deriving DecidableEq

namespace Opcode

def code : Opcode → UInt8
  | continuation => 0x0 | text => 0x1 | binary => 0x2 | rsv3 => 0x3
  | rsv4 => 0x4 | rsv5 => 0x5 | rsv6 => 0x6 | rsv7 => 0x7
  | close => 0x8 | ping => 0x9 | pong => 0xA | controlRsvB => 0xB
  | controlRsvC => 0xC | controlRsvD => 0xD | controlRsvE => 0xE | controlRsvF => 0xF
  | none => 0x10

/-- `static_cast<websocket_opcode>` of a byte below 0x11. -/
def ofCode (c : UInt8) : Opcode :=
  [continuation, text, binary, rsv3, rsv4, rsv5, rsv6, rsv7, close, ping, pong, controlRsvB,
    controlRsvC, controlRsvD, controlRsvE, controlRsvF].getD c.toNat none

def isControl (op : Opcode) : Bool := 0x8 ≤ op.code

end Opcode

inductive Role
  | client
  | server
  deriving DecidableEq

def Role.peer : Role → Role
  | .client => .server
  | .server => .client

abbrev Key := Fin 4 → UInt8

def umask (data : List UInt8) (mask : Key) : List UInt8 :=
  data.mapIdx fun i b => b ^^^ mask (Fin.ofNat 4 i)

@[simp] lemma umask_length (data : List UInt8) (mask : Key) :
    (umask data mask).length = data.length := by simp [umask]

lemma umask_umask (data : List UInt8) (mask : Key) : umask (umask data mask) mask = data := by
  apply List.ext_getElem
  · simp
  · intro i hi hi'
    simp only [umask, List.getElem_mapIdx, UInt8.xor_assoc, UInt8.xor_self, UInt8.xor_zero]

section Write

variable (tp : Role) (e : Endian)

def encodeHeader (op : Opcode) (size : ℕ) (fin : Bool) : List UInt8 :=
  let first : UInt8 := if fin then 0x80 else 0
  let mask : UInt8 := if tp = .client then 0x80 else 0
  (first ||| op.code) ::
    if size < 0x7E then [mask ||| UInt8.ofNat size]
    else if size ≤ 0xFFFF then (mask ||| 0x7E) :: e.store 2 (e.hton 2 (size % 2 ^ 16))
    else (mask ||| 0x7F) :: e.store 8 (e.wsHtonll size)

def encodeBody (mask : Key) (data : List UInt8) : List UInt8 :=
  if tp = .client then List.ofFn mask ++ umask data mask else data

def encode (op : Opcode) (fin : Bool) (mask : Key) (data : List UInt8) : List UInt8 :=
  encodeHeader tp e op data.length fin ++ encodeBody tp mask data

/-- The frames behind the first: the loop of `websocket::write` and what follows it. The `i`-th
frame draws the masking key `masks i`. -/
def encodeRest (masks : ℕ → Key) (payloadMax : ℕ) (hmax : 0 < payloadMax) (i : ℕ)
    (data : List UInt8) : List UInt8 :=
  if payloadMax < data.length then
    encode tp e .continuation false (masks i) (data.take payloadMax) ++
      encodeRest masks payloadMax hmax (i + 1) (data.drop payloadMax)
  else encode tp e .continuation true (masks i) data
termination_by data.length
decreasing_by
  rw [List.length_drop]
  omega

/-- A message as it is given to one of the two overloads of `websocket::write`. -/
structure Message where
  op : Opcode
  payload : List UInt8
  payloadMax : Option {n : ℕ // 0 < n} := none

def write (masks : ℕ → Key) (m : Message) : List UInt8 :=
  match m.payloadMax with
  | none => encode tp e m.op true (masks 0) m.payload
  | some ⟨payloadMax, hmax⟩ =>
    if m.payload.length ≤ payloadMax ∨ m.op.isControl then
      encode tp e m.op true (masks 0) m.payload
    else
      encode tp e m.op false (masks 0) (m.payload.take payloadMax) ++
        encodeRest tp e masks payloadMax hmax 1 (m.payload.drop payloadMax)

end Write

end Simple.Web.WebSocket
