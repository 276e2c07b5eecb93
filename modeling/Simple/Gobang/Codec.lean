import Simple.Containers.MemoryBuffer
import Simple.Lib.Bytes
import Simple.Lib.Reader

/-! Frames on a TCP connection: the two encoders, the receiving loop, and when they agree. -/

namespace Simple.Gobang

open Simple.Lib Simple.Lib.Bytes Simple.Lib.Cyclic Simple.Containers

structure NetHeader where
  flag : UInt8
  len : Fin (2 ^ 24)
  id : UInt16
  padding : UInt16
  session : UInt64

def flagValid : UInt8 := 0xe4

def idGateForwardBrd : UInt16 := 0x6005

namespace NetHeader

def bytes (h : NetHeader) : List UInt8 :=
  h.flag :: toLe 3 h.len ++ toLe 2 h.id.toNat ++ toLe 2 h.padding.toNat ++ toLe 8 h.session.toNat

def ofBytes (bytes : List UInt8) : NetHeader where
  flag := bytes.headD 0
  len := Fin.ofNat _ (ofLe ((bytes.drop 1).take 3))
  id := UInt16.ofNat (ofLe ((bytes.drop 4).take 2))
  padding := UInt16.ofNat (ofLe ((bytes.drop 6).take 2))
  session := UInt64.ofNat (ofLe ((bytes.drop 8).take 8))

def valid (h : NetHeader) : Bool := h.flag == flagValid

end NetHeader

/-- A message is its serialised form; `SerializePartialToArray` leaves the array alone
when the message does not fit. -/
def serializePartialToArray (msg : List UInt8) (size : ℕ) : List UInt8 :=
  if msg.length ≤ 2 ^ 31 - 1 ∧ msg.length ≤ size then msg else []

def createNetBuffer (id : UInt16) (session : UInt64) (msg : List UInt8) (fresh : ℕ → UInt8) :
    MemoryBuffer :=
  let header : NetHeader := ⟨flagValid, Fin.ofNat _ (msg.length % 2 ^ 32), id, 0, session⟩
  let buf : MemoryBuffer := {}
  let buf := buf.reserve fresh (header.len + 16)
  let buf := buf.append fresh header.bytes
  let buf := buf.poke (serializePartialToArray msg buf.writable)
  buf.written header.len

def remoteServiceWrite (message : List UInt8) (fresh : ℕ → UInt8) : MemoryBuffer :=
  let header : NetHeader :=
    ⟨flagValid, Fin.ofNat _ (message.length % 2 ^ 32), idGateForwardBrd, 0, 0⟩
  let buf : MemoryBuffer := {}
  let buf := buf.reserve fresh (header.len + 16)
  let buf := buf.append fresh header.bytes
  buf.append fresh message

inductive RecvError
  | eof
  | flag (f : UInt8)
  | len (n : ℕ)

def RecvError.what : RecvError → String
  | .eof => "recv eof"
  | .flag f => "header flag:" ++ toString f.toNat ++ " is invalid"
  | .len n => "header len:" ++ toString n ++ " > msg_len_limit"

structure Frame where
  id : UInt16
  session : UInt64
  payload : List UInt8

/-- Where the loop of `recv_net_buffer` stands in `network::read_size`. -/
inductive RecvState
  | header
  | body (h : NetHeader) (pos : 0 < h.len.val)
  | failed (e : RecvError)

def msgLenLimit : ℕ := 1024 * 1024 * 10

namespace RecvState

def need : RecvState → Option ℕ
  | .header => some 16
  | .body h _ => some h.len
  | .failed _ => none

def take : RecvState → List UInt8 → RecvState × Option Frame
  | .header, bytes =>
    let h := NetHeader.ofBytes bytes
    if !h.valid then (.failed (.flag h.flag), none)
    else if msgLenLimit < h.len.val then (.failed (.len h.len), none)
    else if pos : 0 < h.len.val then (.body h pos, none)
    else (.header, some ⟨h.id, h.session, []⟩)
  | .body h _, bytes => (.header, some ⟨h.id, h.session, bytes⟩)
  | .failed e, _ => (.failed e, none)

def stop : RecvState → RecvState
  | .failed e => .failed e
  | _ => .failed .eof

end RecvState

def recvNetBuffer : Reader RecvState UInt8 Frame where
  need := RecvState.need
  take := RecvState.take
  need_pos := by
    intro s n hn
    cases s with
    | header => cases hn; norm_num
    | body h pos => cases hn; exact pos
    | failed e => cases hn

inductive Packet
  | net (id : UInt16) (session : UInt64) (msg : List UInt8) (fresh : ℕ → UInt8)
  | forward (message : List UInt8) (fresh : ℕ → UInt8)

namespace Packet

def payload : Packet → List UInt8
  | .net _ _ msg _ => msg
  | .forward message _ => message

def frame : Packet → Frame
  | .net id session msg _ => ⟨id, session, msg⟩
  | .forward message _ => ⟨idGateForwardBrd, 0, message⟩

def wire : Packet → List UInt8
  | .net id session msg fresh => (createNetBuffer id session msg fresh).contents
  | .forward message fresh => (remoteServiceWrite message fresh).contents

def accepted (p : Packet) : Bool := p.payload.length % 2 ^ 24 ≤ msgLenLimit

end Packet

lemma NetHeader.bytes_length (h : NetHeader) : h.bytes.length = 16 := by simp [NetHeader.bytes]

lemma NetHeader.ofBytes_bytes (h : NetHeader) : NetHeader.ofBytes h.bytes = h := by
  have hlen : (h.bytes.drop 1).take 3 = toLe 3 h.len := rfl
  have hid : (h.bytes.drop 4).take 2 = toLe 2 h.id.toNat := rfl
  have hpad : (h.bytes.drop 6).take 2 = toLe 2 h.padding.toNat := rfl
  have hses : (h.bytes.drop 8).take 8 = toLe 8 h.session.toNat := rfl
  have hi := h.id.toNat_lt
  have hp := h.padding.toNat_lt
  have hs := h.session.toNat_lt
  simp only [NetHeader.ofBytes, hlen, hid, hpad, hses, ofLe_toLe]
  rw [Nat.mod_eq_of_lt (by simp), Nat.mod_eq_of_lt (by simpa using hi),
    Nat.mod_eq_of_lt (by simpa using hp), Nat.mod_eq_of_lt (by simpa using hs)]
  simp only [UInt16.ofNat_toNat, UInt64.ofNat_toNat, Fin.ofNat_val_eq_self]
  rfl

namespace Packet

variable {p : Packet}

def header (p : Packet) : NetHeader where
  flag := flagValid
  len := Fin.ofNat _ p.payload.length
  id := p.frame.id
  padding := 0
  session := p.frame.session

lemma ofNat_mod (n : ℕ) : (Fin.ofNat (2 ^ 24) (n % 2 ^ 32)) = Fin.ofNat (2 ^ 24) n := by
  apply Fin.ext
  exact Nat.mod_mod_of_dvd n (by norm_num)

lemma wire_eq (p : Packet) : ∃ body, p.wire = p.header.bytes ++ body ∧
    p.payload.length % 2 ^ 24 ≤ body.length ∧
    (p.payload.length < 2 ^ 24 → body = p.payload) := by
  cases p with
  | net id session msg fresh =>
    obtain ⟨h, hh⟩ : ∃ h, h = header (.net id session msg fresh) := ⟨_, rfl⟩
    obtain ⟨b, hb⟩ : ∃ b, b = (({} : MemoryBuffer).reserve fresh (h.len + 16)).append fresh h.bytes :=
      ⟨_, rfl⟩
    have hlen : h.len.val = msg.length % 2 ^ 24 := by rw [hh]; rfl
    have hwire : wire (.net id session msg fresh) =
        ((b.poke (serializePartialToArray msg b.writable)).written h.len).contents := by
      simp only [wire, createNetBuffer, ofNat_mod, hb, hh]
      rfl
    have hcontents : b.contents = h.bytes := by
      rw [hb, MemoryBuffer.append_contents, MemoryBuffer.reserve_contents]
      rfl
    have hroom : h.len.val ≤ b.writable := by
      have hle : h.len.val + 16 ≤ (({} : MemoryBuffer).reserve fresh (h.len + 16)).writable :=
        MemoryBuffer.le_reserve (b := {}) _
      rw [hb, MemoryBuffer.append_writable] <;> rw [NetHeader.bytes_length] <;> omega
    rw [hwire, ← hh]
    by_cases hsmall : msg.length < 2 ^ 24
    · rw [Nat.mod_eq_of_lt hsmall] at hlen
      have hser : serializePartialToArray msg b.writable = msg := if_pos (by omega)
      refine ⟨msg, ?_, Nat.mod_le _ _, fun _ => rfl⟩
      rw [hser, MemoryBuffer.poke_written hlen.le hroom, hcontents, hlen, List.take_length]
    · refine ⟨_, by rw [MemoryBuffer.written_contents, MemoryBuffer.poke_contents, hcontents], ?_,
        fun hlt => absurd hlt hsmall⟩
      have hmin : min h.len.val (b.poke (serializePartialToArray msg b.writable)).writable = h.len :=
        Nat.min_eq_left hroom
      rw [readRange_length, hmin, hlen]
      exact le_rfl
  | forward message fresh =>
    refine ⟨message, ?_, Nat.mod_le _ _, fun _ => rfl⟩
    simp only [wire, remoteServiceWrite, MemoryBuffer.append_contents,
      MemoryBuffer.reserve_contents, ofNat_mod]
    rfl

end Packet

abbrev RecvCursor := Reader.Cursor RecvState UInt8 Frame

lemma recv_header (h : NetHeader) (rest : List UInt8) (ys : List Frame) :
    recvNetBuffer.step ⟨.header, h.bytes ++ rest, ys⟩ =
      some ⟨(RecvState.take .header h.bytes).1, rest,
        ys ++ (RecvState.take .header h.bytes).2.toList⟩ := by
  have hlen := h.bytes_length
  have hstep := Reader.step_eq_some (R := recvNetBuffer)
    (c := ⟨.header, h.bytes ++ rest, ys⟩) (n := 16) rfl (by simp [hlen])
  rw [hstep]
  simp only [List.take_left' hlen, List.drop_left' hlen]
  rfl

lemma recv_body (h : NetHeader) (pos : 0 < h.len.val) {body : List UInt8} (rest : List UInt8)
    (ys : List Frame) (hl : h.len.val ≤ body.length) :
    recvNetBuffer.step ⟨.body h pos, body ++ rest, ys⟩ =
      some ⟨.header, body.drop h.len ++ rest,
        ys ++ [⟨h.id, h.session, body.take h.len⟩]⟩ := by
  have hstep := Reader.step_eq_some (R := recvNetBuffer)
    (c := ⟨.body h pos, body ++ rest, ys⟩) (n := h.len) rfl (by simp; omega)
  rw [hstep]
  simp only [List.take_append_of_le_length hl, List.drop_append_of_le_length hl]
  rfl

variable {p : Packet}

lemma take_header (p : Packet) : RecvState.take .header p.header.bytes =
    if msgLenLimit < p.payload.length % 2 ^ 24 then
      (.failed (.len (p.payload.length % 2 ^ 24)), none)
    else if pos : 0 < p.payload.length % 2 ^ 24 then (.body p.header pos, none)
    else (.header, some ⟨p.frame.id, p.frame.session, []⟩) := by
  have hvalid : p.header.valid = true := rfl
  simp only [RecvState.take, NetHeader.ofBytes_bytes, hvalid]
  rfl

lemma recv_accepted (ha : p.accepted = true) : ∃ body,
    p.payload.length % 2 ^ 24 ≤ body.length ∧ (p.payload.length < 2 ^ 24 → body = p.payload) ∧
    ∀ rest ys, recvNetBuffer.Steps ⟨.header, p.wire ++ rest, ys⟩
      ⟨.header, body.drop (p.payload.length % 2 ^ 24) ++ rest,
        ys ++ [⟨p.frame.id, p.frame.session, body.take (p.payload.length % 2 ^ 24)⟩]⟩ := by
  obtain ⟨body, hwire, hlen, hbody⟩ := p.wire_eq
  refine ⟨body, hlen, hbody, ?_⟩
  intro rest ys
  have hlimit : ¬ msgLenLimit < p.payload.length % 2 ^ 24 := by
    simpa [Packet.accepted] using ha
  rw [hwire, List.append_assoc]
  by_cases hpos : 0 < p.payload.length % 2 ^ 24
  · refine .head (recv_header _ _ _) (.single ?_)
    rw [take_header, if_neg hlimit, dif_pos hpos]
    have hstep := recv_body p.header hpos rest ys hlen
    rw [Option.toList_none, List.append_nil]
    exact hstep
  · refine .single ((recv_header _ _ _).trans ?_)
    rw [take_header, if_neg hlimit, dif_neg hpos]
    have hz : p.payload.length % 2 ^ 24 = 0 := by omega
    rw [hz]
    rfl

lemma recv_rejected (hr : p.accepted = false) (rest : List UInt8) (ys : List Frame) :
    ∃ d, recvNetBuffer.Steps ⟨.header, p.wire ++ rest, ys⟩ d ∧ recvNetBuffer.step d = none ∧
      d.yielded = ys ∧ d.state = .failed (.len (p.payload.length % 2 ^ 24)) := by
  obtain ⟨body, hwire, -, -⟩ := p.wire_eq
  have hlimit : msgLenLimit < p.payload.length % 2 ^ 24 := by
    simpa [Packet.accepted] using hr
  have hstep := recv_header p.header (body ++ rest) ys
  rw [take_header, if_pos hlimit, ← List.append_assoc, ← hwire] at hstep
  exact ⟨_, .single hstep, rfl, List.append_nil ys, rfl⟩

def Agrees (sent : List Packet) (c : RecvCursor) : Prop :=
  ∃ k, c.yielded = (sent.take k).map Packet.frame ∧
    ((k = sent.length ∧ c.state = .header ∧ c.pending = []) ∨
      (k < sent.length ∧ ∃ e, c.state = .failed e))

def wire (sent : List Packet) : List UInt8 := (sent.map Packet.wire).flatten

def idle : RecvCursor := ⟨.header, [], []⟩

lemma recv_small (ha : p.accepted = true) (hp : p.payload.length < 2 ^ 24) (rest : List UInt8)
    (ys : List Frame) : recvNetBuffer.Steps ⟨.header, p.wire ++ rest, ys⟩
      ⟨.header, rest, ys ++ [p.frame]⟩ := by
  obtain ⟨body, -, hbody, hsteps⟩ := recv_accepted ha
  have hrun := hsteps rest ys
  rw [hbody hp, Nat.mod_eq_of_lt hp, List.drop_length, List.take_length, List.nil_append] at hrun
  cases p <;> exact hrun

lemma recv_all_small (sent : List Packet) (ha : ∀ p ∈ sent, p.accepted = true)
    (hp : ∀ p ∈ sent, p.payload.length < 2 ^ 24) (rest : List UInt8) (ys : List Frame) :
    recvNetBuffer.Steps ⟨.header, wire sent ++ rest, ys⟩
      ⟨.header, rest, ys ++ sent.map Packet.frame⟩ := by
  induction sent generalizing ys with
  | nil =>
    rw [List.map_nil, List.append_nil]
    exact .refl
  | cons p sent ih =>
    have hfirst := recv_small (ha p (by simp)) (hp p (by simp)) (wire sent ++ rest) ys
    have hrest := ih (fun q hq => ha q (by simp [hq])) (fun q hq => hp q (by simp [hq]))
      (ys ++ [p.frame])
    simp only [wire, List.map_cons, List.flatten_cons, List.append_assoc,
      List.singleton_append] at hfirst hrest ⊢
    exact hfirst.trans hrest

lemma exists_first_big {sent : List Packet}
    (h : ∃ p ∈ sent.takeWhile Packet.accepted, 2 ^ 24 ≤ p.payload.length) :
    ∃ good p rest, sent = good ++ p :: rest ∧ (∀ q ∈ good, q.accepted = true) ∧
      (∀ q ∈ good, q.payload.length < 2 ^ 24) ∧ p.accepted = true ∧ 2 ^ 24 ≤ p.payload.length := by
  induction sent with
  | nil => simp at h
  | cons q sent ih =>
    by_cases hq : q.accepted = true
    · by_cases hbig : 2 ^ 24 ≤ q.payload.length
      · exact ⟨[], q, sent, rfl, by simp, by simp, hq, hbig⟩
      · obtain ⟨p, hp, hlen⟩ := h
        rw [List.takeWhile_cons_of_pos hq, List.mem_cons] at hp
        have hp' : p ∈ sent.takeWhile Packet.accepted := by
          rcases hp with rfl | hp
          · exact absurd hlen hbig
          · exact hp
        obtain ⟨good, r, rest, rfl, hacc, hsmall, hr⟩ := ih ⟨p, hp', hlen⟩
        refine ⟨q :: good, r, rest, rfl, ?_, ?_, hr⟩
        · exact List.forall_mem_cons.mpr ⟨hq, hacc⟩
        · exact List.forall_mem_cons.mpr ⟨by omega, hsmall⟩
    · obtain ⟨p, hp, -⟩ := h
      rw [List.takeWhile_cons_of_neg hq] at hp
      cases hp

/-- An accepted packet of 16 MiB or more is yielded with another length than it was sent with. -/
lemma recv_big {good rest : List Packet} (hacc : ∀ q ∈ good, q.accepted = true)
    (hsmall : ∀ q ∈ good, q.payload.length < 2 ^ 24) (hp : p.accepted = true)
    {chunks : List (List UInt8)} (hw : chunks.flatten = wire (good ++ p :: rest)) :
    ∃ wrong : Frame, wrong.payload.length = p.payload.length % 2 ^ 24 ∧
      good.map Packet.frame ++ [wrong] <+: (recvNetBuffer.feedAll idle chunks).yielded := by
  obtain ⟨body, hlen, -, hsteps⟩ := recv_accepted hp
  have hgood := recv_all_small good hacc hsmall (wire (p :: rest)) []
  have hbad := hsteps (wire rest) ([] ++ good.map Packet.frame)
  have hwire : wire (good ++ p :: rest) = wire good ++ wire (p :: rest) := by simp [wire]
  refine ⟨⟨p.frame.id, p.frame.session, body.take (p.payload.length % 2 ^ 24)⟩, ?_, ?_⟩
  · rw [List.length_take, Nat.min_eq_left hlen]
  · have hrun := hgood.trans hbad
    rw [← hwire, ← hw] at hrun
    exact Reader.feedAll_yielded (R := recvNetBuffer) (c := idle) rfl hrun

lemma not_agrees_of_big (good rest : List Packet) (hacc : ∀ q ∈ good, q.accepted = true)
    (hsmall : ∀ q ∈ good, q.payload.length < 2 ^ 24) (hp : p.accepted = true)
    (hlen : 2 ^ 24 ≤ p.payload.length) {chunks : List (List UInt8)}
    (hw : chunks.flatten = wire (good ++ p :: rest)) :
    ¬ Agrees (good ++ p :: rest) (recvNetBuffer.feedAll idle chunks) := by
  obtain ⟨wrong, hwrong, hyield⟩ := recv_big hacc hsmall hp hw
  rintro ⟨k, hk, -⟩
  have hsent : good.map Packet.frame ++ [wrong] <+: (good ++ p :: rest).map Packet.frame := by
    rw [hk] at hyield
    exact hyield.trans ((List.take_prefix k _).map _)
  rw [List.map_append, List.prefix_append_right_inj, List.map_cons, List.cons_prefix_cons] at hsent
  have hpay : p.frame.payload = p.payload := by cases p <;> rfl
  rw [hsent.1, hpay] at hwrong
  have := Nat.mod_lt p.payload.length (show 0 < 2 ^ 24 by norm_num)
  omega

lemma recv_good {good rest : List Packet} (hacc : ∀ q ∈ good, q.accepted = true)
    (hsmall : ∀ q ∈ good, q.payload.length < 2 ^ 24)
    (hrest : ∀ p tail, rest = p :: tail → p.accepted = false) :
    ∃ d, recvNetBuffer.Steps (idle.push (wire (good ++ rest))) d ∧ recvNetBuffer.step d = none ∧
      d.yielded = good.map Packet.frame ∧ Agrees (good ++ rest) d := by
  have hgood := recv_all_small good hacc hsmall (wire rest) []
  have hwire : wire (good ++ rest) = wire good ++ wire rest := by simp [wire]
  rw [hwire]
  cases rest with
  | nil =>
    refine ⟨_, hgood, rfl, List.nil_append _, good.length, ?_, Or.inl ⟨by simp, rfl, rfl⟩⟩
    simp
  | cons p tail =>
    obtain ⟨d, hd, hquiet, hyield, hstate⟩ :=
      recv_rejected (hrest p tail rfl) (wire tail) ([] ++ good.map Packet.frame)
    refine ⟨d, hgood.trans hd, hquiet, hyield, good.length, ?_, Or.inr ⟨by simp, _, hstate⟩⟩
    rw [hyield, List.nil_append, List.take_left]

lemma split_accepted (sent : List Packet) : ∃ rest, sent = sent.takeWhile Packet.accepted ++ rest ∧
    (∀ q ∈ sent.takeWhile Packet.accepted, q.accepted = true) ∧
    ∀ p tail, rest = p :: tail → p.accepted = false := by
  induction sent with
  | nil => exact ⟨[], rfl, by simp, nofun⟩
  | cons q sent ih =>
    by_cases hq : q.accepted = true
    · obtain ⟨rest, hsplit, hacc, hrest⟩ := ih
      rw [List.takeWhile_cons_of_pos hq]
      exact ⟨rest, congrArg (q :: ·) hsplit, List.forall_mem_cons.mpr ⟨hq, hacc⟩, hrest⟩
    · rw [List.takeWhile_cons_of_neg hq]
      refine ⟨q :: sent, rfl, by simp, ?_⟩
      rintro p tail ⟨⟩
      simpa using hq

lemma feedAll_small {sent : List Packet} {chunks : List (List UInt8)}
    (hsmall : ∀ p ∈ sent.takeWhile Packet.accepted, p.payload.length < 2 ^ 24)
    (h : chunks.flatten = wire sent) :
    (recvNetBuffer.feedAll idle chunks).yielded = (sent.takeWhile Packet.accepted).map Packet.frame ∧
      Agrees sent (recvNetBuffer.feedAll idle chunks) := by
  obtain ⟨rest, hsplit, hacc, hrest⟩ := split_accepted sent
  obtain ⟨d, hsteps, hquiet, hyield, hagrees⟩ := recv_good hacc hsmall hrest
  rw [← hsplit] at hsteps hagrees
  rw [Reader.feedAll_eq (R := recvNetBuffer) (c := idle) rfl (h ▸ hsteps) hquiet]
  exact ⟨hyield, hagrees⟩

/-- Encoders and receiver agree exactly on streams that have no accepted packet of 16 MiB
or more before the first rejected one. -/
theorem codec_agrees_iff (sent : List Packet) (chunks : List (List UInt8))
    (h : chunks.flatten = wire sent) :
    Agrees sent (recvNetBuffer.feedAll idle chunks) ↔
      ∀ p ∈ sent.takeWhile Packet.accepted, p.payload.length < 2 ^ 24 := by
  constructor
  · intro hagrees p hp
    by_contra hbig
    obtain ⟨good, q, rest, rfl, hacc, hsmall, hq, hlen⟩ :=
      exists_first_big ⟨p, hp, not_lt.mp hbig⟩
    exact not_agrees_of_big good rest hacc hsmall hq hlen h hagrees
  · exact fun hsmall => (feedAll_small hsmall h).2

def hangUp (c : RecvCursor) : RecvCursor := { c with state := c.state.stop }

theorem yielded_of_broken (sent : List Packet) (chunks : List (List UInt8))
    (h : chunks.flatten <+: wire sent)
    (hsmall : ∀ p ∈ sent.takeWhile Packet.accepted, p.payload.length < 2 ^ 24) :
    (hangUp (recvNetBuffer.feedAll idle chunks)).yielded <+: sent.map Packet.frame := by
  obtain ⟨more, hmore⟩ := h
  obtain ⟨rest, hsplit, hacc, hrest⟩ := split_accepted sent
  obtain ⟨d, hsteps, hquiet, -, k, hk, -⟩ := recv_good hacc hsmall hrest
  rw [← hsplit, ← hmore] at hsteps
  have hall : recvNetBuffer.feedAll idle (chunks ++ [more]) = d :=
    Reader.feedAll_eq (c := idle) rfl (by simpa using hsteps) hquiet
  have hgrow : (recvNetBuffer.feedAll idle chunks).yielded <+: d.yielded := by
    have hlast : recvNetBuffer.Steps ((recvNetBuffer.feedAll idle chunks).push more)
        (recvNetBuffer.feed (recvNetBuffer.feedAll idle chunks) more) := Reader.drain_steps _ _
    rw [← hall, Reader.feedAll, Reader.feedAll, List.foldl_append]
    exact hlast.yielded
  rw [hk, ← hsplit] at hgrow
  exact hgrow.trans ((List.take_prefix k _).map _)

theorem codec_agrees_iff_cut :
    let sent := [Packet.net 0x4001 7 [1, 2, 3] fun _ => 0]
    let chunks := [(wire sent).take 5, (wire sent).drop 5]
    chunks.flatten = wire sent ∧ Agrees sent (recvNetBuffer.feedAll idle chunks) := by
  intro sent chunks
  have hcut : chunks.flatten = wire sent := by simp [chunks]
  refine ⟨hcut, (codec_agrees_iff sent chunks hcut).mpr ?_⟩
  intro p hp
  have hp' : p ∈ sent := (List.takeWhile_prefix _).subset hp
  simp only [sent, List.mem_singleton] at hp'
  subst hp'
  norm_num [Packet.payload]

def bigMessage : List UInt8 := List.replicate (2 ^ 24) 0

theorem codec_disagrees :
    let sent := [Packet.forward bigMessage fun _ => 0]
    ¬ Agrees sent (recvNetBuffer.feedAll idle [wire sent]) := by
  intro sent
  have hlen : bigMessage.length = 2 ^ 24 := List.length_replicate
  refine not_agrees_of_big [] [] (by simp) (by simp) ?_ ?_ (by simp [sent])
  · simp [Packet.accepted, Packet.payload, hlen]
  · simp only [Packet.payload, hlen, le_refl]

end Simple.Gobang
