import Simple.Lib.Bytes
import Simple.Lib.Machine
import Simple.Shm.Consumer
import Simple.Shm.Producer

/-! Messages on a ring: `shm_channel` puts a `uint32` length before each of them. -/

namespace Simple.Shm

open Simple.Lib Simple.Lib.Bytes Shared

namespace ShmChannel

variable (size : ℕ)

def tryWrite (buf : List UInt8) : Code Bool := do
  let room ← ShmBuffer.writable size
  if room < buf.length + 4 then pure false
  else do
    let _ ← ShmBuffer.fill size (toLe 4 buf.length) 0
    let _ ← ShmBuffer.fill size buf 4
    ShmBuffer.commit size (buf.length + 4)
    pure true

/-- The capacity is `none` for a null buffer; the answer is the returned number and the
bytes put into the buffer, if any were. -/
def tryRead (capacity : Option ℕ) : Code (ℕ × Option (List UInt8)) := do
  let head ← ShmBuffer.peek size 4 0
  if head.length < 4 then pure (0, none)
  else do
    let len := ofLe head
    let total ← ShmBuffer.readable
    if total < 4 + len then pure (0, none)
    else
      match capacity with
      | none => pure (len, none)
      | some capacity =>
        if capacity < len then pure (0, none)
        else do
          let bytes ← ShmBuffer.peek size len 4
          ShmBuffer.skip size (len + 4)
          pure (len, some bytes)

end ShmChannel

structure Message where
  bytes : List UInt8
  short : bytes.length < 2 ^ 32

structure Channel where
  shm : ShmData := {}
  sent : List Message := []
  received : List (ℕ × List UInt8) := []

namespace Channel

inductive Action
  | tryWrite (m : Message)
  | tryRead (capacity : Option ℕ)

def tryWrite (size : ℕ) (s : Channel) (m : Message) : ShmData × Bool :=
  (ShmChannel.tryWrite size m.bytes).run ShmData.access s.shm

def tryRead (size : ℕ) (s : Channel) (capacity : Option ℕ) : ShmData × ℕ × Option (List UInt8) :=
  (ShmChannel.tryRead size capacity).run ShmData.access s.shm

def step (size : ℕ) (s : Channel) : Action → Option Channel
  | .tryWrite m =>
    let (shm, written) := s.tryWrite size m
    some { s with shm := shm, sent := if written then s.sent ++ [m] else s.sent }
  | .tryRead capacity =>
    let (shm, len, bytes) := s.tryRead size capacity
    some { s with
      shm := shm
      received := s.received ++ (bytes.map fun b => (len, b)).toList }

def machine (size : ℕ) : Machine Channel Action where
  initial := {}
  step := step size

end Channel

section Alone

variable {size : ℕ} {s : Shared} {α : Type}

lemma producer_alone {call : ProducerCall} {Q : α → Shared → Prop} {p : Code α}
    (h : (call.party size).Wp Q p s) :
    ∃ t, p.run ShmData.access s.shm = (t.shm, (p.run ShmData.access s.shm).2) ∧
      Q (p.run ShmData.access s.shm).2 t ∧ ProducerMove size s t := by
  have hmap := Prog.run_map Shared.shm (call.exec size) ShmData.access (fun _ _ => rfl) p s
  have hmove : ProducerMove size s (p.run (call.exec size) s).1 :=
    Party.Wp.run_guar (P := call.party size) ProducerMove.refl (fun _ _ _ => ProducerMove.trans)
      (fun _ _ _ hx => hx.2) h
  have hQ := h.run
  rw [hmap]
  exact ⟨_, rfl, hQ, hmove⟩

lemma consumer_alone {Q : α → Shared → Prop} {p : Code α} (h : (consumer size).Wp Q p s) :
    ∃ t, p.run ShmData.access s.shm = (t.shm, (p.run ShmData.access s.shm).2) ∧
      Q (p.run ShmData.access s.shm).2 t ∧ ConsumerMove size s t := by
  have hmap := Prog.run_map Shared.shm ConsumerCall.exec ShmData.access (fun _ _ => rfl) p s
  have hmove : ConsumerMove size s (p.run ConsumerCall.exec s).1 :=
    Party.Wp.run_guar (P := consumer size) ConsumerMove.refl (fun _ _ _ => ConsumerMove.trans)
      (fun _ _ _ hx => hx.2) h
  have hQ := h.run
  rw [hmap]
  exact ⟨_, rfl, hQ, hmove⟩

lemma shm_unmoved {t : Shared} (hs : Inv size s) (ht : Inv size t) (hsi : ConsumerIdle size s)
    (hti : ConsumerIdle size t) (hm : ConsumerMove size s t) (hc : t.consumed = s.consumed) :
    t.shm = s.shm := by
  have hread : t.shm.read = s.shm.read := by
    have h1 := hs.read_lt
    have h2 := ht.read_lt
    have h3 := hs.readable
    have h4 := ht.readable
    rw [hm.write, hm.committed, hc, ← h3] at h4
    unfold sub64 at h4
    omega
  have hindex : t.shm.readIndex = s.shm.readIndex := by rw [hti, hsi, hc]
  exact ShmData.ext hread hm.write hindex hm.writeIndex hm.data

lemma Got.eq {t : Shared} {len offset : ℕ} {bytes : List UInt8} (h : Got s t len offset bytes)
    (hc : t.committed = s.committed) : bytes = (s.committed.drop (s.consumed + offset)).take len := by
  have hstream := h.stream
  have hmost := h.atMost
  have hleast := h.atLeast
  rw [hc] at hstream
  have hle := hstream.length_le
  rw [List.length_drop] at hle
  rw [List.prefix_iff_eq_take.mp hstream]
  apply List.take_eq_take_iff.mpr
  rw [List.length_drop]
  omega

lemma peek_alone (len offset : ℕ) (hm : size < 2 ^ 63) (hinv : Inv size s)
    (hidle : ConsumerIdle size s) :
    (ShmBuffer.peek size len offset).run ShmData.access s.shm =
      (s.shm, (s.committed.drop (s.consumed + offset)).take len) := by
  obtain ⟨t, hrun, ⟨htinv, htidle, hgot, hcon⟩, hmove⟩ :=
    consumer_alone (peek_wp len offset hm hinv hidle)
  rw [hrun, shm_unmoved hinv htinv hidle htidle hmove hcon, hgot.eq hmove.committed]

lemma readable_alone (hinv : Inv size s) :
    ShmBuffer.readable.run ShmData.access s.shm = (s.shm, s.committed.length - s.consumed) := by
  rw [← hinv.readable]
  rfl

lemma writable_alone (hm : size < 2 ^ 63) (hinv : Inv size s) :
    (ShmBuffer.writable size).run ShmData.access s.shm =
      (s.shm, s.consumed + size - s.committed.length) := by
  rw [← hinv.writable hm]
  rfl

structure Idle (size : ℕ) (s : Shared) : Prop where
  inv : Inv size s
  producer : ProducerIdle size s
  consumer : ConsumerIdle size s

lemma skip_alone (len : ℕ) (hm : size < 2 ^ 63) (h : Idle size s)
    (hlen : s.consumed + len ≤ s.committed.length) :
    ∃ t, (ShmBuffer.skip size len).run ShmData.access s.shm = (t.shm, ()) ∧ Idle size t ∧
      t.committed = s.committed ∧ t.consumed = s.consumed + len := by
  obtain ⟨t, hrun, ⟨hinv, hidle, -, n, hn, -, hmin, hcon, -⟩, hmove⟩ :=
    consumer_alone (skip_wp len hm h.inv h.consumer)
  refine ⟨t, hrun, ⟨hinv, h.producer.stable hmove, hidle⟩, hmove.committed, ?_⟩
  omega

lemma fill_alone (buf : List UInt8) (offset : ℕ) (hm : size < 2 ^ 63) (h : Idle size s)
    (hlen : s.committed.length + offset + buf.length ≤ s.consumed + size) :
    ∃ t, ((ShmBuffer.fill size buf offset).run ShmData.access s.shm).1 = t.shm ∧ Idle size t ∧
      t.committed = s.committed ∧ t.consumed = s.consumed ∧
      t.staged = (s.stage buf offset).staged := by
  obtain ⟨t, hrun, ⟨hinv, hidle, hcom, hstg, -, hfail⟩, hmove⟩ :=
    producer_alone (fill_wp buf offset hm h.inv h.producer)
  cases hr : ((ShmBuffer.fill size buf offset).run ShmData.access s.shm).2 with
  | false =>
    rw [hr] at hidle
    have hnil : buf = [] := by
      apply List.eq_nil_of_length_eq_zero
      have := hfail hr
      omega
    refine ⟨t, by rw [hrun], ⟨hinv, hidle, h.consumer.stable hmove⟩, hcom, hmove.consumed, ?_⟩
    simp [hnil, hstg, Shared.stage]
  | true =>
    rw [hr] at hidle
    have hstage := hmove.trans (settle_produced t (.fill buf offset) true)
    refine ⟨t.stage buf offset, by rw [hrun]; rfl,
      ⟨inv_stage.mpr hinv, hidle, h.consumer.stable hstage⟩, hcom, hmove.consumed, ?_⟩
    simp only [Shared.stage, hstg]

lemma commit_alone (len : ℕ) (hs : 0 < size) (hm : size < 2 ^ 63) (h : Idle size s)
    (hlen : s.committed.length + len ≤ s.consumed + size) :
    ∃ t, (ShmBuffer.commit size len).run ShmData.access s.shm = (t.shm, ()) ∧ Idle size t ∧
      t.committed = s.committed ++ (ProducerCall.commit len).payload size s ∧
      t.consumed = s.consumed := by
  obtain ⟨t, hrun, ⟨hinv, hidle, hcom⟩, hmove⟩ :=
    producer_alone (commit_wp len hs hm h.inv h.producer)
  exact ⟨t, hrun, ⟨hinv, hidle, h.consumer.stable hmove⟩, hcom hlen, hmove.consumed⟩

end Alone

section Frames

def frame (m : Message) : List UInt8 := toLe 4 m.bytes.length ++ m.bytes

@[simp] lemma frame_length (m : Message) : (frame m).length = m.bytes.length + 4 := by
  simp [frame, Nat.add_comm]

variable {size : ℕ} {s : Shared}

lemma payload_frame (m : Message)
    (hs : ∀ i, i < m.bytes.length + 4 → s.staged i = (frame m)[i]?) :
    (ProducerCall.commit (m.bytes.length + 4)).payload size s = frame m := by
  apply List.ext_getElem
  · simp [ProducerCall.payload]
  · intro i hi hi'
    have hb := hs i (by simpa using hi')
    rw [List.getElem?_eq_getElem hi'] at hb
    simp [ProducerCall.payload, hb]

lemma tryWrite_alone (m : Message) (hm : size < 2 ^ 63) (h : Idle size s) :
    (s.consumed + size < s.committed.length + (frame m).length ∧
      (ShmChannel.tryWrite size m.bytes).run ShmData.access s.shm = (s.shm, false)) ∨
    ∃ t, (ShmChannel.tryWrite size m.bytes).run ShmData.access s.shm = (t.shm, true) ∧
      Idle size t ∧ t.committed = s.committed ++ frame m ∧ t.consumed = s.consumed := by
  have hcl := h.inv.consumed_le
  have hf := h.inv.fits
  simp only [ShmChannel.tryWrite, Prog.run_bind, writable_alone hm h.inv, frame_length]
  by_cases hroom : s.consumed + size - s.committed.length < m.bytes.length + 4
  · left
    rw [if_pos hroom]
    exact ⟨by omega, rfl⟩
  right
  rw [if_neg hroom]
  obtain ⟨t, ht, htidle, htcom, htcon, htstg⟩ :=
    fill_alone (toLe 4 m.bytes.length) 0 hm h (by rw [toLe_length]; omega)
  obtain ⟨u, hu, huidle, hucom, hucon, hustg⟩ :=
    fill_alone m.bytes 4 hm htidle (by rw [htcom, htcon]; omega)
  obtain ⟨v, hv, hvidle, hvcom, hvcon⟩ := commit_alone (m.bytes.length + 4) (by omega) hm huidle
    (by rw [hucom, hucon, htcom, htcon]; omega)
  refine ⟨v, ?_, hvidle, ?_, ?_⟩
  · simp only [Prog.run_bind, ht, hu, hv]
    rfl
  · rw [hvcom, hucom, htcom, payload_frame m]
    intro i hi
    rw [hustg, frame]
    by_cases h4 : 4 ≤ i
    · rw [List.getElem?_append_right (by simpa using h4), toLe_length]
      have hlt : i - 4 < m.bytes.length := by omega
      simp [Shared.stage, h4, hlt]
    · rw [List.getElem?_append_left (by simp; omega)]
      have hlt : i < (toLe 4 m.bytes.length).length := by simp; omega
      simp only [Shared.stage, htstg, if_neg h4, Nat.zero_le, if_true, Nat.sub_zero,
        List.getElem?_eq_getElem hlt, Option.some_or]
  · rw [hvcon, hucon, htcon]

lemma ofLe_frame (m : Message) : ofLe (toLe 4 m.bytes.length) = m.bytes.length := by
  rw [ofLe_toLe]
  exact Nat.mod_eq_of_lt (by simpa using m.short)

def answer (pending : List Message) (capacity : Option ℕ) : ℕ × Option (List UInt8) :=
  match pending, capacity with
  | [], _ => (0, none)
  | m :: _, none => (m.bytes.length, none)
  | m :: _, some capacity =>
    if capacity < m.bytes.length then (0, none) else (m.bytes.length, some m.bytes)

lemma tryRead_empty (capacity : Option ℕ) (hm : size < 2 ^ 63) (h : Idle size s)
    (hp : s.committed.drop s.consumed = []) :
    (ShmChannel.tryRead size capacity).run ShmData.access s.shm = (s.shm, 0, none) := by
  simp only [ShmChannel.tryRead, Prog.run_bind, peek_alone 4 0 hm h.inv h.consumer, Nat.add_zero, hp,
    List.take_nil, List.length_nil]
  rfl

lemma tryRead_pending (capacity : Option ℕ) (hm : size < 2 ^ 63) (h : Idle size s) {m : Message}
    {rest : List UInt8} (hp : s.committed.drop s.consumed = frame m ++ rest) :
    ((answer [m] capacity).2 = none ∧
      (ShmChannel.tryRead size capacity).run ShmData.access s.shm =
        (s.shm, answer [m] capacity)) ∨
    (answer [m] capacity = (m.bytes.length, some m.bytes) ∧ ∃ t,
      (ShmChannel.tryRead size capacity).run ShmData.access s.shm = (t.shm, answer [m] capacity) ∧
      Idle size t ∧ t.committed = s.committed ∧ t.consumed = s.consumed + (frame m).length) := by
  have hlen : s.committed.length - s.consumed = m.bytes.length + 4 + rest.length := by
    rw [← List.length_drop, hp, List.length_append, frame_length]
  have hhead : (s.committed.drop (s.consumed + 0)).take 4 = toLe 4 m.bytes.length := by
    rw [Nat.add_zero, hp, frame, List.append_assoc, List.take_left' (toLe_length _ _)]
  have hbody : (s.committed.drop (s.consumed + 4)).take m.bytes.length = m.bytes := by
    rw [← List.drop_drop, hp, frame, List.append_assoc, List.drop_left' (toLe_length _ _),
      List.take_left' rfl]
  simp only [ShmChannel.tryRead, Prog.run_bind, peek_alone 4 0 hm h.inv h.consumer, hhead,
    toLe_length, lt_irrefl, if_false, ofLe_frame, readable_alone h.inv, hlen]
  rw [if_neg (by omega)]
  cases capacity with
  | none => exact Or.inl ⟨rfl, rfl⟩
  | some capacity =>
    by_cases hc : capacity < m.bytes.length
    · left
      simp only [answer, if_pos hc]
      exact ⟨trivial, rfl⟩
    right
    obtain ⟨t, ht, hidle, hcom, hcon⟩ := skip_alone (m.bytes.length + 4) hm h (by omega)
    simp only [answer, if_neg hc, Prog.run_bind, peek_alone _ 4 hm h.inv h.consumer, hbody, ht,
      frame_length]
    exact ⟨trivial, t, rfl, hidle, hcom, hcon⟩

end Frames

namespace Channel

variable {size : ℕ}

def stamp (m : Message) : ℕ × List UInt8 := (m.bytes.length, m.bytes)

def pending (s : Channel) : List Message := s.sent.drop s.received.length

def Inv (size : ℕ) (s : Channel) : Prop :=
  ∃ t taken rest, t.shm = s.shm ∧ Idle size t ∧ s.sent = taken ++ rest ∧
    s.received = taken.map stamp ∧ t.committed = (s.sent.map frame).flatten ∧
    t.consumed = (taken.map frame).flatten.length

lemma inv_initial : Inv size {} :=
  ⟨{}, [], [], rfl, ⟨Shared.inv_initial, producerIdle_initial, consumerIdle_initial⟩, rfl, rfl, rfl,
    rfl⟩

lemma Inv.received {s : Channel} (h : Inv size s) : s.received <+: s.sent.map stamp := by
  obtain ⟨t, taken, rest, -, -, hsent, hrec, -⟩ := h
  rw [hsent, hrec, List.map_append]
  exact List.prefix_append _ _

lemma pending_eq {s : Channel} {taken rest : List Message} (hsent : s.sent = taken ++ rest)
    (hrec : s.received = taken.map stamp) : s.pending = rest := by
  rw [pending, hsent, hrec, List.length_map, List.drop_left]

lemma tryWrite_inv {s : Channel} (m : Message) (hm : size < 2 ^ 63) (h : Inv size s) :
    (s.tryWrite size m = (s.shm, false)) ∨
      ((s.tryWrite size m).2 = true ∧
        Inv size { s with shm := (s.tryWrite size m).1, sent := s.sent ++ [m] }) := by
  obtain ⟨t, taken, rest, hshm, hidle, hsent, hrec, hcom, hcon⟩ := h
  rw [Channel.tryWrite, ← hshm]
  rcases tryWrite_alone m hm hidle with ⟨-, hrun⟩ | ⟨u, hrun, huidle, hucom, hucon⟩
  · exact Or.inl hrun
  · right
    rw [hrun]
    refine ⟨rfl, u, taken, rest ++ [m], rfl, huidle, ?_, hrec, ?_, hucon.trans hcon⟩
    · simp [hsent]
    · simp [hucom, hcom]

lemma tryRead_inv {s : Channel} (capacity : Option ℕ) (hm : size < 2 ^ 63) (h : Inv size s) :
    (s.tryRead size capacity).2 = answer s.pending capacity ∧
      ((answer s.pending capacity).2 = none → (s.tryRead size capacity).1 = s.shm) ∧
      Inv size { s with
        shm := (s.tryRead size capacity).1
        received := s.received ++
          ((answer s.pending capacity).2.map fun b => ((answer s.pending capacity).1, b)).toList } := by
  have hinv := h
  obtain ⟨t, taken, rest, hshm, hidle, hsent, hrec, hcom, hcon⟩ := h
  have hdrop : t.committed.drop t.consumed = (rest.map frame).flatten := by
    rw [hcom, hsent, List.map_append, List.flatten_append, hcon, List.drop_left]
  rw [pending_eq hsent hrec, Channel.tryRead, ← hshm]
  cases rest with
  | nil =>
    rw [tryRead_empty capacity hm hidle hdrop]
    refine ⟨rfl, fun _ => rfl, ?_⟩
    simpa [answer, hshm] using hinv
  | cons m rest =>
    have hanswer : answer (m :: rest) capacity = answer [m] capacity := by cases capacity <;> rfl
    rw [hanswer]
    rcases tryRead_pending capacity hm hidle hdrop with
      ⟨hnone, hrun⟩ | ⟨hsome, u, hrun, huidle, hucom, hucon⟩
    · rw [hrun]
      refine ⟨rfl, fun _ => rfl, ?_⟩
      simpa [hnone, hshm] using hinv
    · rw [hrun]
      refine ⟨rfl, fun hnone => by simp [hsome] at hnone, ?_⟩
      refine ⟨u, taken ++ [m], rest, rfl, huidle, by simp [hsent], ?_, hucom.trans hcom, ?_⟩
      · simp [hsome, hrec, stamp]
      · simp [hucon, hcon]

lemma step_inv {s t : Channel} {a : Action} (hm : size < 2 ^ 63) (h : Inv size s)
    (ht : step size s a = some t) : Inv size t := by
  cases a with
  | tryWrite m =>
    rcases tryWrite_inv m hm h with hfull | ⟨hdone, hinv⟩
    · simp only [step, hfull] at ht
      obtain rfl := Option.some.inj ht
      exact h
    · simp only [step, hdone] at ht
      obtain rfl := Option.some.inj ht
      exact hinv
  | tryRead capacity =>
    obtain ⟨hanswer, -, hinv⟩ := tryRead_inv capacity hm h
    simp only [step, hanswer] at ht
    obtain rfl := Option.some.inj ht
    exact hinv

theorem messages_carried (seg : Segment) (s : Channel) (h : (machine seg.size).Reachable s) :
    s.received <+: s.sent.map stamp ∧
      (∀ m, (s.tryWrite seg.size m).2 = false → (s.tryWrite seg.size m).1 = s.shm) ∧
      (∀ capacity, (s.tryRead seg.size capacity).2 = answer s.pending capacity) ∧
      (∀ capacity, (s.tryRead seg.size capacity).2.2 = none →
        (s.tryRead seg.size capacity).1 = s.shm) := by
  have hm : seg.size < 2 ^ 63 := by
    have := seg.mapped
    omega
  have hinv : Inv seg.size s :=
    Machine.reachable_invariant (M := machine seg.size) (I := Inv seg.size) inv_initial
      (fun _ _ _ hi ht => step_inv hm hi ht) h
  refine ⟨hinv.received, ?_, ?_, ?_⟩
  · intro m hfalse
    rcases tryWrite_inv m hm hinv with hfull | ⟨hdone, -⟩
    · rw [hfull]
    · rw [hdone] at hfalse
      exact absurd hfalse (by decide)
  · intro capacity
    exact (tryRead_inv capacity hm hinv).1
  · intro capacity hnone
    obtain ⟨hanswer, hsame, -⟩ := tryRead_inv capacity hm hinv
    rw [hanswer] at hnone
    exact hsame hnone

def wrappedCalls : List Action :=
  [.tryWrite ⟨[1, 2, 3], by decide⟩, .tryRead none, .tryRead (some 2), .tryWrite ⟨[4], by decide⟩,
    .tryRead (some 3), .tryWrite ⟨[5], by decide⟩, .tryWrite ⟨[], by decide⟩, .tryRead (some 1),
    .tryRead (some 0)]

lemma wrappedCalls_result : ((machine 9).run {} wrappedCalls).map
    (fun s => (s.received, s.sent.map Message.bytes)) =
      some ([(3, [1, 2, 3]), (1, [5]), (0, [])], [[1, 2, 3], [5], []]) := by
  decide +kernel

theorem messages_carried_wrapped : ∃ s, (machine 9).run {} wrappedCalls = some s ∧
    (s.received, s.sent.map Message.bytes) =
      ([(3, [1, 2, 3]), (1, [5]), (0, [])], [[1, 2, 3], [5], []]) ∧
    s.received <+: s.sent.map stamp := by
  obtain ⟨s, hs, hres⟩ := Option.map_eq_some_iff.mp wrappedCalls_result
  exact ⟨s, hs, hres, (messages_carried ⟨9, by norm_num⟩ s ⟨wrappedCalls, hs⟩).1⟩

end Channel

end Simple.Shm
