import Simple.Lib.Machine
import Simple.Shm.Consumer
import Simple.Shm.Producer

/-! One producer and one consumer on a ring: their calls interleave access by access. -/

namespace Simple.Shm

open Simple.Lib Shared

/-- A consumer's task keeps the read counter from before the call. A byte that was
skipped has its place in `obtained` but no value; `peeked` has each result with the
place in the stream it was asked for. -/
structure Spsc where
  shared : Shared := {}
  producer : Option (ProducerCall × Code Bool) := none
  consumer : Option (ConsumerCall × ℕ × Code (List UInt8)) := none
  obtained : List (Option UInt8) := []
  peeked : List (ℕ × List UInt8) := []

namespace Spsc

inductive Action
  | call (c : ProducerCall)
  | produce
  | ask (c : ConsumerCall)
  | consume

def deliver (s : Spsc) (start : ℕ) (bytes : List UInt8) : ConsumerCall → Spsc
  | .read _ => { s with obtained := s.obtained ++ bytes.map some }
  | .skip _ =>
    { s with obtained := s.obtained ++ List.replicate (sub64 s.shared.shm.read start) none }
  | .peek _ offset => { s with peeked := s.peeked ++ [(s.obtained.length + offset, bytes)] }

def step (size : ℕ) (s : Spsc) : Action → Option Spsc
  | .call c =>
    match s.producer with
    | none => some { s with producer := some (c, c.code size) }
    | some _ => none
  | .produce =>
    match s.producer with
    | none => none
    | some (c, .pure r) => some { s with shared := c.settle s.shared r, producer := none }
    | some (c, .act x next) =>
      some { s with
        shared := (c.exec size x s.shared).1
        producer := some (c, next (c.exec size x s.shared).2) }
  | .ask c =>
    match s.consumer with
    | none => some { s with consumer := some (c, s.shared.shm.read, c.code size) }
    | some _ => none
  | .consume =>
    match s.consumer with
    | none => none
    | some (c, start, .pure bytes) => some { s.deliver start bytes c with consumer := none }
    | some (c, start, .act x next) =>
      some { s with
        shared := (ConsumerCall.exec x s.shared).1
        consumer := some (c, start, next (ConsumerCall.exec x s.shared).2) }

def machine (size : ℕ) : Machine Spsc Action where
  initial := {}
  step := step size

def shm (s : Spsc) : ShmData := s.shared.shm

def committed (s : Spsc) : List UInt8 := s.shared.committed

structure InBounds (size : ℕ) (s : Spsc) : Prop where
  producer : ∀ c x next, s.producer = some (c, .act x next) → x.InBounds size
  consumer : ∀ c start x next, s.consumer = some (c, start, .act x next) → x.InBounds size

structure Prefix (s : Spsc) : Prop where
  length : s.obtained.length ≤ s.committed.length
  byte : ∀ (i : ℕ) b, s.obtained[i]? = some (some b) → s.committed[i]? = some b
  peek : ∀ p ∈ s.peeked, p.2 <+: s.committed.drop p.1

variable {size : ℕ}

def Producing (size : ℕ) (t : Shared) : Option (ProducerCall × Code Bool) → Prop
  | none => ProducerIdle size t
  | some (c, code) =>
    (c.party size).Wp (fun r u => Shared.Inv size u ∧ ProducerIdle size (c.settle u r)) code t

def Brought (place start : ℕ) (bytes : List UInt8) (t : Shared) : ConsumerCall → Prop
  | .read _ => bytes <+: t.committed.drop place ∧ t.consumed = place + bytes.length
  | .skip _ => t.consumed = place + sub64 t.shm.read start
  | .peek _ offset => bytes <+: t.committed.drop (place + offset) ∧ t.consumed = place

def Consuming (size : ℕ) (t : Shared) (place : ℕ) :
    Option (ConsumerCall × ℕ × Code (List UInt8)) → Prop
  | none => ConsumerIdle size t ∧ t.consumed = place
  | some (c, start, code) =>
    (Shm.consumer size).Wp
      (fun bytes u => Shared.Inv size u ∧ ConsumerIdle size u ∧ Brought place start bytes u c) code t

structure Inv (size : ℕ) (s : Spsc) : Prop where
  shared : Shared.Inv size s.shared
  producer : Producing size s.shared s.producer
  consumer : Consuming size s.shared s.obtained.length s.consumer
  place : s.obtained.length ≤ s.shared.consumed
  stream : Prefix s

lemma Producing.stable {t u : Shared} {p : Option (ProducerCall × Code Bool)}
    (h : Producing size t p) (hm : ConsumerMove size t u) : Producing size u p := by
  cases p with
  | none => exact ProducerIdle.stable h hm
  | some task =>
    apply Party.Wp.stable h hm
    rintro r v w ⟨hinv, hidle⟩ hvw
    exact ⟨hvw.inv hinv, hidle.stable (settle_move hvw)⟩

lemma Brought.stable {place start : ℕ} {bytes : List UInt8} {t u : Shared} {c : ConsumerCall}
    (h : Brought place start bytes t c) (hm : ProducerMove size t u) :
    Brought place start bytes u c := by
  cases c with
  | read len => exact ⟨h.1.trans (hm.committed.drop _), hm.consumed.trans h.2⟩
  | skip len =>
    simp only [Brought] at h ⊢
    rw [hm.consumed, hm.read, h]
  | peek len offset => exact ⟨h.1.trans (hm.committed.drop _), hm.consumed.trans h.2⟩

lemma Consuming.stable {t u : Shared} {place : ℕ}
    {p : Option (ConsumerCall × ℕ × Code (List UInt8))} (h : Consuming size t place p)
    (hm : ProducerMove size t u) : Consuming size u place p := by
  cases p with
  | none => exact ⟨ConsumerIdle.stable h.1 hm, hm.consumed.trans h.2⟩
  | some task =>
    apply Party.Wp.stable h hm
    rintro bytes v w ⟨hinv, hidle, hb⟩ hvw
    exact ⟨hvw.inv hinv, hidle.stable hvw, hb.stable hvw⟩

lemma consuming_call {t : Shared} (c : ConsumerCall) (hm : size < 2 ^ 63)
    (hinv : Shared.Inv size t) (hidle : ConsumerIdle size t) :
    Consuming size t t.consumed (some (c, t.shm.read, c.code size)) := by
  cases c with
  | read len =>
    apply (read_wp len hm hinv hidle).mono
    rintro bytes u ⟨hu, huidle, hgot, hcon⟩
    exact ⟨hu, huidle, hgot.stream, hcon⟩
  | skip len =>
    apply Party.wp_bind.mpr
    apply (skip_wp len hm hinv hidle).mono
    rintro _ u ⟨hu, huidle, _, n, _, hn, _, hcon, hread⟩
    refine ⟨hu, huidle, ?_⟩
    rw [Brought, hread, sub64_add64 hinv.read_lt (by omega), hcon]
  | peek len offset =>
    apply (peek_wp len offset hm hinv hidle).mono
    rintro bytes u ⟨hu, huidle, hgot, hcon⟩
    exact ⟨hu, huidle, hgot.stream, hcon⟩

lemma Prefix.mono {s t : Spsc} (h : Prefix s) (hc : s.committed <+: t.committed)
    (ho : t.obtained = s.obtained) (hp : t.peeked = s.peeked) : Prefix t := by
  refine ⟨?_, ?_, ?_⟩
  · rw [ho]
    exact h.length.trans hc.length_le
  · intro i b hb
    rw [ho] at hb
    have hi := (List.getElem?_eq_some_iff.mp (h.byte i b hb)).1
    obtain ⟨rest, hrest⟩ := hc
    rw [← hrest, List.getElem?_append_left hi]
    exact h.byte i b hb
  · intro p hp'
    rw [hp] at hp'
    exact (h.peek p hp').trans (hc.drop _)

lemma inv_initial : Inv size {} :=
  ⟨Shared.inv_initial, producerIdle_initial, ⟨consumerIdle_initial, rfl⟩, le_rfl,
    ⟨Nat.zero_le _, nofun, nofun⟩⟩

lemma produce_inv {s t : Spsc} (h : Inv size s) (ht : step size s .produce = some t) :
    Inv size t := by
  obtain ⟨sh, producer, consumer, obtained, peeked⟩ := s
  cases producer with
  | none => simp [step] at ht
  | some task =>
    obtain ⟨c, code⟩ := task
    cases code with
    | pure r =>
      obtain rfl := Option.some.inj ht
      obtain ⟨_, hidle⟩ := h.producer
      have hmove : ProducerMove size sh (c.settle sh r) := settle_produced sh c r
      refine ⟨hmove.inv h.shared, hidle, h.consumer.stable hmove, ?_, ?_⟩
      · exact h.place.trans hmove.consumed.ge
      · exact h.stream.mono hmove.committed rfl rfl
    | act x next =>
      obtain rfl := Option.some.inj ht
      obtain ⟨⟨_, hmove⟩, hnext⟩ := h.producer sh (ConsumerMove.refl sh)
      refine ⟨hmove.inv h.shared, hnext, h.consumer.stable hmove, ?_, ?_⟩
      · exact h.place.trans hmove.consumed.ge
      · exact h.stream.mono hmove.committed rfl rfl

lemma obtain_some {cs bytes : List UInt8} {obtained : List (Option UInt8)}
    (hbyte : ∀ (i : ℕ) b, obtained[i]? = some (some b) → cs[i]? = some b)
    (hbytes : bytes <+: cs.drop obtained.length) (i : ℕ) (b : UInt8)
    (hb : (obtained ++ bytes.map some)[i]? = some (some b)) : cs[i]? = some b := by
  by_cases hi : i < obtained.length
  · rw [List.getElem?_append_left hi] at hb
    exact hbyte i b hb
  · rw [List.getElem?_append_right (by omega), List.getElem?_map] at hb
    have hb' : bytes[i - obtained.length]? = some b := by simpa using hb
    have hlt := (List.getElem?_eq_some_iff.mp hb').1
    obtain ⟨rest, hrest⟩ := hbytes
    have hget : (cs.drop obtained.length)[i - obtained.length]? = some b := by
      rw [← hrest, List.getElem?_append_left hlt, hb']
    rwa [List.getElem?_drop, show obtained.length + (i - obtained.length) = i by omega] at hget

lemma obtain_none {cs : List UInt8} {obtained : List (Option UInt8)} {n : ℕ}
    (hbyte : ∀ (i : ℕ) b, obtained[i]? = some (some b) → cs[i]? = some b) (i : ℕ) (b : UInt8)
    (hb : (obtained ++ List.replicate n none)[i]? = some (some b)) : cs[i]? = some b := by
  by_cases hi : i < obtained.length
  · rw [List.getElem?_append_left hi] at hb
    exact hbyte i b hb
  · rw [List.getElem?_append_right (by omega), List.getElem?_replicate] at hb
    split at hb <;> simp at hb

lemma deliver_inv {s : Spsc} {start : ℕ} {bytes : List UInt8} {c : ConsumerCall}
    (h : Inv size s) (hidle : ConsumerIdle size s.shared)
    (hb : Brought s.obtained.length start bytes s.shared c) :
    Inv size { s.deliver start bytes c with consumer := none } := by
  have hle := h.shared.consumed_le
  cases c with
  | read len =>
    obtain ⟨hbytes, hcon⟩ := hb
    have hlen : (s.obtained ++ bytes.map some).length = s.shared.consumed := by simp [hcon]
    exact ⟨h.shared, h.producer, ⟨hidle, hlen.symm⟩, hlen.le, hlen.le.trans hle,
      obtain_some h.stream.byte hbytes, h.stream.peek⟩
  | skip len =>
    have hlen : (s.obtained ++ List.replicate (sub64 s.shared.shm.read start) none).length =
        s.shared.consumed := by simpa using hb.symm
    exact ⟨h.shared, h.producer, ⟨hidle, hlen.symm⟩, hlen.le, hlen.le.trans hle,
      obtain_none h.stream.byte, h.stream.peek⟩
  | peek len offset =>
    obtain ⟨hbytes, hcon⟩ := hb
    refine ⟨h.shared, h.producer, ⟨hidle, hcon⟩, h.place, h.stream.length, h.stream.byte, ?_⟩
    intro p hp
    rcases List.mem_append.mp hp with hp | hp
    · exact h.stream.peek p hp
    · obtain rfl := List.mem_singleton.mp hp
      exact hbytes

lemma consume_inv {s t : Spsc} (h : Inv size s) (ht : step size s .consume = some t) :
    Inv size t := by
  obtain ⟨sh, producer, consumer, obtained, peeked⟩ := s
  cases consumer with
  | none => simp [step] at ht
  | some task =>
    obtain ⟨c, start, code⟩ := task
    cases code with
    | pure bytes =>
      obtain rfl := Option.some.inj ht
      obtain ⟨_, hidle, hb⟩ := h.consumer
      exact deliver_inv h hidle hb
    | act x next =>
      obtain rfl := Option.some.inj ht
      obtain ⟨⟨_, hmove⟩, hnext⟩ := h.consumer sh (ProducerMove.refl sh)
      refine ⟨hmove.inv h.shared, h.producer.stable hmove, hnext, ?_, ?_⟩
      · exact h.place.trans hmove.consumed
      · refine h.stream.mono ⟨[], ?_⟩ rfl rfl
        rw [List.append_nil]
        exact hmove.committed.symm

lemma step_inv (hs : 0 < size) (hm : size < 2 ^ 63) {s t : Spsc} {a : Action} (h : Inv size s)
    (ht : step size s a = some t) : Inv size t := by
  cases a with
  | call c =>
    obtain ⟨sh, producer, consumer, obtained, peeked⟩ := s
    cases producer with
    | none =>
      obtain rfl := Option.some.inj ht
      exact ⟨h.shared, producer_wp c hs hm h.shared h.producer, h.consumer, h.place, h.stream.mono
        List.prefix_rfl rfl rfl⟩
    | some task => simp [step] at ht
  | produce => exact produce_inv h ht
  | ask c =>
    obtain ⟨sh, producer, consumer, obtained, peeked⟩ := s
    cases consumer with
    | none =>
      obtain rfl := Option.some.inj ht
      obtain ⟨hidle, hcon⟩ := h.consumer
      have hcall := consuming_call c hm h.shared hidle
      exact ⟨h.shared, h.producer, hcon ▸ hcall, h.place, h.stream.mono List.prefix_rfl rfl rfl⟩
    | some task => simp [step] at ht
  | consume => exact consume_inv h ht

lemma Inv.inBounds {s : Spsc} (h : Inv size s) : InBounds size s := by
  refine ⟨?_, ?_⟩
  · intro c x next hp
    have hwp := h.producer
    rw [hp] at hwp
    exact (hwp s.shared (ConsumerMove.refl _)).1.1
  · intro c start x next hp
    have hwp := h.consumer
    rw [hp] at hwp
    exact (hwp s.shared (ProducerMove.refl _)).1.1

theorem ring_carries_stream (seg : Segment) (hs : 0 < seg.size) (s : Spsc)
    (h : (machine seg.size).Reachable s) :
    sub64 s.shm.write s.shm.read ≤ seg.size ∧ InBounds seg.size s ∧ Prefix s := by
  have hm : seg.size < 2 ^ 63 := by
    have := seg.mapped
    omega
  have hinv : Inv seg.size s :=
    Machine.reachable_invariant (M := machine seg.size) (I := Inv seg.size) inv_initial
      (fun _ _ _ hi ht => step_inv hs hm hi ht) h
  have hle := hinv.shared.fits
  have hread : sub64 s.shm.write s.shm.read = _ := hinv.shared.readable
  refine ⟨?_, hinv.inBounds, hinv.stream⟩
  omega

def wrappedRun : List Action :=
  [Action.call (.write [1, 2])] ++ List.replicate 8 Action.produce ++
  [Action.ask (.skip 1)] ++ List.replicate 7 Action.consume ++
  [Action.call (.write [3, 4])] ++ List.replicate 9 Action.produce ++
  [Action.ask (.read 9)] ++ List.replicate 9 Action.consume

lemma wrappedRun_result : ((machine 3).run {} wrappedRun).map (fun s => (s.obtained, s.committed)) =
    some ([none, some 2, some 3, some 4], [1, 2, 3, 4]) := by
  decide +kernel

theorem ring_carries_stream_wrapped : ∃ s, (machine 3).run {} wrappedRun = some s ∧
    (s.obtained, s.committed) = ([none, some 2, some 3, some 4], [1, 2, 3, 4]) ∧
    sub64 s.shm.write s.shm.read ≤ 3 ∧ InBounds 3 s ∧ Prefix s := by
  obtain ⟨s, hs, hres⟩ := Option.map_eq_some_iff.mp wrappedRun_result
  exact ⟨s, hs, hres, ring_carries_stream ⟨3, by norm_num⟩ (by norm_num) s ⟨wrappedRun, hs⟩⟩

end Spsc

end Simple.Shm
