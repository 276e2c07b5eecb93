import Simple.Shm.Buffer

/-! The ring together with the byte stream it carries. The stream is read off the
arguments of the producer's calls, so a byte that the code puts in the wrong place
shows as a difference between the ring and the stream. -/

namespace Simple.Shm

open Simple.Lib Simple.Lib.Cyclic

lemma sub64_eq {a b : ℕ} (h : b ≤ a) (ha : a < 2 ^ 64) : sub64 a b = a - b := by
  unfold sub64
  omega

lemma add64_eq {a b : ℕ} (h : a + b < 2 ^ 64) : add64 a b = a + b := Nat.mod_eq_of_lt h

lemma sub64_add64 {a n : ℕ} (ha : a < 2 ^ 64) (hn : n < 2 ^ 64) : sub64 (add64 a n) a = n := by
  unfold sub64 add64
  omega

/-- `committed` is everything the producer has made visible, `staged` what `fill` has
put at an offset behind it, `consumed` how much of it the consumer has given back. -/
structure Shared where
  shm : ShmData := {}
  committed : List UInt8 := []
  staged : ℕ → Option UInt8 := fun _ => none
  consumed : ℕ := 0

namespace Shared

structure Inv (size : ℕ) (s : Shared) : Prop where
  read_lt : s.shm.read < 2 ^ 64
  write_lt : s.shm.write < 2 ^ 64
  consumed_le : s.consumed ≤ s.committed.length
  fits : s.committed.length ≤ s.consumed + size
  readable : sub64 s.shm.write s.shm.read = s.committed.length - s.consumed
  holds : ∀ k, s.consumed ≤ k → k < s.committed.length → s.committed[k]? = some (s.shm.data (k % size))

structure ProducerIdle (size : ℕ) (s : Shared) : Prop where
  index : s.shm.writeIndex = s.committed.length % size
  room : ∀ i b, s.staged i = some b → s.committed.length + i < s.consumed + size
  cell : ∀ i b, s.staged i = some b → s.shm.data ((s.committed.length + i) % size) = b

def ConsumerIdle (size : ℕ) (s : Shared) : Prop := s.shm.readIndex = s.consumed % size

structure ConsumerMove (size : ℕ) (s t : Shared) : Prop where
  write : t.shm.write = s.shm.write
  writeIndex : t.shm.writeIndex = s.shm.writeIndex
  data : t.shm.data = s.shm.data
  committed : t.committed = s.committed
  staged : t.staged = s.staged
  consumed : s.consumed ≤ t.consumed
  inv : Inv size s → Inv size t

structure ProducerMove (size : ℕ) (s t : Shared) : Prop where
  read : t.shm.read = s.shm.read
  readIndex : t.shm.readIndex = s.shm.readIndex
  consumed : t.consumed = s.consumed
  committed : s.committed <+: t.committed
  inv : Inv size s → Inv size t

variable {size : ℕ} {s t u : Shared}

lemma ConsumerMove.refl (s : Shared) : ConsumerMove size s s :=
  ⟨rfl, rfl, rfl, rfl, rfl, le_rfl, id⟩

lemma ConsumerMove.trans (h : ConsumerMove size s t) (h' : ConsumerMove size t u) :
    ConsumerMove size s u :=
  ⟨h'.write.trans h.write, h'.writeIndex.trans h.writeIndex, h'.data.trans h.data,
    h'.committed.trans h.committed, h'.staged.trans h.staged, h.consumed.trans h'.consumed,
    h'.inv ∘ h.inv⟩

lemma ProducerMove.refl (s : Shared) : ProducerMove size s s :=
  ⟨rfl, rfl, rfl, List.prefix_rfl, id⟩

lemma ProducerMove.trans (h : ProducerMove size s t) (h' : ProducerMove size t u) :
    ProducerMove size s u :=
  ⟨h'.read.trans h.read, h'.readIndex.trans h.readIndex, h'.consumed.trans h.consumed,
    h.committed.trans h'.committed, h'.inv ∘ h.inv⟩

lemma ConsumerMove.written (h : ConsumerMove size s t) : t.committed.length = s.committed.length :=
  congrArg List.length h.committed

lemma ProducerIdle.stable (h : ProducerIdle size s) (hm : ConsumerMove size s t) :
    ProducerIdle size t := by
  have hw := hm.written
  refine ⟨?_, ?_, ?_⟩
  · rw [hm.writeIndex, hw, h.index]
  · intro i b hb
    have := h.room i b (hm.staged ▸ hb)
    have := hm.consumed
    omega
  · intro i b hb
    rw [hm.data, hw]
    exact h.cell i b (hm.staged ▸ hb)

lemma ProducerIdle.lt_size (h : ProducerIdle size s) (hinv : Inv size s) {i : ℕ} {b : UInt8}
    (hb : s.staged i = some b) : i < size := by
  have := h.room i b hb
  have := hinv.consumed_le
  omega

lemma ConsumerIdle.stable (h : ConsumerIdle size s) (hm : ProducerMove size s t) :
    ConsumerIdle size t := by
  rw [ConsumerIdle, hm.readIndex, hm.consumed]
  exact h

lemma inv_initial : Inv size {} := by
  refine ⟨by simp, by simp, le_rfl, Nat.zero_le _, by simp [sub64], ?_⟩
  intro k _ hk
  simp at hk

lemma producerIdle_initial : ProducerIdle size {} := by
  refine ⟨by simp, ?_, ?_⟩ <;> intro i b hb <;> simp at hb

lemma consumerIdle_initial : ConsumerIdle size {} := by simp [ConsumerIdle]

def setWriteIndex (s : Shared) (v : ℕ) : Shared := { s with shm := { s.shm with writeIndex := v } }

def setReadIndex (s : Shared) (v : ℕ) : Shared := { s with shm := { s.shm with readIndex := v } }

lemma Inv.setWriteIndex (h : Inv size s) (v : ℕ) : Inv size (s.setWriteIndex v) :=
  ⟨h.read_lt, h.write_lt, h.consumed_le, h.fits, h.readable, h.holds⟩

lemma Inv.setReadIndex (h : Inv size s) (v : ℕ) : Inv size (s.setReadIndex v) :=
  ⟨h.read_lt, h.write_lt, h.consumed_le, h.fits, h.readable, h.holds⟩

lemma ConsumerMove.setWriteIndex (h : ConsumerMove size s t) (v : ℕ) :
    ConsumerMove size (s.setWriteIndex v) (t.setWriteIndex v) := by
  refine ⟨h.write, rfl, h.data, h.committed, h.staged, h.consumed, ?_⟩
  intro hinv
  exact (h.inv (hinv.setWriteIndex s.shm.writeIndex)).setWriteIndex v

lemma Inv.writable (h : Inv size s) (hs : size < 2 ^ 63) :
    sub64 (add64 size s.shm.read) s.shm.write = s.consumed + size - s.committed.length := by
  have h1 := h.read_lt
  have h2 := h.write_lt
  have h3 := h.consumed_le
  have h4 := h.fits
  have h5 := h.readable
  unfold sub64 add64 at *
  omega

lemma Inv.readable_commit (h : Inv size s) (hs : size < 2 ^ 63) {n : ℕ}
    (hn : s.committed.length + n ≤ s.consumed + size) :
    sub64 (add64 s.shm.write n) s.shm.read = s.committed.length + n - s.consumed := by
  have h1 := h.read_lt
  have h2 := h.write_lt
  have h3 := h.consumed_le
  have h5 := h.readable
  unfold sub64 add64 at *
  omega

lemma Inv.readable_consume (h : Inv size s) (hs : size < 2 ^ 63) {n : ℕ}
    (hn : s.consumed + n ≤ s.committed.length) :
    sub64 s.shm.write (add64 s.shm.read n) = s.committed.length - (s.consumed + n) := by
  have h1 := h.read_lt
  have h2 := h.write_lt
  have h4 := h.fits
  have h5 := h.readable
  unfold sub64 add64 at *
  omega

lemma Inv.overwrite (h : Inv size s) (hs : 0 < size) {offset : ℕ} {xs : List UInt8}
    (hr : s.committed.length + offset + xs.length ≤ s.consumed + size)
    (hread : t.shm.read = s.shm.read) (hwrite : t.shm.write = s.shm.write)
    (hd : t.shm.data = Cyclic.overwrite s.shm.data size (s.committed.length + offset) xs)
    (hcom : t.committed = s.committed) (hcon : t.consumed = s.consumed) : Inv size t := by
  have hc := h.consumed_le
  refine ⟨hread ▸ h.read_lt, hwrite ▸ h.write_lt, ?_, ?_, ?_, ?_⟩
  · rw [hcom, hcon]
    exact h.consumed_le
  · rw [hcom, hcon]
    exact h.fits
  · rw [hread, hwrite, hcom, hcon]
    exact h.readable
  · intro k hk hk'
    rw [hcon] at hk
    rw [hcom] at hk' ⊢
    rw [h.holds k hk hk', hd, overwrite_before hs (by omega) (by omega)]

lemma Inv.commit (h : Inv size s) (hs : size < 2 ^ 63) {bytes : List UInt8}
    (hr : s.committed.length + bytes.length ≤ s.consumed + size)
    (hb : segment s.shm.data size s.committed.length bytes.length = bytes)
    (hread : t.shm.read = s.shm.read) (hwrite : t.shm.write = add64 s.shm.write bytes.length)
    (hd : t.shm.data = s.shm.data) (hcom : t.committed = s.committed ++ bytes)
    (hcon : t.consumed = s.consumed) : Inv size t := by
  have hc := h.consumed_le
  have hlen : t.committed.length = s.committed.length + bytes.length := by simp [hcom]
  refine ⟨hread ▸ h.read_lt, ?_, ?_, ?_, ?_, ?_⟩
  · rw [hwrite]
    exact Nat.mod_lt _ (by norm_num)
  · omega
  · omega
  · rw [hread, hwrite, hlen, hcon]
    exact h.readable_commit hs hr
  · intro k hk hk'
    rw [hcon] at hk
    rw [hlen] at hk'
    rw [hcom, hd]
    by_cases hold : k < s.committed.length
    · rw [List.getElem?_append_left hold]
      exact h.holds k hk hold
    · rw [List.getElem?_append_right (by omega), ← hb]
      simp only [Cyclic.segment, List.getElem?_map]
      rw [List.getElem?_range (by omega), Option.map_some,
        show s.committed.length + (k - s.committed.length) = k by omega]

lemma Inv.consume (h : Inv size s) (hs : size < 2 ^ 63) {n : ℕ}
    (hn : s.consumed + n ≤ s.committed.length)
    (hread : t.shm.read = add64 s.shm.read n) (hwrite : t.shm.write = s.shm.write)
    (hd : t.shm.data = s.shm.data) (hcom : t.committed = s.committed)
    (hcon : t.consumed = s.consumed + n) : Inv size t := by
  have hf := h.fits
  refine ⟨?_, hwrite ▸ h.write_lt, ?_, ?_, ?_, ?_⟩
  · rw [hread]
    exact Nat.mod_lt _ (by norm_num)
  · rwa [hcom, hcon]
  · rw [hcom, hcon]
    omega
  · rw [hread, hwrite, hcom, hcon]
    exact h.readable_consume hs hn
  · intro k hk hk'
    rw [hcon] at hk
    rw [hcom] at hk' ⊢
    rw [hd]
    exact h.holds k (by omega) hk'

lemma Inv.segment (h : Inv size s) {p n : ℕ} (hp : s.consumed ≤ p) (hn : p + n ≤ s.committed.length) :
    segment s.shm.data size p n = (s.committed.drop p).take n := by
  apply List.ext_getElem?
  intro j
  by_cases hj : j < n
  · rw [List.getElem?_take_of_lt hj, List.getElem?_drop, h.holds (p + j) (by omega) (by omega)]
    simp [Cyclic.segment, hj]
  · rw [List.getElem?_eq_none (by simp; omega), List.getElem?_eq_none (by simp; omega)]

lemma slice_of_prefix {xs ys : List UInt8} (h : xs <+: ys) {p n : ℕ} (hn : p + n ≤ xs.length) :
    (ys.drop p).take n = (xs.drop p).take n := by
  obtain ⟨zs, rfl⟩ := h
  rw [List.drop_append_of_le_length (by omega), List.take_append_of_le_length (by simp; omega)]

lemma slice_split {xs : List UInt8} {p m n : ℕ} (h : m ≤ n) :
    (xs.drop p).take m ++ (xs.drop (p + m)).take (n - m) = (xs.drop p).take n := by
  rw [← List.drop_drop, ← List.take_add, Nat.add_sub_cancel' h]

end Shared

lemma advance_index (pos : ℕ) {size len : ℕ} (hs : 0 < size) (hm : size < 2 ^ 63) (hl : len ≤ size) :
    (if sub64 size (pos % size) < len then sub64 len (sub64 size (pos % size))
      else if add64 (pos % size) len = size then 0 else add64 (pos % size) len) =
      (pos + len) % size := by
  have hp := Nat.mod_lt pos hs
  rw [add_mod_cases hs hl, sub64_eq hp.le (by omega), add64_eq (by omega)]
  generalize pos % size = idx at *
  by_cases hc : size - idx < len
  · rw [if_pos hc, sub64_eq hc.le (by omega), if_neg (by omega)]
    omega
  · rw [if_neg hc]
    split_ifs <;> omega

lemma wrap_add {size pos offset : ℕ} (hs : 0 < size) (hm : size < 2 ^ 63) (ho : offset ≤ size) :
    ShmBuffer.wrap size (add64 (pos % size) offset) = (pos + offset) % size := by
  have hp := Nat.mod_lt pos hs
  rw [add_mod_cases hs ho, add64_eq (by omega), ShmBuffer.wrap]
  generalize pos % size = idx at *
  split_ifs
  · omega
  · rw [sub64_eq (by omega) (by omega)]
  · rfl
  · omega

end Simple.Shm
