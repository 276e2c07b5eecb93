import Simple.Containers.BufferMemory

/-! What the objects of a memory are, each by itself. -/

namespace Simple.Containers

open Simple.Lib Simple.Lib.Cyclic

namespace MemoryBuffer

variable {b : MemoryBuffer} {bytes : List UInt8} {n : ℕ}

def regrow (b : MemoryBuffer) (fresh : ℕ → UInt8) (n : ℕ) (h : b.write ≤ n) : MemoryBuffer where
  capacity := n
  read := b.read
  write := b.write
  data := fun i => if i < b.write then b.data i else fresh i
  read_le := b.read_le
  write_le := h

def prepend (b : MemoryBuffer) (bytes : List UInt8) : MemoryBuffer :=
  { b with
    read := b.read - bytes.length
    data := writeRange b.data (b.read - bytes.length) bytes
    read_le := (Nat.sub_le _ _).trans b.read_le }

def empty (data : ℕ → UInt8) : MemoryBuffer := ⟨0, 0, 0, data, le_rfl, le_rfl⟩

lemma writeRange_of_mem {data : ℕ → UInt8} {i j : ℕ} (hj : j < bytes.length) :
    writeRange data i bytes (i + j) = bytes[j] := by
  rw [writeRange, if_pos (Nat.le_add_right i j), Nat.add_sub_cancel_left, List.getD_eq_getElem _ _ hj]

lemma writeRange_of_le {data : ℕ → UInt8} {i j : ℕ} (h : i + bytes.length ≤ j) :
    writeRange data i bytes j = data j := by
  rw [writeRange, if_pos (by omega), List.getD_eq_default _ _ (by omega)]

lemma regrow_contents {fresh : ℕ → UInt8} (h : b.write ≤ n) : (b.regrow fresh n h).contents = b.contents := by
  refine List.map_congr_left fun j hj => ?_
  have hj' := List.mem_range.mp hj
  have hle := b.read_le
  simp only [readable, regrow] at hj'
  simp only [regrow]
  rw [if_pos (by omega)]

lemma writeRange_readRange {data fresh : ℕ → UInt8} :
    writeRange fresh 0 (readRange data 0 n) = fun i => if i < n then data i else fresh i := by
  funext i
  rw [writeRange, if_pos (Nat.zero_le i), Nat.sub_zero]
  split_ifs with hi
  · rw [List.getD_eq_getElem _ _ (by rwa [readRange_length])]
    simp [readRange]
  · rw [List.getD_eq_default _ _ (by rw [readRange_length]; omega)]

@[simp] lemma empty_contents (data : ℕ → UInt8) : (empty data).contents = [] := rfl

lemma prepend_contents (h : bytes.length ≤ b.read) : (b.prepend bytes).contents = bytes ++ b.contents := by
  have hle := b.read_le
  apply List.ext_getElem
  · simp only [contents_length, List.length_append, readable, prepend]
    omega
  · intro j hj hj'
    simp only [contents, readRange, prepend, List.getElem_map, List.getElem_range]
    by_cases hlt : j < bytes.length
    · rw [writeRange_of_mem hlt, List.getElem_append_left hlt]
    · rw [List.getElem_append_right (by omega), writeRange_of_le (by omega)]
      simp only [List.getElem_map, List.getElem_range]
      congr 1
      omega

end MemoryBuffer

namespace BufferMemory

variable {P A : Type} {fixed : ℕ} {w w' : BufferMemory P A} {p q : P}
  {b c : BaseBuffer P A} {v v' : MemoryBuffer} {vs : P → Option MemoryBuffer} {i n : ℕ}
  {bytes : List UInt8}

lemma store_ne_block (p : P) (a : A) : (.store p : Pointer P A) ≠ .block a := by simp

/-- The object at `p` has the bytes and the indices of `v`. -/
structure Rep (fixed : ℕ) (w : BufferMemory P A) (p : P) (b : BaseBuffer P A) (v : MemoryBuffer) : Prop where
  capacity : b.capacity = v.capacity
  read : b.read = v.read
  write : b.write = v.write
  region : ∃ g, w.memory b.data = some g ∧ g.cells = v.data ∧ v.capacity ≤ g.size ∧
    (b.data ≠ .store p → g.size = v.capacity)
  place : b.data = .store p ∨ ∃ a, b.data = .block a
  store : ∃ cells, w.memory (.store p) = some ⟨fixed, cells⟩
  max : v.capacity ≤ MemoryBuffer.maxSize

structure Holds (fixed : ℕ) (w : BufferMemory P A) (vs : P → Option MemoryBuffer) : Prop where
  live : ∀ p v, vs p = some v → ∃ b, w.objects p = some b ∧ Rep fixed w p b v
  dead : ∀ p, vs p = none → w.objects p = none
  apart : ∀ p q b c, w.objects p = some b → w.objects q = some c → b.data = c.data → p = q

lemma Rep.congr (hr : Rep fixed w p b v) (hdata : w'.memory b.data = w.memory b.data)
    (hstore : w'.memory (.store p) = w.memory (.store p)) : Rep fixed w' p b v :=
  ⟨hr.capacity, hr.read, hr.write, hdata ▸ hr.region, hr.place, hstore ▸ hr.store, hr.max⟩

lemma Rep.data_ne_store (hr : Rep fixed w p b v) (hq : q ≠ p) : b.data ≠ .store q := by
  rcases hr.place with hd | ⟨a, hd⟩ <;> rw [hd]
  · exact fun he => hq (Pointer.store.inj he).symm
  · exact fun he => by cases he

lemma Holds.rep (h : Holds fixed w vs) (hp : vs p = some v) (hb : w.objects p = some b) : Rep fixed w p b v := by
  obtain ⟨c, hc, hr⟩ := h.live p v hp
  rwa [Option.some.inj (hb.symm.trans hc)]

lemma ne_of_dead (hp : w.objects p = none) (hq : w.objects q = some c) : p ≠ q := by
  rintro rfl
  cases hp.symm.trans hq

lemma Holds.object (h : Holds fixed w vs) (hb : w.objects p = some b) : ∃ v, vs p = some v ∧ Rep fixed w p b v := by
  cases hv : vs p with
  | none => cases (h.dead p hv).symm.trans hb
  | some v => exact ⟨v, rfl, h.rep hv hb⟩

lemma Holds.data_ne (h : Holds fixed w vs) (hb : w.objects p = some b) (hc : w.objects q = some c)
    (hq : q ≠ p) : c.data ≠ b.data := fun he => hq (h.apart q p c b hc hb he)

lemma get_eq (hb : w.objects p = some b) : w.get p = .returns b := by rw [BufferMemory.get, hb, Result.ofOption_some]

lemma Rep.readable (hr : Rep fixed w p b v) : b.readable = v.readable := by
  rw [BaseBuffer.readable, MemoryBuffer.readable, hr.read, hr.write]

lemma Rep.writable (hr : Rep fixed w p b v) : b.writable = v.writable := by
  rw [BaseBuffer.writable, MemoryBuffer.writable, hr.capacity, hr.write]

lemma Holds.load (h : Holds fixed w vs) (hp : vs p = some v) (hb : w.objects p = some b)
    (hi : i + n ≤ v.capacity) : w.memory.load b.data i n = .returns (readRange v.data i n) := by
  have hr := h.rep hp hb
  obtain ⟨g, hg, hcells, hsize, -⟩ := hr.region
  rw [Memory.load_eq hg (hi.trans hsize), hcells]

variable [DecidableEq P]

structure Sets (fixed : ℕ) (w : BufferMemory P A) (vs : P → Option MemoryBuffer) (p : P)
    (w' : BufferMemory P A) (v : MemoryBuffer) : Prop where
  holds : Holds fixed w' (Function.update vs p (some v))
  others : ∀ q, q ≠ p → w'.objects q = w.objects q

lemma Holds.update (h : Holds fixed w vs) (hobjects : ∀ q, q ≠ p → w'.objects q = w.objects q)
    (hregion : ∀ q c, q ≠ p → w.objects q = some c →
      w'.memory c.data = w.memory c.data ∧ w'.memory (.store q) = w.memory (.store q) ∧ c.data ≠ b.data)
    (hb : w'.objects p = some b) (hr : Rep fixed w' p b v) : Sets fixed w vs p w' v := by
  refine ⟨⟨?live, ?dead, ?apart⟩, hobjects⟩
  case live =>
    intro q u hu
    by_cases hq : q = p
    · subst hq
      rw [Function.update_self] at hu
      obtain rfl := Option.some.inj hu
      exact ⟨b, hb, hr⟩
    · rw [Function.update_of_ne hq] at hu
      obtain ⟨c, hc, hrc⟩ := h.live q u hu
      obtain ⟨hdata, hstore, -⟩ := hregion q c hq hc
      exact ⟨c, (hobjects q hq).trans hc, hrc.congr hdata hstore⟩
  case dead =>
    intro q hq
    by_cases hqp : q = p
    · subst hqp
      rw [Function.update_self] at hq
      cases hq
    · rw [Function.update_of_ne hqp] at hq
      exact (hobjects q hqp).trans (h.dead q hq)
  case apart =>
    intro q k c d hc hd he
    by_cases hq : q = p
    · subst hq
      obtain rfl := Option.some.inj (hb.symm.trans hc)
      by_contra hk
      have hk := Ne.symm hk
      exact (hregion k d hk ((hobjects k hk).symm.trans hd)).2.2 he.symm
    · have hc' := (hobjects q hq).symm.trans hc
      by_cases hk : k = p
      · subst hk
        obtain rfl := Option.some.inj (hb.symm.trans hd)
        exact absurd he (hregion q c hq hc').2.2
      · exact h.apart q k c d hc' ((hobjects k hk).symm.trans hd) he

lemma Sets.trans {w'' : BufferMemory P A} (h : Sets fixed w vs p w' v)
    (h' : Sets fixed w' (Function.update vs p (some v)) p w'' v') : Sets fixed w vs p w'' v' where
  holds := by simpa only [Function.update_idem] using h'.holds
  others q hq := (h'.others q hq).trans (h.others q hq)

lemma Sets.view (_ : Sets fixed w vs p w' v) : Function.update vs p (some v) p = some v :=
  Function.update_self ..

@[simp] lemma put_self : (w.put p b).objects p = some b := Function.update_self ..

lemma put_of_ne (hq : q ≠ p) : (w.put p b).objects q = w.objects q := Function.update_of_ne hq ..

lemma Holds.put {b' : BaseBuffer P A} (h : Holds fixed w vs) (hp : vs p = some v) (hb : w.objects p = some b)
    (hd : b'.data = b.data) (hc : b'.capacity = b.capacity) (hread : b'.read = v'.read)
    (hwrite : b'.write = v'.write) (hcapacity : v'.capacity = v.capacity) (hdata : v'.data = v.data) :
    Sets fixed w vs p (w.put p b') v' := by
  have hr := h.rep hp hb
  refine h.update (fun q hq => put_of_ne hq) ?_ put_self
    ⟨(hc.trans hr.capacity).trans hcapacity.symm, hread, hwrite, ?_, ?_, hr.store, hcapacity ▸ hr.max⟩
  · intro q c hq hc
    rw [hd]
    exact ⟨rfl, rfl, h.data_ne hb hc hq⟩
  · rw [hcapacity, hdata, hd]
    exact hr.region
  · rw [hd]
    exact hr.place

variable [DecidableEq A]

lemma Holds.memmove (h : Holds fixed w vs) (hp : vs p = some v) (hb : w.objects p = some b)
    (hi : i + bytes.length ≤ v.capacity) :
    ∃ w', w.memmove b.data i bytes = .returns w' ∧ w'.objects = w.objects ∧
      Sets fixed w vs p w' { v with data := writeRange v.data i bytes } := by
  have hr := h.rep hp hb
  obtain ⟨g, hg, hcells, hsize, hblock⟩ := hr.region
  refine ⟨{ w with memory := w.memory.map b.data { g with cells := writeRange g.cells i bytes } }, ?_, rfl, ?_⟩
  · rw [BufferMemory.memmove, Memory.save_eq hg (hi.trans hsize), Result.bind_returns]
  refine h.update (fun _ _ => rfl) ?_ hb ⟨hr.capacity, hr.read, hr.write, ?_, hr.place, ?_, hr.max⟩
  · intro q c hq hc
    have hne := h.data_ne hb hc hq
    exact ⟨Memory.map_of_ne hne, Memory.map_of_ne (hr.data_ne_store hq).symm, hne⟩
  · refine ⟨_, Memory.map_self, ?_, hsize, hblock⟩
    rw [← hcells]
  · obtain ⟨cells, hcells'⟩ := hr.store
    by_cases hs : (.store p : Pointer P A) = b.data
    · rw [hs] at hcells' ⊢
      obtain rfl := Option.some.inj (hg.symm.trans hcells')
      exact ⟨_, Memory.map_self⟩
    · exact ⟨cells, (Memory.map_of_ne hs).trans hcells'⟩

end BufferMemory

end Simple.Containers
