import Simple.Containers.BufferViews

/-! What the operations of `base_memory_buffer` do to the objects. -/

namespace Simple.Containers

open Simple.Lib Simple.Lib.Cyclic

namespace BufferMemory

variable {P A : Type} [DecidableEq P] {fixed : ℕ} {w w' : BufferMemory P A} {p q t : P}
  {b c : BaseBuffer P A} {v u : MemoryBuffer} {vs : P → Option MemoryBuffer} {i n : ℕ}
  {bytes : List UInt8} {alloc : Allocation A} {cells : ℕ → UInt8}

lemma Holds.clear (h : Holds fixed w vs) (hp : vs p = some v) (n : ℕ) :
    ∃ w', w.clear p n = .returns w' ∧ Sets fixed w vs p w' (v.clear n) := by
  obtain ⟨b, hb, hr⟩ := h.live p v hp
  rw [BufferMemory.clear, get_eq hb, Result.bind_returns, hr.capacity]
  exact ⟨_, rfl, h.put hp hb rfl hr.capacity.symm rfl rfl rfl rfl⟩

lemma Holds.written (h : Holds fixed w vs) (hp : vs p = some v) (n : ℕ) :
    ∃ w', w.written p n = .returns w' ∧ Sets fixed w vs p w' (v.written n) := by
  obtain ⟨b, hb, hr⟩ := h.live p v hp
  rw [BufferMemory.written, get_eq hb, Result.bind_returns, hr.writable, hr.write]
  exact ⟨_, rfl, h.put hp hb rfl rfl hr.read rfl rfl rfl⟩

lemma Holds.read (h : Holds fixed w vs) (hp : vs p = some v) (n : ℕ) :
    ∃ w', w.read p n = .returns w' ∧ Sets fixed w vs p w' (v.readBytes n) := by
  obtain ⟨b, hb, hr⟩ := h.live p v hp
  rw [BufferMemory.read, get_eq hb, Result.bind_returns, hr.readable, hr.read]
  exact ⟨_, rfl, h.put hp hb rfl rfl rfl hr.write rfl rfl⟩

lemma Holds.stays (h : Holds fixed w vs) (hp : vs p = some v) : Sets fixed w vs p w v where
  holds := by rwa [← hp, Function.update_eq_self]
  others _ _ := rfl

lemma Holds.readUntil (h : Holds fixed w vs) (hp : vs p = some v) {last : ℕ} (hlast : last ≤ v.write) :
    ∃ w', w.readUntil p last = .returns w' ∧ Sets fixed w vs p w' (v.readBytes (last - v.read)) := by
  obtain ⟨b, hb, hr⟩ := h.live p v hp
  have hle := v.read_le
  rw [BufferMemory.readUntil, get_eq hb, Result.bind_returns, hr.read, hr.write]
  split_ifs with hlt
  · refine ⟨_, rfl, h.put hp hb rfl rfl ?_ rfl rfl rfl⟩
    simp only [MemoryBuffer.readBytes, MemoryBuffer.readable]
    omega
  · have hsame : v.readBytes (last - v.read) = v := by
      have hzero : last - v.read = 0 := by omega
      simp [MemoryBuffer.readBytes, hzero]
    rw [hsame]
    exact ⟨w, rfl, h.stays hp⟩

lemma Holds.readUntil_beyond (h : Holds fixed w vs) (hp : vs p = some v) {last : ℕ} (hlast : v.write < last) :
    w.readUntil p last = .returns w := by
  obtain ⟨b, hb, hr⟩ := h.live p v hp
  rw [BufferMemory.readUntil, get_eq hb, Result.bind_returns, hr.read, hr.write, if_neg (by omega)]

variable [DecidableEq A]

lemma Holds.shrink (h : Holds fixed w vs) (hp : vs p = some v) :
    ∃ w', w.shrink p = .returns w' ∧ Sets fixed w vs p w' v.shrink := by
  obtain ⟨b, hb, hr⟩ := h.live p v hp
  have hle := v.read_le
  have hle' := v.write_le
  rw [BufferMemory.shrink, get_eq hb, Result.bind_returns, hr.read, hr.readable, MemoryBuffer.shrink]
  split_ifs with hzero
  · exact ⟨w, rfl, h.stays hp⟩
  · have hload : w.memory.load b.data v.read v.readable = .returns v.contents := by
      rw [h.load hp hb (by rw [MemoryBuffer.readable]; omega), MemoryBuffer.contents]
    have hfits : 0 + v.contents.length ≤ v.capacity := by
      rw [MemoryBuffer.contents_length, MemoryBuffer.readable]
      omega
    obtain ⟨w₁, hmove, hobjects, hsets⟩ := h.memmove hp hb hfits
    rw [hload, Result.bind_returns, hmove, Result.bind_returns]
    have hb₁ : w₁.objects p = some b := by rw [hobjects, hb]
    exact ⟨_, rfl, hsets.trans (hsets.holds.put hsets.view hb₁ rfl rfl rfl rfl rfl rfl)⟩

lemma Holds.prepend (h : Holds fixed w vs) (hp : vs p = some v) (hle : bytes.length ≤ v.read) :
    ∃ w', w.prepend p bytes = .returns (w', true) ∧ Sets fixed w vs p w' (v.prepend bytes) := by
  obtain ⟨b, hb, hr⟩ := h.live p v hp
  have hread := v.read_le
  have hwrite := v.write_le
  obtain ⟨w₁, hmove, hobjects, hsets⟩ := h.memmove hp hb (show v.read - bytes.length + bytes.length ≤ v.capacity by omega)
  rw [BufferMemory.prepend, get_eq hb, Result.bind_returns, hr.read, if_neg (by omega), hmove,
    Result.bind_returns]
  have hb₁ : w₁.objects p = some b := by rw [hobjects, hb]
  exact ⟨_, rfl, hsets.trans (hsets.holds.put hsets.view hb₁ rfl rfl rfl hr.write rfl rfl)⟩

lemma Holds.prepend_refused (h : Holds fixed w vs) (hp : vs p = some v) (hlt : v.read < bytes.length) :
    w.prepend p bytes = .returns (w, false) := by
  obtain ⟨b, hb, hr⟩ := h.live p v hp
  rw [BufferMemory.prepend, get_eq hb, Result.bind_returns, hr.read, if_pos hlt]

lemma Holds.fill (h : Holds fixed w vs) (hp : vs p = some v) (hle : bytes.length ≤ v.writable) :
    ∃ w', ((w.get p).bind fun b => (w.memmove b.data b.write bytes).bind fun w => w.written p bytes.length) =
      .returns w' ∧ Sets fixed w vs p w' ((v.poke bytes).written bytes.length) := by
  obtain ⟨b, hb, hr⟩ := h.live p v hp
  rw [MemoryBuffer.writable] at hle
  have hwrite := v.write_le
  obtain ⟨w₁, hmove, -, hsets⟩ := h.memmove hp hb (show v.write + bytes.length ≤ v.capacity by omega)
  obtain ⟨w', hw', hsets'⟩ := hsets.holds.written hsets.view bytes.length
  rw [get_eq hb, Result.bind_returns, hr.write, hmove, Result.bind_returns, hw']
  exact ⟨w', rfl, hsets.trans hsets'⟩

lemma Holds.appendSome (h : Holds fixed w vs) (hp : vs p = some v) (bytes : List UInt8) :
    ∃ w', w.appendSome p bytes = .returns w' ∧
      Sets fixed w vs p w' ((v.poke (bytes.take v.writable)).written (bytes.take v.writable).length) := by
  obtain ⟨b, hb, hr⟩ := h.live p v hp
  have hlength : (bytes.take v.writable).length = min bytes.length v.writable := by
    rw [List.length_take, Nat.min_comm]
  have htake : bytes.take (min bytes.length v.writable) = bytes.take v.writable := by
    rw [← hlength, List.take_eq_take_iff, List.length_take]
    omega
  obtain ⟨w', hw', hsets⟩ := h.fill hp (List.length_take_le v.writable bytes)
  rw [get_eq hb, Result.bind_returns, hlength] at hw'
  rw [BufferMemory.appendSome, get_eq hb, Result.bind_returns, hr.writable]
  dsimp only
  rw [htake]
  exact ⟨w', hw', hsets⟩

omit [DecidableEq A] in
lemma Holds.place (h : Holds fixed w vs) (hobjects : ∀ q, q ≠ p → w'.objects q = w.objects q)
    (hmemory : ∀ r, r ≠ .store p → w'.memory r = w.memory r) (hb : w'.objects p = some b)
    (hdata : b.data = .store p) (hr : Rep fixed w' p b v) : Sets fixed w vs p w' v := by
  refine h.update hobjects ?_ hb hr
  intro q c hq hc
  obtain ⟨u, -, hru⟩ := h.object hc
  have hne := hru.data_ne_store hq.symm
  rw [hdata]
  exact ⟨hmemory _ hne, hmemory _ fun he => hq (Pointer.store.inj he), hne⟩

def built (fixed prependable : ℕ) : MemoryBuffer where
  capacity := fixed
  read := if prependable ≤ fixed then prependable else 0
  write := if prependable ≤ fixed then prependable else 0
  data := fun _ => 0
  read_le := le_rfl
  write_le := by split_ifs <;> omega

lemma Holds.construct (h : Holds fixed w vs) (hfixed : fixed ≤ MemoryBuffer.maxSize) (n : ℕ) :
    Sets fixed w vs p (w.construct fixed p n) (built fixed n) := by
  refine h.place (fun q hq => Function.update_of_ne hq ..) (fun r hr => Memory.map_of_ne hr)
    (Function.update_self ..) rfl ⟨rfl, rfl, rfl, ⟨_, Memory.map_self, rfl, le_rfl, ?_⟩, .inl rfl,
      ⟨_, Memory.map_self⟩, hfixed⟩
  exact fun hne => absurd rfl hne

lemma le_newCapacity {capacity size : ℕ} (hc : capacity ≤ MemoryBuffer.maxSize) :
    capacity ≤ newCapacity capacity size ∧ size ≤ newCapacity capacity size := by
  have hgrown : (capacity + capacity / 2) % 2 ^ 64 = capacity + capacity / 2 := by
    unfold MemoryBuffer.maxSize at hc
    omega
  unfold newCapacity
  rw [hgrown]
  dsimp only
  split_ifs <;> omega

lemma grow_throws (hb : w.objects p = some b)
    (h : alloc = none ∨ MemoryBuffer.maxSize < newCapacity b.capacity n) : w.grow p n alloc = .throws := by
  rw [BufferMemory.grow, get_eq hb, Result.bind_returns]
  cases alloc with
  | none => rfl
  | some x =>
    obtain hno | hlt := h
    · cases hno
    · rw [allocate]
      dsimp only
      rw [if_pos hlt, Result.bind_throws]

lemma Holds.free (h : Holds fixed w vs) (hb : w.objects p = some b) (hd : b.data ≠ .store p)
    {m : Memory (Pointer P A) UInt8} (hm : m b.data = w.memory b.data) :
    m.free b.data b.capacity = .returns (m.unmap b.data) := by
  obtain ⟨v, -, hr⟩ := h.object hb
  obtain ⟨g, hg, -, -, hsize⟩ := hr.region
  exact Memory.free_eq (hm.trans hg) ((hsize hd).trans hr.capacity.symm)

omit [DecidableEq P] [DecidableEq A] in
lemma Holds.block_ne {a : A} (h : Holds fixed w vs) (hb : w.objects p = some b)
    (ha : w.memory (.block a) = none) : b.data ≠ .block a := by
  obtain ⟨v, -, hr⟩ := h.object hb
  obtain ⟨g, hg, -⟩ := hr.region
  intro he
  rw [he, ha] at hg
  cases hg

lemma Holds.copyOut {a : A} {fresh : ℕ → UInt8} (h : Holds fixed w vs) (hp : vs p = some v)
    (hb : w.objects p = some b) (ha : w.memory (.block a) = none) (hle : v.write ≤ n) :
    ({ w with memory := w.memory.map (.block a) ⟨n, fresh⟩ } : BufferMemory P A).memcpy (.block a) b.data b.write =
      .returns { w with
        memory := w.memory.map (.block a) ⟨n, fun i => if i < v.write then v.data i else fresh i⟩ } := by
  have hr := h.rep hp hb
  obtain ⟨g, hg, hcells, hsize, -⟩ := hr.region
  have hwrite := v.write_le
  have hne := h.block_ne hb ha
  have hload : (w.memory.map (.block a) ⟨n, fresh⟩).load b.data 0 v.write =
      .returns (readRange v.data 0 v.write) := by
    rw [Memory.load_eq ((Memory.map_of_ne hne).trans hg) (by omega), hcells]
  rw [memcpy, if_neg hne.symm, hr.write, hload, Result.bind_returns, BufferMemory.memmove,
    Memory.save_eq Memory.map_self (by rwa [readRange_length, Nat.zero_add]), Result.bind_returns,
    MemoryBuffer.writeRange_readRange, Memory.map_map]

lemma Holds.grow {a : A} {fresh : ℕ → UInt8} (h : Holds fixed w vs) (hp : vs p = some v)
    (ha : w.memory (.block a) = none) (hn : newCapacity v.capacity n ≤ MemoryBuffer.maxSize) :
    ∃ w' hle, w.grow p n (some (a, fresh)) = .returns w' ∧
      Sets fixed w vs p w' (v.regrow fresh (newCapacity v.capacity n) hle) := by
  obtain ⟨b, hb, hr⟩ := h.live p v hp
  have hle : v.write ≤ newCapacity v.capacity n := v.write_le.trans (le_newCapacity hr.max).1
  have hothers (q : P) (c : BaseBuffer P A) (hc : w.objects q = some c) : c.data ≠ .block a :=
    h.block_ne hc ha
  have hne := hothers p b hb
  obtain ⟨cells, hcells⟩ := hr.store
  rw [BufferMemory.grow, get_eq hb, Result.bind_returns, hr.capacity, allocate]
  dsimp only
  rw [if_neg (by omega), Result.bind_returns]
  dsimp only
  rw [h.copyOut hp hb ha hle, Result.bind_returns]
  generalize hm : w.memory.map (.block a) ⟨newCapacity v.capacity n, fun i => if i < v.write then v.data i else fresh i⟩ = m
  have hblock : m (.block a) = some ⟨newCapacity v.capacity n, (v.regrow fresh _ hle).data⟩ := by
    rw [← hm, Memory.map_self]
    rfl
  have hrest (r : Pointer P A) (hr : r ≠ .block a) : m r = w.memory r := by rw [← hm, Memory.map_of_ne hr]
  by_cases hstore : b.data = .store p
  · rw [if_pos hstore]
    refine ⟨_, hle, rfl, h.update (fun q hq => Function.update_of_ne hq ..) ?_ (Function.update_self ..)
      ⟨rfl, hr.read, hr.write, ⟨_, hblock, rfl, le_rfl, fun _ => rfl⟩, .inr ⟨a, rfl⟩, ⟨cells, ?_⟩, hn⟩⟩
    · exact fun q c _ hc => ⟨hrest _ (hothers q c hc), hrest _ (store_ne_block q a), hothers q c hc⟩
    · exact (hrest _ (store_ne_block p a)).trans hcells
  · have hfree : m.free b.data v.capacity = .returns (m.unmap b.data) := by
      rw [← hr.capacity, h.free hb hstore (hrest _ hne)]
    rw [if_neg hstore, deallocate, BufferMemory.put]
    dsimp only
    rw [hfree, Result.bind_returns]
    refine ⟨_, hle, rfl, h.update (fun q hq => Function.update_of_ne hq ..) ?_ (Function.update_self ..)
      ⟨rfl, hr.read, hr.write, ⟨_, (Memory.unmap_of_ne hne.symm).trans hblock, rfl, le_rfl, fun _ => rfl⟩,
        .inr ⟨a, rfl⟩, ⟨cells, ?_⟩, hn⟩⟩
    · intro q c hq hc
      have hstore : (.store q : Pointer P A) ≠ b.data := (hr.data_ne_store hq).symm
      exact ⟨(Memory.unmap_of_ne (h.data_ne hb hc hq)).trans (hrest _ (hothers q c hc)),
        (Memory.unmap_of_ne hstore).trans (hrest _ (store_ne_block q a)), hothers q c hc⟩
    · exact (Memory.unmap_of_ne (Ne.symm hstore)).trans ((hrest _ (store_ne_block p a)).trans hcells)

structure Keeps (v v' : MemoryBuffer) : Prop where
  read : v'.read = v.read
  write : v'.write = v.write
  contents : v'.contents = v.contents

omit [DecidableEq P] [DecidableEq A] in
lemma Fresh.free {a : A} {fresh : ℕ → UInt8} (h : w.Fresh (some (a, fresh))) : w.memory (.block a) = none :=
  Option.isNone_iff_eq_none.mp (h (a, fresh) rfl)

lemma Holds.grow_cases (h : Holds fixed w vs) (hp : vs p = some v) (hfresh : w.Fresh alloc) (n : ℕ) :
    w.grow p n alloc = .throws ∨ ∃ w' v', w.grow p n alloc = .returns w' ∧ Sets fixed w vs p w' v' ∧
      Keeps v v' ∧ n ≤ v'.capacity := by
  obtain ⟨b, hb, hr⟩ := h.live p v hp
  by_cases hn : MemoryBuffer.maxSize < newCapacity b.capacity n
  · exact .inl (grow_throws hb (.inr hn))
  rw [hr.capacity] at hn
  match alloc, hfresh with
  | none, _ => exact .inl (grow_throws hb (.inl rfl))
  | some (a, fresh), hfresh =>
    obtain ⟨w', hle, hw', hsets⟩ := h.grow hp hfresh.free (Nat.le_of_not_lt hn)
    exact .inr ⟨w', _, hw', hsets, ⟨rfl, rfl, MemoryBuffer.regrow_contents hle⟩, (le_newCapacity hr.max).2⟩

lemma Holds.makeSureWritable (h : Holds fixed w vs) (hp : vs p = some v) (hfresh : w.Fresh alloc) (len : ℕ) :
    w.makeSureWritable p len alloc = .throws ∨ ∃ w' v', w.makeSureWritable p len alloc = .returns w' ∧
      Sets fixed w vs p w' v' ∧ Keeps v v' ∧ (v.write + len < 2 ^ 64 → len ≤ v'.writable) := by
  obtain ⟨b, hb, hr⟩ := h.live p v hp
  have hwrite := v.write_le
  rw [BufferMemory.makeSureWritable, get_eq hb, Result.bind_returns, hr.writable, hr.capacity]
  split_ifs with hlt
  · obtain hthrows | ⟨w', v', hw', hsets, hkeeps, hle⟩ :=
      h.grow_cases hp hfresh ((v.capacity + len - v.writable) % 2 ^ 64)
    · exact .inl hthrows
    · refine .inr ⟨w', v', hw', hsets, hkeeps, ?_⟩
      intro hsmall
      have hwrite' := hkeeps.write
      unfold MemoryBuffer.writable at *
      rw [Nat.mod_eq_of_lt (by omega)] at hle
      omega
  · exact .inr ⟨w, v, rfl, h.stays hp, ⟨rfl, rfl, rfl⟩, fun _ => by omega⟩

lemma Holds.append (h : Holds fixed w vs) (hp : vs p = some v) (hfresh : w.Fresh alloc) (bytes : List UInt8) :
    w.append p bytes alloc = .throws ∨ ∃ w' v', w.append p bytes alloc = .returns w' ∧
      Sets fixed w vs p w' v' ∧
      (v.write + bytes.length < 2 ^ 64 → v'.contents = v.contents ++ bytes) := by
  obtain hthrows | ⟨w₁, v₁, hw₁, hsets₁, hkeeps, hroom⟩ := h.makeSureWritable hp hfresh bytes.length
  · rw [BufferMemory.append, hthrows, Result.bind_throws]
    exact .inl rfl
  · obtain ⟨w', hw', hsets⟩ := hsets₁.holds.appendSome hsets₁.view bytes
    rw [BufferMemory.append, hw₁, Result.bind_returns]
    refine .inr ⟨w', _, hw', hsets₁.trans hsets, ?_⟩
    intro hsmall
    have hle := hroom hsmall
    rw [List.take_of_length_le hle, MemoryBuffer.poke_written le_rfl hle, List.take_length, hkeeps.contents]

lemma Holds.reserve (h : Holds fixed w vs) (hp : vs p = some v) (hfresh : w.Fresh alloc) (size : ℕ) :
    w.reserve p size alloc = .throws ∨ ∃ w' v', w.reserve p size alloc = .returns w' ∧
      Sets fixed w vs p w' v' ∧ Keeps v v' ∧ size ≤ v'.capacity := by
  obtain ⟨b, hb, hr⟩ := h.live p v hp
  rw [BufferMemory.reserve, get_eq hb, Result.bind_returns, hr.capacity]
  split_ifs with hlt
  · exact h.grow_cases hp hfresh size
  · exact .inr ⟨w, v, rfl, h.stays hp, ⟨rfl, rfl, rfl⟩, Nat.le_of_not_lt hlt⟩

lemma Holds.unmapped {m : Memory (Pointer P A) UInt8} (h : Holds fixed w vs) (hb : w.objects p = some b)
    (hc : w.objects q = some c) (hq : q ≠ p) :
    m.unmap b.data c.data = m c.data ∧ m.unmap b.data (.store q) = m (.store q) := by
  obtain ⟨v, -, hr⟩ := h.object hb
  exact ⟨Memory.unmap_of_ne (h.data_ne hb hc hq), Memory.unmap_of_ne (hr.data_ne_store hq).symm⟩

lemma Holds.release (h : Holds fixed w vs) (hp : vs p = some v) (hfixed : fixed ≤ MemoryBuffer.maxSize) :
    ∃ w' v', w.release fixed p = .returns w' ∧ Sets fixed w vs p w' v' ∧ v'.contents = [] := by
  obtain ⟨b, hb, hr⟩ := h.live p v hp
  rw [BufferMemory.release, get_eq hb, Result.bind_returns]
  split_ifs with hstore
  · obtain ⟨w', hw', hsets⟩ := h.clear hp 0
    exact ⟨w', _, hw', hsets, MemoryBuffer.clear_contents 0⟩
  · obtain ⟨cells, hcells⟩ := hr.store
    have hcells : w.memory.unmap b.data (.store p) = some ⟨fixed, cells⟩ :=
      (Memory.unmap_of_ne (Ne.symm hstore)).trans hcells
    rw [deallocate, h.free hb hstore rfl, Result.bind_returns, Result.bind_returns, BufferMemory.clear,
      get_eq (Function.update_self ..), Result.bind_returns]
    refine ⟨_, (⟨fixed, 0, 0, cells, le_rfl, Nat.zero_le _⟩ : MemoryBuffer), rfl, h.update ?_ ?_
      (Function.update_self ..) ⟨rfl, Nat.zero_min _, Nat.zero_min _, ⟨_, hcells, rfl, le_rfl, ?_⟩, .inl rfl,
        ⟨cells, hcells⟩, hfixed⟩, rfl⟩
    · intro q hq
      simp only [BufferMemory.put, Function.update_of_ne hq]
    · intro q c hq hc
      obtain ⟨u, -, hru⟩ := h.object hc
      obtain ⟨hdata, hstore⟩ := h.unmapped (m := w.memory) hb hc hq
      exact ⟨hdata, hstore, hru.data_ne_store hq.symm⟩
    · exact fun hne => absurd rfl hne

omit [DecidableEq A] in
lemma Holds.remove {m : Memory (Pointer P A) UInt8} (h : Holds fixed w vs)
    (hm : ∀ q c, q ≠ p → w.objects q = some c → m c.data = w.memory c.data ∧ m (.store q) = w.memory (.store q)) :
    Holds fixed { memory := m, objects := Function.update w.objects p none } (Function.update vs p none) where
  live q v hq := by
    have hqp : q ≠ p := by
      rintro rfl
      rw [Function.update_self] at hq
      cases hq
    rw [Function.update_of_ne hqp] at hq
    obtain ⟨c, hc, hr⟩ := h.live q v hq
    obtain ⟨hdata, hstore⟩ := hm q c hqp hc
    exact ⟨c, (Function.update_of_ne hqp ..).trans hc, hr.congr hdata hstore⟩
  dead q hq := by
    by_cases hqp : q = p
    · rw [hqp]
      exact Function.update_self ..
    · rw [Function.update_of_ne hqp] at hq
      exact (Function.update_of_ne hqp ..).trans (h.dead q hq)
  apart q k c d hc hd := by
    have hne (r : P) (e : BaseBuffer P A) (he : Function.update w.objects p none r = some e) :
        w.objects r = some e := by
      by_cases hrp : r = p
      · rw [hrp, Function.update_self] at he
        cases he
      · rwa [Function.update_of_ne hrp] at he
    exact h.apart q k c d (hne q c hc) (hne k d hd)

lemma Holds.destroy (h : Holds fixed w vs) (hp : vs p = some v) :
    ∃ w', w.destroy p = .returns w' ∧ Holds fixed w' (Function.update vs p none) ∧
      ∀ q, q ≠ p → w'.objects q = w.objects q := by
  obtain ⟨b, hb, hr⟩ := h.live p v hp
  have hgone {q : P} {c : BaseBuffer P A} {m : Memory (Pointer P A) UInt8} (hq : q ≠ p) (hc : w.objects q = some c) :
      m.unmap (.store p) c.data = m c.data ∧ m.unmap (.store p) (.store q) = m (.store q) := by
    obtain ⟨u, -, hru⟩ := h.object hc
    exact ⟨Memory.unmap_of_ne (hru.data_ne_store hq.symm), Memory.unmap_of_ne fun he => hq (Pointer.store.inj he)⟩
  rw [BufferMemory.destroy, get_eq hb, Result.bind_returns]
  dsimp only
  split_ifs with hstore
  · exact ⟨_, rfl, h.remove fun q c hq hc => hgone hq hc, fun q hq => Function.update_of_ne hq ..⟩
  · rw [deallocate, h.free hb hstore rfl, Result.bind_returns, Result.bind_returns]
    refine ⟨_, rfl, h.remove ?_, fun q hq => Function.update_of_ne hq ..⟩
    intro q c hq hc
    have hleft := h.unmapped (m := w.memory) hb hc hq
    have hgone := hgone (m := w.memory.unmap b.data) hq hc
    exact ⟨hgone.1.trans hleft.1, hgone.2.trans hleft.2⟩

lemma Fresh.construct (h : w.Fresh alloc) (n : ℕ) : (w.construct fixed p n).Fresh alloc := by
  intro x hx
  have hm : (w.construct fixed p n).memory = w.memory.map (.store p) ⟨fixed, fun _ => 0⟩ := rfl
  rw [hm, Memory.map_of_ne (store_ne_block p x.1).symm]
  exact h x hx

lemma built_contents : (built fixed n).contents = [] := by
  simp [MemoryBuffer.contents, MemoryBuffer.readable, built, readRange]

lemma Holds.constructFrom (h : Holds fixed w vs) (hfixed : fixed ≤ MemoryBuffer.maxSize)
    (hfresh : w.Fresh alloc) (bytes : List UInt8) :
    w.constructFrom fixed p bytes alloc = .throws ∨ ∃ w' v', w.constructFrom fixed p bytes alloc = .returns w' ∧
      Sets fixed w vs p w' v' ∧ (bytes.length < 2 ^ 64 → v'.contents = bytes) := by
  have hsets : Sets fixed w vs p _ _ := h.construct hfixed 0
  obtain hthrows | ⟨w', v', hw', hsets', hcontents⟩ := hsets.holds.append hsets.view (hfresh.construct 0) bytes
  · exact .inl hthrows
  · refine .inr ⟨w', v', hw', hsets.trans hsets', ?_⟩
    intro hsmall
    have hzero : (built fixed 0).write = 0 := by simp [built]
    rw [hcontents (by omega), built_contents, List.nil_append]

lemma Holds.copyFrom (h : Holds fixed w vs) (hp : vs p = some v) (hq : vs q = some u) (hpq : q ≠ p)
    (hfresh : w.Fresh alloc) :
    w.copyFrom p q alloc = .throws ∨ ∃ w' v', w.copyFrom p q alloc = .returns w' ∧ Sets fixed w vs p w' v' ∧
      v'.contents = u.contents := by
  obtain ⟨c, hc, hrc⟩ := h.live q u hq
  rw [BufferMemory.copyFrom, get_eq hc, Result.bind_returns, hrc.capacity, hrc.read, hrc.write]
  obtain hthrows | ⟨w₁, v₁, hw₁, hsets, -, hcapacity⟩ := h.reserve hp hfresh u.capacity
  · rw [hthrows, Result.bind_throws]
    exact .inl rfl
  obtain ⟨b, hb, hrb⟩ := hsets.holds.live p v₁ hsets.view
  have hc₁ : w₁.objects q = some c := (hsets.others q hpq).trans hc
  have hle : u.write ≤ v₁.capacity := u.write_le.trans hcapacity
  rw [hw₁, Result.bind_returns, get_eq hb, Result.bind_returns]
  -- the indices, before the bytes
  have hsets₂ : Sets fixed w vs p (w₁.put p { b with read := u.read, write := u.write })
      ⟨v₁.capacity, u.read, u.write, v₁.data, u.read_le, hle⟩ :=
    hsets.trans (hsets.holds.put hsets.view hb rfl rfl rfl rfl rfl rfl)
  have hq₂ : Function.update vs p (some ⟨v₁.capacity, u.read, u.write, v₁.data, u.read_le, hle⟩) q = some u := by
    rw [Function.update_of_ne hpq, hq]
  have hc₂ : (w₁.put p { b with read := u.read, write := u.write }).objects q = some c :=
    (Function.update_of_ne hpq ..).trans hc₁
  have hb₂ : (w₁.put p { b with read := u.read, write := u.write }).objects p =
      some { b with read := u.read, write := u.write } := Function.update_self ..
  have hne : b.data ≠ c.data := fun he => hpq (hsets.holds.apart q p c b hc₁ hb he.symm)
  obtain ⟨w', hmove, -, hsets'⟩ := hsets₂.holds.memmove hsets₂.view hb₂
    (show 0 + (readRange u.data 0 u.write).length ≤ v₁.capacity by rwa [readRange_length, Nat.zero_add])
  rw [memcpy, if_neg hne, hsets₂.holds.load hq₂ hc₂ (by rw [Nat.zero_add]; exact u.write_le),
    Result.bind_returns, hmove]
  refine .inr ⟨w', _, rfl, hsets₂.trans hsets', ?_⟩
  simp only [MemoryBuffer.writeRange_readRange]
  exact MemoryBuffer.regrow_contents hle

omit [DecidableEq A] in
lemma put_put (b c : BaseBuffer P A) : (w.put p b).put p c = w.put p c := by
  simp only [BufferMemory.put, Function.update_idem]

omit [DecidableEq A] in
lemma put_comm (hpq : p ≠ q) (b c : BaseBuffer P A) : (w.put p b).put q c = (w.put q c).put p b := by
  simp only [BufferMemory.put, Function.update_comm hpq]

/-- `p` has what `q` had, and `q` is as it is after a move. -/
structure Moved (fixed : ℕ) (w : BufferMemory P A) (vs : P → Option MemoryBuffer) (p q : P) (u : MemoryBuffer)
    (w' : BufferMemory P A) (v e : MemoryBuffer) : Prop where
  holds : Holds fixed w' (Function.update (Function.update vs q (some e)) p (some v))
  contents : v.contents = u.contents
  left : e.contents = []
  from_store : w'.objects q = some ⟨.store q, 0, 0, 0⟩
  others : ∀ k, k ≠ p → k ≠ q → w'.objects k = w.objects k

omit [DecidableEq A] in
lemma Holds.drained (h : Holds fixed w vs) (hq : vs q = some u) :
    ∃ cells, Sets fixed w vs q (w.put q ⟨.store q, 0, 0, 0⟩) (MemoryBuffer.empty cells) := by
  obtain ⟨c, hc, hr⟩ := h.live q u hq
  obtain ⟨cells, hcells⟩ := hr.store
  refine ⟨cells, h.place (fun k hk => Function.update_of_ne hk ..) (fun _ _ => rfl) (Function.update_self ..) rfl
    ⟨rfl, rfl, rfl, ⟨_, hcells, rfl, Nat.zero_le _, fun hne => absurd rfl hne⟩, .inl rfl, ⟨cells, hcells⟩,
      Nat.zero_le _⟩⟩

omit [DecidableEq A] in
lemma Holds.moveBlock (h : Holds fixed w vs) (hq : vs q = some u) (hc : w.objects q = some c) (hpq : p ≠ q)
    (hp : ∃ cells, w.memory (.store p) = some ⟨fixed, cells⟩) (hstore : c.data ≠ .store q) :
    ∃ v e, Moved fixed w vs p q u ((w.put q ⟨.store q, 0, 0, 0⟩).put p c) v e := by
  have hr := h.rep hq hc
  obtain ⟨cells, hdrained⟩ := h.drained hq
  obtain ⟨g, hg, hcells, hle, hsize⟩ := hr.region
  obtain hinline | hblock := hr.place
  · exact absurd hinline hstore
  have hmoved : Sets fixed (w.put q ⟨.store q, 0, 0, 0⟩)
      (Function.update vs q (some (MemoryBuffer.empty cells))) p ((w.put q ⟨.store q, 0, 0, 0⟩).put p c) u := by
    refine hdrained.holds.update (fun k hk => put_of_ne hk) ?_ put_self
      ⟨hr.capacity, hr.read, hr.write, ⟨g, hg, hcells, hle, fun _ => hsize hstore⟩, .inr hblock, hp, hr.max⟩
    intro k d hk hd
    refine ⟨rfl, rfl, ?_⟩
    by_cases hkq : k = q
    · rw [hkq, put_self] at hd
      obtain rfl := Option.some.inj hd
      exact Ne.symm hstore
    · have hd : w.objects k = some d := (put_of_ne hkq).symm.trans hd
      exact h.data_ne hc hd hkq
  refine ⟨u, _, hmoved.holds, rfl, MemoryBuffer.empty_contents _, ?_, ?_⟩
  · exact (put_of_ne hpq.symm).trans put_self
  · exact fun k hkp hkq => (put_of_ne hkp).trans (put_of_ne hkq)

lemma Holds.moveStore (h : Holds fixed w vs) (hq : vs q = some u) (hc : w.objects q = some c) (hpq : p ≠ q)
    (hp : ∃ cells, w.memory (.store p) = some ⟨fixed, cells⟩) (hstore : c.data = .store q) :
    ∃ w' v e, ((w.put q { c with capacity := 0, read := 0, write := 0 }).put p { c with data := .store p }).memcpy
        (.store p) (.store q) c.write = .returns w' ∧ Moved fixed w vs p q u w' v e := by
  have hr := h.rep hq hc
  obtain ⟨cells, hdrained⟩ := h.drained hq
  obtain ⟨room, hroom⟩ := hp
  obtain ⟨g, hg, hcells, hle, -⟩ := hr.region
  obtain ⟨cells', hcells'⟩ := hr.store
  rw [hstore] at hg
  obtain rfl := Option.some.inj (hg.symm.trans hcells')
  dsimp only at hle hcells
  have hwrite := u.write_le
  have hne : (.store p : Pointer P A) ≠ .store q := fun he => hpq (Pointer.store.inj he)
  have hload : w.memory.load (.store q) 0 u.write = .returns (readRange u.data 0 u.write) := by
    rw [Memory.load_eq hg (by dsimp only; omega), ← hcells]
  have hfits : 0 + (readRange u.data 0 u.write).length ≤ fixed := by
    rw [readRange_length]
    omega
  have hsave : w.memory.save (.store p) 0 (readRange u.data 0 u.write) = .returns
      (w.memory.map (.store p) ⟨fixed, fun i => if i < u.write then u.data i else room i⟩) := by
    rw [Memory.save_eq hroom hfits, MemoryBuffer.writeRange_readRange]
  have hcopy (objects : P → Option (BaseBuffer P A)) :
      (⟨w.memory, objects⟩ : BufferMemory P A).memcpy (.store p) (.store q) c.write = .returns
        ⟨w.memory.map (.store p) ⟨fixed, fun i => if i < u.write then u.data i else room i⟩, objects⟩ := by
    rw [memcpy, if_neg hne, hr.write, hload, Result.bind_returns, BufferMemory.memmove, hsave, Result.bind_returns]
  rw [hstore]
  have hmoved : Sets fixed (w.put q ⟨.store q, 0, 0, 0⟩)
      (Function.update vs q (some (MemoryBuffer.empty cells))) p
      ⟨w.memory.map (.store p) ⟨fixed, fun i => if i < u.write then u.data i else room i⟩,
        Function.update (w.put q ⟨.store q, 0, 0, 0⟩).objects p (some { c with data := .store p })⟩
      (u.regrow room u.capacity u.write_le) := by
    refine hdrained.holds.place (fun k hk => Function.update_of_ne hk ..) (fun r hr => Memory.map_of_ne hr)
      (Function.update_self ..) rfl ⟨hr.capacity, hr.read, hr.write, ⟨_, Memory.map_self, rfl, hle, ?_⟩, .inl rfl,
        ⟨_, Memory.map_self⟩, hr.max⟩
    exact fun hne => absurd rfl hne
  refine ⟨_, _, _, hcopy _, hmoved.holds, MemoryBuffer.regrow_contents _, MemoryBuffer.empty_contents _, ?_, ?_⟩
  · exact (Function.update_of_ne hpq.symm ..).trans (Function.update_self ..)
  · exact fun k hkp hkq => (Function.update_of_ne hkp ..).trans (Function.update_of_ne hkq ..)

lemma Holds.moveConstruct (h : Holds fixed w vs) (hq : vs q = some u) (hp : w.objects p = none) :
    ∃ w' v e, w.moveConstruct fixed p q = .returns w' ∧ Moved fixed w vs p q u w' v e := by
  obtain ⟨c, hc, hr⟩ := h.live q u hq
  have hpq : p ≠ q := ne_of_dead hp hc
  -- the world with a store at `p`
  have hw : Holds fixed { w with memory := w.memory.map (.store p) ⟨fixed, fun _ => 0⟩ } vs := by
    refine ⟨?_, h.dead, h.apart⟩
    intro k v hk
    obtain ⟨d, hd, hrd⟩ := h.live k v hk
    have hkp : k ≠ p := (ne_of_dead hp hd).symm
    exact ⟨d, hd, hrd.congr (Memory.map_of_ne (hrd.data_ne_store hkp.symm))
      (Memory.map_of_ne fun he => hkp (Pointer.store.inj he))⟩
  rw [BufferMemory.moveConstruct, get_eq hc, Result.bind_returns]
  dsimp only
  split_ifs with hstore
  · obtain ⟨w', v, e, hw', hmoved⟩ := hw.moveStore hq hc hpq ⟨_, Memory.map_self⟩ hstore
    exact ⟨w', v, e, hw', { hmoved with others := hmoved.others }⟩
  · rw [put_comm hpq, put_put]
    obtain ⟨v, e, hmoved⟩ := hw.moveBlock hq hc hpq ⟨_, Memory.map_self⟩ hstore
    exact ⟨_, v, e, rfl, { hmoved with others := hmoved.others }⟩

lemma Holds.moveAssign (h : Holds fixed w vs) (hp : vs p = some v) (hq : vs q = some u) (ht : w.objects t = none)
    (hpq : p ≠ q) :
    ∃ w' v' e, w.moveAssign fixed p q t = .returns w' ∧
      Holds fixed w' (Function.update (Function.update vs q (some e)) p (some v')) ∧
      v'.contents = u.contents ∧ e.contents = [] ∧ ∀ k, k ≠ p → k ≠ q → w'.objects k = w.objects k := by
  obtain ⟨b, hb, -⟩ := h.live p v hp
  obtain ⟨c, hc, hrc⟩ := h.live q u hq
  have htp : t ≠ p := ne_of_dead ht hb
  have htq : t ≠ q := ne_of_dead ht hc
  obtain ⟨w₁, v₁, e₁, hw₁, hmoved₁⟩ := h.moveConstruct hp ht
  have hc₁ : w₁.objects q = some c := (hmoved₁.others q htq.symm hpq.symm).trans hc
  have hq₁ : Function.update (Function.update vs p (some e₁)) t (some v₁) q = some u := by
    rw [Function.update_of_ne htq.symm, Function.update_of_ne hpq.symm, hq]
  have hp₁ : ∃ cells, w₁.memory (.store p) = some ⟨fixed, cells⟩ := by
    obtain ⟨d, -, hr⟩ := hmoved₁.holds.live p e₁ (by rw [Function.update_of_ne htp.symm, Function.update_self])
    exact hr.store
  rw [BufferMemory.moveAssign, if_neg hpq, hw₁, Result.bind_returns, get_eq hmoved₁.from_store, Result.bind_returns,
    get_eq hc₁, Result.bind_returns]
  dsimp only
  -- `other` hands over what it has
  have hmove : ∃ w₂ v₂ e₂, (if c.data = .store q then
      ((w₁.put q { c with capacity := 0, read := 0, write := 0 }).put p { c with data := .store p }).memcpy
        (.store p) (.store q) c.write
      else .returns ((((w₁.put q { c with capacity := 0, read := 0, write := 0 }).put p
        { c with data := .store p }).put p c).put q ⟨.store q, 0, 0, 0⟩)) = .returns w₂ ∧
      Moved fixed w₁ (Function.update (Function.update vs p (some e₁)) t (some v₁)) p q u w₂ v₂ e₂ := by
    split_ifs with hstore
    · exact hmoved₁.holds.moveStore hq₁ hc₁ hpq hp₁ hstore
    · rw [put_put, put_comm hpq, put_put]
      obtain ⟨v₂, e₂, hmoved⟩ := hmoved₁.holds.moveBlock hq₁ hc₁ hpq hp₁ hstore
      exact ⟨_, v₂, e₂, rfl, hmoved⟩
  obtain ⟨w₂, v₂, e₂, hw₂, hmoved₂⟩ := hmove
  have ht₂ : Function.update (Function.update (Function.update (Function.update vs p (some e₁)) t (some v₁))
      q (some e₂)) p (some v₂) t = some v₁ := by
    rw [Function.update_of_ne htp, Function.update_of_ne htq, Function.update_self]
  obtain ⟨w', hw', hholds, hothers⟩ := hmoved₂.holds.destroy ht₂
  rw [hw₂, Result.bind_returns, hw']
  refine ⟨w', v₂, e₂, rfl, ?_, hmoved₂.contents, hmoved₂.left, ?_⟩
  · have hvt : vs t = none := by
      by_contra hne
      obtain ⟨v, hv⟩ := Option.ne_none_iff_exists'.mp hne
      obtain ⟨d, hd, -⟩ := h.live t v hv
      cases ht.symm.trans hd
    convert hholds using 1
    funext k
    simp only [Function.update_apply]
    split_ifs with hkp hkt hkq <;> simp_all
  · intro k hkp hkq
    by_cases hkt : k = t
    · rw [hkt, ht]
      exact hholds.dead t (Function.update_self ..)
    · rw [hothers k hkt, hmoved₂.others k hkp hkq, hmoved₁.others k hkt hkp]

end BufferMemory

end Simple.Containers
