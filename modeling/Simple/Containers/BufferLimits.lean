import Simple.Containers.BufferRefinement

/-! The buffers near the end of `size_t`. -/

namespace Simple.Containers

open Simple.Lib Simple.Lib.Cyclic

/-- `bytes` is what `ptr_` points to, of the length `capacity_`. -/
structure ReadBuffer where
  bytes : List UInt8
  read : ℕ := 0
  read_le : read ≤ bytes.length
  length_lt : bytes.length < 2 ^ 64

namespace ReadBuffer

def readable (r : ReadBuffer) : ℕ := r.bytes.length - r.read

def advance (r : ReadBuffer) (n : ℕ) : ReadBuffer :=
  { r with
    read := min ((r.read + n) % 2 ^ 64) r.bytes.length
    read_le := Nat.min_le_right _ _ }

variable {r : ReadBuffer} {n : ℕ}

lemma advance_forwards_iff (hn : n < 2 ^ 64) : r.read ≤ (r.advance n).read ↔ r.read + n < 2 ^ 64 := by
  have hle := r.read_le
  have hlt := r.length_lt
  simp only [advance]
  constructor
  · intro h
    by_contra hwrap
    rw [Nat.mod_eq_sub_mod (by omega), Nat.mod_eq_of_lt (by omega)] at h
    omega
  · intro h
    rw [Nat.mod_eq_of_lt h]
    omega

end ReadBuffer

namespace BufferMemory

variable {P A : Type} [DecidableEq P] [DecidableEq A] {fixed : ℕ} {w w' : BufferMemory P A} {p q : P}
  {v : MemoryBuffer} {vs : P → Option MemoryBuffer} {alloc : Allocation A} {len : ℕ}

def bytes (w : BufferMemory P A) (p : P) : Result (List UInt8) :=
  (w.get p).bind fun b => w.memory.load b.data b.read b.readable

/-- What `make_sure_writable` is for. -/
def Establishes (w : BufferMemory P A) (p : P) (len : ℕ) (alloc : Allocation A) : Prop :=
  w.makeSureWritable p len alloc = .throws ∨
    ∃ w', w.makeSureWritable p len alloc = .returns w' ∧ len ≤ w'.room p ∧ w'.bytes p = w.bytes p

omit [DecidableEq P] [DecidableEq A] in
lemma Holds.bytes (h : Holds fixed w vs) (hp : vs p = some v) : w.bytes p = .returns v.contents := by
  obtain ⟨b, hb, hr⟩ := h.live p v hp
  have hread := v.read_le
  have hwrite := v.write_le
  rw [BufferMemory.bytes, get_eq hb, Result.bind_returns, hr.read, hr.readable,
    h.load hp hb (by rw [MemoryBuffer.readable]; omega), MemoryBuffer.contents]

omit [DecidableEq A] in
lemma Sets.room (h : Sets fixed w vs p w' v) : w'.room p = v.writable := h.holds.room h.view

lemma Holds.establishes_of_room (h : Holds fixed w vs) (hp : vs p = some v) (hle : len ≤ v.writable) :
    w.Establishes p len alloc := by
  obtain ⟨b, hb, hr⟩ := h.live p v hp
  refine .inr ⟨w, ?_, ?_, rfl⟩
  · rw [BufferMemory.makeSureWritable, get_eq hb, Result.bind_returns, hr.writable, if_neg (by omega)]
  · rwa [h.room hp]

lemma Holds.establishes_of_small (h : Holds fixed w vs) (hp : vs p = some v) (hfresh : w.Fresh alloc)
    (hsmall : v.write + len < 2 ^ 64) : w.Establishes p len alloc := by
  obtain hthrows | ⟨w', v', hw', hsets, hkeeps, hle⟩ := h.makeSureWritable hp hfresh len
  · exact .inl hthrows
  · refine .inr ⟨w', hw', ?_, ?_⟩
    · rw [hsets.room]
      exact hle hsmall
    · rw [hsets.holds.bytes hsets.view, h.bytes hp, hkeeps.contents]

lemma Holds.grow_of_wraps (h : Holds fixed w vs) (hp : vs p = some v) (hfresh : w.Fresh alloc) (hsome : alloc ≠ none)
    (hlen : len < 2 ^ 64) (hlt : v.writable < len) (hwraps : 2 ^ 64 ≤ v.write + len) :
    ∃ w', w.makeSureWritable p len alloc = .returns w' ∧ w'.room p < len := by
  obtain ⟨b, hb, hr⟩ := h.live p v hp
  obtain ⟨⟨a, fresh⟩, rfl⟩ := Option.ne_none_iff_exists'.mp hsome
  have hwrite := v.write_le
  have hmax := hr.max
  unfold MemoryBuffer.maxSize at hmax
  obtain ⟨size, hsum⟩ := Nat.exists_eq_add_of_le hwraps
  have hsize : (v.capacity + len - v.writable) % 2 ^ 64 = size := by
    have hasked : v.capacity + len - v.writable = 2 ^ 64 + size := by
      unfold MemoryBuffer.writable
      omega
    rw [hasked, Nat.add_mod_left, Nat.mod_eq_of_lt (by omega)]
  have hcapacity : newCapacity v.capacity size ≤ MemoryBuffer.maxSize := by
    have hgrown : (v.capacity + v.capacity / 2) % 2 ^ 64 = v.capacity + v.capacity / 2 :=
      Nat.mod_eq_of_lt (by omega)
    unfold newCapacity MemoryBuffer.maxSize
    rw [hgrown]
    dsimp only
    split_ifs <;> omega
  obtain ⟨w', hle, hw', hsets⟩ := h.grow hp hfresh.free hcapacity
  refine ⟨w', ?_, ?_⟩
  · rw [BufferMemory.makeSureWritable, get_eq hb, Result.bind_returns, hr.writable, if_pos hlt, hr.capacity, hsize, hw']
  · unfold MemoryBuffer.maxSize at hcapacity
    have hroom : w'.room p = newCapacity v.capacity size - v.write := hsets.room
    omega

theorem Holds.establishes_iff (h : Holds fixed w vs) (hp : w.Live p) (hlen : len < 2 ^ 64) (hfresh : w.Fresh alloc) :
    w.Establishes p len alloc ↔ alloc = none ∨ len ≤ w.room p ∨ w.taken p + len < 2 ^ 64 := by
  obtain ⟨v, hv⟩ := h.view hp
  obtain ⟨b, hb, hr⟩ := h.live p v hv
  rw [h.room hv, h.taken hv]
  constructor
  · intro hest
    by_contra! hno
    obtain ⟨hsome, hlt, hwraps⟩ := hno
    obtain ⟨w', hw', hroom⟩ := h.grow_of_wraps hv hfresh hsome hlen hlt hwraps
    obtain hthrows | ⟨w'', hw'', hle, -⟩ := hest
    · rw [hw'] at hthrows
      cases hthrows
    · rw [hw'] at hw''
      cases hw''
      omega
  · rintro (rfl | hle | hsmall)
    · by_cases hle : len ≤ v.writable
      · exact h.establishes_of_room hv hle
      · refine .inl ?_
        rw [BufferMemory.makeSureWritable, get_eq hb, Result.bind_returns, hr.writable, if_pos (by omega)]
        exact grow_throws hb (.inl rfl)
    · exact h.establishes_of_room hv hle
    · exact h.establishes_of_small hv hfresh hsmall

end BufferMemory

end Simple.Containers
