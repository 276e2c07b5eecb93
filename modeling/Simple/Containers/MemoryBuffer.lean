import Simple.Lib.Cyclic

/-! `memory_buffer`: a store of 1024 bytes that moves to the heap when it grows. Fresh
heap memory holds whatever the allocator hands out. -/

namespace Simple.Containers

open Simple.Lib.Cyclic

lemma read_le_write : (0 : ℕ) ≤ 0 := le_rfl

lemma write_le_capacity : (0 : ℕ) ≤ 1024 := Nat.zero_le _

structure MemoryBuffer where
  capacity : ℕ := 1024
  read : ℕ := 0
  write : ℕ := 0
  data : ℕ → UInt8 := fun _ => 0
  read_le : read ≤ write := by exact Simple.Containers.read_le_write
  write_le : write ≤ capacity := by exact Simple.Containers.write_le_capacity

namespace MemoryBuffer

/-- `allocator_traits::max_size` of `std::allocator<uint8_t>`. -/
def maxSize : ℕ := 2 ^ 63 - 1

def writable (b : MemoryBuffer) : ℕ := b.capacity - b.write

def readable (b : MemoryBuffer) : ℕ := b.write - b.read

def contents (b : MemoryBuffer) : List UInt8 := readRange b.data b.read b.readable

def grownCapacity (capacity size : ℕ) : ℕ :=
  if capacity + capacity / 2 < size then size
  else if maxSize < capacity + capacity / 2 then max size maxSize
  else capacity + capacity / 2

lemma le_grownCapacity {capacity size : ℕ} (h : capacity ≤ size) :
    size ≤ grownCapacity capacity size ∧ capacity ≤ grownCapacity capacity size := by
  unfold grownCapacity
  split_ifs <;> omega

def grow (b : MemoryBuffer) (fresh : ℕ → UInt8) (size : ℕ) (h : b.capacity ≤ size) :
    MemoryBuffer where
  capacity := grownCapacity b.capacity size
  read := b.read
  write := b.write
  data := fun i => if i < b.write then b.data i else fresh i
  read_le := b.read_le
  write_le := b.write_le.trans (le_grownCapacity h).2

def reserve (b : MemoryBuffer) (fresh : ℕ → UInt8) (size : ℕ) : MemoryBuffer :=
  if h : b.capacity < size then b.grow fresh size h.le else b

def makeSureWritable (b : MemoryBuffer) (fresh : ℕ → UInt8) (len : ℕ) : MemoryBuffer :=
  if h : b.writable < len then b.grow fresh (b.capacity + len - b.writable) (by omega) else b

def written (b : MemoryBuffer) (n : ℕ) : MemoryBuffer :=
  { b with
    write := b.write + min n b.writable
    read_le := b.read_le.trans (Nat.le_add_right _ _)
    write_le := by
      have := b.write_le
      unfold writable
      omega }

def poke (b : MemoryBuffer) (bytes : List UInt8) : MemoryBuffer :=
  { b with data := writeRange b.data b.write bytes }

def append (b : MemoryBuffer) (fresh : ℕ → UInt8) (bytes : List UInt8) : MemoryBuffer :=
  let b := b.makeSureWritable fresh bytes.length
  let bytes := bytes.take b.writable
  (b.poke bytes).written bytes.length

def prependable (b : MemoryBuffer) : ℕ := b.read

/-- `buffer::read`. -/
def readBytes (b : MemoryBuffer) (n : ℕ) : MemoryBuffer :=
  { b with
    read := b.read + min n b.readable
    read_le := by
      have := b.read_le
      unfold readable
      omega }

def clear (b : MemoryBuffer) (prependable : ℕ) : MemoryBuffer :=
  { b with
    read := min prependable b.capacity
    write := min prependable b.capacity
    read_le := le_rfl
    write_le := Nat.min_le_right _ _ }

def shrink (b : MemoryBuffer) : MemoryBuffer :=
  if b.read = 0 then b
  else
    { b with
      data := writeRange b.data 0 b.contents
      read := 0
      write := b.readable
      read_le := Nat.zero_le _
      write_le := (Nat.sub_le _ _).trans b.write_le }

variable {b : MemoryBuffer} {fresh : ℕ → UInt8}

@[simp] lemma contents_length : b.contents.length = b.readable := by simp [contents]

@[simp] lemma clear_contents (n : ℕ) : (b.clear n).contents = [] := by
  simp [contents, readable, clear, readRange]

lemma readRange_contents {i n : ℕ} (h : i + n ≤ b.readable) :
    readRange b.data (b.read + i) n = (b.contents.drop i).take n := by
  apply List.ext_getElem
  · simp only [readRange_length, List.length_take, List.length_drop, contents_length]
    omega
  · intro j hj hj'
    simp [contents, readRange, Nat.add_assoc]

lemma readBytes_contents (n : ℕ) : (b.readBytes n).contents = b.contents.drop n := by
  apply List.ext_getElem
  · simp only [contents_length, List.length_drop, readable, readBytes]
    omega
  · intro j hj hj'
    have hn : min n b.readable = n := by
      simp only [contents_length, List.length_drop] at hj'
      omega
    simp only [contents, readRange, readBytes, List.getElem_map, List.getElem_range,
      List.getElem_drop, hn, Nat.add_assoc]

lemma shrink_contents : b.shrink.contents = b.contents := by
  unfold shrink
  split
  · rfl
  · apply List.ext_getElem
    · simp [readable]
    · intro j hj hj'
      have hlt : j < b.readable := by rwa [contents_length] at hj'
      simp [contents, readRange, writeRange, List.getElem?_range hlt]

lemma grow_contents {size : ℕ} (h : b.capacity ≤ size) : (b.grow fresh size h).contents = b.contents := by
  apply List.map_congr_left
  intro j hj
  have hj' := List.mem_range.mp hj
  have hle := b.read_le
  simp only [readable, grow] at hj'
  simp only [grow]
  rw [if_pos (by omega)]

lemma reserve_contents (size : ℕ) : (b.reserve fresh size).contents = b.contents := by
  unfold reserve
  split
  · exact grow_contents _
  · rfl

lemma makeSureWritable_contents (len : ℕ) :
    (b.makeSureWritable fresh len).contents = b.contents := by
  unfold makeSureWritable
  split
  · exact grow_contents _
  · rfl

lemma le_makeSureWritable (len : ℕ) : len ≤ (b.makeSureWritable fresh len).writable := by
  unfold makeSureWritable
  split
  · next h =>
    have hle := (le_grownCapacity (show b.capacity ≤ b.capacity + len - b.writable by omega)).1
    have hw := b.write_le
    simp only [writable, grow] at *
    omega
  · next h => omega

lemma written_contents (n : ℕ) :
    (b.written n).contents = b.contents ++ readRange b.data b.write (min n b.writable) := by
  have hle := b.read_le
  have hsplit : b.write + min n b.writable - b.read = b.readable + min n b.writable := by
    simp only [readable]
    omega
  simp only [contents, written, readable] at *
  rw [hsplit]
  simp only [readRange, List.range_add, List.map_append, List.map_map, Function.comp_def]
  congr 1
  apply List.map_congr_left
  intro j _
  congr 1
  omega

lemma poke_contents (bytes : List UInt8) : (b.poke bytes).contents = b.contents := by
  apply List.map_congr_left
  intro j hj
  have hj' := List.mem_range.mp hj
  have hle := b.read_le
  simp only [readable, poke] at hj'
  simp only [poke, writeRange]
  rw [if_neg (by omega)]

lemma poke_written {bytes : List UInt8} {n : ℕ} (hn : n ≤ bytes.length) (hw : n ≤ b.writable) :
    ((b.poke bytes).written n).contents = b.contents ++ bytes.take n := by
  have hw' : min n (b.poke bytes).writable = n := Nat.min_eq_left hw
  rw [written_contents, poke_contents, hw']
  congr 1
  apply List.ext_getElem
  · simp [hn]
  · intro j hj hj'
    have hlt : j < n := by simpa using hj
    simp only [readRange, poke, writeRange, List.getElem_map, List.getElem_range,
      List.getElem_take]
    rw [if_pos (Nat.le_add_right _ _), Nat.add_sub_cancel_left, List.getD_eq_getElem _ _ (by omega)]

lemma append_contents (bytes : List UInt8) : (b.append fresh bytes).contents = b.contents ++ bytes := by
  have hle : bytes.length ≤ (b.makeSureWritable fresh bytes.length).writable :=
    le_makeSureWritable _
  rw [append]
  simp only [List.take_of_length_le hle]
  rw [poke_written le_rfl hle, List.take_length, makeSureWritable_contents]

lemma le_reserve (size : ℕ) : size ≤ (b.reserve fresh size).writable + b.write := by
  have hw := b.write_le
  unfold reserve
  split
  · next h =>
    have hle := (le_grownCapacity h.le).1
    simp only [writable, grow]
    omega
  · next h =>
    simp only [writable]
    omega

lemma append_writable {bytes : List UInt8} (h : bytes.length ≤ b.writable) :
    (b.append fresh bytes).writable = b.writable - bytes.length := by
  have hsame : b.makeSureWritable fresh bytes.length = b := dif_neg (by omega)
  rw [append, hsame]
  simp only [List.take_of_length_le h]
  simp only [writable, written, poke] at *
  omega

end MemoryBuffer

end Simple.Containers
