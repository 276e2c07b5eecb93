import Simple.Shm.Ledger

/-! The producer's calls against any consumer that only moves the read side. -/

namespace Simple.Shm

open Simple.Lib Simple.Lib.Cyclic

inductive ProducerCall
  | write (buf : List UInt8)
  | fill (buf : List UInt8) (offset : ℕ)
  | commit (len : ℕ)

namespace Shared

def publish (s : Shared) (bytes : List UInt8) : Shared :=
  { s with
    committed := s.committed ++ bytes
    staged := fun i => s.staged (bytes.length + i) }

def stage (s : Shared) (buf : List UInt8) (offset : ℕ) : Shared :=
  { s with staged := fun i => if offset ≤ i then (buf[i - offset]?).or (s.staged i) else s.staged i }

end Shared

namespace ProducerCall

/-- The bytes that a call makes visible when it moves the write counter; a cell that no
`fill` has reached is committed as the ring has it. -/
def payload (size : ℕ) (s : Shared) : ProducerCall → List UInt8
  | .write buf => buf
  | .fill _ _ => []
  | .commit len =>
    (List.range len).map fun i =>
      (s.staged i).getD (s.shm.data ((s.committed.length + i) % size))

def note (size : ℕ) (call : ProducerCall) (s : Shared) : Access → Shared
  | .store .write _ => s.publish (call.payload size s)
  | _ => s

def exec (size : ℕ) (call : ProducerCall) (x : Access) (s : Shared) : Shared × x.Answer :=
  ({ call.note size s x with shm := (ShmData.access x s.shm).1 }, (ShmData.access x s.shm).2)

def code (size : ℕ) : ProducerCall → Code Bool
  | .write buf => ShmBuffer.write size buf
  | .fill buf offset => ShmBuffer.fill size buf offset
  | .commit len => do
    ShmBuffer.commit size len
    pure true

def settle (s : Shared) : ProducerCall → Bool → Shared
  | .fill buf offset, true => s.stage buf offset
  | _, _ => s

def party (size : ℕ) (call : ProducerCall) : Party Shared Access Access.Answer where
  exec := call.exec size
  rely := Shared.ConsumerMove size
  guar := fun x s t => x.InBounds size ∧ Shared.ProducerMove size s t
  rely_refl := Shared.ConsumerMove.refl
  rely_trans := fun _ _ _ => Shared.ConsumerMove.trans

end ProducerCall

open Shared

section Accesses

variable {size : ℕ} {call : ProducerCall} {s : Shared} {α : Type} {Q : α → Shared → Prop}

lemma producer_load {w : Word} {next : ℕ → Code α}
    (h : ∀ t, ConsumerMove size s t → (call.party size).Wp Q (next (t.shm.get w)) t) :
    (call.party size).Wp Q (load w >>= next) s := by
  intro t ht
  exact ⟨⟨trivial, ProducerMove.refl t⟩, h t ht⟩

lemma producer_storeIndex {v : ℕ} {next : Unit → Code α}
    (h : ∀ t, ConsumerMove size s t → (call.party size).Wp Q (next ()) (t.setWriteIndex v)) :
    (call.party size).Wp Q (store .writeIndex v >>= next) s := by
  intro t ht
  exact ⟨⟨trivial, rfl, rfl, rfl, List.prefix_rfl, fun hinv => hinv.setWriteIndex v⟩, h t ht⟩

structure Wrote (size : ℕ) (s t : Shared) (offset : ℕ) (bytes : List UInt8) : Prop where
  inv : Inv size t
  write : t.shm.write = s.shm.write
  writeIndex : t.shm.writeIndex = s.shm.writeIndex
  committed : t.committed = s.committed
  staged : t.staged = s.staged
  consumed : s.consumed ≤ t.consumed
  data : t.shm.data = overwrite s.shm.data size (s.committed.length + offset) bytes

lemma Wrote.append {t u : Shared} {offset : ℕ} {xs ys : List UInt8} (hs : 0 < size)
    (h : Wrote size s t offset xs) (h' : Wrote size t u (offset + xs.length) ys)
    (hl : xs.length + ys.length ≤ size) : Wrote size s u offset (xs ++ ys) := by
  refine ⟨h'.inv, h'.write.trans h.write, h'.writeIndex.trans h.writeIndex,
    h'.committed.trans h.committed, h'.staged.trans h.staged, h.consumed.trans h'.consumed, ?_⟩
  rw [h'.data, h.data, h.committed, ← Nat.add_assoc, overwrite_append hs hl]

lemma Wrote.after {t u : Shared} {offset : ℕ} {xs : List UInt8} (hm : ConsumerMove size s t)
    (h : Wrote size t u offset xs) : Wrote size s u offset xs :=
  ⟨h.inv, h.write.trans hm.write, h.writeIndex.trans hm.writeIndex,
    h.committed.trans hm.committed, h.staged.trans hm.staged, hm.consumed.trans h.consumed,
    by rw [h.data, hm.data, hm.committed]⟩

lemma Wrote.moved {t u : Shared} {offset : ℕ} {xs : List UInt8} (h : Wrote size s t offset xs)
    (hm : ConsumerMove size t u) : Wrote size s u offset xs :=
  ⟨hm.inv h.inv, hm.write.trans h.write, hm.writeIndex.trans h.writeIndex,
    hm.committed.trans h.committed, hm.staged.trans h.staged, h.consumed.trans hm.consumed,
    hm.data.trans h.data⟩

lemma producer_copyIn {pos offset : ℕ} {bytes : List UInt8} {next : Unit → Code α} (hs : 0 < size)
    (hinv : Inv size s) (hpos : s.committed.length + offset = pos)
    (hr : pos + bytes.length ≤ s.consumed + size) (hfit : pos % size + bytes.length ≤ size)
    (h : ∀ t, Wrote size s t offset bytes → (call.party size).Wp Q (next ()) t) :
    (call.party size).Wp Q (memmoveIn (pos % size) bytes >>= next) s := by
  intro t ht
  subst pos
  have hc := ht.consumed
  have hd : writeRange t.shm.data ((s.committed.length + offset) % size) bytes =
      overwrite t.shm.data size (s.committed.length + offset) bytes :=
    writeRange_eq_overwrite hs hfit
  have hinv' : Inv size { t with shm := { t.shm with
      data := writeRange t.shm.data ((s.committed.length + offset) % size) bytes } } := by
    refine (ht.inv hinv).overwrite hs ?_ rfl rfl (hd.trans (by rw [ht.committed])) rfl rfl
    rw [ht.committed]
    omega
  refine ⟨⟨?_, rfl, rfl, rfl, List.prefix_rfl, fun _ => hinv'⟩, ?_⟩
  · intro j hj
    omega
  · apply h
    exact ⟨hinv', ht.write, ht.writeIndex, ht.committed, ht.staged, hc, ht.data ▸ hd⟩

lemma producer_writable {next : ℕ → Code α} (hm : size < 2 ^ 63) (hinv : Inv size s)
    (h : ∀ t c, ConsumerMove size s t → s.consumed ≤ c → c ≤ t.consumed →
      s.committed.length ≤ c + size →
      (call.party size).Wp Q (next (c + size - s.committed.length)) t) :
    (call.party size).Wp Q (ShmBuffer.writable size >>= next) s := by
  simp only [ShmBuffer.writable, Prog.bind_assoc, Prog.pure_bind]
  apply producer_load
  intro t ht
  apply producer_load
  intro u hu
  have hroom : sub64 (add64 size (t.shm.get .read)) (u.shm.get .write) =
      t.consumed + size - s.committed.length := by
    rw [← ht.committed, ← (ht.inv hinv).writable hm]
    simp only [ShmData.get, hu.write]
  rw [hroom]
  apply h u t.consumed (ht.trans hu) ht.consumed hu.consumed
  rw [← ht.committed]
  exact (ht.inv hinv).fits

lemma producer_writeImpl {buf : List UInt8} {offset : ℕ} {next : Option ℕ → Code α}
    (hm : size < 2 ^ 63) (hinv : Inv size s) (hidx : s.shm.writeIndex = s.committed.length % size)
    (hnone : ∀ t, ConsumerMove size s t →
      (s.consumed + size ≤ s.committed.length + offset ∨
        s.consumed + size < s.committed.length + offset + buf.length) →
      (call.party size).Wp Q (next none) t)
    (hsome : ∀ t, Wrote size s t offset buf →
      s.committed.length + offset + buf.length ≤ t.consumed + size →
      (call.party size).Wp Q (next (some ((s.committed.length + offset + buf.length) % size))) t) :
    (call.party size).Wp Q (ShmBuffer.writeImpl size buf offset >>= next) s := by
  simp only [ShmBuffer.writeImpl, Prog.bind_assoc]
  apply producer_writable hm hinv
  intro t c ht hsc hct hfits
  have hcl := (ht.inv hinv).consumed_le
  rw [ht.committed] at hcl
  by_cases hoff : c + size - s.committed.length ≤ offset
  · rw [if_pos hoff]
    exact hnone t ht (Or.inl (by omega))
  rw [if_neg hoff, sub64_eq (by omega) (by omega)]
  by_cases hlen : c + size - s.committed.length - offset < buf.length
  · rw [if_pos hlen]
    exact hnone t ht (Or.inr (by omega))
  rw [if_neg hlen, Prog.bind_assoc]
  have hs : 0 < size := by omega
  apply producer_load
  intro u hu
  have hu' := ht.trans hu
  have huc := hu.consumed
  have hindex : ShmBuffer.wrap size (add64 (u.shm.get .writeIndex) offset) =
      (u.committed.length + offset) % size := by
    rw [← wrap_add hs hm (by omega)]
    simp only [ShmData.get, hu'.writeIndex, hidx, hu'.committed]
  have hnext := advance_index (s.committed.length + offset) hs hm
    (show buf.length ≤ size by omega)
  have hmod := Nat.mod_lt (s.committed.length + offset) hs
  have hpos : u.committed.length + offset = s.committed.length + offset := by rw [hu'.committed]
  rw [hindex, hu'.committed]
  rw [sub64_eq hmod.le (by omega)] at hnext ⊢
  by_cases hsplit : size - (s.committed.length + offset) % size < buf.length
  · rw [if_pos hsplit] at hnext ⊢
    have hwrap : (s.committed.length + offset +
        (size - (s.committed.length + offset) % size)) % size = 0 := by
      rw [add_mod_cases hs (by omega), if_neg (by omega)]
      omega
    simp only [Prog.bind_assoc, Prog.pure_bind]
    rw [hnext]
    apply producer_copyIn hs (hu'.inv hinv) hpos
    · rw [List.length_take]
      omega
    · rw [List.length_take]
      omega
    intro v hv
    have hvc := hv.consumed
    have hpos' : v.committed.length + (offset + (size - (s.committed.length + offset) % size)) =
        s.committed.length + offset + (size - (s.committed.length + offset) % size) := by
      rw [hv.committed, hu'.committed]
      omega
    rw [← hwrap]
    apply producer_copyIn hs hv.inv hpos'
    · rw [List.length_drop]
      omega
    · rw [List.length_drop]
      omega
    intro w hw
    have hwc := hw.consumed
    apply hsome w _ (by omega)
    rw [← List.take_append_drop (size - (s.committed.length + offset) % size) buf]
    apply (hv.append hs _ _).after hu'
    · rwa [List.length_take, Nat.min_eq_left hsplit.le]
    · rw [List.length_take, List.length_drop]
      omega
  · rw [if_neg hsplit] at hnext ⊢
    simp only [Prog.bind_assoc, Prog.pure_bind]
    rw [hnext]
    apply producer_copyIn hs (hu'.inv hinv) hpos (by omega) (by omega)
    intro v hv
    have hvc := hv.consumed
    exact hsome v (hv.after hu') (by omega)

end Accesses

section Calls

variable {size : ℕ} {s : Shared}

structure Ready (size : ℕ) (call : ProducerCall) (s : Shared) (bytes : List UInt8) : Prop where
  inv : Inv size s
  index : s.shm.writeIndex = (s.committed.length + bytes.length) % size
  fits : s.committed.length + bytes.length ≤ s.consumed + size
  payload : call.payload size s = bytes
  placed : segment s.shm.data size s.committed.length bytes.length = bytes
  room : ∀ i b, s.staged i = some b → s.committed.length + i < s.consumed + size
  cell : ∀ i b, s.staged (bytes.length + i) = some b →
    s.shm.data ((s.committed.length + (bytes.length + i)) % size) = b

variable {call : ProducerCall} {bytes : List UInt8}

lemma payload_stable {t : Shared} (hm : ConsumerMove size s t) :
    call.payload size t = call.payload size s := by
  cases call with
  | write buf => rfl
  | fill buf offset => rfl
  | commit len => simp only [ProducerCall.payload, hm.staged, hm.data, hm.committed]

lemma Ready.stable {t : Shared} (h : Ready size call s bytes) (hm : ConsumerMove size s t) :
    Ready size call t bytes := by
  have hc := hm.consumed
  refine ⟨hm.inv h.inv, ?_, ?_, ?_, ?_, ?_, ?_⟩
  · rw [hm.writeIndex, hm.committed, h.index]
  · rw [hm.committed]
    exact h.fits.trans (by omega)
  · rw [payload_stable hm, h.payload]
  · rw [hm.data, hm.committed, h.placed]
  · intro i b hb
    rw [hm.staged] at hb
    rw [hm.committed]
    exact (h.room i b hb).trans_le (by omega)
  · intro i b hb
    rw [hm.staged] at hb
    rw [hm.data, hm.committed]
    exact h.cell i b hb

lemma Ready.publish (h : Ready size call s bytes) (hm : size < 2 ^ 63) :
    ProducerMove size s (call.exec size (.store .write (add64 s.shm.write bytes.length)) s).1 ∧
      ProducerIdle size (call.exec size (.store .write (add64 s.shm.write bytes.length)) s).1 ∧
      (call.exec size (.store .write (add64 s.shm.write bytes.length)) s).1.committed =
        s.committed ++ bytes := by
  have hexec : (call.exec size (.store .write (add64 s.shm.write bytes.length)) s).1 =
      { s.publish bytes with shm := { s.shm with write := add64 s.shm.write bytes.length } } := by
    simp only [ProducerCall.exec, ProducerCall.note, h.payload]
    rfl
  have hlen : (s.committed ++ bytes).length = s.committed.length + bytes.length :=
    List.length_append
  rw [hexec]
  refine ⟨⟨rfl, rfl, rfl, List.prefix_append _ _, ?_⟩, ⟨?_, ?_, ?_⟩, rfl⟩
  · intro hinv
    exact hinv.commit hm h.fits h.placed rfl rfl rfl rfl rfl
  · change s.shm.writeIndex = (s.committed ++ bytes).length % size
    rw [hlen, h.index]
  · intro i b hb
    have := h.room (bytes.length + i) b hb
    change (s.committed ++ bytes).length + i < s.consumed + size
    omega
  · intro i b hb
    change s.shm.data (((s.committed ++ bytes).length + i) % size) = b
    rw [hlen, Nat.add_assoc]
    exact h.cell i b hb

lemma publish_wp {α : Type} {Q : α → Shared → Prop} (next : Code α) {n : ℕ} (hm : size < 2 ^ 63)
    (h : Ready size call s bytes) (hn : bytes.length = n)
    (hQ : ∀ t, Inv size t → ProducerIdle size t → t.committed = s.committed ++ bytes →
      (call.party size).Wp Q next t) :
    (call.party size).Wp Q (do
      let write ← load .write
      store .write (add64 write n)
      next) s := by
  subst n
  apply producer_load
  intro t ht u hu
  have hr := (h.stable ht).stable hu
  have hval : add64 (t.shm.get .write) bytes.length = add64 u.shm.write bytes.length := by
    simp only [ShmData.get, hu.write]
  rw [hval]
  obtain ⟨hmove, hidle, hcom⟩ := hr.publish hm
  refine ⟨⟨trivial, hmove⟩, hQ _ (hmove.inv hr.inv) hidle (hcom.trans ?_)⟩
  rw [hu.committed, ht.committed]

lemma write_wp (buf : List UInt8) (hm : size < 2 ^ 63) (hinv : Inv size s)
    (hidle : ProducerIdle size s) :
    ((ProducerCall.write buf).party size).Wp
      (fun _ t => Inv size t ∧ ProducerIdle size t) (ShmBuffer.write size buf) s := by
  apply producer_writeImpl hm hinv hidle.index
  · intro t ht _
    exact ⟨ht.inv hinv, hidle.stable ht⟩
  intro t ht hfits
  apply producer_storeIndex
  intro u hu
  have hu' := ht.moved hu
  have hcon := hu.consumed
  have hcl := hu'.inv.consumed_le
  have hsu := hu'.consumed
  have hcom := hu'.committed
  rw [hcom] at hcl
  have hready : Ready size (.write buf)
      (u.setWriteIndex ((s.committed.length + 0 + buf.length) % size)) buf := by
    refine ⟨hu'.inv.setWriteIndex _, ?_, ?_, rfl, ?_, ?_, ?_⟩ <;>
      simp only [Shared.setWriteIndex, hcom, hu'.data, Nat.add_zero]
    · omega
    · rcases Nat.eq_zero_or_pos size with hz | hs
      · have : buf = [] := List.eq_nil_of_length_eq_zero (by omega)
        subst this
        rfl
      · exact segment_overwrite hs buf (by omega)
    · intro i b hb
      have := hidle.room i b (hu'.staged ▸ hb)
      omega
    · intro i b hb
      have hb' : s.staged (buf.length + i) = some b := hu'.staged ▸ hb
      have hlt := hidle.lt_size hinv hb'
      rw [overwrite_after (by omega) (by omega) (by omega)]
      exact hidle.cell _ _ hb'
  apply publish_wp (pure true) hm hready rfl
  intro v hv hv' _
  exact ⟨hv, hv'⟩

lemma inv_stage {buf : List UInt8} {offset : ℕ} : Inv size (s.stage buf offset) ↔ Inv size s :=
  ⟨fun h => ⟨h.read_lt, h.write_lt, h.consumed_le, h.fits, h.readable, h.holds⟩,
    fun h => ⟨h.read_lt, h.write_lt, h.consumed_le, h.fits, h.readable, h.holds⟩⟩

lemma settle_move {t : Shared} {r : Bool} (h : ConsumerMove size s t) :
    ConsumerMove size (call.settle s r) (call.settle t r) := by
  unfold ProducerCall.settle
  split
  · refine ⟨h.write, h.writeIndex, h.data, h.committed, ?_, h.consumed, ?_⟩
    · simp only [Shared.stage, h.staged]
    · intro hinv
      exact inv_stage.mpr (h.inv (inv_stage.mp hinv))
  · exact h

lemma settle_produced (s : Shared) (call : ProducerCall) (r : Bool) :
    ProducerMove size s (call.settle s r) := by
  unfold ProducerCall.settle
  split
  · exact ⟨rfl, rfl, rfl, List.prefix_rfl, inv_stage.mpr⟩
  · exact ProducerMove.refl s

lemma stage_cases {buf : List UInt8} {offset i : ℕ} {b : UInt8}
    (h : (s.stage buf offset).staged i = some b) :
    (∃ j, i = offset + j ∧ buf[j]? = some b) ∨
      ((i < offset ∨ offset + buf.length ≤ i) ∧ s.staged i = some b) := by
  simp only [Shared.stage] at h
  by_cases hi : offset ≤ i
  · rw [if_pos hi] at h
    cases hb : buf[i - offset]? with
    | none =>
      rw [hb, Option.none_or] at h
      have := List.getElem?_eq_none_iff.mp hb
      exact Or.inr ⟨Or.inr (by omega), h⟩
    | some b' =>
      rw [hb, Option.some_or] at h
      exact Or.inl ⟨i - offset, by omega, hb.trans h⟩
  · rw [if_neg hi] at h
    exact Or.inr ⟨Or.inl (by omega), h⟩

lemma fill_wp (buf : List UInt8) (offset : ℕ) (hm : size < 2 ^ 63) (hinv : Inv size s)
    (hidle : ProducerIdle size s) :
    ((ProducerCall.fill buf offset).party size).Wp
      (fun r t => Inv size t ∧ ProducerIdle size ((ProducerCall.fill buf offset).settle t r) ∧
        t.committed = s.committed ∧ t.staged = s.staged ∧ s.consumed ≤ t.consumed ∧
        (r = false → s.consumed + size ≤ s.committed.length + offset ∨
          s.consumed + size < s.committed.length + offset + buf.length))
      (ShmBuffer.fill size buf offset) s := by
  apply producer_writeImpl hm hinv hidle.index
  · intro t ht hfull
    exact ⟨ht.inv hinv, hidle.stable ht, ht.committed, ht.staged, ht.consumed, fun _ => hfull⟩
  intro t ht hfits
  have hcon := ht.consumed
  have hcl := ht.inv.consumed_le
  have hcom := ht.committed
  rw [hcom] at hcl
  refine ⟨ht.inv, ⟨?_, ?_, ?_⟩, hcom, ht.staged, hcon, nofun⟩
  · change t.shm.writeIndex = t.committed.length % size
    rw [ht.writeIndex, hcom, hidle.index]
  · intro i b hb
    change t.committed.length + i < t.consumed + size
    rw [hcom]
    rcases stage_cases hb with ⟨j, rfl, hj⟩ | ⟨-, hold⟩
    · have := (List.getElem?_eq_some_iff.mp hj).1
      omega
    · have := hidle.room i b (ht.staged ▸ hold)
      omega
  · intro i b hb
    change t.shm.data ((t.committed.length + i) % size) = b
    rw [hcom, ht.data]
    rcases stage_cases hb with ⟨j, rfl, hj⟩ | ⟨hout, hold⟩
    · have hlt := (List.getElem?_eq_some_iff.mp hj).1
      rw [← Nat.add_assoc, overwrite_get (by omega) _ (by omega), List.getD_eq_getElem?_getD, hj]
      rfl
    · have hlt := hidle.lt_size hinv (ht.staged ▸ hold)
      rw [← hidle.cell i b (ht.staged ▸ hold)]
      by_cases hi : i < offset
      · exact overwrite_before (by omega) (by omega) (by omega)
      · exact overwrite_after (by omega) (by omega) (by omega)

lemma payload_commit (hidle : ProducerIdle size s) (len : ℕ) :
    (ProducerCall.commit len).payload size s = segment s.shm.data size s.committed.length len := by
  apply List.map_congr_left
  intro i _
  cases hb : s.staged i with
  | none => rfl
  | some b => exact (hidle.cell i b hb).symm

lemma advanceWriteIndex_wp {α : Type} {Q : α → Shared → Prop} {next : Unit → Code α} {len : ℕ}
    (hs : 0 < size) (hm : size < 2 ^ 63) (hl : len ≤ size)
    (hidx : s.shm.writeIndex = s.committed.length % size)
    (h : ∀ t, ConsumerMove size (s.setWriteIndex ((s.committed.length + len) % size)) t →
      (call.party size).Wp Q (next ()) t) :
    (call.party size).Wp Q (ShmBuffer.advanceWriteIndex size len >>= next) s := by
  have hnext := advance_index s.committed.length hs hm hl
  simp only [ShmBuffer.advanceWriteIndex, Prog.bind_assoc]
  apply producer_load
  intro t ht
  have htidx : t.shm.get .writeIndex = s.committed.length % size := ht.writeIndex.trans hidx
  rw [htidx]
  by_cases hsplit : sub64 size (s.committed.length % size) < len
  · rw [if_pos hsplit] at hnext ⊢
    rw [hnext]
    apply producer_storeIndex
    intro u hu
    exact h _ ((ht.trans hu).setWriteIndex _)
  rw [if_neg hsplit] at hnext ⊢
  simp only [Prog.bind_assoc]
  apply producer_load
  intro u hu
  have huidx : u.shm.get .writeIndex = s.committed.length % size := hu.writeIndex.trans htidx
  rw [huidx]
  apply producer_storeIndex
  intro v hv
  apply producer_load
  intro w hw
  have hwidx : w.shm.get .writeIndex = add64 (s.committed.length % size) len := hw.writeIndex
  have hsw := (((ht.trans hu).trans hv).setWriteIndex _).trans hw
  rw [hwidx]
  by_cases hend : add64 (s.committed.length % size) len = size
  · rw [if_pos hend] at hnext ⊢
    rw [hnext]
    apply producer_storeIndex
    intro x hx
    exact h _ ((hsw.trans hx).setWriteIndex _)
  · rw [if_neg hend] at hnext ⊢
    rw [hnext] at hsw
    exact h w hsw

lemma commit_wp (len : ℕ) (hs : 0 < size) (hm : size < 2 ^ 63) (hinv : Inv size s)
    (hidle : ProducerIdle size s) :
    ((ProducerCall.commit len).party size).Wp
      (fun _ t => Inv size t ∧ ProducerIdle size t ∧
        (s.committed.length + len ≤ s.consumed + size →
          t.committed = s.committed ++ (ProducerCall.commit len).payload size s))
      (ShmBuffer.commit size len) s := by
  apply producer_writable hm hinv
  intro t c ht hsc hct hfits
  have hcl := (ht.inv hinv).consumed_le
  have hcom := ht.committed
  rw [hcom] at hcl
  by_cases hroom : c + size - s.committed.length < len
  · rw [if_pos hroom]
    exact ⟨ht.inv hinv, hidle.stable ht, fun hfit => by omega⟩
  rw [if_neg hroom]
  have htidle := hidle.stable ht
  have hpay := payload_commit htidle len
  rw [payload_stable ht] at hpay
  have hlen : ((ProducerCall.commit len).payload size s).length = len := by rw [hpay, segment_length]
  apply advanceWriteIndex_wp hs hm (by omega) htidle.index
  intro u hu
  have hready : Ready size (.commit len) (t.setWriteIndex ((t.committed.length + len) % size))
      ((ProducerCall.commit len).payload size s) := by
    refine ⟨(ht.inv hinv).setWriteIndex _, ?_, ?_, ?_, ?_, htidle.room, ?_⟩
    · rw [hlen]
      rfl
    · rw [hlen]
      change t.committed.length + len ≤ t.consumed + size
      rw [hcom]
      omega
    · change (ProducerCall.commit len).payload size t = _
      exact payload_stable ht
    · rw [hlen, hpay]
      rfl
    · intro i b hb
      exact htidle.cell _ b hb
  refine publish_wp (pure ()) hm (hready.stable hu) hlen ?_
  intro v hv hv' hvcom
  refine ⟨hv, hv', fun _ => ?_⟩
  rw [hvcom, hu.committed]
  exact congrArg (· ++ _) hcom

theorem producer_wp (call : ProducerCall) (hs : 0 < size) (hm : size < 2 ^ 63)
    (hinv : Inv size s) (hidle : ProducerIdle size s) :
    (call.party size).Wp (fun r t => Inv size t ∧ ProducerIdle size (call.settle t r))
      (call.code size) s := by
  cases call with
  | write buf => exact write_wp buf hm hinv hidle
  | fill buf offset =>
    apply (fill_wp buf offset hm hinv hidle).mono
    intro r t h
    exact ⟨h.1, h.2.1⟩
  | commit len =>
    apply Party.wp_bind.mpr
    apply (commit_wp len hs hm hinv hidle).mono
    intro _ t h
    exact ⟨h.1, h.2.1⟩

end Calls

end Simple.Shm
