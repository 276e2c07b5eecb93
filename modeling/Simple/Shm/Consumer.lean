import Simple.Shm.Ledger

/-! The consumer's calls against any producer that only appends to the stream. -/

namespace Simple.Shm

open Simple.Lib Simple.Lib.Cyclic Shared

inductive ConsumerCall
  | read (len : ℕ)
  | skip (len : ℕ)
  | peek (len offset : ℕ)

namespace ConsumerCall

def note (s : Shared) : Access → Shared
  | .store .read v => { s with consumed := s.consumed + sub64 v s.shm.read }
  | _ => s

def exec (x : Access) (s : Shared) : Shared × x.Answer :=
  ({ note s x with shm := (ShmData.access x s.shm).1 }, (ShmData.access x s.shm).2)

def code (size : ℕ) : ConsumerCall → Code (List UInt8)
  | .read len => ShmBuffer.read size len
  | .skip len => do
    ShmBuffer.skip size len
    pure []
  | .peek len offset => ShmBuffer.peek size len offset

end ConsumerCall

def consumer (size : ℕ) : Party Shared Access Access.Answer where
  exec := ConsumerCall.exec
  rely := ProducerMove size
  guar := fun x s t => x.InBounds size ∧ ConsumerMove size s t
  rely_refl := ProducerMove.refl
  rely_trans := fun _ _ _ => ProducerMove.trans

section Accesses

variable {size : ℕ} {s : Shared} {α : Type} {Q : α → Shared → Prop}

lemma consumer_load {w : Word} {next : ℕ → Code α}
    (h : ∀ t, ProducerMove size s t → (consumer size).Wp Q (next (t.shm.get w)) t) :
    (consumer size).Wp Q (load w >>= next) s := by
  intro t ht
  exact ⟨⟨trivial, ConsumerMove.refl t⟩, h t ht⟩

lemma consumer_storeIndex {v : ℕ} {next : Unit → Code α}
    (h : ∀ t, ProducerMove size s t → (consumer size).Wp Q (next ()) (t.setReadIndex v)) :
    (consumer size).Wp Q (store .readIndex v >>= next) s := by
  intro t ht
  exact ⟨⟨trivial, rfl, rfl, rfl, rfl, rfl, le_rfl, fun hinv => hinv.setReadIndex v⟩, h t ht⟩

lemma consumer_copyOut {p n : ℕ} {cs : List UInt8} {next : List UInt8 → Code α} (hinv : Inv size s)
    (hp : s.consumed ≤ p) (hcs : cs <+: s.committed) (hn : p + n ≤ cs.length)
    (hfit : p % size + n ≤ size)
    (h : ∀ t, ProducerMove size s t → (consumer size).Wp Q (next ((cs.drop p).take n)) t) :
    (consumer size).Wp Q (memcpyOut (p % size) n >>= next) s := by
  intro t ht
  have hcs' := hcs.trans ht.committed
  have hbytes : readRange t.shm.data (p % size) n = (cs.drop p).take n := by
    rw [readRange_eq_segment hfit, (ht.inv hinv).segment (ht.consumed ▸ hp)
      (hn.trans hcs'.length_le), slice_of_prefix hcs' hn]
  refine ⟨⟨?_, ConsumerMove.refl t⟩, ?_⟩
  · intro j hj
    omega
  · change (consumer size).Wp Q (next (readRange t.shm.data (p % size) n)) t
    rw [hbytes]
    exact h t ht

lemma consumer_readable {next : ℕ → Code α} (hinv : Inv size s)
    (h : ∀ t cs, ProducerMove size s t → s.committed <+: cs → cs <+: t.committed →
      cs.length ≤ s.consumed + size →
      (consumer size).Wp Q (next (cs.length - s.consumed)) t) :
    (consumer size).Wp Q (ShmBuffer.readable >>= next) s := by
  simp only [ShmBuffer.readable, Prog.bind_assoc, Prog.pure_bind]
  apply consumer_load
  intro t ht
  apply consumer_load
  intro u hu
  have htotal : sub64 (t.shm.get .write) (u.shm.get .read) = t.committed.length - s.consumed := by
    rw [← ht.consumed, ← (ht.inv hinv).readable]
    simp only [ShmData.get, hu.read]
  rw [htotal]
  apply h u t.committed (ht.trans hu) ht.committed hu.committed
  rw [← ht.consumed]
  exact (ht.inv hinv).fits

structure Got (s t : Shared) (len offset : ℕ) (bytes : List UInt8) : Prop where
  stream : bytes <+: t.committed.drop (s.consumed + offset)
  atMost : bytes.length ≤ len
  atLeast : min len (s.committed.length - (s.consumed + offset)) ≤ bytes.length

lemma Got.of_slice {t : Shared} {len offset n : ℕ} {cs : List UInt8} (hcs : s.committed <+: cs)
    (ht : cs <+: t.committed) (hn : s.consumed + offset + n ≤ cs.length) (hl : n ≤ len)
    (hmin : min len (cs.length - (s.consumed + offset)) ≤ n) :
    Got s t len offset ((cs.drop (s.consumed + offset)).take n) := by
  have hlen : ((cs.drop (s.consumed + offset)).take n).length = n := by
    rw [List.length_take, List.length_drop]
    omega
  have := hcs.length_le
  refine ⟨(List.take_prefix _ _).trans (ht.drop _), ?_, ?_⟩
  · rwa [hlen]
  · rw [hlen]
    omega

lemma consumer_readImpl {len offset : ℕ} {next : List UInt8 × ℕ → Code α} (hm : size < 2 ^ 63)
    (hinv : Inv size s) (hidx : ConsumerIdle size s)
    (h : ∀ t bytes index, ProducerMove size s t → Got s t len offset bytes →
      (bytes ≠ [] → index = (s.consumed + offset + bytes.length) % size) →
      (consumer size).Wp Q (next (bytes, index)) t) :
    (consumer size).Wp Q (ShmBuffer.readImpl size len offset >>= next) s := by
  simp only [ShmBuffer.readImpl, Prog.bind_assoc]
  apply consumer_readable hinv
  intro t cs ht hcs hcst hfits
  have hle := hcs.length_le
  have hcl := hinv.consumed_le
  by_cases hoff : cs.length - s.consumed ≤ offset
  · rw [if_pos hoff]
    exact h t [] 0 ht ⟨List.nil_prefix, Nat.zero_le _, by simp; omega⟩ nofun
  rw [if_neg hoff, sub64_eq (by omega) (by omega)]
  have hs : 0 < size := by omega
  obtain ⟨n, hn⟩ : ∃ n, n = min len (cs.length - s.consumed - offset) := ⟨_, rfl⟩
  rw [← hn]
  by_cases hz : n = 0
  · rw [if_pos hz]
    refine h t [] 0 ht ⟨List.nil_prefix, Nat.zero_le _, ?_⟩ nofun
    simp only [List.length_nil]
    omega
  rw [if_neg hz, Prog.bind_assoc]
  apply consumer_load
  intro u hu
  have hu' := ht.trans hu
  have hindex : ShmBuffer.wrap size (add64 (u.shm.get .readIndex) offset) =
      (s.consumed + offset) % size := by
    rw [← wrap_add hs hm (by omega)]
    simp only [ShmData.get, hu'.readIndex, show s.shm.readIndex = s.consumed % size from hidx]
  have hnext := advance_index (s.consumed + offset) hs hm (show n ≤ size by omega)
  have hmod := Nat.mod_lt (s.consumed + offset) hs
  have hlen : ((cs.drop (s.consumed + offset)).take n).length = n := by
    rw [List.length_take, List.length_drop]
    omega
  rw [hindex]
  rw [sub64_eq hmod.le (by omega)] at hnext ⊢
  have hdone : ∀ v, ProducerMove size u v → (consumer size).Wp Q
      (next ((cs.drop (s.consumed + offset)).take n, (s.consumed + offset + n) % size)) v := by
    intro v hv
    apply h v _ _ (hu'.trans hv)
    · exact Got.of_slice hcs (hcst.trans (hu.trans hv).committed) (by omega) (by omega) (by omega)
    · intro _
      rw [hlen]
  by_cases hsplit : size - (s.consumed + offset) % size < n
  · rw [if_pos hsplit] at hnext ⊢
    have hwrap : (s.consumed + offset + (size - (s.consumed + offset) % size)) % size = 0 := by
      rw [add_mod_cases hs (by omega), if_neg (by omega)]
      omega
    rw [sub64_eq hsplit.le (by omega)] at hnext ⊢
    rw [← hnext] at hdone
    simp only [Prog.bind_assoc, Prog.pure_bind]
    apply consumer_copyOut (hu'.inv hinv) (by rw [hu'.consumed]; omega)
      (hcst.trans hu.committed) (by omega) (by omega)
    intro v hv
    rw [← hwrap]
    apply consumer_copyOut ((hu'.trans hv).inv hinv) (by rw [(hu'.trans hv).consumed]; omega)
      (hcst.trans (hu.trans hv).committed) (by omega) (by omega)
    intro w hw
    rw [slice_split hsplit.le]
    exact hdone w (hv.trans hw)
  · rw [if_neg hsplit] at hnext ⊢
    simp only [Prog.bind_assoc, Prog.pure_bind]
    rw [hnext]
    exact consumer_copyOut (hu'.inv hinv) (by rw [hu'.consumed]; omega)
      (hcst.trans hu.committed) (by omega) (by omega) hdone

end Accesses

section Calls

variable {size : ℕ} {s : Shared}

structure Passed (size : ℕ) (s : Shared) (n : ℕ) : Prop where
  inv : Inv size s
  index : s.shm.readIndex = (s.consumed + n) % size
  committed : s.consumed + n ≤ s.committed.length

lemma Passed.stable {t : Shared} {n : ℕ} (h : Passed size s n) (hm : ProducerMove size s t) :
    Passed size t n := by
  have := hm.committed.length_le
  refine ⟨hm.inv h.inv, ?_, ?_⟩
  · rw [hm.readIndex, hm.consumed, h.index]
  · rw [hm.consumed]
    exact h.committed.trans this

lemma consume_wp {α : Type} {Q : α → Shared → Prop} (next : Code α) {n : ℕ} (hm : size < 2 ^ 63)
    (h : Passed size s n)
    (hQ : ∀ t, Inv size t → ConsumerIdle size t → t.consumed = s.consumed + n →
      s.committed <+: t.committed → t.shm.read = add64 s.shm.read n →
      (consumer size).Wp Q next t) :
    (consumer size).Wp Q (do
      let read ← load .read
      store .read (add64 read n)
      next) s := by
  apply consumer_load
  intro t ht u hu
  have hp := (h.stable ht).stable hu
  have hle := hp.committed
  have hfits := hp.inv.fits
  have hval : add64 (t.shm.get .read) n = add64 u.shm.read n := by
    simp only [ShmData.get, hu.read]
  have hback := sub64_add64 hp.inv.read_lt (show n < 2 ^ 64 by omega)
  have hexec : (ConsumerCall.exec (.store .read (add64 u.shm.read n)) u).1 =
      { u with shm := { u.shm with read := add64 u.shm.read n }, consumed := u.consumed + n } := by
    simp only [ConsumerCall.exec, ConsumerCall.note, hback]
    rfl
  have hinv : Inv size (ConsumerCall.exec (.store .read (add64 u.shm.read n)) u).1 := by
    rw [hexec]
    exact hp.inv.consume hm hle rfl rfl rfl rfl rfl
  rw [hval]
  refine ⟨⟨trivial, rfl, rfl, rfl, rfl, rfl, Nat.le_add_right _ _, fun _ => hinv⟩, ?_⟩
  apply hQ _ hinv
  · rw [hexec]
    exact hp.index
  · rw [hexec, ← ht.consumed, ← hu.consumed]
  · exact (ht.trans hu).committed
  · rw [hexec, ← ht.read, ← hu.read]

lemma read_wp (len : ℕ) (hm : size < 2 ^ 63) (hinv : Inv size s) (hidle : ConsumerIdle size s) :
    (consumer size).Wp
      (fun bytes t => Inv size t ∧ ConsumerIdle size t ∧ Got s t len 0 bytes ∧
        t.consumed = s.consumed + bytes.length) (ShmBuffer.read size len) s := by
  apply consumer_readImpl hm hinv hidle
  intro t bytes index ht hgot hindex
  dsimp only
  by_cases hpos : 0 < bytes.length
  · rw [if_pos hpos]
    apply consumer_storeIndex
    intro u hu
    have hu' := ht.trans hu
    have hlen := hgot.stream.length_le
    have hle := hu.committed.length_le
    rw [List.length_drop] at hlen
    have hpassed : Passed size (u.setReadIndex index) bytes.length := by
      refine ⟨(hu'.inv hinv).setReadIndex _, ?_, ?_⟩
      · change index = (u.consumed + bytes.length) % size
        rw [hu'.consumed, hindex (List.ne_nil_of_length_pos hpos), Nat.add_zero]
      · change u.consumed + bytes.length ≤ u.committed.length
        rw [hu'.consumed]
        omega
    refine consume_wp (pure bytes) hm hpassed ?_
    intro v hv hvidle hvcon hvcom _
    refine ⟨hv, hvidle, ⟨?_, hgot.atMost, hgot.atLeast⟩, ?_⟩
    · exact hgot.stream.trans ((hu.committed.trans hvcom).drop _)
    · rw [hvcon]
      exact congrArg (· + _) hu'.consumed
  · rw [if_neg hpos]
    refine ⟨ht.inv hinv, hidle.stable ht, hgot, ?_⟩
    rw [ht.consumed]
    omega

lemma skip_wp (len : ℕ) (hm : size < 2 ^ 63) (hinv : Inv size s) (hidle : ConsumerIdle size s) :
    (consumer size).Wp
      (fun _ t => Inv size t ∧ ConsumerIdle size t ∧ s.committed <+: t.committed ∧
        ∃ n, n ≤ len ∧ n ≤ size ∧ min len (s.committed.length - s.consumed) ≤ n ∧
          t.consumed = s.consumed + n ∧ t.shm.read = add64 s.shm.read n)
      (ShmBuffer.skip size len) s := by
  apply consumer_readable hinv
  intro t cs ht hcs hcst hfits
  have hle := hcs.length_le
  have hcl := hinv.consumed_le
  obtain ⟨n, hn⟩ : ∃ n, n = min len (cs.length - s.consumed) := ⟨_, rfl⟩
  dsimp only
  rw [← hn]
  by_cases hz : n = 0
  · rw [if_pos hz]
    refine ⟨ht.inv hinv, hidle.stable ht, ht.committed, 0, Nat.zero_le _, Nat.zero_le _, by omega, ?_, ?_⟩
    · exact ht.consumed
    · have := hinv.read_lt
      rw [ht.read, add64_eq (by omega), Nat.add_zero]
  rw [if_neg hz]
  apply consumer_load
  intro u hu
  have hu' := ht.trans hu
  have hidx : u.shm.get .readIndex = s.consumed % size := hidle.stable hu' |>.trans (by
    rw [hu'.consumed])
  rw [hidx, advance_index s.consumed (by omega) hm (by omega)]
  apply consumer_storeIndex
  intro v hv
  have hv' := hu'.trans hv
  have hpassed : Passed size (v.setReadIndex ((s.consumed + n) % size)) n := by
    refine ⟨(hv'.inv hinv).setReadIndex _, ?_, ?_⟩
    · change (s.consumed + n) % size = (v.consumed + n) % size
      rw [hv'.consumed]
    · change v.consumed + n ≤ v.committed.length
      have := (hcst.trans (hu.trans hv).committed).length_le
      rw [hv'.consumed]
      omega
  refine consume_wp (pure ()) hm hpassed ?_
  intro w hw hwidle hwcon hwcom hwread
  refine ⟨hw, hwidle, hv'.committed.trans hwcom, n, by omega, by omega, by omega, ?_, ?_⟩
  · exact hwcon.trans (congrArg (· + n) hv'.consumed)
  · exact hwread.trans (congrArg (add64 · n) hv'.read)

lemma peek_wp (len offset : ℕ) (hm : size < 2 ^ 63) (hinv : Inv size s)
    (hidle : ConsumerIdle size s) :
    (consumer size).Wp
      (fun bytes t => Inv size t ∧ ConsumerIdle size t ∧ Got s t len offset bytes ∧
        t.consumed = s.consumed) (ShmBuffer.peek size len offset) s := by
  apply consumer_readImpl hm hinv hidle
  intro t bytes index ht hgot _
  exact ⟨ht.inv hinv, hidle.stable ht, hgot, ht.consumed⟩

end Calls

end Simple.Shm
