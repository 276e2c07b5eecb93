import Simple.Containers.BufferLimits
import Simple.Web.WebSocket

/-! The payload of a frame on its way from the socket's buffer to that of the message. -/

namespace Simple.Web.WebSocket

open Simple.Lib Simple.Lib.Cyclic Simple.Containers Simple.Containers.BufferMemory

variable {P A : Type} [DecidableEq P] [DecidableEq A] {fixed : ℕ} {w w₁ w₂ : BufferMemory P A} {p q : P}
  {b : BaseBuffer P A} {v u : MemoryBuffer} {vs : P → Option MemoryBuffer} {alloc : Allocation A} {len : ℕ}
  {l l' : P → Option (List UInt8)} {as : List (Action P A)}

/-- `network::read_size` once the socket has the bytes. Before that it waits. -/
def readSize (q : P) (dst : Pointer P A) (i size : ℕ) (w : BufferMemory P A) : Option (Result (BufferMemory P A)) :=
  match w.objects q with
  | none => some .undefined
  | some s =>
    if s.readable < size then none
    else some ((w.memory.load s.data s.read size).bind fun bytes =>
      (w.memmove dst i bytes).bind fun w => w.read q size)

def keepPayload (p : P) (dst : Pointer P A) (i len : ℕ) (key : Option Key) (w : BufferMemory P A) :
    Result (BufferMemory P A) :=
  (w.memory.load dst i len).bind fun bytes =>
    (w.memmove dst i (key.elim bytes (umask bytes))).bind fun w => w.written p len

lemma waited (h : Holds fixed w₁ vs) (hfixed : fixed ≤ MemoryBuffer.maxSize) (hp : vs p = some v)
    (hb : w₁.objects p = some b) (hothers : ∀ a ∈ as, p ∉ a.changes)
    (hrun : (machine P A fixed).run (some w₁, l) as = some (some w₂, l')) :
    ∃ vs', Holds fixed w₂ vs' ∧ vs' p = some v ∧ w₂.objects p = some b := by
  have hinv := Machine.run_invariant_of_mem
    (I := fun s => ∃ w vs, s.1 = some w ∧ Holds fixed w vs ∧ vs p = some v ∧ w.objects p = some b)
    ?_ ⟨w₁, vs, rfl, h, hp, hb⟩ hrun
  · obtain ⟨w, vs, hw, h, hp, hb⟩ := hinv
    obtain rfl := Option.some.inj hw
    exact ⟨vs, h, hp, hb⟩
  · rintro a ha s t ⟨w, vs, hs, h, hp, hb⟩ hstep
    obtain ⟨-, rfl | ⟨w', vs', hdoes, rfl⟩⟩ := step_cases hs h hfixed hstep
    · exact ⟨w, vs, hs, h, hp, hb⟩
    · obtain ⟨hobject, hview⟩ := hdoes.others p (hothers a ha)
      exact ⟨w', vs', rfl, hdoes.holds, hview.trans hp, hobject.trans hb⟩

/-- The socket does not have the payload yet, or there is room for all of it. -/
def Fits (p q : P) (b : BaseBuffer P A) (len : ℕ) (w : BufferMemory P A) : Prop :=
  readSize q b.data b.write len w = none ∨
    b.write + len ≤ b.capacity ∧ ∃ w', readSize q b.data b.write len w = some (.returns w') ∧
      ∀ key, ∃ w'', keepPayload p b.data b.write len key w' = .returns w''

lemma payload_fits (h : Holds fixed w vs) (hp : vs p = some v) (hq : vs q = some u) (hpq : q ≠ p)
    (hb : w.objects p = some b) (hroom : v.write + len < 2 ^ 64 → len ≤ v.writable) :
    Fits p q b len w := by
  obtain ⟨c, hc, hrc⟩ := h.live q u hq
  have hr := h.rep hp hb
  have hread := u.read_le
  have hwrite := u.write_le
  have hwrite' := v.write_le
  have hmax := hr.max
  have hmax' := hrc.max
  unfold MemoryBuffer.maxSize at hmax hmax'
  rw [Fits, readSize, hc]
  dsimp only
  rw [hrc.readable, hrc.read]
  split_ifs with hwaits
  · exact .inl rfl
  unfold MemoryBuffer.readable at hwaits
  have hle := hroom (by omega)
  unfold MemoryBuffer.writable at hle
  have hlength : (readRange u.data u.read len).length = len := readRange_length ..
  obtain ⟨w₁, hmove, hobjects, hsets⟩ := h.memmove hp hb
    (show v.write + (readRange u.data u.read len).length ≤ v.capacity by omega)
  have hq₁ : Function.update vs p (some { v with data := writeRange v.data v.write (readRange u.data u.read len) }) q =
      some u := by
    rw [Function.update_of_ne hpq, hq]
  obtain ⟨w₂, hw₂, hsets₂⟩ := hsets.holds.read hq₁ len
  rw [h.load hq hc (by omega), Result.bind_returns, hr.write, hmove, Result.bind_returns, hw₂]
  refine .inr ⟨by rw [hr.capacity]; omega, w₂, rfl, ?_⟩
  intro key
  have hb₂ : w₂.objects p = some b := by rw [hsets₂.others p hpq.symm, hobjects, hb]
  have hp₂ : Function.update (Function.update vs p (some { v with
      data := writeRange v.data v.write (readRange u.data u.read len) })) q (some (u.readBytes len)) p =
      some { v with data := writeRange v.data v.write (readRange u.data u.read len) } := by
    rw [Function.update_of_ne hpq.symm, Function.update_self]
  have hkey (bytes : List UInt8) : (key.elim bytes (umask bytes)).length = bytes.length := by
    cases key with
    | none => rfl
    | some key => exact umask_length bytes key
  have hfits (data : ℕ → UInt8) :
      v.write + (key.elim (readRange data v.write len) (umask (readRange data v.write len))).length ≤ v.capacity := by
    rw [hkey, readRange_length]
    omega
  rw [keepPayload, hsets₂.holds.load hp₂ hb₂ (show v.write + len ≤ v.capacity by omega), Result.bind_returns]
  obtain ⟨w₃, hmove₃, -, hsets₃⟩ := hsets₂.holds.memmove hp₂ hb₂ (hfits _)
  rw [hmove₃, Result.bind_returns]
  obtain ⟨w₄, hw₄, -⟩ := hsets₃.holds.written hsets₃.view len
  exact ⟨w₄, hw₄⟩

def Reached (w : BufferMemory P A) : Prop := ∃ l, (machine P A 1024).Reachable (some w, l)

lemma Reached.holds (h : Reached w) : ∃ vs, Holds 1024 w vs := by
  obtain ⟨l, hreach⟩ := h
  have hinv := Machine.reachable_invariant (I := fun s => ∃ w vs, s.1 = some w ∧ Holds 1024 w vs)
    ⟨{}, _, rfl, initial_holds⟩ ?_ hreach
  · obtain ⟨w, vs, hw, h⟩ := hinv
    obtain rfl := Option.some.inj hw
    exact ⟨vs, h⟩
  · rintro s a t ⟨w, vs, hs, h⟩ hstep
    obtain ⟨-, rfl | ⟨w', vs', hdoes, rfl⟩⟩ := step_cases hs h (by decide) hstep
    · exact ⟨w, vs, hs, h⟩
    · exact ⟨w', vs', rfl, hdoes.holds⟩

/-- How far `make_sure_writable` and `operator+=` are right. What is read into a buffer fits in any case. -/
theorem limits :
    (∀ (w : BufferMemory P A) p len alloc, Reached w → w.Live p → len < 2 ^ 64 → w.Fresh alloc →
      (w.Establishes p len alloc ↔ alloc = none ∨ len ≤ w.room p ∨ w.taken p + len < 2 ^ 64)) ∧
    (∀ (w w₁ w₂ : BufferMemory P A) p q b len alloc l l' as, Reached w → w.Live p → len < 2 ^ 64 → w.Fresh alloc →
      w.makeSureWritable p len alloc = .returns w₁ → w₁.objects p = some b → (∀ a ∈ as, p ∉ a.changes) →
      (machine P A 1024).run (some w₁, l) as = some (some w₂, l') → q ≠ p → w₂.Live q → Fits p q b len w₂) ∧
    ∀ (r : ReadBuffer) n, n < 2 ^ 64 → (r.read ≤ (r.advance n).read ↔ r.read + n < 2 ^ 64) := by
  refine ⟨?_, ?_, fun r n hn => r.advance_forwards_iff hn⟩
  · intro w p len alloc hreached hp hlen hfresh
    obtain ⟨vs, h⟩ := hreached.holds
    exact h.establishes_iff hp hlen hfresh
  · intro w w₁ w₂ p q b len alloc l l' as hreached hp hlen hfresh hw₁ hb hothers hrun hpq hq
    obtain ⟨vs, h⟩ := hreached.holds
    obtain ⟨v, hv⟩ := h.view hp
    obtain hthrows | ⟨w', v', hw', hsets, hkeeps, hroom⟩ := h.makeSureWritable hv hfresh len
    · cases hthrows.symm.trans hw₁
    cases hw'.symm.trans hw₁
    obtain ⟨vs₂, h₂, hp₂, hb₂⟩ := waited hsets.holds (by decide) hsets.view hb hothers hrun
    obtain ⟨u, hu⟩ := h₂.view hq
    rw [← hkeeps.write] at hroom
    exact payload_fits h₂ hp₂ hu hpq hb₂ hroom

/-- One byte is in the buffer, and room for `2 ^ 64 - 1` more is asked for. -/
def oneByte : List (BufferMemory.Action ℕ ℕ) := [.construct 0 0, .written 0 [1]]

theorem makeSureWritable_wraps :
    (∃ w : BufferMemory ℕ ℕ, Reached w ∧ w.Live 0 ∧ w.Fresh (some (0, fun _ => 0)) ∧
      ¬w.Establishes 0 (2 ^ 64 - 1) (some (0, fun _ => 0))) ∧
    ∃ (r : ReadBuffer) (n : ℕ), n < 2 ^ 64 ∧ (r.advance n).read < r.read := by
  refine ⟨?_, ⟨[7], 1, le_rfl, by decide⟩, 2 ^ 64 - 1, by decide, by decide⟩
  have hrun : ((machine ℕ ℕ 1024).run (machine ℕ ℕ 1024).initial oneByte).map (fun s => s.1.map fun w =>
      (decide (w.Live 0 ∧ w.Fresh (some (0, fun _ => 0))),
        (w.makeSureWritable 0 (2 ^ 64 - 1) (some (0, fun _ => 0))).toOption.map fun w' => w'.room 0)) =
      some (some (true, some 1535)) := by decide +kernel
  obtain ⟨⟨s, l⟩, hs, hmap⟩ := Option.map_eq_some_iff.mp hrun
  obtain ⟨w, rfl, hw⟩ := Option.map_eq_some_iff.mp hmap
  obtain ⟨hlive, hroom⟩ := Prod.mk.inj hw
  obtain ⟨hlive, hfresh⟩ := of_decide_eq_true hlive
  refine ⟨w, ⟨l, oneByte, hs⟩, hlive, hfresh, ?_⟩
  rintro (hthrows | ⟨w', hw', hle, -⟩)
  · rw [hthrows] at hroom
    cases hroom
  · rw [hw'] at hroom
    have hroom : w'.room 0 = 1535 := Option.some.inj hroom
    omega

end Simple.Web.WebSocket
