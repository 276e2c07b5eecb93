import Mathlib.Tactic

/-! The session numbers of a `rpc_system`. -/

namespace Simple.Gobang

/-- `sequence_` counts on past 2 ^ 32, which its lowest 25 bits do not tell. -/
structure RpcSystem where
  sequence : ℕ := 0
  time : ℕ := 0

namespace RpcSystem

def sessionOf (pid time sequence : ℕ) : ℕ :=
  time <<< 32 ||| (pid &&& 0x7F) <<< 25 ||| (sequence &&& 0x1FFFFFF)

def tick (r : RpcSystem) (now : ℕ) : RpcSystem :=
  let r := if r.time < now then { sequence := 0, time := now } else r
  { r with sequence := r.sequence + 1 }

def createSession (r : RpcSystem) (pid now : ℕ) : RpcSystem × UInt64 :=
  let r := r.tick now
  (r, .ofNat (sessionOf pid r.time r.sequence))

/-- What `create_session` relies on: the clock is below 2 ^ 32, and it moves on before a second has
used up its sequence numbers. -/
def Fits (r : RpcSystem) : Prop := r.time < 2 ^ 32 ∧ r.sequence ≤ 2 ^ 25

instance (r : RpcSystem) : Decidable r.Fits := inferInstanceAs (Decidable (_ ∧ _))

def Issued (pid : ℕ) (r : RpcSystem) (session : UInt64) : Prop :=
  ∃ t q, session = .ofNat (sessionOf pid t q) ∧ t < 2 ^ 32 ∧ 1 ≤ q ∧ q ≤ 2 ^ 25 ∧
    (t < r.time ∨ t = r.time ∧ q ≤ r.sequence)

variable {pid now : ℕ} {r : RpcSystem} {session : UInt64}

lemma sessionOf_eq (pid t q : ℕ) :
    sessionOf pid t q = t * 2 ^ 32 + pid % 2 ^ 7 * 2 ^ 25 + q % 2 ^ 25 := by
  have hq : q &&& 0x1FFFFFF = q % 2 ^ 25 := Nat.and_two_pow_sub_one_eq_mod q 25
  have hpid : pid &&& 0x7F = pid % 2 ^ 7 := Nat.and_two_pow_sub_one_eq_mod pid 7
  have hlow : pid % 2 ^ 7 * 2 ^ 25 < 2 ^ 32 := by omega
  rw [sessionOf, hq, hpid, Nat.shiftLeft_eq (pid % 2 ^ 7), ← Nat.shiftLeft_add_eq_or_of_lt hlow,
    Nat.shiftLeft_eq]
  have hsplit : t * 2 ^ 32 + pid % 2 ^ 7 * 2 ^ 25 = (t * 2 ^ 7 + pid % 2 ^ 7) <<< 25 := by
    rw [Nat.shiftLeft_eq]
    ring
  rw [hsplit, ← Nat.shiftLeft_add_eq_or_of_lt (Nat.mod_lt q (by norm_num))]

lemma sessionOf_injective {t t' q q' : ℕ} (ht : t < 2 ^ 32) (ht' : t' < 2 ^ 32) (hq : 1 ≤ q)
    (hq' : 1 ≤ q') (hle : q ≤ 2 ^ 25) (hle' : q' ≤ 2 ^ 25)
    (h : UInt64.ofNat (sessionOf pid t q) = UInt64.ofNat (sessionOf pid t' q')) :
    t = t' ∧ q = q' := by
  have hnat := congrArg UInt64.toNat h
  simp only [UInt64.toNat_ofNat', sessionOf_eq] at hnat
  omega

lemma one_le_tick (r : RpcSystem) (now : ℕ) : 1 ≤ (r.tick now).sequence := Nat.le_add_left 1 _

lemma tick_cases (r : RpcSystem) (now : ℕ) :
    (r.time < now ∧ r.tick now = { sequence := 1, time := now }) ∨
      (now ≤ r.time ∧ r.tick now = { sequence := r.sequence + 1, time := r.time }) := by
  by_cases h : r.time < now
  · exact Or.inl ⟨h, by simp [tick, h]⟩
  · exact Or.inr ⟨by omega, by simp [tick, h]⟩

lemma Issued.tick (h : Issued pid r session) : Issued pid (r.tick now) session := by
  obtain ⟨t, q, hs, ht, hq, hle, hpast⟩ := h
  refine ⟨t, q, hs, ht, hq, hle, ?_⟩
  rcases tick_cases r now with ⟨hlt, heq⟩ | ⟨-, heq⟩ <;> rw [heq] <;> dsimp only <;> omega

lemma issued_createSession (pid : ℕ) (hfits : (r.tick now).Fits) :
    Issued pid (r.tick now) (r.createSession pid now).2 := by
  exact ⟨(r.tick now).time, (r.tick now).sequence, rfl, hfits.1, one_le_tick r now, hfits.2,
    Or.inr ⟨rfl, le_rfl⟩⟩

lemma createSession_ne (hfits : (r.tick now).Fits) (h : Issued pid r session) :
    (r.createSession pid now).2 ≠ session := by
  obtain ⟨t, q, rfl, ht, hq, hle, hpast⟩ := h
  intro heq
  obtain ⟨htime, hseq⟩ :=
    sessionOf_injective hfits.1 ht (one_le_tick r now) hq hfits.2 hle heq
  rcases tick_cases r now with ⟨hlt, hr⟩ | ⟨hle', hr⟩ <;> rw [hr] at htime hseq <;>
    dsimp only at htime hseq <;> omega

end RpcSystem

end Simple.Gobang
