import Simple.Gobang.RemoteGate

/-! The attempts of a gate to connect, over a list of valid addresses. -/

namespace Simple.Gobang.RemoteGate

open Simple.Lib

/-- `throws` is a connect that fails or times out: `await_resume` throws its error. `lost` is a
connection that is made, and lost by an exception later on. -/
inductive Outcome
  | throws
  | zero
  | lost
deriving DecidableEq

namespace Outcome

def failed : Outcome → Bool
  | .lost => false
  | _ => true

def resumptions : Outcome → List Resumption
  | .throws => [.throws]
  | .zero => [.zero]
  | .lost => [.connected, .throws]

end Outcome

def sleepFor (g : RemoteGate) : Option RemoteGate :=
  match g.await with
  | .interval _ _ => g.resume .woken
  | _ => some g

def attempt (g : RemoteGate) (o : Outcome) : Option RemoteGate :=
  (o.resumptions.foldlM resume g).bind sleepFor

def attempts (addresses : List Address) : Machine RemoteGate Outcome where
  initial := ({ addresses := addresses } : RemoteGate).startOver
  step := attempt

def index (g : RemoteGate) : ℕ := g.addressCnt % g.addresses.length

def Connects (g : RemoteGate) : Prop :=
  ∃ host port, split (g.addresses.getD g.index []) = some (host, port) ∧ g.await = .connect host port

variable {addresses : List Address} {g h : RemoteGate} {o : Outcome} {os : List Outcome}

structure WellFormed (addresses : List Address) : Prop where
  ne_nil : addresses ≠ []
  valid : ∀ a ∈ addresses, (split a).isSome = true

structure Rotates (addresses : List Address) (os : List Outcome) : Prop where
  /-- The address after a failure is the next one, and a success resets the back-off. -/
  next : ∀ init o, init ++ [o] <+: os → ∃ g h,
    (attempts addresses).run (attempts addresses).initial init = some g ∧ attempt g o = some h ∧
      g.Connects ∧ h.Connects ∧
      (o.failed = true → h.index = (g.index + 1) % addresses.length) ∧
      (o.failed = false → h.cntFail = 0)
  /-- A failed round tries every address once, and adds one to the back-off. -/
  round : ∀ init fails, init ++ fails <+: os → fails.length = addresses.length →
    (∀ o ∈ fails, o.failed = true) → ∃ g h,
      (attempts addresses).run (attempts addresses).initial init = some g ∧
        (attempts addresses).run g fails = some h ∧ h.cntFail = g.cntFail + 1 ∧
        ∀ i < addresses.length, ∃! j, j < addresses.length ∧
          ∃ k, (attempts addresses).run g (fails.take j) = some k ∧ k.index = i

structure Ready (addresses : List Address) (g : RemoteGate) : Prop where
  list : g.addresses = addresses
  size : g.addressSize = addresses.length
  connects : g.Connects

lemma WellFormed.split_current (hw : WellFormed addresses) (hg : g.addresses = addresses) :
    ∃ host port, split g.current = some (host, port) := by
  have hlt : g.addressCnt % g.addresses.length < g.addresses.length := by
    rw [hg]
    exact Nat.mod_lt _ (List.length_pos_iff.mpr hw.ne_nil)
  obtain ⟨e, he⟩ := Option.isSome_iff_exists.mp (hw.valid g.current (by
    rw [current, List.getD_eq_getElem _ _ hlt, ← hg]
    exact List.getElem_mem hlt))
  exact ⟨e.1, e.2, he⟩

lemma startOver_ready (hw : WellFormed addresses) (hg : g.addresses = addresses) :
    ∃ h, g.startOver.sleepFor = some h ∧ Ready addresses h ∧ h.addressCnt = g.addressCnt ∧
      h.cntFail = g.cntFail := by
  obtain ⟨host, port, hs⟩ := hw.split_current hg
  have hne : g.addresses ≠ [] := hg ▸ hw.ne_nil
  have hstart : g.startOver = { g with
      addressSize := g.addresses.length
      await := if 0 < connectInterval g.cntFail then .interval host port else .connect host port } := by
    rw [startOver, loop, iterate_valid hne hs]
    rfl
  refine ⟨{ g with addressSize := g.addresses.length, await := .connect host port }, ?_,
    ⟨hg, congrArg List.length hg, host, port, hs, rfl⟩, rfl, rfl⟩
  rw [hstart]
  by_cases hinterval : 0 < connectInterval g.cntFail
  · simp only [if_pos hinterval]
    rfl
  · simp only [if_neg hinterval]
    rfl

def Outcome.after (n : ℕ) (o : Outcome) (g : RemoteGate) : ℕ × ℕ :=
  match o with
  | .throws => (g.addressCnt, g.cntFail)
  | .zero => (g.addressCnt + 1, if (g.addressCnt + 1) % n = 0 then g.cntFail + 1 else g.cntFail)
  | .lost => (g.addressCnt, 0)

lemma attempt_ready (hw : WellFormed addresses) (hg : Ready addresses g) (o : Outcome) :
    ∃ h, attempt g o = some h ∧ Ready addresses h ∧
      (h.addressCnt, h.cntFail) = o.after addresses.length g := by
  obtain ⟨host, port, -, hawait⟩ := hg.connects
  cases o with
  | throws =>
    obtain ⟨h, hs, hh, hcnt, hfail⟩ := startOver_ready hw hg.list
    refine ⟨h, ?_, hh, Prod.ext hcnt hfail⟩
    simpa [attempt, Outcome.resumptions, resume, hawait, goOn] using hs
  | zero =>
    obtain ⟨h, hs, hh, hcnt, hfail⟩ := startOver_ready (g := g.incAddressCnt) hw
      ((incAddressCnt_addresses).trans hg.list)
    refine ⟨h, ?_, hh, Prod.ext (hcnt.trans incAddressCnt_addressCnt) ?_⟩
    · simpa [attempt, Outcome.resumptions, resume, hawait, goOn] using hs
    · rw [hfail, incAddressCnt, hg.size]
      dsimp only [Outcome.after]
      split_ifs <;> rfl
  | lost =>
    obtain ⟨h, hs, hh, hcnt, hfail⟩ := startOver_ready
      (g := { g with cntFail := 0, await := .receive }) hw hg.list
    refine ⟨h, ?_, hh, Prod.ext hcnt hfail⟩
    simpa [attempt, Outcome.resumptions, resume, hawait, goOn] using hs

lemma Ready.index_eq (hg : Ready addresses g) : g.index = g.addressCnt % addresses.length := by
  rw [index, hg.list]

lemma run_ready (hw : WellFormed addresses) (hg : Ready addresses g) (os : List Outcome) :
    ∃ h, (attempts addresses).run g os = some h ∧ Ready addresses h := by
  induction os generalizing g with
  | nil => exact ⟨g, rfl, hg⟩
  | cons o os ih =>
    obtain ⟨k, hk, hready, -⟩ := attempt_ready hw hg o
    obtain ⟨h, hrun, hh⟩ := ih hready
    exact ⟨h, Machine.run_cons_eq_some.mpr ⟨k, hk, hrun⟩, hh⟩

lemma ready_initial (hw : WellFormed addresses) : Ready addresses (attempts addresses).initial := by
  obtain ⟨h, hs, hh, -⟩ := startOver_ready (g := { addresses := addresses }) hw rfl
  obtain ⟨host, port, hsplit⟩ := hw.split_current (g := { addresses := addresses }) rfl
  have hne : ({ addresses := addresses } : RemoteGate).addresses ≠ [] := hw.ne_nil
  have hstart : (attempts addresses).initial = { addresses := addresses
                                                 addressSize := addresses.length
                                                 await := .connect host port } := by
    rw [attempts, startOver, loop, iterate_valid hne hsplit]
    rfl
  exact ⟨congrArg RemoteGate.addresses hstart, congrArg addressSize hstart, hstart ▸ ⟨host, port, hsplit, rfl⟩⟩

lemma run_zeros (hw : WellFormed addresses) (hg : Ready addresses g) (m : ℕ) :
    ∃ h, (attempts addresses).run g (List.replicate m .zero) = some h ∧ Ready addresses h ∧
      h.addressCnt = g.addressCnt + m ∧
      h.cntFail + g.addressCnt / addresses.length =
        g.cntFail + (g.addressCnt + m) / addresses.length := by
  induction m generalizing g with
  | zero => exact ⟨g, rfl, hg, rfl, rfl⟩
  | succ m ih =>
    obtain ⟨k, hk, hready, hafter⟩ := attempt_ready hw hg .zero
    obtain ⟨hcnt, hfail⟩ := Prod.mk.inj hafter
    obtain ⟨h, hrun, hh, hcnt', hfail'⟩ := ih hready
    refine ⟨h, Machine.run_cons_eq_some.mpr ⟨k, hk, hrun⟩, hh, by omega, ?_⟩
    rw [hcnt, hfail, Nat.add_assoc, Nat.add_comm 1 m] at hfail'
    by_cases hround : (g.addressCnt + 1) % addresses.length = 0
    · rw [if_pos hround, Nat.succ_div_of_mod_eq_zero hround] at hfail'
      omega
    · rw [if_neg hround, Nat.succ_div_of_mod_ne_zero hround] at hfail'
      exact hfail'

lemma failed_zero (ho : o.failed = true) (hne : o ≠ .throws) : o = .zero := by
  cases o with
  | throws => exact absurd rfl hne
  | zero => rfl
  | lost => cases ho

lemma rotates_next (hw : WellFormed addresses) (hg : Ready addresses g) (hne : o ≠ .throws) :
    ∃ h, attempt g o = some h ∧ Ready addresses h ∧
      (o.failed = true → h.index = (g.index + 1) % addresses.length) ∧
      (o.failed = false → h.cntFail = 0) := by
  obtain ⟨h, hh, hready, hafter⟩ := attempt_ready hw hg o
  obtain ⟨hcnt, hfail⟩ := Prod.mk.inj hafter
  refine ⟨h, hh, hready, ?_, ?_⟩
  · intro ho
    obtain rfl := failed_zero ho hne
    rw [hready.index_eq, hg.index_eq, hcnt, Nat.mod_add_mod]
  · intro ho
    cases o with
    | throws => exact absurd rfl hne
    | zero => cases ho
    | lost => exact hfail

lemma rotates_round (hw : WellFormed addresses) (hg : Ready addresses g) {fails : List Outcome}
    (hlength : fails.length = addresses.length) (hzero : ∀ o ∈ fails, o = .zero) : ∃ h,
    (attempts addresses).run g fails = some h ∧ h.cntFail = g.cntFail + 1 ∧
      ∀ i < addresses.length, ∃! j, j < addresses.length ∧
        ∃ k, (attempts addresses).run g (fails.take j) = some k ∧ k.index = i := by
  obtain rfl : fails = List.replicate addresses.length .zero := List.eq_replicate_iff.mpr ⟨hlength, hzero⟩
  have hpos : 0 < addresses.length := List.length_pos_iff.mpr hw.ne_nil
  obtain ⟨h, hrun, -, -, hfail⟩ := run_zeros hw hg addresses.length
  rw [Nat.add_div_right _ hpos] at hfail
  refine ⟨h, hrun, by omega, ?_⟩
  intro i hi
  have hindex {j : ℕ} (hj : j < addresses.length) :
      (∃ k, (attempts addresses).run g ((List.replicate addresses.length .zero).take j) = some k ∧
        k.index = i) ↔ (g.addressCnt + j) % addresses.length = i := by
    obtain ⟨k, hk, hready, hcnt, -⟩ := run_zeros hw hg j
    rw [List.take_replicate, min_eq_left hj.le, hk]
    simp only [Option.some.injEq, exists_eq_left', hready.index_eq, hcnt]
  obtain ⟨j, hj, hmod⟩ := exists_rotation g.addressCnt hi
  refine ⟨j, ⟨hj, (hindex hj).mpr hmod⟩, ?_⟩
  rintro j' ⟨hj', hk⟩
  have hmod' := (hindex hj').mp hk
  have hcongr : j' ≡ j [MOD addresses.length] :=
    Nat.ModEq.add_left_cancel' g.addressCnt (hmod'.trans hmod.symm)
  exact Nat.ModEq.eq_of_lt_of_lt hcongr hj' hj

lemma throws_not_mem (hw : WellFormed addresses) (hr : Rotates addresses os) : .throws ∉ os := by
  intro hmem
  obtain ⟨init, post, rfl⟩ := List.append_of_mem hmem
  have hpre : init ++ [.throws] <+: init ++ .throws :: post := by
    simp [List.prefix_append_right_inj]
  obtain ⟨g, h, hg, hh, -, -, hindex, -⟩ := hr.next init .throws hpre
  obtain ⟨g', hg', hready⟩ := run_ready hw (ready_initial hw) init
  obtain rfl := Option.some.inj (hg.symm.trans hg')
  obtain ⟨h', hh', hready', hafter⟩ := attempt_ready hw hready .throws
  obtain rfl := Option.some.inj (hh.symm.trans hh')
  obtain ⟨hcnt, hfail⟩ := Prod.mk.inj hafter
  have hsame : h.index = g.index := by rw [hready'.index_eq, hready.index_eq, hcnt]
  have hlt : g.index < addresses.length := by
    rw [hready.index_eq]
    exact Nat.mod_lt _ (List.length_pos_iff.mpr hw.ne_nil)
  have hnext := hindex rfl
  rw [hsame] at hnext
  by_cases hone : addresses.length = 1
  · obtain ⟨g₁, h₁, hg₁, hh₁, hcount, -⟩ := hr.round init [.throws] hpre (by simpa using hone.symm)
      (by simp [Outcome.failed])
    obtain rfl := Option.some.inj (hg.symm.trans hg₁)
    obtain ⟨k, hk, hnil⟩ := Machine.run_cons_eq_some.mp hh₁
    obtain rfl := Option.some.inj (hh.symm.trans hk)
    obtain rfl := Option.some.inj hnil
    have hfail : h.cntFail = g.cntFail := hfail
    omega
  · by_cases hlast : g.index + 1 = addresses.length
    · rw [hlast, Nat.mod_self] at hnext
      omega
    · rw [Nat.mod_eq_of_lt (by omega)] at hnext
      omega

theorem rotates_iff (hw : WellFormed addresses) (os : List Outcome) :
    Rotates addresses os ↔ ∀ o ∈ os, o ≠ .throws := by
  refine ⟨fun hr o ho hthrows => throws_not_mem hw hr (hthrows ▸ ho), fun hne => ⟨?_, ?_⟩⟩
  · intro init o hpre
    have ho : o ≠ .throws := hne o (hpre.subset (by simp))
    obtain ⟨g, hg, hready⟩ := run_ready hw (ready_initial hw) init
    obtain ⟨h, hh, hready', hindex, hreset⟩ := rotates_next hw hready ho
    exact ⟨g, h, hg, hh, hready.connects, hready'.connects, hindex, hreset⟩
  · intro init fails hpre hlength hfailed
    obtain ⟨g, hg, hready⟩ := run_ready hw (ready_initial hw) init
    have hzero : ∀ o ∈ fails, o = .zero := fun o ho =>
      failed_zero (hfailed o ho) (hne o (hpre.subset (List.mem_append_right _ ho)))
    obtain ⟨h, hrun, hcount, htried⟩ := rotates_round hw hready hlength hzero
    exact ⟨g, h, hg, hrun, hcount, htried⟩

def twoAddresses : List Address := [[104, 44, 49], [104, 44, 50]]

lemma wellFormed_twoAddresses : WellFormed twoAddresses := ⟨by decide, by decide⟩

theorem rotates_twoAddresses : Rotates twoAddresses [.zero, .zero, .lost, .zero] :=
  (rotates_iff wellFormed_twoAddresses _).mpr (by decide)

theorem throws_stays : ∃ g, (attempts twoAddresses).run (attempts twoAddresses).initial [.throws] = some g ∧
    (attempts twoAddresses).initial.index = 0 ∧ g.index = 0 ∧ ¬Rotates twoAddresses [.throws] := by
  refine ⟨_, rfl, rfl, rfl, ?_⟩
  intro hr
  exact throws_not_mem wellFormed_twoAddresses hr List.mem_cons_self

end Simple.Gobang.RemoteGate
