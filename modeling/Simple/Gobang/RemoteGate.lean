import Mathlib.Data.List.GetD
import Simple.Lib.Machine

/-! The connection to another gate, whose addresses are tried one after the other. -/

namespace Simple.Gobang

open Simple.Lib

abbrev Address := List UInt8

/-- What `run` is suspended on. In `spins` it is not suspended: it goes round in its loop. -/
inductive RemoteGate.Await
  | start
  | noAddresses
  | interval (host port : Address)
  | connect (host port : Address)
  | receive
  | spins
deriving DecidableEq

/-- The counters are of `size_t`, which no run fills. -/
structure RemoteGate where
  addresses : List Address := []
  addressCnt : ℕ := 0
  addressSize : ℕ := 0
  cntFail : ℕ := 0
  await : RemoteGate.Await := .start
deriving DecidableEq

def connectInterval (failCount : ℕ) : ℤ :=
  if failCount < 2 then 0 else [1, 2, 4, 6, 8].getD (failCount - 2) 8

namespace RemoteGate

def address (host port : Address) : Address := host ++ 44 :: port

def split (address : Address) : Option (Address × Address) :=
  let pos := address.idxOf 44
  if pos = address.length ∨ pos + 1 = address.length then none
  else some (address.take pos, address.drop (pos + 1))

def incAddressCnt (g : RemoteGate) : RemoteGate :=
  let g := { g with addressCnt := g.addressCnt + 1 }
  if g.addressCnt % g.addressSize = 0 then { g with cntFail := g.cntFail + 1 } else g

def current (g : RemoteGate) : Address := g.addresses.getD (g.addressCnt % g.addresses.length) []

/-- One round of the loop up to where it starts over (on the left) or is suspended. -/
def iterate (g : RemoteGate) : RemoteGate ⊕ RemoteGate :=
  let g := { g with addressSize := g.addresses.length }
  if g.addressSize = 0 then .inr { g with await := .noAddresses }
  else
    match split g.current with
    | none => .inl g.incAddressCnt
    | some (host, port) =>
      if 0 < connectInterval g.cntFail then .inr { g with await := .interval host port }
      else .inr { g with await := .connect host port }

def loop : ℕ → RemoteGate → Option RemoteGate
  | 0, _ => none
  | fuel + 1, g =>
    match g.iterate with
    | .inl g => loop fuel g
    | .inr g => some g

/-- The loop from its start, which may take one round more than there are addresses. -/
def startOver (g : RemoteGate) : RemoteGate :=
  (g.loop (g.addresses.length + 1)).getD { g with await := .spins }

inductive Resumption
  | woken
  | connected
  | zero
  | throws
deriving DecidableEq

/-- What is left of the round: the loop starts over (on the left), or it is suspended again. -/
def goOn (g : RemoteGate) : Await → Resumption → Option (RemoteGate ⊕ RemoteGate)
  | .start, .woken => some (.inl g)
  | .noAddresses, .woken => some (.inl g)
  | .interval host port, .woken => some (.inr { g with await := .connect host port })
  | .connect _ _, .zero => some (.inl g.incAddressCnt)
  | .connect _ _, .connected => some (.inr { g with cntFail := 0, await := .receive })
  | .connect _ _, .throws => some (.inl g)
  | .receive, .woken => some (.inr g)
  | .receive, .throws => some (.inl g)
  | _, _ => none

def resume (g : RemoteGate) (r : Resumption) : Option RemoteGate :=
  (g.goOn g.await r).map (Sum.elim startOver id)

/-- `set_addresses` comes from the master at any time, with the addresses as hosts and ports. -/
inductive Action
  | setAddresses (entries : List (Address × Address))
  | resume (r : Resumption)

def step (g : RemoteGate) : Action → Option RemoteGate
  | .setAddresses entries => some { g with addresses := entries.map fun e => address e.1 e.2 }
  | .resume r => g.resume r

def machine : Machine RemoteGate Action where
  initial := {}
  step := step

variable {g h : RemoteGate} {s : RemoteGate ⊕ RemoteGate} {host port a : Address} {fuel n : ℕ} {r : Resumption}

lemma idxOf_address : (address host port).idxOf 44 = host.idxOf 44 := by
  rw [address]
  by_cases hmem : (44 : UInt8) ∈ host
  · exact List.idxOf_append_of_mem hmem
  · rw [List.idxOf_append_of_notMem hmem, List.idxOf_cons_self, Nat.add_zero,
      List.idxOf_eq_length_iff.mpr hmem]

/-- An address of the master is invalid when its only comma is its end. -/
lemma split_address : (split (address host port)).isSome = true ↔ port ≠ [] ∨ 44 ∈ host := by
  have hlength : (address host port).length = host.length + port.length + 1 := by
    simp [address, Nat.add_assoc]
  have hle : host.idxOf 44 ≤ host.length := List.idxOf_le_length
  rw [split]
  simp only [idxOf_address, hlength]
  by_cases hmem : (44 : UInt8) ∈ host
  · have hlt : host.idxOf 44 < host.length := List.idxOf_lt_length_of_mem hmem
    rw [if_neg (by omega)]
    simp [hmem]
  · have heq : host.idxOf 44 = host.length := List.idxOf_eq_length_iff.mpr hmem
    rw [heq]
    by_cases hport : port = []
    · subst hport
      simp [hmem]
    · have hpos : 0 < port.length := List.length_pos_iff.mpr hport
      rw [if_neg (by omega)]
      simp [hport]

@[simp] lemma incAddressCnt_addresses : g.incAddressCnt.addresses = g.addresses := by
  rw [incAddressCnt]
  split_ifs <;> rfl

@[simp] lemma incAddressCnt_addressCnt : g.incAddressCnt.addressCnt = g.addressCnt + 1 := by
  rw [incAddressCnt]
  split_ifs <;> rfl

lemma iterate_invalid (hne : g.addresses ≠ []) (hs : split g.current = none) :
    g.iterate = .inl { g with addressSize := g.addresses.length }.incAddressCnt := by
  have hsize : g.addresses.length ≠ 0 := by simpa using hne
  have hs' : split ({ g with addressSize := g.addresses.length } : RemoteGate).current = none := hs
  simp only [iterate, if_neg hsize, hs']

lemma iterate_valid (hne : g.addresses ≠ []) (hs : split g.current = some (host, port)) :
    g.iterate = .inr { g with
      addressSize := g.addresses.length
      await := if 0 < connectInterval g.cntFail then .interval host port else .connect host port } := by
  have hsize : g.addresses.length ≠ 0 := by simpa using hne
  have hs' : split ({ g with addressSize := g.addresses.length } : RemoteGate).current = some (host, port) :=
    hs
  simp only [iterate, if_neg hsize, hs']
  split_ifs <;> rfl

lemma iterate_empty (hempty : g.addresses = []) :
    g.iterate = .inr { g with addressSize := 0, await := .noAddresses } := by
  simp [iterate, hempty]

lemma iterate_suspended (hi : g.iterate = .inr h) : h.await ≠ .spins ∧ h.addresses = g.addresses := by
  by_cases hempty : g.addresses = []
  · rw [iterate_empty hempty] at hi
    obtain rfl := Sum.inr.inj hi
    exact ⟨by simp, rfl⟩
  · cases hs : split g.current with
    | none =>
      rw [iterate_invalid hempty hs] at hi
      cases hi
    | some e =>
      obtain ⟨host, port⟩ := e
      rw [iterate_valid hempty hs] at hi
      obtain rfl := Sum.inr.inj hi
      refine ⟨?_, rfl⟩
      dsimp only
      split_ifs <;> simp

lemma loop_suspended (hl : g.loop fuel = some h) : h.await ≠ .spins ∧ h.addresses = g.addresses := by
  induction fuel generalizing g with
  | zero => cases hl
  | succ fuel ih =>
    rw [loop] at hl
    cases hi : g.iterate with
    | inr k =>
      rw [hi] at hl
      obtain rfl := Option.some.inj hl
      exact iterate_suspended hi
    | inl k =>
      rw [hi] at hl
      have hk := ih hl
      by_cases hempty : g.addresses = []
      · rw [iterate_empty hempty] at hi
        cases hi
      · cases hs : split g.current with
        | none =>
          rw [iterate_invalid hempty hs] at hi
          obtain rfl := Sum.inl.inj hi
          exact ⟨hk.1, hk.2.trans (incAddressCnt_addresses ..)⟩
        | some e =>
          rw [iterate_valid hempty hs] at hi
          cases hi

lemma loop_of_valid {j : ℕ} (hne : g.addresses ≠ []) (hj : j < fuel)
    (hv : (split (g.addresses.getD ((g.addressCnt + j) % g.addresses.length) [])).isSome = true) :
    (g.loop fuel).isSome = true := by
  induction fuel generalizing g j with
  | zero => omega
  | succ fuel ih =>
    rw [loop]
    cases hs : split g.current with
    | some e =>
      rw [iterate_valid hne hs]
      rfl
    | none =>
      rw [iterate_invalid hne hs]
      cases j with
      | zero =>
        rw [Nat.add_zero, ← current, hs] at hv
        cases hv
      | succ j =>
        refine ih (j := j) (by simpa using hne) (by omega) ?_
        rwa [incAddressCnt_addresses, incAddressCnt_addressCnt, Nat.add_right_comm, Nat.add_assoc]

lemma loop_of_invalid (hne : g.addresses ≠ []) (hall : ∀ a ∈ g.addresses, split a = none) (fuel : ℕ) :
    g.loop fuel = none := by
  induction fuel generalizing g with
  | zero => rfl
  | succ fuel ih =>
    have hlt : g.addressCnt % g.addresses.length < g.addresses.length :=
      Nat.mod_lt _ (List.length_pos_iff.mpr hne)
    have hs : split g.current = none := by
      rw [current, List.getD_eq_getElem _ _ hlt]
      exact hall _ (List.getElem_mem hlt)
    rw [loop, iterate_invalid hne hs]
    exact ih (by simpa using hne) (by simpa using hall)

lemma exists_rotation {i : ℕ} (cnt : ℕ) (hi : i < n) : ∃ j < n, (cnt + j) % n = i := by
  refine ⟨(i + (n - cnt % n)) % n, Nat.mod_lt _ (by omega), ?_⟩
  have hlt : cnt % n < n := Nat.mod_lt _ (by omega)
  have hsum : cnt % n + (i + (n - cnt % n)) = i + n := by omega
  rw [← Nat.mod_add_mod, Nat.add_mod_mod, hsum, Nat.add_mod_right, Nat.mod_eq_of_lt hi]

def Yields (g : RemoteGate) : Prop :=
  g.addresses = [] ∨ ∃ host port, address host port ∈ g.addresses ∧ (port ≠ [] ∨ 44 ∈ host)

def FromMaster (g : RemoteGate) : Prop := ∀ a ∈ g.addresses, ∃ host port, a = address host port

lemma startOver_of_yields (hy : g.Yields) :
    g.startOver.await ≠ .spins ∧ g.startOver.addresses = g.addresses := by
  have hsome : (g.loop (g.addresses.length + 1)).isSome = true := by
    rcases hy with hempty | ⟨host, port, hmem, hv⟩
    · rw [loop, iterate_empty hempty]
      rfl
    · obtain ⟨i, hi, ha⟩ := List.getElem_of_mem hmem
      obtain ⟨j, hj, hmod⟩ := exists_rotation g.addressCnt hi
      refine loop_of_valid (j := j) (List.ne_nil_of_mem hmem) (by omega) ?_
      rw [hmod, List.getD_eq_getElem _ _ hi, ha]
      exact split_address.mpr hv
  obtain ⟨h, hl⟩ := Option.isSome_iff_exists.mp hsome
  rw [startOver, hl]
  exact loop_suspended hl

lemma startOver_addresses : g.startOver.addresses = g.addresses := by
  rw [startOver]
  cases hl : g.loop (g.addresses.length + 1) with
  | none => rfl
  | some h => exact (loop_suspended hl).2

lemma loop_of_not_yields (hm : g.FromMaster) (hy : ¬g.Yields) (fuel : ℕ) : g.loop fuel = none := by
  rw [Yields, not_or] at hy
  refine loop_of_invalid hy.1 ?_ fuel
  intro a ha
  obtain ⟨host, port, rfl⟩ := hm a ha
  by_contra hs
  exact hy.2 ⟨host, port, ha, split_address.mp (Option.isSome_iff_ne_none.mpr hs)⟩

def Suspended (g : RemoteGate) : Prop := g.await ≠ .spins

instance (g : RemoteGate) : Decidable g.Suspended := inferInstanceAs (Decidable (_ ≠ _))

/-- Where the loop starts over, it has an address to connect to, or none at all. -/
def Careful (g : RemoteGate) : Action → Prop
  | .setAddresses _ => True
  | .resume r => ∀ h, g.goOn g.await r = some (.inl h) → h.Yields

lemma goOn_cases (hs : g.goOn g.await r = some s) :
    (∃ h, s = .inl h ∧ h.addresses = g.addresses) ∨
      ∃ h, s = .inr h ∧ h.addresses = g.addresses ∧ h.Suspended := by
  cases hw : g.await <;> cases r <;> rw [hw] at hs <;>
    simp only [goOn, reduceCtorEq, Option.some.injEq] at hs <;> subst hs <;>
    simp [Suspended, hw]

lemma step_addresses {a : Action} (hm : g.FromMaster) (hs : g.step a = some h) : h.FromMaster := by
  cases a with
  | setAddresses entries =>
    obtain rfl := Option.some.inj hs
    intro a ha
    obtain ⟨e, -, rfl⟩ := List.mem_map.mp ha
    exact ⟨e.1, e.2, rfl⟩
  | resume r =>
    obtain ⟨s, hgo, rfl⟩ := Option.map_eq_some_iff.mp hs
    rw [FromMaster]
    rcases goOn_cases hgo with ⟨k, rfl, hk⟩ | ⟨k, rfl, hk, -⟩
    · rw [Sum.elim_inl, startOver_addresses, hk]
      exact hm
    · rw [Sum.elim_inr, id, hk]
      exact hm

lemma step_suspended {a : Action} (hm : g.FromMaster) (hp : g.Suspended) (hs : g.step a = some h) :
    h.Suspended ↔ g.Careful a := by
  cases a with
  | setAddresses entries =>
    obtain rfl := Option.some.inj hs
    exact iff_of_true hp trivial
  | resume r =>
    obtain ⟨s, hgo, rfl⟩ := Option.map_eq_some_iff.mp hs
    rcases goOn_cases hgo with ⟨k, rfl, hk⟩ | ⟨k, rfl, -, hk⟩
    · have hcareful : g.Careful (.resume r) ↔ k.Yields := by
        simp only [Careful, hgo, Option.some.injEq, Sum.inl.injEq, forall_eq']
      rw [hcareful, Sum.elim_inl]
      refine ⟨?_, fun hy => (startOver_of_yields hy).1⟩
      contrapose
      intro hy
      have hloop := loop_of_not_yields (g := k) (by rwa [FromMaster, hk]) hy (k.addresses.length + 1)
      rw [Suspended, startOver, hloop]
      simp
    · refine iff_of_true hk ?_
      intro h hinl
      cases hgo.symm.trans hinl

theorem suspended_iff_careful (as : List Action) :
    machine.Always Suspended machine.initial as ↔ machine.Along Careful machine.initial as :=
  Machine.always_iff_along (I := FromMaster) (fun _ _ _ hm hs => step_addresses hm hs)
    (fun _ _ _ hm hp hs => step_suspended hm hp hs) (fun _ ha => absurd ha List.not_mem_nil)
    (by simp [Suspended, machine])

/-- One gate of the master, with a host and an empty port. -/
theorem empty_port_spins : ∃ g, machine.run machine.initial
      [.setAddresses [([103], [])], .resume .woken] = some g ∧ ¬g.Suspended ∧ ∀ fuel, g.loop fuel = none := by
  refine ⟨_, rfl, by decide, loop_of_invalid (by decide) (by decide)⟩

end RemoteGate

end Simple.Gobang
