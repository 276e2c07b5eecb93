import Simple.Gobang.Rpc
import Simple.Lib.Machine
import Simple.Lib.Table

/-! The calls of one `rpc_system`, which wait for the response to their session. -/

namespace Simple.Gobang.RpcSystem

open Simple.Lib

/-- `sessions` has the session of each call in the order of the calls, and `woken` is a record of the
wake-ups: the session that was asked for, and the call that was found under it. -/
structure Calls where
  system : RpcSystem := {}
  sessions : List UInt64 := []
  waitMap : Table UInt64 ℕ := ∅
  woken : List (UInt64 × ℕ) := []

namespace Calls

variable {pid now k : ℕ} {c d : Calls} {x : UInt64} {nows : List ℕ} {r : RpcSystem}

def createSession (pid now : ℕ) (c : Calls) : Calls :=
  let (system, session) := c.system.createSession pid now
  { c with system := system, sessions := c.sessions ++ [session] }

/-- `emplace` leaves an awaiter that is there already. -/
def insertSession (x : UInt64) (k : ℕ) (c : Calls) : Calls :=
  match c.waitMap.get x with
  | none => { c with waitMap := c.waitMap.set x k }
  | some _ => c

/-- Both overloads: a response differs from a cancellation in that the awaiter parses it. -/
def wakeUpSession (x : UInt64) (c : Calls) : Calls :=
  match c.waitMap.get x with
  | none => c
  | some k => { c with waitMap := c.waitMap.remove x, woken := c.woken ++ [(x, k)] }

inductive Action
  | createSession (now : ℕ)
  | insertSession (k : ℕ)
  | wakeUpSession (x : UInt64)

def machine (pid : ℕ) : Machine Calls Action where
  initial := {}
  step
    | c, .createSession now => some (c.createSession pid now)
    | c, .insertSession k => c.sessions[k]?.map fun x => c.insertSession x k
    | c, .wakeUpSession x => some (c.wakeUpSession x)

/-- What `time` returned, in the order of the calls. -/
def readings (as : List Action) : List ℕ :=
  as.filterMap fun
    | .createSession now => some now
    | _ => none

/-- The seconds that the calls fall on, when a clock that goes back is ignored. -/
def effective (time : ℕ) : List ℕ → List ℕ
  | [] => []
  | now :: nows => max time now :: effective (max time now) nows

structure Room (r : RpcSystem) (nows : List ℕ) : Prop where
  time : r.time < 2 ^ 32
  reading : ∀ now ∈ nows, 1 ≤ now ∧ now < 2 ^ 32
  count : ∀ t, (if t = r.time then r.sequence else 0) + (effective r.time nows).count t ≤ 2 ^ 25

lemma room_initial (hreading : ∀ now ∈ nows, 1 ≤ now ∧ now < 2 ^ 32)
    (hcount : ∀ t, (effective 0 nows).count t ≤ 2 ^ 25) : Room {} nows where
  time := by norm_num
  reading := hreading
  count t := by simpa using hcount t

lemma Room.tick (h : Room r (now :: nows)) : Room (r.tick now) nows where
  time := by
    have hnow := (h.reading now List.mem_cons_self).2
    have htime := h.time
    rcases tick_cases r now with ⟨-, heq⟩ | ⟨-, heq⟩ <;> rw [heq] <;> assumption
  reading now' hmem := h.reading now' (List.mem_cons_of_mem now hmem)
  count t := by
    have hcount := h.count t
    rw [effective, List.count_cons] at hcount
    rcases tick_cases r now with ⟨hlt, heq⟩ | ⟨hle, heq⟩
    · rw [max_eq_right hlt.le] at hcount
      rw [heq]
      by_cases ht : t = now
      · subst ht
        simp only [hlt.ne', if_false, beq_self_eq_true, if_true] at hcount ⊢
        omega
      · simp only [ht, if_false] at hcount ⊢
        omega
    · rw [max_eq_left hle] at hcount
      rw [heq]
      by_cases ht : t = r.time
      · subst ht
        simp only [if_true, beq_self_eq_true] at hcount ⊢
        omega
      · simp only [ht, if_false] at hcount ⊢
        omega

lemma Room.fits (h : Room r nows) : r.Fits := by
  refine ⟨h.time, ?_⟩
  have hcount := h.count r.time
  rw [if_pos rfl] at hcount
  omega

lemma one_le_time_tick (hnow : 1 ≤ now) : 1 ≤ (r.tick now).time := by
  rcases tick_cases r now with ⟨-, heq⟩ | ⟨hle, heq⟩ <;> rw [heq]
  · exact hnow
  · exact hnow.trans hle

lemma createSession_ne_zero (hfits : (r.tick now).Fits) (hnow : 1 ≤ now) :
    (r.createSession pid now).2 ≠ 0 := by
  intro h
  have htime : 1 ≤ (r.tick now).time := one_le_time_tick hnow
  have hlt := hfits.1
  have hnat := congrArg UInt64.toNat h
  simp only [RpcSystem.createSession, UInt64.toNat_ofNat', sessionOf_eq, UInt64.toNat_zero] at hnat
  omega

structure Inv (pid : ℕ) (c : Calls) : Prop where
  issued : ∀ x ∈ c.sessions, Issued pid c.system x
  nodup : c.sessions.Nodup
  zero : 0 ∉ c.sessions
  waiting : ∀ x k, c.waitMap.get x = some k → c.sessions[k]? = some x
  woken : ∀ x k, (x, k) ∈ c.woken → c.sessions[k]? = some x

lemma inv_initial : Inv pid {} where
  issued x hx := absurd hx List.not_mem_nil
  nodup := List.nodup_nil
  zero := List.not_mem_nil
  waiting x k h := by cases h
  woken x k h := absurd h List.not_mem_nil

lemma Inv.createSession (hinv : Inv pid c) (hfits : (c.system.tick now).Fits) (hnow : 1 ≤ now) :
    Inv pid (c.createSession pid now) := by
  have hkeep {x : UInt64} {k : ℕ} (h : c.sessions[k]? = some x) :
      (c.createSession pid now).sessions[k]? = some x := by
    obtain ⟨hk, -⟩ := List.getElem?_eq_some_iff.mp h
    exact (List.getElem?_append_left hk).trans h
  constructor
  · intro x hx
    rcases List.mem_append.mp hx with hx | hx
    · exact (hinv.issued x hx).tick
    · obtain rfl := List.mem_singleton.mp hx
      exact issued_createSession pid hfits
  · refine List.nodup_append.mpr ⟨hinv.nodup, List.nodup_singleton _, ?_⟩
    rintro x hx y hy rfl
    obtain rfl := List.mem_singleton.mp hy
    exact createSession_ne hfits (hinv.issued _ hx) rfl
  · intro hmem
    rcases List.mem_append.mp hmem with hmem | hmem
    · exact hinv.zero hmem
    · exact createSession_ne_zero hfits hnow (List.mem_singleton.mp hmem).symm
  · exact fun x k h => hkeep (hinv.waiting x k h)
  · exact fun x k h => hkeep (hinv.woken x k h)

lemma Inv.insertSession (hinv : Inv pid c) (hx : c.sessions[k]? = some x) :
    Inv pid (c.insertSession x k) := by
  rw [Calls.insertSession]
  split
  · refine ⟨hinv.issued, hinv.nodup, hinv.zero, ?_, hinv.woken⟩
    intro y j hj
    rw [Table.get_set] at hj
    split_ifs at hj with hy
    · obtain rfl := Option.some.inj hj
      exact hy ▸ hx
    · exact hinv.waiting y j hj
  · exact hinv

lemma Inv.wakeUpSession (hinv : Inv pid c) : Inv pid (c.wakeUpSession x) := by
  rw [Calls.wakeUpSession]
  split
  · exact hinv
  · next k hk =>
    refine ⟨hinv.issued, hinv.nodup, hinv.zero, ?_, ?_⟩
    · intro y j hj
      rw [Table.get_remove] at hj
      split_ifs at hj
      exact hinv.waiting y j hj
    · intro y j hj
      rcases List.mem_append.mp hj with hj | hj
      · exact hinv.woken y j hj
      · obtain ⟨rfl, rfl⟩ := Prod.mk.inj (List.mem_singleton.mp hj)
        exact hinv.waiting y j hk

lemma run_inv {as : List Action} (hinv : Inv pid c) (hroom : Room c.system (readings as))
    (h : (machine pid).run c as = some d) : Inv pid d := by
  induction as generalizing c with
  | nil =>
    obtain rfl : c = d := by simpa using h
    exact hinv
  | cons a as ih =>
    obtain ⟨e, he, h⟩ := Machine.run_cons_eq_some.mp h
    cases a with
    | createSession now =>
      cases he
      have htick : Room (c.system.tick now) (readings as) := Room.tick hroom
      have hnow := (hroom.reading now List.mem_cons_self).1
      exact ih (hinv.createSession htick.fits hnow) htick h
    | insertSession k =>
      obtain ⟨x, hx, rfl⟩ := Option.map_eq_some_iff.mp he
      have hsystem : (c.insertSession x k).system = c.system := by
        rw [Calls.insertSession]
        split <;> rfl
      exact ih (hinv.insertSession hx) (hsystem ▸ hroom) h
    | wakeUpSession x =>
      cases he
      have hsystem : (c.wakeUpSession x).system = c.system := by
        rw [Calls.wakeUpSession]
        split <;> rfl
      exact ih hinv.wakeUpSession (hsystem ▸ hroom) h

lemma Inv.own (hinv : Inv pid c) {j : ℕ} (hj : c.sessions[j]? = some x)
    (hk : c.sessions[k]? = some x) : j = k := by
  obtain ⟨hlt, -⟩ := List.getElem?_eq_some_iff.mp hj
  exact (List.getElem?_inj hlt hinv.nodup).mp (hj.trans hk.symm)

theorem sessions_unique {as : List Action} (hreading : ∀ now ∈ readings as, 1 ≤ now ∧ now < 2 ^ 32)
    (hcount : ∀ t, (effective 0 (readings as)).count t ≤ 2 ^ 25)
    (hrun : (machine pid).run (machine pid).initial as = some c) :
    c.sessions.Nodup ∧ 0 ∉ c.sessions ∧ ∀ k x, c.sessions[k]? = some x →
      (∀ j, c.waitMap.get x = some j → j = k) ∧ ∀ j, (x, j) ∈ c.woken → j = k := by
  have hinv : Inv pid c := run_inv inv_initial (room_initial hreading hcount) hrun
  refine ⟨hinv.nodup, hinv.zero, fun k x hk => ⟨fun j hj => ?_, fun j hj => ?_⟩⟩
  · exact hinv.own (hinv.waiting x j hj) hk
  · exact hinv.own (hinv.woken x j hj) hk

def backwards : List Action :=
  [.createSession 100, .insertSession 0, .createSession 99, .insertSession 1,
    .wakeUpSession (.ofNat (sessionOf 7 100 2)), .createSession 101,
    .wakeUpSession (.ofNat (sessionOf 7 100 1))]

theorem sessions_unique_backwards : ∃ c, (machine 7).run (machine 7).initial backwards = some c ∧
    c.sessions.Nodup ∧ c.woken = [(.ofNat (sessionOf 7 100 2), 1), (.ofNat (sessionOf 7 100 1), 0)] := by
  refine ⟨_, rfl, (@sessions_unique 7 _ backwards ?_ ?_ rfl).1, ?_⟩
  · decide
  · intro t
    exact List.count_le_length.trans (by decide)
  · rfl

end Calls

end Simple.Gobang.RpcSystem
