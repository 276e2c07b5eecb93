import Mathlib.Algebra.Order.Ring.Int

/-! Arithmetic that is undefined outside 32 bits, and scanners that compute with it. -/

namespace Simple.Lib

universe u v

/-- A value of `int32_t`, or nothing when the arithmetic would have left it. -/
def int32 (n : ℤ) : Option ℤ := if -2 ^ 31 ≤ n ∧ n < 2 ^ 31 then some n else none

lemma int32_of_fits {n : ℤ} (h : -2 ^ 31 ≤ n ∧ n < 2 ^ 31) : int32 n = some n := if_pos h

lemma int32_of_not_fits {n : ℤ} (h : ¬(-2 ^ 31 ≤ n ∧ n < 2 ^ 31)) : int32 n = none := if_neg h

lemma eq_of_int32 {n m : ℤ} (h : int32 n = some m) : n = m := by
  rw [int32] at h
  split at h
  · exact Option.some.inj h
  · cases h

variable {σ : Type u} {α : Type v}

/-- The outer `none`: a step was undefined. The inner one: a step refused its letter. -/
def runChecked (step : σ → α → Option (Option σ)) : σ → List α → Option (Option σ)
  | s, [] => some (some s)
  | s, c :: xs =>
    match step s c with
    | none => none
    | some none => some none
    | some (some t) => runChecked step t xs

namespace RunChecked

variable {step : σ → α → Option (Option σ)} {s t : σ} {c : α} {xs ys acc : List α} {p : α → Prop}

lemma take (h : step s c = some (some t)) : runChecked step s (c :: xs) = runChecked step t xs := by
  rw [runChecked, h]

lemma undefined (h : step s c = none) : runChecked step s (c :: xs) = none := by
  rw [runChecked, h]

lemma collect (acc xs : List α) {f : List α → σ}
    (htake : ∀ acc c, p c → step (f acc) c = some (some (f (acc ++ [c])))) (hall : ∀ c ∈ ys, p c) :
    runChecked step (f acc) (ys ++ xs) = runChecked step (f (acc ++ ys)) xs := by
  induction ys generalizing acc with
  | nil => rw [List.nil_append, List.append_nil]
  | cons c ys ih =>
    obtain ⟨hc, hall⟩ := List.forall_mem_cons.mp hall
    rw [List.cons_append, take (htake acc c hc), ih _ hall, List.append_assoc, List.singleton_append]

lemma stay (ys xs : List α) (h : ∀ c ∈ ys, step s c = some (some s)) :
    runChecked step s (ys ++ xs) = runChecked step s xs :=
  collect [] xs (f := fun _ => s) (p := fun c => step s c = some (some s)) (fun _ _ hc => hc) h

end RunChecked

end Simple.Lib
