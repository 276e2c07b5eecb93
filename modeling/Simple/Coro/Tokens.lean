import Mathlib.Tactic

/-! The cancellation states of a program, as the awaiters see them: which are cancelled, and for each
one the awaiters registered on it, the last one first. -/

namespace Simple.Coro

structure Tokens where
  cancelled : ℕ → Bool := fun _ => false
  registered : ℕ → List ℕ := fun _ => []

namespace Tokens

def isCancellationRequested (T : Tokens) (token : Option ℕ) : Bool := token.any T.cancelled

/-- `registration_.emplace`, where the token can be cancelled. -/
def emplace (T : Tokens) (token : Option ℕ) (k : ℕ) : Tokens :=
  match token with
  | none => T
  | some t =>
    if T.cancelled t then T
    else { T with registered := Function.update T.registered t (k :: T.registered t) }

/-- `registration_.reset()` -/
def reset (T : Tokens) (k : ℕ) : Tokens := { T with registered := fun t => (T.registered t).erase k }

/-- The state after `request_cancellation` on `t`, and the awaiters whose callbacks it runs. -/
def requestCancellation (T : Tokens) (t : ℕ) : Tokens × List ℕ :=
  if T.cancelled t then (T, [])
  else
    ({ cancelled := Function.update T.cancelled t true
       registered := Function.update T.registered t [] }, T.registered t)

/-- `waiting` are the awaiters that a cancellation has to wake up, `token` gives their tokens. -/
structure Exact (T : Tokens) (token : ℕ → Option ℕ) (waiting : ℕ → Prop) : Prop where
  nodup : ∀ t, (T.registered t).Nodup
  mem : ∀ t k, k ∈ T.registered t ↔ waiting k ∧ token k = some t
  live : ∀ k, waiting k → T.isCancellationRequested (token k) = false

namespace Exact

variable {T : Tokens} {token token' : ℕ → Option ℕ} {waiting waiting' : ℕ → Prop} {k t : ℕ}

lemma empty (token : ℕ → Option ℕ) : Exact {} token (fun _ => False) where
  nodup := fun _ => List.nodup_nil
  mem := by simp
  live := by simp

lemma congr (h : T.Exact token waiting) (hw : ∀ k, waiting' k ↔ waiting k)
    (ht : ∀ k, waiting k → token' k = token k) : T.Exact token' waiting' where
  nodup := h.nodup
  mem := by
    intro t k
    rw [h.mem, hw]
    exact and_congr_right fun hk => by rw [ht k hk]
  live := by
    intro k hk
    rw [ht k ((hw k).mp hk)]
    exact h.live k ((hw k).mp hk)

lemma emplace (h : T.Exact token waiting) (hk : ¬waiting k)
    (hc : T.isCancellationRequested (token k) = false) :
    (T.emplace (token k) k).Exact token (fun j => waiting j ∨ j = k) := by
  cases ht : token k with
  | none =>
    refine ⟨h.nodup, ?_, ?_⟩
    · intro t j
      rw [Tokens.emplace, h.mem]
      constructor
      · rintro ⟨hj, hjt⟩
        exact ⟨.inl hj, hjt⟩
      · rintro ⟨hj | rfl, hjt⟩
        · exact ⟨hj, hjt⟩
        · simp [ht] at hjt
    · rintro j (hj | rfl)
      · exact h.live j hj
      · simp [ht, isCancellationRequested]
  | some u =>
    have hu : T.cancelled u = false := by simpa [ht, isCancellationRequested] using hc
    have hnot : k ∉ T.registered u := fun e => hk ((h.mem u k).mp e).1
    simp only [Tokens.emplace, hu, Bool.false_eq_true, if_false]
    refine ⟨?_, ?_, ?_⟩
    · intro t
      by_cases htu : t = u
      · subst htu
        simpa using ⟨hnot, h.nodup t⟩
      · simpa [htu] using h.nodup t
    · intro t j
      by_cases htu : t = u
      · subst htu
        simp only [Function.update_self, List.mem_cons, h.mem]
        constructor
        · rintro (rfl | ⟨hj, hjt⟩)
          · exact ⟨.inr rfl, ht⟩
          · exact ⟨.inl hj, hjt⟩
        · rintro ⟨hj | rfl, hjt⟩
          · exact .inr ⟨hj, hjt⟩
          · exact .inl rfl
      · simp only [Function.update_of_ne htu, h.mem]
        constructor
        · rintro ⟨hj, hjt⟩
          exact ⟨.inl hj, hjt⟩
        · rintro ⟨hj | rfl, hjt⟩
          · exact ⟨hj, hjt⟩
          · exact absurd (Option.some.inj (hjt.symm.trans ht)) htu
    · rintro j (hj | rfl)
      · exact h.live j hj
      · exact hc

lemma reset (h : T.Exact token waiting) :
    (T.reset k).Exact token (fun j => waiting j ∧ j ≠ k) where
  nodup := fun t => (h.nodup t).erase k
  mem := by
    intro t j
    simp only [Tokens.reset]
    rw [(h.nodup t).mem_erase_iff, h.mem]
    tauto
  live := fun j hj => h.live j hj.1

lemma mem_request (h : T.Exact token waiting) (hk : waiting k) :
    k ∈ (T.requestCancellation t).2 ↔ token k = some t := by
  rw [requestCancellation]
  cases hc : T.cancelled t with
  | true =>
    have hlive := h.live k hk
    simp only [if_true, List.not_mem_nil, false_iff]
    intro ht
    simp [ht, isCancellationRequested, hc] at hlive
  | false =>
    simp only [Bool.false_eq_true, if_false]
    rw [h.mem]
    exact and_iff_right hk

lemma waiting_of_mem_request (h : T.Exact token waiting)
    (hk : k ∈ (T.requestCancellation t).2) : waiting k := by
  rw [requestCancellation] at hk
  split_ifs at hk
  · simp at hk
  · exact ((h.mem t k).mp hk).1

lemma nodup_request (h : T.Exact token waiting) : (T.requestCancellation t).2.Nodup := by
  rw [requestCancellation]
  split_ifs
  · exact List.nodup_nil
  · exact h.nodup t

lemma request (h : T.Exact token waiting) :
    (T.requestCancellation t).1.Exact token
      (fun j => waiting j ∧ j ∉ (T.requestCancellation t).2) := by
  have hlive : ∀ j, waiting j → j ∉ (T.requestCancellation t).2 → token j ≠ some t :=
    fun j hj hn ht => hn ((h.mem_request hj).mpr ht)
  cases hc : T.cancelled t with
  | true => simpa [requestCancellation, hc] using h
  | false =>
    refine ⟨?_, ?_, ?_⟩
    · intro u
      by_cases hu : u = t <;> simp [requestCancellation, hc, hu, h.nodup u]
    · intro u j
      by_cases hu : u = t
      · subst hu
        simp only [requestCancellation, hc, Bool.false_eq_true, if_false, Function.update_self,
          List.not_mem_nil, false_iff]
        rintro ⟨⟨hj, hn⟩, ht⟩
        exact hn ((h.mem u j).mpr ⟨hj, ht⟩)
      · simp only [requestCancellation, hc, Bool.false_eq_true, if_false, Function.update_of_ne hu,
          h.mem]
        constructor
        · rintro ⟨hj, hju⟩
          exact ⟨⟨hj, fun e => hu (Option.some.inj (hju.symm.trans e.2))⟩, hju⟩
        · rintro ⟨⟨hj, -⟩, hju⟩
          exact ⟨hj, hju⟩
    · rintro j ⟨hj, hn⟩
      have hold := h.live j hj
      have hne := hlive j hj hn
      cases hv : token j with
      | none => rfl
      | some v =>
        have hvt : v ≠ t := fun e => hne (e ▸ hv)
        simpa [isCancellationRequested, requestCancellation, hc, hvt, hv] using hold

end Exact

lemma cancelled_request (T : Tokens) (t u : ℕ) :
    (T.requestCancellation t).1.cancelled u = true ↔ T.cancelled u = true ∨ u = t := by
  cases hc : T.cancelled t with
  | true =>
    simp only [requestCancellation, hc, if_true]
    exact ⟨.inl, fun h => h.elim id (fun e => e ▸ hc)⟩
  | false =>
    by_cases hu : u = t <;> simp [requestCancellation, hc, hu]

lemma isCancellationRequested_request (T : Tokens) (t : ℕ) (token : Option ℕ) :
    (T.requestCancellation t).1.isCancellationRequested token = true ↔
      T.isCancellationRequested token = true ∨ token = some t := by
  cases token with
  | none => simp [isCancellationRequested]
  | some u => simpa [isCancellationRequested] using T.cancelled_request t u

@[simp] lemma isCancellationRequested_reset (T : Tokens) (k : ℕ) (token : Option ℕ) :
    (T.reset k).isCancellationRequested token = T.isCancellationRequested token := rfl

@[simp] lemma isCancellationRequested_emplace (T : Tokens) (k : ℕ) (token token' : Option ℕ) :
    (T.emplace token' k).isCancellationRequested token = T.isCancellationRequested token := by
  cases token' with
  | none => rfl
  | some t =>
    rw [emplace]
    split_ifs <;> rfl

end Tokens

end Simple.Coro
