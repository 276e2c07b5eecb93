import Simple.Coro.TaskMeaning

/-! `operator&&` gives both results, or throws what has been thrown; of two exceptions it keeps that of
the left task. -/

namespace Simple.Coro.TaskTree

variable {α ε : Type} {left right : TaskTree α ε} {s : WhenReady}

structure AndMeaning (left right : TaskTree α ε) (s : WhenReady) : Prop where
  succeeded : ∀ res, (and left right s).eval = .ok res ↔
    ∃ a b, left.eval = .ok a ∧ right.eval = .ok b ∧ res = left.type.joined right.type a b
  leftFailed : ∀ e b, left.eval = .error e → right.eval = .ok b → (and left right s).eval = .error e
  rightFailed : ∀ a e, left.eval = .ok a → right.eval = .error e → (and left right s).eval = .error e
  bothFailed : ∀ e e', left.eval = .error e → right.eval = .error e' →
    ∃ first, firstFailure s.order (sides left right) = some first ∧
      (and left right s).eval = .error (.multiple first)

/-- Neither have both failed, the right one first and with another exception than the left one, nor
has the coroutine itself been cancelled, unless one of the two alone has thrown just that. -/
def KeepsCause (left right : TaskTree α ε) (s : WhenReady) : Prop :=
  if s.tokenCancelled then
    (∃ b, left.eval = .error .canceled ∧ right.eval = .ok b) ∨
      ∃ a, left.eval = .ok a ∧ right.eval = .error .canceled
  else ∀ e e', left.eval = .error e → right.eval = .error e' → s.order = [0, 1] ∨ e = e'

lemma firstFailure_order (h : (and left right s).Ran) {e e' : Thrown ε} (hl : left.eval = .error e)
    (hr : right.eval = .error e') :
    s.order = [0, 1] ∧ firstFailure s.order (sides left right) = some e ∨
      s.order = [1, 0] ∧ firstFailure s.order (sides left right) = some e' := by
  rcases h.2.2.order with ⟨hord, -⟩ | ⟨hord, -⟩
  · exact .inl ⟨hord, by simp [firstFailure, hord, sides, hl]⟩
  · exact .inr ⟨hord, by simp [firstFailure, hord, sides, hr]⟩

lemma eval_and_failed (h : (and left right s).Ran) (hs : s.tokenCancelled = false) {e e' : Thrown ε}
    (hl : left.eval = .error e) (hr : right.eval = .error e') :
    (and left right s).eval = .error (.multiple e) := by
  rw [eval_and hs (eval_of left h.1), hl, hr]
  rfl

lemma andMeaning_cancelled (hs : s.tokenCancelled = true) : AndMeaning left right s ↔
    (∃ b, left.eval = .error .canceled ∧ right.eval = .ok b) ∨
      ∃ a, left.eval = .ok a ∧ right.eval = .error .canceled := by
  have heval : (and left right s).eval = .error .canceled := (eval_cancelled hs).2
  constructor
  · intro h
    cases hl : left.eval with
    | error e =>
      cases hr : right.eval with
      | error e' =>
        obtain ⟨first, -, hfirst⟩ := h.bothFailed e e' hl hr
        rw [heval] at hfirst
        cases hfirst
      | ok b =>
        have hleft := h.leftFailed e b hl hr
        rw [heval] at hleft
        cases hleft
        exact .inl ⟨b, rfl, rfl⟩
    | ok a =>
      cases hr : right.eval with
      | error e' =>
        have hright := h.rightFailed a e' hl hr
        rw [heval] at hright
        cases hright
        exact .inr ⟨a, rfl, rfl⟩
      | ok b =>
        have hboth := (h.succeeded _).mpr ⟨a, b, hl, hr, rfl⟩
        rw [heval] at hboth
        cases hboth
  · rintro (⟨b, hl, hr⟩ | ⟨a, hl, hr⟩)
    all_goals
      refine ⟨?_, ?_, ?_, ?_⟩
      all_goals simp [heval, hl, hr]

lemma andMeaning_resumed (h : (and left right s).Ran) (hs : s.tokenCancelled = false) :
    AndMeaning left right s ↔
      ∀ e e', left.eval = .error e → right.eval = .error e' → s.order = [0, 1] ∨ e = e' := by
  constructor
  · intro hmeaning e e' hl hr
    obtain ⟨first, hfirst, heval⟩ := hmeaning.bothFailed e e' hl hr
    rw [eval_and_failed h hs hl hr] at heval
    cases heval
    rcases firstFailure_order h hl hr with ⟨hord, -⟩ | ⟨-, hright⟩
    · exact .inl hord
    · exact .inr (Option.some.inj (hfirst.symm.trans hright))
  · intro hkeeps
    have heval := @eval_and _ _ left right s hs (eval_of left h.1)
    refine ⟨?_, ?_, ?_, ?_⟩
    · intro res
      constructor
      · intro hres
        rw [heval] at hres
        obtain ⟨a, b, ha, hb, rfl⟩ := both_ok hres
        exact ⟨a, b, ha, hb, rfl⟩
      · rintro ⟨a, b, ha, hb, rfl⟩
        rw [heval, ha, hb]
        rfl
    · intro e b hl hr
      rw [heval, hl, hr]
      rfl
    · intro a e hl hr
      rw [heval, hl, hr]
      rfl
    · intro e e' hl hr
      rcases firstFailure_order h hl hr with ⟨-, hfirst⟩ | ⟨hord, hfirst⟩
      · exact ⟨e, hfirst, eval_and_failed h hs hl hr⟩
      · rcases hkeeps e e' hl hr with hord' | rfl
        · rw [hord] at hord'
          cases hord'
        · exact ⟨e, hfirst, eval_and_failed h hs hl hr⟩

/-- The operator means what it should, just if the root cause is not lost. -/
theorem andMeaning_iff (left right : TaskTree α ε) (s : WhenReady) (h : (and left right s).Ran) :
    AndMeaning left right s ↔ KeepsCause left right s := by
  unfold KeepsCause
  split_ifs with hs
  · exact andMeaning_cancelled hs
  · exact andMeaning_resumed h (by simpa using hs)

def failedRight : WhenReady := after .oneFail false
  [.resume 1, .complete 1 true, .decrement, .resume 0, .complete 0 true, .decrement]

/-- The right task fails, by which the left one is cancelled and fails as well. -/
theorem root_cause_lost :
    let left : TaskTree ℕ ℕ := task .void (.error .canceled)
    let right : TaskTree ℕ ℕ := task .void (.error (.error 1))
    (and left right failedRight).Ran ∧
      firstFailure failedRight.order (sides left right) = some (.error 1) ∧
      (and left right failedRight).eval = .error (.multiple .canceled) := by
  refine ⟨⟨?_, ?_, joined_after rfl rfl rfl rfl⟩, rfl, rfl⟩
  · intro r hr
    cases hr
  · intro r hr
    cases hr

def failedLeft : WhenReady := after .oneFail false
  [.resume 0, .complete 0 true, .decrement, .resume 1, .complete 1 true, .decrement]

theorem andMeaning_failedLeft :
    AndMeaning (task .void (.error (.error 1)) : TaskTree ℕ ℕ) (task .value (.error .canceled))
      failedLeft := by
  refine (andMeaning_iff _ _ _ ⟨?_, ?_, joined_after rfl rfl rfl rfl⟩).mpr ?_
  · intro r hr
    cases hr
  · intro r hr
    cases hr
  · intro e e' _ _
    exact .inl rfl

end Simple.Coro.TaskTree
