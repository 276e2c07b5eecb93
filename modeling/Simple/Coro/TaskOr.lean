import Simple.Coro.TaskMeaning

/-! `operator||` gives the result of the task that succeeds first, at the place of this task. -/

namespace Simple.Coro.TaskTree

variable {α ε : Type} {left right : TaskTree α ε} {s : WhenReady}

def operands : TaskTree α ε → List (TaskTree α ε)
  | .or left right _ => left.operands ++ [right]
  | t => [t]

/-- The task at the left end is none that gives a variant by itself. -/
def Chain : TaskTree α ε → Prop
  | .or left _ _ => left.Chain
  | t => ∀ n, t.type ≠ .variant n

/-- The place of the task that wins: of the last `||` that its right operand wins, if any does. -/
def winner : TaskTree α ε → ℕ
  | .or left right s =>
    match firstSuccess s.order (sides left right) with
    | some (0, _) => left.winner
    | _ => left.operands.length
  | _ => 0

lemma alternatives_chain (t : TaskTree α ε) (h : t.Chain) : t.type.alternatives = t.operands.length := by
  induction t with
  | or left right s ihl ihr =>
    rw [operands, List.length_append, ← ihl h]
    rfl
  | task type outcome =>
    cases type with
    | variant n => exact absurd rfl (h n)
    | void | value | tuple => rfl
  | and left right s ihl ihr =>
    have htype : ∀ n, left.type.both right.type ≠ .variant n := h
    change (left.type.both right.type).alternatives = 1
    cases ht : left.type.both right.type with
    | variant n => exact absurd ht (htype n)
    | void | value | tuple => rfl

lemma eval_firstSuccess (h : (or left right s).Ran) (hs : s.tokenCancelled = false) :
    (∃ a, firstSuccess s.order (sides left right) = some (0, a) ∧ left.eval = .ok a ∧
        (or left right s).eval = .ok (left.type.place a)) ∨
      (∃ b, firstSuccess s.order (sides left right) = some (1, b) ∧ right.eval = .ok b ∧
        (or left right s).eval = .ok (.variant left.type.alternatives b)) ∨
      ∃ e e' first, left.eval = .error e ∧ right.eval = .error e' ∧
        firstSuccess s.order (sides left right) = none ∧
        firstFailure s.order (sides left right) = some first ∧
        (or left right s).eval = .error (.multiple first) := by
  have heval := eval_or hs (eval_of left h.1) (eval_of right h.2.1)
  rw [heval]
  cases hl : left.eval with
  | error e =>
    cases hr : right.eval with
    | error e' =>
      refine .inr (.inr ?_)
      rcases h.2.2.order with ⟨hord, hidx⟩ | ⟨hord, hidx⟩
      · exact ⟨e, e', e, rfl, rfl, by simp [firstSuccess, hord, sides, hl, hr, Except.toOption],
          by simp [firstFailure, hord, sides, hl], by simp [either, hidx, ParallelTask.getException]⟩
      · exact ⟨e, e', e', rfl, rfl, by simp [firstSuccess, hord, sides, hl, hr, Except.toOption],
          by simp [firstFailure, hord, sides, hr], by simp [either, hidx, ParallelTask.getException]⟩
    | ok b =>
      refine .inr (.inl ⟨b, ?_, rfl, ?_⟩)
      · rcases h.2.2.order with ⟨hord, -⟩ | ⟨hord, -⟩ <;>
          simp [firstSuccess, hord, sides, hl, hr, Except.toOption]
      · rcases h.2.2.order with ⟨-, hidx⟩ | ⟨-, hidx⟩ <;>
          simp [either, hidx, ParallelTask.getException, Except.map]
  | ok a =>
    cases hr : right.eval with
    | error e' =>
      refine .inl ⟨a, ?_, rfl, ?_⟩
      · rcases h.2.2.order with ⟨hord, -⟩ | ⟨hord, -⟩ <;>
          simp [firstSuccess, hord, sides, hl, hr, Except.toOption]
      · rcases h.2.2.order with ⟨-, hidx⟩ | ⟨-, hidx⟩ <;>
          simp [either, hidx, ParallelTask.getException, Except.map]
    | ok b =>
      rcases h.2.2.order with ⟨hord, hidx⟩ | ⟨hord, hidx⟩
      · exact .inl ⟨a, by simp [firstSuccess, hord, sides, hl, Except.toOption], rfl,
          by simp [either, hidx, ParallelTask.getException, Except.map]⟩
      · exact .inr (.inl ⟨b, by simp [firstSuccess, hord, sides, hr, Except.toOption], rfl,
          by simp [either, hidx, ParallelTask.getException, Except.map]⟩)

lemma winner_left {a : Returned α} (h : firstSuccess s.order (sides left right) = some (0, a)) :
    (or left right s).winner = left.winner := by
  simp only [winner, h]

lemma winner_right {b : Returned α} (h : firstSuccess s.order (sides left right) = some (1, b)) :
    (or left right s).winner = left.operands.length := by
  simp only [winner, h]

lemma place_base {a : Returned α} {type : ReturnType} (h : ∀ n, type ≠ .variant n) :
    type.place a = .variant 0 a := by
  cases type with
  | variant n => exact absurd rfl (h n)
  | void | value | tuple => rfl

lemma eval_winner (t : TaskTree α ε) (h : t.Ran) (hchain : t.Chain) : ∀ a, t.eval = .ok a →
    ∃ u x, t.operands[t.winner]? = some u ∧ u.eval = .ok x ∧
      t.type.place a = .variant t.winner x := by
  induction t with
  | task type outcome =>
    intro a ha
    exact ⟨_, a, rfl, ha, place_base hchain⟩
  | and left right s =>
    intro a ha
    exact ⟨_, a, rfl, ha, place_base hchain⟩
  | or left right s ih =>
    intro a ha
    change ∃ u x, _ ∧ _ ∧ a = _
    cases hs : s.tokenCancelled with
    | true =>
      rw [(eval_cancelled hs).1] at ha
      cases ha
    | false =>
      rcases eval_firstSuccess h hs with ⟨b, hfirst, hb, heval⟩ | ⟨b, hfirst, hb, heval⟩ |
        ⟨e, e', first, -, -, -, -, heval⟩
      · obtain ⟨u, x, hu, hx, hplace⟩ := ih h.1 hchain b hb
        rw [winner_left hfirst]
        refine ⟨u, x, ?_, hx, ?_⟩
        · rw [operands, List.getElem?_append_left]
          · exact hu
          · exact (List.getElem?_eq_some_iff.mp hu).1
        · rw [← hplace]
          exact Except.ok.inj (ha.symm.trans heval)
      · rw [winner_right hfirst]
        refine ⟨right, b, List.getElem?_concat_length, hb, ?_⟩
        rw [← alternatives_chain left hchain]
        exact Except.ok.inj (ha.symm.trans heval)
      · rw [heval] at ha
        cases ha

theorem or_meaning (left right : TaskTree α ε) (s : WhenReady) (h : (or left right s).Ran) :
    (s.tokenCancelled = true → (or left right s).eval = .error .canceled) ∧
      (s.tokenCancelled = false →
        (∀ a, firstSuccess s.order (sides left right) = some (0, a) →
          (or left right s).eval = .ok (left.type.place a)) ∧
        (∀ b, firstSuccess s.order (sides left right) = some (1, b) →
          (or left right s).eval = .ok (.variant left.type.alternatives b)) ∧
        (∀ x, (or left right s).eval = .error x →
          (∃ e, left.eval = .error e) ∧ (∃ e, right.eval = .error e) ∧
            ∃ first, firstFailure s.order (sides left right) = some first ∧ x = .multiple first) ∧
        (left.Chain → ∀ res, (or left right s).eval = .ok res →
          ∃ t a, (or left right s).operands[(or left right s).winner]? = some t ∧ t.eval = .ok a ∧
            res = .variant (or left right s).winner a)) := by
  refine ⟨fun hs => (eval_cancelled hs).1, ?_⟩
  intro hs
  refine ⟨?_, ?_, ?_, fun hchain => eval_winner (or left right s) h hchain⟩
  · intro a ha
    rcases eval_firstSuccess h hs with ⟨a', hfirst, -, heval⟩ | ⟨b, hfirst, -, heval⟩ |
      ⟨e, e', first, -, -, hnone, -, -⟩
    · obtain rfl : a' = a := by simpa using hfirst.symm.trans ha
      exact heval
    · simp [hfirst] at ha
    · simp [hnone] at ha
  · intro b hb
    rcases eval_firstSuccess h hs with ⟨a, hfirst, -, heval⟩ | ⟨b', hfirst, -, heval⟩ |
      ⟨e, e', first, -, -, hnone, -, -⟩
    · simp [hfirst] at hb
    · obtain rfl : b' = b := by simpa using hfirst.symm.trans hb
      exact heval
    · simp [hnone] at hb
  · intro x hx
    rcases eval_firstSuccess h hs with ⟨a, -, -, heval⟩ | ⟨b, -, -, heval⟩ |
      ⟨e, e', first, hl, hr, -, hfirst, heval⟩
    · rw [heval] at hx
      cases hx
    · rw [heval] at hx
      cases hx
    · rw [heval] at hx
      cases hx
      exact ⟨⟨e, hl⟩, ⟨e', hr⟩, first, hfirst, rfl⟩

def secondFirst : WhenReady := after .oneSucc false
  [.resume 1, .complete 1 false, .decrement, .resume 0, .complete 0 true, .decrement]

def firstFirst : WhenReady := after .oneSucc false
  [.resume 0, .complete 0 false, .decrement, .resume 1, .complete 1 true, .decrement]

/-- In `a || b || c` the second task wins, and then the third one is cancelled. -/
def secondOfThree : TaskTree ℕ ℕ :=
  or (or (task .void (.error .canceled)) (task .value (.ok (.value 7))) secondFirst)
    (task .void (.error .canceled)) firstFirst

theorem secondOfThree_eval :
    ∃ u a, secondOfThree.operands[secondOfThree.winner]? = some u ∧ u.eval = .ok a ∧
      Returned.variant 1 (.value 7) = .variant secondOfThree.winner a := by
  have hran : secondOfThree.Ran := by
    refine ⟨⟨?_, ?_, joined_after rfl rfl rfl rfl⟩, ?_, joined_after rfl rfl rfl rfl⟩
    · intro r hr
      cases hr
    · intro r hr
      cases hr
      exact trivial
    · intro r hr
      cases hr
  have hchain : ∀ n, ReturnType.void ≠ .variant n := by
    intro n hn
    cases hn
  obtain ⟨hleft, -, -, hwinner⟩ := (or_meaning _ _ _ hran).2 rfl
  exact hwinner hchain _ (hleft _ rfl)

/-- The left task succeeds, and the coroutine is cancelled before the right one has completed. -/
theorem canceled_after_success :
    let left : TaskTree ℕ ℕ := task .value (.ok (.value 7))
    let right : TaskTree ℕ ℕ := task .void (.ok .void)
    let s := after .oneSucc true [.resume 0, .complete 0 false, .decrement, .cancel, .resume 1,
      .complete 1 false, .decrement]
    (or left right s).Ran ∧ firstSuccess s.order (sides left right) = some (0, .value 7) ∧
      (or left right s).eval = .error .canceled := by
  refine ⟨⟨?_, ?_, joined_after rfl rfl rfl rfl⟩, rfl, rfl⟩
  · intro r hr
    cases hr
    exact trivial
  · intro r hr
    cases hr
    exact trivial

end Simple.Coro.TaskTree
