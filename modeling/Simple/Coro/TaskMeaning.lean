import Simple.Coro.TaskOperators

/-! What `operator||` and `operator&&` mean by the order in which the two tasks complete. -/

namespace Simple.Coro

open Simple.Lib

variable {α ε : Type}

def firstSuccess (order : List ℕ) (outcome : ℕ → Outcome α ε) : Option (ℕ × Returned α) :=
  order.findSome? fun i => (outcome i).toOption.map fun r => (i, r)

def firstFailure (order : List ℕ) (outcome : ℕ → Outcome α ε) : Option (Thrown ε) :=
  order.findSome? fun i =>
    match outcome i with
    | .error e => some e
    | .ok _ => none

/-- Where the result of the left operand is found: a chain has its alternatives already. -/
def ReturnType.place : ReturnType → Returned α → Returned α
  | .variant _, r => r
  | _, r => .variant 0 r

/-- What the left operand of `operator&&` gives to the tuple. -/
def ReturnType.parts : ReturnType → Returned α → List (Returned α)
  | .void, _ => []
  | .tuple _, .tuple rs => rs
  | _, r => [r]

def ReturnType.joined (l r : ReturnType) (a b : Returned α) : Returned α :=
  match l, r with
  | .tuple _, .void => a
  | .tuple n, _ => .tuple (ReturnType.parts (.tuple n) a ++ [b])
  | .void, .void => .void
  | .void, _ => b
  | _, .void => a
  | _, _ => .tuple [a, b]

namespace TaskTree

variable {left right t : TaskTree α ε} {s : WhenReady} {wait : WaitType}

lemma eq_of_perm {order : List ℕ} (h : order.Perm (List.range 2)) :
    order = [0, 1] ∨ order = [1, 0] := by
  rcases order with _ | ⟨x, _ | ⟨y, _ | ⟨z, order⟩⟩⟩
  · exact absurd h.length_eq (by simp)
  · exact absurd h.length_eq (by simp)
  · have hx : x ∈ List.range 2 := h.mem_iff.mp (by simp)
    have hy : y ∈ List.range 2 := h.mem_iff.mp (by simp)
    have hne : x ≠ y := by
      have hnodup := h.nodup_iff.mpr List.nodup_range
      simpa using hnodup
    rw [List.mem_range] at hx hy
    have hxy : x = 0 ∧ y = 1 ∨ x = 1 ∧ y = 0 := by omega
    rcases hxy with ⟨rfl, rfl⟩ | ⟨rfl, rfl⟩
    · exact .inl rfl
    · exact .inr rfl
  · exact absurd h.length_eq (by simp)

lemma Joined.order (h : Joined wait left right s) :
    s.order = [0, 1] ∧ (s.child 0).getIndex = 0 ∨ s.order = [1, 0] ∧ (s.child 0).getIndex = 1 := by
  obtain ⟨⟨token, hreach⟩, hawait, -⟩ := h
  have hsize : s.size = 2 := by
    refine Machine.reachable_invariant (I := fun s : WhenReady => s.size = 2) rfl ?_ hreach
    intro s a t hs hstep
    exact (WhenReady.step_frame a hstep).1.trans hs
  have hwatched : s.Watched := by
    refine Machine.reachable_invariant WhenReady.watched_initial ?_ hreach
    intro s a t hs hstep
    exact WhenReady.step_watched a hs hstep
  obtain ⟨hperm, hplace⟩ := hwatched.joined.order (hwatched.finished_of_continued hawait)
  rw [hsize] at hperm
  rcases eq_of_perm hperm with hord | hord
  · exact .inl ⟨hord, hplace 0 0 (by rw [hord]; rfl)⟩
  · exact .inr ⟨hord, hplace 1 0 (by rw [hord]; rfl)⟩

lemma widenCall_eq {size index : ℕ} (a : Returned α) (hlt : index < size) (i : ℕ) (hi : i ≤ index) :
    (widenCall size i index a : Outcome α ε) = .ok (.variant index a) := by
  induction hd : index - i generalizing i with
  | zero =>
    obtain rfl : index = i := by omega
    rw [widenCall, if_pos rfl]
  | succ d ih =>
    rw [widenCall, if_neg (by omega), if_pos (by omega)]
    exact ih (i + 1) (by omega) (by omega)

lemma widen_eq {n : ℕ} {r : Returned α} (h : r.Of (.variant n)) : (widen n r : Outcome α ε) = .ok r := by
  cases r with
  | variant index a => exact widenCall_eq a h 0 (Nat.zero_le index)
  | void | value | tuple => exact absurd h id

lemma either_congr {l r : ParallelTask α ε} {onLeft onLeft' onRight onRight' : Outcome α ε}
    (hl : ∀ a, l.outcome = .ok a → onLeft = onLeft')
    (hr : ∀ b, r.outcome = .ok b → onRight = onRight') :
    either l r onLeft onRight = either l r onLeft' onRight' := by
  obtain ⟨i, _ | a⟩ := l <;> obtain ⟨j, _ | b⟩ := r
  · rfl
  · rw [hr b rfl]
    rfl
  · rw [hl a rfl]
    rfl
  · rw [hl a rfl, hr b rfl]

lemma operatorOr_eq (lt rt : ReturnType) (l r : ParallelTask α ε)
    (hl : ∀ a, l.outcome = .ok a → a.Of lt) (hr : ∀ b, r.outcome = .ok b → b.Of rt) :
    operatorOr lt rt l r = either l r (l.outcome.map lt.place)
      (r.outcome.map (.variant lt.alternatives)) := by
  have hvoid : ∀ b : Returned α, b.Of .void → b = .void := by
    intro b hb
    cases b with
    | void => rfl
    | value | variant | tuple => exact absurd hb id
  have hwiden : ∀ n a, lt = .variant n → l.outcome = .ok a →
      l.result.bind (widen n) = l.outcome.map lt.place := by
    intro n a hn ha
    subst hn
    rw [ParallelTask.result, ha]
    exact widen_eq (hl a ha)
  cases lt with
  | variant n =>
    cases rt with
    | void =>
      refine either_congr (fun a ha => hwiden n a rfl ha) fun b hb => ?_
      rw [hb, hvoid b (hr b hb)]
      rfl
    | value | variant | tuple => exact either_congr (fun a ha => hwiden n a rfl ha) fun b hb => rfl
  | void =>
    cases rt with
    | void =>
      refine either_congr (fun a ha => ?_) fun b hb => ?_
      · rw [ha, hvoid a (hl a ha)]
        rfl
      · rw [hb, hvoid b (hr b hb)]
        rfl
    | value | variant | tuple =>
      refine either_congr (fun a ha => ?_) fun b hb => rfl
      rw [ha, hvoid a (hl a ha)]
      rfl
  | value | tuple =>
    cases rt with
    | void =>
      refine either_congr (fun a ha => rfl) fun b hb => ?_
      rw [hb, hvoid b (hr b hb)]
      rfl
    | value | variant | tuple => exact either_congr (fun a ha => rfl) fun b hb => rfl

lemma both_congr {l r : ParallelTask α ε} {onBoth onBoth' : Outcome α ε}
    (h : ∀ a b, l.outcome = .ok a → r.outcome = .ok b → onBoth = onBoth') :
    both l r onBoth = both l r onBoth' := by
  obtain ⟨i, _ | a⟩ := l <;> obtain ⟨j, _ | b⟩ := r
  · rfl
  · rfl
  · rfl
  · rw [h a b rfl rfl]

lemma operatorAnd_eq (lt rt : ReturnType) (l r : ParallelTask α ε)
    (hl : ∀ a, l.outcome = .ok a → a.Of lt) :
    operatorAnd lt rt l r =
      both l r (l.outcome.bind fun a => r.outcome.map fun b => lt.joined rt a b) := by
  have htuple : ∀ n a, lt = .tuple n → l.outcome = .ok a → ∃ rs, a = .tuple rs := by
    intro n a hn ha
    subst hn
    cases a with
    | tuple rs => exact ⟨rs, rfl⟩
    | void | value | variant => exact absurd (hl _ ha) id
  cases lt with
  | tuple n =>
    cases rt with
    | void =>
      refine both_congr fun a b ha hb => ?_
      rw [ParallelTask.result, ha, hb]
      rfl
    | value | variant | tuple =>
      refine both_congr fun a b ha hb => ?_
      obtain ⟨rs, rfl⟩ := htuple n a rfl ha
      rw [ParallelTask.result, ParallelTask.result, ha, hb]
      rfl
  | void | value | variant =>
    cases rt <;>
    · refine both_congr fun a b ha hb => ?_
      simp only [ParallelTask.result, ha, hb]
      rfl

lemma place_of {type : ReturnType} {a : Returned α} (h : a.Of type) :
    (type.place a).Of (.variant (type.alternatives + 1)) := by
  cases type with
  | variant n =>
    cases a with
    | variant index a => exact Nat.lt_succ_of_lt h
    | void | value | tuple => exact absurd h id
  | void | value | tuple => exact Nat.succ_pos _

lemma joined_of {lt rt : ReturnType} {a b : Returned α} (ha : a.Of lt) (hb : b.Of rt) :
    (lt.joined rt a b).Of (lt.both rt) := by
  cases lt with
  | tuple n =>
    cases a with
    | tuple rs =>
      cases rt with
      | void => exact ha
      | value | variant | tuple =>
        change (rs ++ [b]).length = n + 1
        rw [List.length_append]
        exact congrArg (· + 1) ha
    | void | value | variant => exact absurd ha id
  | void =>
    cases rt with
    | void => exact trivial
    | value | variant | tuple => exact hb
  | value | variant =>
    cases rt with
    | void => exact ha
    | value | variant | tuple => exact rfl

lemma eval_or (hs : s.tokenCancelled = false) (hl : ∀ a, left.eval = .ok a → a.Of left.type)
    (hr : ∀ b, right.eval = .ok b → b.Of right.type) : (or left right s).eval =
      either ⟨(s.child 0).getIndex, left.eval⟩ ⟨(s.child 1).getIndex, right.eval⟩
        (left.eval.map left.type.place) (right.eval.map (.variant left.type.alternatives)) := by
  rw [eval, WhenReady.awaitResume, if_neg (by simp [hs])]
  exact operatorOr_eq left.type right.type _ _ hl hr

lemma eval_and (hs : s.tokenCancelled = false) (hl : ∀ a, left.eval = .ok a → a.Of left.type) :
    (and left right s).eval =
      both ⟨(s.child 0).getIndex, left.eval⟩ ⟨(s.child 1).getIndex, right.eval⟩
        (left.eval.bind fun a => right.eval.map fun b => left.type.joined right.type a b) := by
  rw [eval, WhenReady.awaitResume, if_neg (by simp [hs])]
  exact operatorAnd_eq left.type right.type _ _ hl

lemma eval_cancelled (hs : s.tokenCancelled = true) :
    (or left right s).eval = .error .canceled ∧ (and left right s).eval = .error .canceled := by
  constructor
  · rw [eval, WhenReady.awaitResume, if_pos hs]
    rfl
  · rw [eval, WhenReady.awaitResume, if_pos hs]
    rfl

lemma map_ok {x : Outcome α ε} {f : Returned α → Returned α} {r : Returned α}
    (h : x.map f = .ok r) : ∃ a, x = .ok a ∧ f a = r := by
  cases x with
  | error e => cases h
  | ok a => exact ⟨a, rfl, Except.ok.inj h⟩

lemma either_ok {l r : ParallelTask α ε} {f g : Returned α → Returned α} {res : Returned α}
    (h : either l r (l.outcome.map f) (r.outcome.map g) = .ok res) :
    (∃ a, l.outcome = .ok a ∧ f a = res) ∨ ∃ b, r.outcome = .ok b ∧ g b = res := by
  obtain ⟨i, _ | a⟩ := l <;> obtain ⟨j, _ | b⟩ := r
  · simp only [either, ParallelTask.getException] at h
    split_ifs at h
  · simp only [either, ParallelTask.getException] at h
    split_ifs at h <;> exact .inr (map_ok h)
  · simp only [either, ParallelTask.getException] at h
    split_ifs at h <;> exact .inl (map_ok h)
  · simp only [either, ParallelTask.getException] at h
    split_ifs at h
    · exact .inl (map_ok h)
    · exact .inr (map_ok h)

lemma both_ok {l r : ParallelTask α ε} {f : Returned α → Returned α → Returned α} {res : Returned α}
    (h : both l r (l.outcome.bind fun a => r.outcome.map fun b => f a b) = .ok res) :
    ∃ a b, l.outcome = .ok a ∧ r.outcome = .ok b ∧ f a b = res := by
  obtain ⟨i, _ | a⟩ := l <;> obtain ⟨j, _ | b⟩ := r
  · cases h
  · cases h
  · cases h
  · exact ⟨a, b, rfl, rfl, Except.ok.inj h⟩

lemma eval_of : ∀ t : TaskTree α ε, t.Ran → ∀ r, t.eval = .ok r → r.Of t.type
  | .task type outcome, h, r, hr => h r hr
  | .or left right s, h, r, hr => by
    have hleft := eval_of left h.1
    cases hs : s.tokenCancelled with
    | true =>
      rw [(eval_cancelled hs).1] at hr
      cases hr
    | false =>
      rw [eval_or hs hleft (eval_of right h.2.1)] at hr
      rcases either_ok hr with ⟨a, ha, rfl⟩ | ⟨b, hb, rfl⟩
      · exact place_of (hleft a ha)
      · exact Nat.lt_succ_self _
  | .and left right s, h, r, hr => by
    have hleft := eval_of left h.1
    cases hs : s.tokenCancelled with
    | true =>
      rw [(eval_cancelled hs).2] at hr
      cases hr
    | false =>
      rw [eval_and hs hleft] at hr
      obtain ⟨a, b, ha, hb, rfl⟩ := both_ok hr
      exact joined_of (hleft a ha) (eval_of right h.2.1 b hb)

/-- Both operands are started and suspend, and then do what the rest of the run says. -/
def actions (rest : List WhenReady.Action) : List WhenReady.Action :=
  [.await, .start, .suspend 0 false, .start, .suspend 1 false, .tryAwait] ++ rest

def after (wait : WaitType) (token : Bool) (rest : List WhenReady.Action) : WhenReady :=
  let M := WhenReady.machine wait 2 true token
  (M.run M.initial (actions rest)).getD M.initial

lemma joined_after {token : Bool} {rest : List WhenReady.Action}
    (hrun : (WhenReady.machine wait 2 true token).run (WhenReady.machine wait 2 true token).initial
      (actions rest) = some (after wait token rest))
    (hawait : (after wait token rest).await = .continued)
    (h0 : (after wait token rest).child 0 =
      .finished ((after wait token rest).child 0).getIndex left.eval.toOption.isNone)
    (h1 : (after wait token rest).child 1 =
      .finished ((after wait token rest).child 1).getIndex right.eval.toOption.isNone) :
    Joined wait left right (after wait token rest) := by
  refine ⟨⟨token, _, hrun⟩, hawait, ?_⟩
  intro i hi
  have hcases : i = 0 ∨ i = 1 := by omega
  rcases hcases with rfl | rfl
  · exact ⟨_, h0⟩
  · exact ⟨_, h1⟩

end TaskTree

end Simple.Coro
