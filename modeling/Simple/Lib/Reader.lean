import Mathlib.Logic.Relation
import Mathlib.Tactic

/-! Consumers of a stream say themselves how much of what is pending they take next, and a piece that
they take stays the same when more symbols arrive; so they end in one place however the stream is cut.
Readers, which ask for a number of symbols, are consumers. -/

namespace Simple.Lib

namespace Reader

structure Cursor (S B O : Type) where
  state : S
  pending : List B
  yielded : List O

namespace Cursor

variable {S B O : Type}

def push (c : Cursor S B O) (xs : List B) : Cursor S B O := { c with pending := c.pending ++ xs }

@[simp] lemma push_nil (c : Cursor S B O) : c.push [] = c := by simp [push]

@[simp] lemma push_push (c : Cursor S B O) (xs ys : List B) :
    (c.push xs).push ys = c.push (xs ++ ys) := by simp [push]

end Cursor

end Reader

structure Consumer (S B O : Type) where
  cut : S → List B → Option ℕ
  take : S → List B → S × Option O
  cut_pos : ∀ {s xs n}, cut s xs = some n → 0 < n
  cut_le : ∀ {s xs n}, cut s xs = some n → n ≤ xs.length
  cut_append : ∀ {s xs n}, cut s xs = some n → ∀ ys, cut s (xs ++ ys) = some n

namespace Consumer

open Reader (Cursor)

variable {S B O : Type} (C : Consumer S B O)

def step (c : Cursor S B O) : Option (Cursor S B O) :=
  (C.cut c.state c.pending).map fun n =>
    ⟨(C.take c.state (c.pending.take n)).1, c.pending.drop n,
      c.yielded ++ (C.take c.state (c.pending.take n)).2.toList⟩

def Steps : Cursor S B O → Cursor S B O → Prop :=
  Relation.ReflTransGen fun c d => C.step c = some d

variable {C} {c d e : Cursor S B O}

lemma step_cases (h : C.step c = some d) : ∃ n, C.cut c.state c.pending = some n ∧
    d = ⟨(C.take c.state (c.pending.take n)).1, c.pending.drop n,
      c.yielded ++ (C.take c.state (c.pending.take n)).2.toList⟩ := by
  obtain ⟨n, hn, rfl⟩ := Option.map_eq_some_iff.mp h
  exact ⟨n, hn, rfl⟩

lemma step_append {s t : S} {o : Option O} {xs rest : List B} {ys : List O}
    (hc : C.cut s xs = some xs.length) (ht : C.take s xs = (t, o)) :
    C.step ⟨s, xs ++ rest, ys⟩ = some ⟨t, rest, ys ++ o.toList⟩ := by
  have hcut := C.cut_append hc rest
  simp only [step, hcut, Option.map_some, List.take_left, List.drop_left, ht]

lemma step_push (h : C.step c = some d) (xs : List B) : C.step (c.push xs) = some (d.push xs) := by
  obtain ⟨n, hn, rfl⟩ := step_cases h
  have hle := C.cut_le hn
  have hpush : C.cut (c.push xs).state (c.push xs).pending = some n := C.cut_append hn xs
  simp only [step, hpush, Option.map_some]
  simp only [Cursor.push, List.take_append_of_le_length hle, List.drop_append_of_le_length hle]

lemma step_pending (h : C.step c = some d) : d.pending.length < c.pending.length := by
  obtain ⟨n, hn, rfl⟩ := step_cases h
  have hpos := C.cut_pos hn
  have hle := C.cut_le hn
  rw [List.length_drop]
  omega

lemma Steps.yielded (h : C.Steps c d) : c.yielded <+: d.yielded := by
  induction h with
  | refl => exact List.prefix_rfl
  | tail _ hstep ih =>
    obtain ⟨n, -, rfl⟩ := step_cases hstep
    exact ih.trans (List.prefix_append _ _)

lemma Steps.push (h : C.Steps c d) (xs : List B) : C.Steps (c.push xs) (d.push xs) := by
  induction h with
  | refl => exact .refl
  | tail _ hstep ih => exact ih.tail (step_push hstep xs)

lemma Steps.unique (hd : C.Steps c d) (he : C.Steps c e) (hdq : C.step d = none)
    (heq : C.step e = none) : d = e := by
  induction hd using Relation.ReflTransGen.head_induction_on with
  | refl =>
    cases he using Relation.ReflTransGen.head_induction_on with
    | refl => rfl
    | head hstep _ => simp [hdq] at hstep
  | head hstep _ ih =>
    cases he using Relation.ReflTransGen.head_induction_on with
    | refl => simp [heq] at hstep
    | head hstep' hrest =>
      obtain rfl := Option.some.inj (hstep.symm.trans hstep')
      exact ih hrest

end Consumer

/-- In a state a reader asks for so many symbols, or for none once it has stopped. -/
structure Reader (S B O : Type) where
  need : S → Option ℕ
  take : S → List B → S × Option O
  need_pos : ∀ {s n}, need s = some n → 0 < n

namespace Reader

variable {S B O : Type} (R : Reader S B O)

def step (c : Cursor S B O) : Option (Cursor S B O) :=
  match R.need c.state with
  | none => none
  | some n =>
    if n ≤ c.pending.length then
      let (s, o) := R.take c.state (c.pending.take n)
      some ⟨s, c.pending.drop n, c.yielded ++ o.toList⟩
    else none

def drain : ℕ → Cursor S B O → Cursor S B O
  | 0, c => c
  | fuel + 1, c =>
    match R.step c with
    | none => c
    | some d => drain fuel d

def feed (c : Cursor S B O) (xs : List B) : Cursor S B O :=
  R.drain (c.push xs).pending.length (c.push xs)

def feedAll (c : Cursor S B O) (chunks : List (List B)) : Cursor S B O := chunks.foldl R.feed c

def Steps : Cursor S B O → Cursor S B O → Prop :=
  Relation.ReflTransGen fun c d => R.step c = some d

def consumer : Consumer S B O where
  cut := fun s xs => (R.need s).filter (· ≤ xs.length)
  take := R.take
  cut_pos := fun h => R.need_pos (Option.filter_eq_some_iff.mp h).1
  cut_le := fun h => by simpa using (Option.filter_eq_some_iff.mp h).2
  cut_append := by
    intro s xs n h ys
    rw [Option.filter_eq_some_iff, decide_eq_true_eq] at h ⊢
    rw [List.length_append]
    exact ⟨h.1, h.2.trans (Nat.le_add_right _ _)⟩

variable {R} {c d : Cursor S B O}

lemma step_eq_some {n : ℕ} (hn : R.need c.state = some n) (hl : n ≤ c.pending.length) :
    R.step c = some ⟨(R.take c.state (c.pending.take n)).1, c.pending.drop n,
      c.yielded ++ (R.take c.state (c.pending.take n)).2.toList⟩ := by
  simp only [step, hn, if_pos hl]

lemma step_consumer : R.consumer.step c = R.step c := by
  rw [Consumer.step, step, consumer]
  cases hn : R.need c.state with
  | none => simp [hn]
  | some n =>
    by_cases hl : n ≤ c.pending.length
    · simp [hn, hl]
    · simp [hn, hl, Nat.not_le.mp hl]

lemma steps_consumer : R.consumer.Steps = R.Steps := by
  funext c d
  simp only [Consumer.Steps, Steps, step_consumer]

lemma step_pending (h : R.step c = some d) : d.pending.length < c.pending.length :=
  Consumer.step_pending (step_consumer.trans h)

lemma Steps.yielded (h : R.Steps c d) : c.yielded <+: d.yielded := by
  rw [← steps_consumer] at h
  exact Consumer.Steps.yielded h

lemma Steps.push (h : R.Steps c d) (xs : List B) : R.Steps (c.push xs) (d.push xs) := by
  rw [← steps_consumer] at h ⊢
  exact Consumer.Steps.push h xs

lemma drain_steps (fuel : ℕ) (c : Cursor S B O) : R.Steps c (R.drain fuel c) := by
  induction fuel generalizing c with
  | zero => exact .refl
  | succ fuel ih =>
    rw [drain]
    split
    · exact .refl
    · next d hd => exact .head hd (ih d)

lemma drain_quiet {fuel : ℕ} (h : c.pending.length ≤ fuel) : R.step (R.drain fuel c) = none := by
  induction fuel generalizing c with
  | zero =>
    rw [drain]
    cases hs : R.step c with
    | none => rfl
    | some d =>
      have := step_pending hs
      omega
  | succ fuel ih =>
    rw [drain]
    split
    · assumption
    · next d hd =>
      apply ih
      have := step_pending hd
      omega

lemma Steps.unique {e : Cursor S B O} (hd : R.Steps c d) (he : R.Steps c e)
    (hdq : R.step d = none) (heq : R.step e = none) : d = e := by
  rw [← steps_consumer] at hd he
  rw [← step_consumer] at hdq heq
  exact Consumer.Steps.unique hd he hdq heq

lemma feed_eq {xs : List B} (h : R.Steps (c.push xs) d) (hq : R.step d = none) :
    R.feed c xs = d :=
  (drain_steps _ _).unique h (drain_quiet le_rfl) hq

lemma feed_feed (c : Cursor S B O) (xs ys : List B) :
    R.feed (R.feed c xs) ys = R.feed c (xs ++ ys) := by
  symm
  apply feed_eq
  · have hfirst : R.Steps (c.push xs) (R.feed c xs) := drain_steps _ _
    have hrest : R.Steps ((R.feed c xs).push ys) (R.feed (R.feed c xs) ys) := drain_steps _ _
    rw [← Cursor.push_push]
    exact (hfirst.push ys).trans hrest
  · exact drain_quiet le_rfl

theorem feedAll_eq {chunks : List (List B)} (hc : R.step c = none)
    (h : R.Steps (c.push chunks.flatten) d) (hq : R.step d = none) : R.feedAll c chunks = d := by
  induction chunks generalizing c with
  | nil => exact (Steps.unique (by simpa using h) .refl hq hc).symm
  | cons xs rest ih =>
    rw [feedAll, List.foldl_cons]
    apply ih (drain_quiet le_rfl)
    have hwhole : R.feed c (xs ++ rest.flatten) = d := feed_eq h hq
    rw [← hwhole, ← feed_feed]
    exact drain_steps _ _

lemma feedAll_yielded {chunks : List (List B)} (hc : R.step c = none)
    (h : R.Steps (c.push chunks.flatten) d) : d.yielded <+: (R.feedAll c chunks).yielded := by
  have hrest : R.Steps d (R.drain d.pending.length d) := drain_steps _ _
  rw [feedAll_eq hc (h.trans hrest) (drain_quiet le_rfl)]
  exact hrest.yielded

end Reader

end Simple.Lib
