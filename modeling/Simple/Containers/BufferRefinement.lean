import Simple.Containers.BufferOperations

/-! The buffers of a memory are byte strings. -/

namespace Simple.Containers

open Simple.Lib Simple.Lib.Cyclic

namespace BufferMemory

variable {P A : Type} {fixed : ℕ} {w w' : BufferMemory P A} {p q : P} {v u : MemoryBuffer}
  {vs vs' : P → Option MemoryBuffer} {a : Action P A}

def Action.changes : Action P A → List P
  | .construct p _ | .constructFrom p _ _ | .copyConstruct p _ _ | .destroy p | .append p _ _ | .prepend p _
  | .read p _ | .readUntil p _ | .written p _ | .clear p _ | .shrink p | .reserve p _ _
  | .makeSureWritable p _ _ | .release p | .copyAssign p _ _ => [p]
  | .moveConstruct p q | .moveAssign p q _ => [p, q]

/-- What is asked for is a `size_t` from the start of the buffer. -/
def Small (w : BufferMemory P A) : Action P A → Prop
  | .constructFrom _ bytes _ => bytes.length < 2 ^ 64
  | .append p bytes _ => w.taken p + bytes.length < 2 ^ 64
  | .makeSureWritable p len _ => w.taken p + len < 2 ^ 64
  | _ => True

instance : Decidable (w.Small a) :=
  match a with
  | .constructFrom _ bytes _ => inferInstanceAs (Decidable (bytes.length < 2 ^ 64))
  | .append p bytes _ => inferInstanceAs (Decidable (w.taken p + bytes.length < 2 ^ 64))
  | .makeSureWritable p len _ => inferInstanceAs (Decidable (w.taken p + len < 2 ^ 64))
  | .construct .. | .copyConstruct .. | .destroy .. | .prepend .. | .read .. | .readUntil ..
  | .written .. | .clear .. | .shrink .. | .reserve .. | .release .. | .copyAssign ..
  | .moveConstruct .. | .moveAssign .. => .isTrue trivial

def lists (vs : P → Option MemoryBuffer) (p : P) : Option (List UInt8) := (vs p).map MemoryBuffer.contents

lemma lists_eq (hp : vs p = some v) : lists vs p = some v.contents := by rw [lists, hp, Option.map_some]

section Views

variable (h : Holds fixed w vs)

include h

lemma Holds.front (hp : vs p = some v) : w.front p = v.read := by
  obtain ⟨b, hb, hr⟩ := h.live p v hp
  rw [BufferMemory.front, hb, Option.map_some, Option.getD_some, hr.read]

lemma Holds.taken (hp : vs p = some v) : w.taken p = v.write := by
  obtain ⟨b, hb, hr⟩ := h.live p v hp
  rw [BufferMemory.taken, hb, Option.map_some, Option.getD_some, hr.write]

lemma Holds.room (hp : vs p = some v) : w.room p = v.writable := by
  obtain ⟨b, hb, hr⟩ := h.live p v hp
  rw [BufferMemory.room, hb, Option.map_some, Option.getD_some, hr.writable]

lemma Holds.view (hp : w.Live p) : ∃ v, vs p = some v := by
  obtain ⟨b, hb⟩ := Option.isSome_iff_exists.mp hp
  obtain ⟨v, hv, -⟩ := h.object hb
  exact ⟨v, hv⟩

end Views

lemma object_eq_none (hp : ¬w.Live p) : w.objects p = none := by
  rwa [Live, Option.isSome_iff_ne_none, not_not] at hp

lemma initial_holds : Holds fixed ({} : BufferMemory P A) fun _ => none where
  live _ _ hv := by cases hv
  dead _ _ := rfl
  apart _ _ _ _ hb := by cases hb

variable [DecidableEq P]

@[simp] lemma lists_update (v : Option MemoryBuffer) :
    lists (Function.update vs p v) = Function.update (lists vs) p (v.map MemoryBuffer.contents) := by
  funext q
  by_cases hq : q = p
  · rw [hq, lists, Function.update_self, Function.update_self]
  · rw [lists, Function.update_of_ne hq, Function.update_of_ne hq, lists]

lemma lists_same (hp : vs p = some v) (hv : u.contents = v.contents) :
    lists (Function.update vs p (some u)) = lists vs := by
  rw [lists_update, Option.map_some, hv, ← lists_eq hp, Function.update_eq_self]

structure Does (fixed : ℕ) (w : BufferMemory P A) (vs : P → Option MemoryBuffer) (a : Action P A)
    (w' : BufferMemory P A) (vs' : P → Option MemoryBuffer) : Prop where
  holds : Holds fixed w' vs'
  others : ∀ q ∉ a.changes, w'.objects q = w.objects q ∧ vs' q = vs q
  lists : w.Small a → BufferMemory.lists vs' = w.model (BufferMemory.lists vs) a

lemma Sets.does (h : Sets fixed w vs p w' v) (hchanges : a.changes = [p])
    (hlists : w.Small a → BufferMemory.lists (Function.update vs p (some v)) = w.model (BufferMemory.lists vs) a) :
    Does fixed w vs a w' (Function.update vs p (some v)) := by
  refine ⟨h.holds, ?_, hlists⟩
  intro q hq
  rw [hchanges, List.mem_singleton] at hq
  exact ⟨h.others q hq, Function.update_of_ne hq ..⟩

variable [DecidableEq A]

theorem perform_cases (h : Holds fixed w vs) (hfixed : fixed ≤ MemoryBuffer.maxSize) (ha : w.Allowed a) :
    w.perform fixed a = .throws ∨ ∃ w' vs', w.perform fixed a = .returns w' ∧ Does fixed w vs a w' vs' := by
  cases a with
  | construct p n =>
    refine .inr ⟨_, _, rfl, (h.construct hfixed n).does rfl fun _ => ?_⟩
    rw [lists_update, Option.map_some, built_contents, model]
  | constructFrom p bytes alloc =>
    obtain hthrows | ⟨w', v', hw', hsets, hcontents⟩ := h.constructFrom hfixed (p := p) ha.2 bytes
    · exact .inl hthrows
    · refine .inr ⟨w', _, hw', hsets.does rfl fun hsmall => ?_⟩
      rw [lists_update, Option.map_some, hcontents hsmall, model]
  | copyConstruct p q alloc =>
    obtain ⟨hp, hq, hfresh⟩ := ha
    obtain ⟨u, hu⟩ := h.view hq
    have hpq : q ≠ p := by
      rintro rfl
      exact hp hq
    have hsets : Sets fixed w vs p _ _ := h.construct hfixed 0
    have hu' : Function.update vs p (some (built fixed 0)) q = some u := by rw [Function.update_of_ne hpq, hu]
    obtain hthrows | ⟨w', v', hw', hsets', hcontents⟩ :=
      hsets.holds.copyFrom hsets.view hu' hpq (hfresh.construct 0)
    · exact .inl hthrows
    · refine .inr ⟨w', _, hw', (hsets.trans hsets').does rfl fun _ => ?_⟩
      rw [lists_update, Option.map_some, hcontents, model, lists_eq hu]
  | append p bytes alloc =>
    obtain ⟨hp, hfresh⟩ := ha
    obtain ⟨v, hv⟩ := h.view hp
    obtain hthrows | ⟨w', v', hw', hsets, hcontents⟩ := h.append hv hfresh bytes
    · exact .inl hthrows
    · refine .inr ⟨w', _, hw', hsets.does rfl fun hsmall => ?_⟩
      rw [Small, h.taken hv] at hsmall
      rw [lists_update, Option.map_some, hcontents hsmall, model, lists_eq hv, Option.map_some]
  | moveConstruct p q =>
    obtain ⟨hp, hq⟩ := ha
    obtain ⟨u, hu⟩ := h.view hq
    obtain ⟨w', v', e, hw', hmoved⟩ := h.moveConstruct hu (object_eq_none hp)
    refine .inr ⟨w', _, hw', hmoved.holds, ?_, fun _ => ?_⟩
    · intro k hk
      simp only [Action.changes, List.mem_cons, List.not_mem_nil, or_false, not_or] at hk
      rw [Function.update_of_ne hk.1, Function.update_of_ne hk.2]
      exact ⟨hmoved.others k hk.1 hk.2, rfl⟩
    · rw [lists_update, lists_update, Option.map_some, Option.map_some, hmoved.contents, hmoved.left, model,
        lists_eq hu]
  | destroy p =>
    obtain ⟨v, hv⟩ := h.view ha
    obtain ⟨w', hw', hholds, hothers⟩ := h.destroy hv
    refine .inr ⟨w', _, hw', hholds, ?_, fun _ => ?_⟩
    · intro k hk
      rw [Action.changes, List.mem_singleton] at hk
      exact ⟨hothers k hk, Function.update_of_ne hk ..⟩
    · rw [lists_update, Option.map_none, model]
  | prepend p bytes =>
    obtain ⟨v, hv⟩ := h.view ha
    by_cases hle : bytes.length ≤ v.read
    · obtain ⟨w', hw', hsets⟩ := h.prepend hv hle
      refine .inr ⟨w', _, by rw [perform, hw', Result.bind_returns], hsets.does rfl fun _ => ?_⟩
      rw [lists_update, Option.map_some, MemoryBuffer.prepend_contents hle, model, h.front hv, if_pos hle,
        lists_eq hv, Option.map_some]
    · have hw' := h.prepend_refused hv (Nat.lt_of_not_le hle)
      refine .inr ⟨w, vs, by rw [perform, hw', Result.bind_returns], h, fun _ _ => ⟨rfl, rfl⟩, fun _ => ?_⟩
      rw [model, h.front hv, if_neg hle]
  | read p sz =>
    obtain ⟨v, hv⟩ := h.view ha
    obtain ⟨w', hw', hsets⟩ := h.read hv sz
    refine .inr ⟨w', _, hw', hsets.does rfl fun _ => ?_⟩
    rw [lists_update, Option.map_some, MemoryBuffer.readBytes_contents, model, lists_eq hv, Option.map_some]
  | readUntil p last =>
    obtain ⟨v, hv⟩ := h.view ha
    by_cases hle : last ≤ v.write
    · obtain ⟨w', hw', hsets⟩ := h.readUntil hv hle
      refine .inr ⟨w', _, hw', hsets.does rfl fun _ => ?_⟩
      rw [lists_update, Option.map_some, MemoryBuffer.readBytes_contents, model, h.taken hv, if_pos hle, h.front hv,
        lists_eq hv, Option.map_some]
    · have hw' := h.readUntil_beyond hv (Nat.lt_of_not_le hle)
      refine .inr ⟨w, vs, hw', h, fun _ _ => ⟨rfl, rfl⟩, fun _ => ?_⟩
      rw [model, h.taken hv, if_neg hle]
  | written p bytes =>
    obtain ⟨hp, hle⟩ := ha
    obtain ⟨v, hv⟩ := h.view hp
    rw [h.room hv] at hle
    obtain ⟨w', hw', hsets⟩ := h.fill hv hle
    refine .inr ⟨w', _, hw', hsets.does rfl fun _ => ?_⟩
    rw [lists_update, Option.map_some, MemoryBuffer.poke_written le_rfl hle, List.take_length, model, lists_eq hv,
      Option.map_some]
  | clear p n =>
    obtain ⟨v, hv⟩ := h.view ha
    obtain ⟨w', hw', hsets⟩ := h.clear hv n
    refine .inr ⟨w', _, hw', hsets.does rfl fun _ => ?_⟩
    rw [lists_update, Option.map_some, MemoryBuffer.clear_contents, model]
  | shrink p =>
    obtain ⟨v, hv⟩ := h.view ha
    obtain ⟨w', hw', hsets⟩ := h.shrink hv
    exact .inr ⟨w', _, hw', hsets.does rfl fun _ => lists_same hv MemoryBuffer.shrink_contents⟩
  | reserve p size alloc =>
    obtain ⟨hp, hfresh⟩ := ha
    obtain ⟨v, hv⟩ := h.view hp
    obtain hthrows | ⟨w', v', hw', hsets, hkeeps, -⟩ := h.reserve hv hfresh size
    · exact .inl hthrows
    · exact .inr ⟨w', _, hw', hsets.does rfl fun _ => lists_same hv hkeeps.contents⟩
  | makeSureWritable p len alloc =>
    obtain ⟨hp, hfresh⟩ := ha
    obtain ⟨v, hv⟩ := h.view hp
    obtain hthrows | ⟨w', v', hw', hsets, hkeeps, -⟩ := h.makeSureWritable hv hfresh len
    · exact .inl hthrows
    · exact .inr ⟨w', _, hw', hsets.does rfl fun _ => lists_same hv hkeeps.contents⟩
  | release p =>
    obtain ⟨v, hv⟩ := h.view ha
    obtain ⟨w', v', hw', hsets, hempty⟩ := h.release hv hfixed
    refine .inr ⟨w', _, hw', hsets.does rfl fun _ => ?_⟩
    rw [lists_update, Option.map_some, hempty, model]
  | copyAssign p q alloc =>
    obtain ⟨hp, hq, hfresh⟩ := ha
    obtain ⟨v, hv⟩ := h.view hp
    obtain ⟨u, hu⟩ := h.view hq
    by_cases hpq : p = q
    · refine .inr ⟨w, vs, if_pos hpq, h, fun _ _ => ⟨rfl, rfl⟩, fun _ => ?_⟩
      rw [model, hpq, Function.update_eq_self]
    · obtain hthrows | ⟨w', v', hw', hsets, hcontents⟩ := h.copyFrom hv hu (Ne.symm hpq) hfresh
      · exact .inl ((if_neg hpq).trans hthrows)
      · refine .inr ⟨w', _, (if_neg hpq).trans hw', hsets.does rfl fun _ => ?_⟩
        rw [lists_update, Option.map_some, hcontents, model, lists_eq hu]
  | moveAssign p q t =>
    obtain ⟨hp, hq, ht⟩ := ha
    obtain ⟨v, hv⟩ := h.view hp
    obtain ⟨u, hu⟩ := h.view hq
    by_cases hpq : p = q
    · refine .inr ⟨w, vs, if_pos hpq, h, fun _ _ => ⟨rfl, rfl⟩, fun _ => ?_⟩
      rw [model, if_pos hpq]
    · obtain ⟨w', v', e, hw', hholds, hcontents, hleft, hothers⟩ := h.moveAssign hv hu (object_eq_none ht) hpq
      refine .inr ⟨w', _, hw', hholds, ?_, fun _ => ?_⟩
      · intro k hk
        simp only [Action.changes, List.mem_cons, List.not_mem_nil, or_false, not_or] at hk
        rw [Function.update_of_ne hk.1, Function.update_of_ne hk.2]
        exact ⟨hothers k hk.1 hk.2, rfl⟩
      · rw [lists_update, lists_update, Option.map_some, Option.map_some, hcontents, hleft, model, if_neg hpq,
          lists_eq hu]

theorem step_cases {s t : Option (BufferMemory P A) × (P → Option (List UInt8))} (hs : s.1 = some w)
    (h : Holds fixed w vs) (hfixed : fixed ≤ MemoryBuffer.maxSize) (hstep : (machine P A fixed).step s a = some t) :
    w.Allowed a ∧ (t = s ∨ ∃ w' vs', Does fixed w vs a w' vs' ∧ t = (some w', w.model s.2 a)) := by
  obtain ⟨s₁, l⟩ := s
  obtain rfl : s₁ = some w := hs
  change (if w.Allowed a then _ else none) = some t at hstep
  split_ifs at hstep with ha
  refine ⟨ha, ?_⟩
  obtain hthrows | ⟨w', vs', hw', hdoes⟩ := perform_cases h hfixed ha
  · rw [hthrows] at hstep
    exact .inl (Option.some.inj hstep).symm
  · rw [hw'] at hstep
    exact .inr ⟨w', vs', hdoes, (Option.some.inj hstep).symm⟩

structure IsList (w : BufferMemory P A) (p : P) (b : BaseBuffer P A) (bytes : List UInt8) : Prop where
  object : w.objects p = some b
  read_le : b.read ≤ b.write
  write_le : b.write ≤ b.capacity
  load : w.memory.load b.data b.read b.readable = .returns bytes
  prepend : ∀ xs, ∃ w', w.prepend p xs = .returns (w', decide (xs.length ≤ b.read))

def Refines (s : Option (BufferMemory P A) × (P → Option (List UInt8))) : Prop :=
  ∃ w, s.1 = some w ∧ (∀ p, s.2 p = none → w.objects p = none) ∧ ∀ p bytes, s.2 p = some bytes → ∃ b, IsList w p b bytes

lemma Holds.isList (h : Holds fixed w vs) (hp : vs p = some v) : ∃ b, IsList w p b v.contents := by
  obtain ⟨b, hb, hr⟩ := h.live p v hp
  have hread := v.read_le
  have hwrite := v.write_le
  refine ⟨b, hb, by rw [hr.read, hr.write]; exact hread, by rw [hr.write, hr.capacity]; exact hwrite, ?_, ?_⟩
  · rw [hr.read, hr.readable, h.load hp hb (by rw [MemoryBuffer.readable]; omega), MemoryBuffer.contents]
  · intro xs
    by_cases hle : xs.length ≤ v.read
    · obtain ⟨w', hw', -⟩ := h.prepend hp hle
      exact ⟨w', by rw [hw', hr.read, decide_eq_true hle]⟩
    · exact ⟨w, by rw [h.prepend_refused hp (Nat.lt_of_not_le hle), hr.read, decide_eq_false hle]⟩

/-- Each buffer is a byte string, whatever is done with the buffers before. -/
theorem buffers_refine (hfixed : fixed ≤ MemoryBuffer.maxSize) (as : List (Action P A))
    (hsmall : (machine P A fixed).Along (fun s a => ∀ w ∈ s.1, w.Small a) (machine P A fixed).initial as) :
    (machine P A fixed).Always Refines (machine P A fixed).initial as := by
  refine Machine.always_of_along
    (I := fun s => ∃ w vs, s.1 = some w ∧ Holds fixed w vs ∧ s.2 = lists vs) ?_ ?_ ⟨{}, _, rfl, initial_holds, rfl⟩ hsmall
  · rintro s ⟨w, vs, hs, h, hl⟩
    refine ⟨w, hs, ?_, ?_⟩
    · intro p hp
      rw [hl, lists, Option.map_eq_none_iff] at hp
      exact h.dead p hp
    · intro p bytes hp
      rw [hl, lists, Option.map_eq_some_iff] at hp
      obtain ⟨v, hv, rfl⟩ := hp
      exact h.isList hv
  · rintro s a t ⟨w, vs, hs, h, hl⟩ hsmall hstep
    obtain ⟨-, rfl | ⟨w', vs', hdoes, rfl⟩⟩ := step_cases hs h hfixed hstep
    · exact ⟨w, vs, hs, h, hl⟩
    · exact ⟨w', vs', rfl, hdoes.holds, by rw [hl, hdoes.lists (hsmall w hs)]⟩

def handedOn : List (Action ℕ ℕ) :=
  [.construct 0 2, .append 0 [1, 2, 3] (some (0, fun _ => 9)), .prepend 0 [7], .moveConstruct 1 0, .written 1 [8],
    .append 0 [4] (some (1, fun _ => 9)), .moveConstruct 2 0, .construct 3 0, .append 3 [5, 6] none, .moveAssign 0 3 4,
    .copyAssign 3 1 (some (2, fun _ => 9)), .moveAssign 2 1 4, .read 3 2, .shrink 3]

theorem buffers_refine_handedOn : (machine ℕ ℕ 4).Always Refines (machine ℕ ℕ 4).initial handedOn ∧
    ((machine ℕ ℕ 4).run (machine ℕ ℕ 4).initial handedOn).map (fun s => [s.2 0, s.2 1, s.2 2, s.2 3]) =
      some [some [5, 6], some [], some [7, 1, 2, 3, 8], some [2, 3, 8]] :=
  ⟨buffers_refine (by decide) handedOn (by decide +kernel), by decide +kernel⟩

end BufferMemory

end Simple.Containers
