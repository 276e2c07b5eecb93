import Mathlib.Tactic

/-! Deterministic machines driven by a list of actions, with the rules that carry
an invariant along a run. -/

namespace Simple.Lib

universe u v w

structure Machine (S : Type u) (A : Type v) where
  initial : S
  step : S → A → Option S

namespace Machine

variable {S : Type u} {A : Type v} (M : Machine S A)

def run : S → List A → Option S
  | s, [] => some s
  | s, a :: as => (M.step s a).bind fun t => run t as

def Reachable (s : S) : Prop := ∃ as, M.run M.initial as = some s

/-- Every step that the run takes is one that `C` allows. -/
def Along (C : S → A → Prop) : S → List A → Prop
  | _, [] => True
  | s, a :: as => ∀ t, M.step s a = some t → C s a ∧ Along C t as

def Always (P : S → Prop) : S → List A → Prop
  | s, [] => P s
  | s, a :: as => P s ∧ ∀ t, M.step s a = some t → Always P t as

instance decidableAlong (C : S → A → Prop) [∀ s, DecidablePred (C s)] :
    ∀ s as, Decidable (M.Along C s as)
  | _, [] => .isTrue trivial
  | s, a :: as =>
    match h : M.step s a with
    | none => .isTrue fun t ht => absurd (h.symm.trans ht) (Option.some_ne_none t).symm
    | some t =>
      have := decidableAlong C t as
      decidable_of_iff (C s a ∧ M.Along C t as)
        ⟨fun hc _ hu => Option.some.inj (h.symm.trans hu) ▸ hc, fun hc => hc t h⟩

variable {M}

@[simp] lemma run_nil (s : S) : M.run s [] = some s := rfl

lemma run_cons_eq_some {s t : S} {a : A} {as : List A} :
    M.run s (a :: as) = some t ↔ ∃ r, M.step s a = some r ∧ M.run r as = some t := by
  simp [run, Option.bind_eq_some_iff]

lemma run_append_eq_some {s t : S} {as bs : List A} :
    M.run s (as ++ bs) = some t ↔ ∃ r, M.run s as = some r ∧ M.run r bs = some t := by
  induction as generalizing s with
  | nil => simp
  | cons a as ih =>
    rw [List.cons_append, run_cons_eq_some]
    simp only [ih, run_cons_eq_some]
    constructor
    · rintro ⟨u, hu, r, hr, ht⟩
      exact ⟨r, ⟨u, hu, hr⟩, ht⟩
    · rintro ⟨r, ⟨u, hu, hr⟩, ht⟩
      exact ⟨u, hu, r, hr, ht⟩

variable {I P : S → Prop} {C : S → A → Prop}

lemma run_invariant_of_mem {s t : S} {as : List A}
    (hstep : ∀ a ∈ as, ∀ s t, I s → M.step s a = some t → I t) (hs : I s)
    (h : M.run s as = some t) : I t := by
  induction as generalizing s with
  | nil =>
    obtain rfl : s = t := by simpa using h
    exact hs
  | cons a as ih =>
    obtain ⟨r, hr, ht⟩ := run_cons_eq_some.mp h
    exact ih (fun b hb => hstep b (List.mem_cons_of_mem a hb))
      (hstep a List.mem_cons_self s r hs hr) ht

lemma run_invariant (hstep : ∀ s a t, I s → M.step s a = some t → I t)
    {s t : S} {as : List A} (hs : I s) (h : M.run s as = some t) : I t :=
  run_invariant_of_mem (fun a _ s t => hstep s a t) hs h

lemma reachable_invariant (hinit : I M.initial)
    (hstep : ∀ s a t, I s → M.step s a = some t → I t) {s : S} (h : M.Reachable s) : I s := by
  obtain ⟨as, has⟩ := h
  exact run_invariant hstep hinit has

lemma Always.here {s : S} {as : List A} (h : M.Always P s as) : P s := by
  cases as with
  | nil => exact h
  | cons a as => exact h.1

lemma always_of_along (hI : ∀ s, I s → P s)
    (hstep : ∀ s a t, I s → C s a → M.step s a = some t → I t)
    {s : S} {as : List A} (hs : I s) (h : M.Along C s as) : M.Always P s as := by
  induction as generalizing s with
  | nil => exact hI s hs
  | cons a as ih =>
    refine ⟨hI s hs, ?_⟩
    intro t ht
    exact ih (hstep s a t hs (h t ht).1 ht) (h t ht).2

lemma Along.of_always {D : S → A → Prop} (hstep : ∀ s a t, I s → D s a → M.step s a = some t → I t)
    (hC : ∀ s a t, I s → P s → M.step s a = some t → P t → C s a)
    {s : S} {as : List A} (hs : I s) (hD : M.Along D s as) (h : M.Always P s as) :
    M.Along C s as := by
  induction as generalizing s with
  | nil => trivial
  | cons a as ih =>
    intro t ht
    have hat := h.2 t ht
    exact ⟨hC s a t hs h.1 ht hat.here, ih (hstep s a t hs (hD t ht).1 ht) (hD t ht).2 hat⟩

lemma along_true (s : S) (as : List A) : M.Along (fun _ _ => True) s as := by
  induction as generalizing s with
  | nil => trivial
  | cons a as ih => exact fun t _ => ⟨trivial, ih t⟩

lemma Along.and {D : S → A → Prop} {s : S} {as : List A} (h : M.Along C s as)
    (h' : M.Along D s as) : M.Along (fun s a => C s a ∧ D s a) s as := by
  induction as generalizing s with
  | nil => trivial
  | cons a as ih =>
    intro t ht
    obtain ⟨hc, hcs⟩ := h t ht
    obtain ⟨hd, hds⟩ := h' t ht
    exact ⟨⟨hc, hd⟩, ih hcs hds⟩

lemma Along.mono {D : S → A → Prop} {s : S} {as : List A} (h : M.Along C s as)
    (hCD : ∀ s a, C s a → D s a) : M.Along D s as := by
  induction as generalizing s with
  | nil => trivial
  | cons a as ih => exact fun t ht => ⟨hCD s a (h t ht).1, ih (h t ht).2⟩

lemma Along.of_imp {p : Prop} {s : S} {as : List A} (h : p → M.Along C s as) :
    M.Along (fun s a => p → C s a) s as := by
  by_cases hp : p
  · exact (h hp).mono fun _ _ hc _ => hc
  · exact (along_true s as).mono fun _ _ _ hp' => absurd hp' hp

lemma along_congr_of_kept {D : S → A → Prop}
    (hstep : ∀ s a t, I s → C s a → M.step s a = some t → I t) (hCD : ∀ s a, I s → (C s a ↔ D s a))
    {s : S} {as : List A} (hs : I s) : M.Along C s as ↔ M.Along D s as := by
  induction as generalizing s with
  | nil => exact Iff.rfl
  | cons a as ih =>
    refine forall_congr' fun t => imp_congr_right fun ht => ?_
    rw [← hCD s a hs]
    exact and_congr_right fun hc => ih (hstep s a t hs hc ht)

lemma along_congr {D : S → A → Prop} (hstep : ∀ s a t, I s → M.step s a = some t → I t)
    (hCD : ∀ s a, I s → (C s a ↔ D s a)) {s : S} {as : List A} (hs : I s) :
    M.Along C s as ↔ M.Along D s as :=
  along_congr_of_kept (fun s a t hs _ => hstep s a t hs) hCD hs

lemma along_of_always (hstep : ∀ s a t, I s → M.step s a = some t → I t)
    (hC : ∀ s a t, I s → P s → M.step s a = some t → P t → C s a)
    {s : S} {as : List A} (hs : I s) (h : M.Always P s as) : M.Along C s as :=
  Along.of_always (fun s a t hs _ ht => hstep s a t hs ht) hC hs (along_true s as) h

/-- Where one step keeps `P` exactly when `C` allows the step, a run stays in `P`
exactly when `C` allows all of its steps. -/
lemma always_iff_along (hstep : ∀ s a t, I s → M.step s a = some t → I t)
    (hP : ∀ s a t, I s → P s → M.step s a = some t → (P t ↔ C s a))
    {s : S} {as : List A} (hs : I s) (hp : P s) :
    M.Always P s as ↔ M.Along C s as := by
  constructor
  · exact along_of_always hstep (fun s a t hs hp ht hpt => (hP s a t hs hp ht).mp hpt) hs
  · refine always_of_along (I := fun s => I s ∧ P s) (fun s h => h.2) ?_ ⟨hs, hp⟩
    rintro s a t ⟨hs, hp⟩ hc ht
    exact ⟨hstep s a t hs ht, (hP s a t hs hp ht).mpr hc⟩

/-- `C` keeps the invariant, and a step that it forbids leaves `P`. -/
lemma always_iff_along_of_kept (hI : ∀ s, I s → P s)
    (hstep : ∀ s a t, I s → C s a → M.step s a = some t → I t)
    (hC : ∀ s a t, I s → M.step s a = some t → P t → C s a) {s : S} {as : List A} (hs : I s) :
    M.Always P s as ↔ M.Along C s as := by
  refine ⟨?_, always_of_along hI hstep hs⟩
  intro h
  induction as generalizing s with
  | nil => trivial
  | cons a as ih =>
    intro t ht
    have hc := hC s a t hs ht (h.2 t ht).here
    exact ⟨hc, ih (hstep s a t hs hc ht) (h.2 t ht)⟩

lemma always_and_along_iff {Q : S → A → Prop}
    (hstep : ∀ s a t, I s → M.step s a = some t → I t)
    (hP : ∀ s a t, I s → P s → M.step s a = some t → (P t ∧ Q s a ↔ C s a))
    {s : S} {as : List A} (hs : I s) (hp : P s) :
    M.Always P s as ∧ M.Along Q s as ↔ M.Along C s as := by
  induction as generalizing s with
  | nil => exact ⟨fun _ => trivial, fun _ => ⟨hp, trivial⟩⟩
  | cons a as ih =>
    constructor
    · rintro ⟨ha, hq⟩ t ht
      have hpt := (ha.2 t ht).here
      have hc := (hP s a t hs hp ht).mp ⟨hpt, (hq t ht).1⟩
      exact ⟨hc, (ih (hstep s a t hs ht) hpt).mp ⟨ha.2 t ht, (hq t ht).2⟩⟩
    · intro hc
      have hnext : ∀ t, M.step s a = some t → (P t ∧ Q s a) ∧ M.Always P t as ∧ M.Along Q t as := by
        intro t ht
        have hpq := (hP s a t hs hp ht).mpr (hc t ht).1
        exact ⟨hpq, (ih (hstep s a t hs ht) hpq.1).mpr (hc t ht).2⟩
      refine ⟨⟨hp, fun t ht => (hnext t ht).2.1⟩, ?_⟩
      intro t ht
      exact ⟨(hnext t ht).1.2, (hnext t ht).2.2⟩

lemma Always.last {s t : S} {as : List A} (ha : M.Always P s as) (h : M.run s as = some t) :
    P t := by
  induction as generalizing s with
  | nil =>
    obtain rfl : s = t := by simpa using h
    exact ha
  | cons a as ih =>
    obtain ⟨r, hr, ht⟩ := run_cons_eq_some.mp h
    exact ih (ha.2 r hr) ht

lemma Along.invariant (hstep : ∀ s a t, I s → C s a → M.step s a = some t → I t) {s t : S}
    {as : List A} (hC : M.Along C s as) (hs : I s) (h : M.run s as = some t) : I t :=
  (always_of_along (fun _ ht => ht) hstep hs hC).last h

lemma always_of_last (hback : ∀ s a t, M.step s a = some t → P t → P s) {s t : S} {as : List A}
    (h : M.run s as = some t) (ht : P t) : M.Always P s as := by
  induction as generalizing s with
  | nil =>
    obtain rfl : s = t := by simpa using h
    exact ht
  | cons a as ih =>
    obtain ⟨r, hr, hrt⟩ := run_cons_eq_some.mp h
    have hlater := ih hrt
    refine ⟨hback s a r hr hlater.here, fun r' hr' => ?_⟩
    obtain rfl := Option.some.inj (hr.symm.trans hr')
    exact hlater

/-- Two machines, of which the second takes only those actions that `p` leaves to it. -/
lemma run_filter {T : Type w} {N : Machine T A} {R : S → T → Prop} {p : A → Bool}
    (htake : ∀ s a s' t, R s t → P s' → p a = true → M.step s a = some s' →
      ∃ t', N.step t a = some t' ∧ R s' t')
    (hskip : ∀ s a s' t, R s t → P s' → p a = false → M.step s a = some s' → R s' t)
    {s s' : S} {t : T} {as : List A} (hst : R s t) (hP : M.Always P s as)
    (h : M.run s as = some s') : ∃ t', N.run t (as.filter p) = some t' ∧ R s' t' := by
  induction as generalizing s t with
  | nil =>
    obtain rfl : s = s' := by simpa using h
    exact ⟨t, rfl, hst⟩
  | cons a as ih =>
    obtain ⟨r, hr, hrs⟩ := run_cons_eq_some.mp h
    have hPr := hP.2 r hr
    cases hpa : p a with
    | true =>
      obtain ⟨t', ht', hrt⟩ := htake s a r t hst hPr.here hpa hr
      obtain ⟨u, hu, hsu⟩ := ih hrt hPr hrs
      refine ⟨u, ?_, hsu⟩
      rw [List.filter_cons_of_pos hpa]
      exact run_cons_eq_some.mpr ⟨t', ht', hu⟩
    | false =>
      rw [List.filter_cons_of_neg (by simp [hpa])]
      exact ih (hskip s a r t hst hPr.here hpa hr) hPr hrs

/-- The machine beside a record of its run, which has no influence on the steps. -/
def withHistory {H : Type w} (M : Machine S A) (initial : H) (record : S → H → A → H) :
    Machine (S × H) A where
  initial := (M.initial, initial)
  step := fun p a => (M.step p.1 a).map fun t => (t, record p.1 p.2 a)

lemma step_withHistory {H : Type w} {h₀ : H} {record : S → H → A → H} {p q : S × H} {a : A} :
    (M.withHistory h₀ record).step p a = some q ↔
      M.step p.1 a = some q.1 ∧ q.2 = record p.1 p.2 a := by
  simp only [withHistory, Option.map_eq_some_iff]
  constructor
  · rintro ⟨t, ht, rfl⟩
    exact ⟨ht, rfl⟩
  · rintro ⟨ht, hq⟩
    exact ⟨q.1, ht, by rw [← hq]⟩

end Machine

end Simple.Lib
