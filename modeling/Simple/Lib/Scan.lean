import Mathlib.Data.List.Basic

/-! One-pass scanners: a state that takes letters until it refuses one. What leads from one state to
another is read off the kinds of states on the way. -/

namespace Simple.Lib

universe u v

variable {σ : Type u} {α : Type v} {step : σ → α → Option σ}

def Scans (step : σ → α → Option σ) (s : σ) (xs : List α) (t : σ) : Prop := xs.foldlM step s = some t

namespace Scans

variable {s t : σ} {sep x : α} {xs acc : List α} {p : α → Prop}

@[simp] lemma nil_iff : Scans step s [] t ↔ s = t := by simp [Scans]

lemma cons_iff : Scans step s (x :: xs) t ↔ ∃ u, step s x = some u ∧ Scans step u xs t := by
  simp [Scans, Option.bind_eq_some_iff]

lemma letter_iff {g : α → σ} (hne : s ≠ t) (htake : ∀ c, p c → step s c = some (g c))
    (hrefuse : ∀ c, ¬p c → step s c = none) :
    Scans step s xs t ↔ ∃ c ys, xs = c :: ys ∧ p c ∧ Scans step (g c) ys t := by
  constructor
  · intro h
    cases xs with
    | nil => exact absurd (nil_iff.mp h) hne
    | cons c ys =>
      obtain ⟨u, hu, hys⟩ := cons_iff.mp h
      by_cases hc : p c
      · rw [htake c hc] at hu
        cases hu
        exact ⟨c, ys, rfl, hc, hys⟩
      · rw [hrefuse c hc] at hu
        cases hu
  · rintro ⟨c, ys, rfl, hc, hys⟩
    exact cons_iff.mpr ⟨g c, htake c hc, hys⟩

lemma expect_iff (sep : α) {u : σ} (hne : s ≠ t) (htake : step s sep = some u)
    (hrefuse : ∀ c, c ≠ sep → step s c = none) :
    Scans step s xs t ↔ ∃ ys, xs = sep :: ys ∧ Scans step u ys t := by
  rw [letter_iff (p := (· = sep)) (g := fun _ => u) hne (by rintro c rfl; exact htake) hrefuse]
  constructor
  · rintro ⟨c, ys, hxs, rfl, hys⟩
    exact ⟨ys, hxs, hys⟩
  · rintro ⟨ys, hxs, hys⟩
    exact ⟨sep, ys, hxs, rfl, hys⟩

lemma while_iff {f : List α → σ} (htake : ∀ acc c, p c → step (f acc) c = some (f (acc ++ [c])))
    (hrefuse : ∀ acc c, ¬p c → step (f acc) c = none) :
    Scans step (f acc) xs t ↔ (∀ c ∈ xs, p c) ∧ f (acc ++ xs) = t := by
  induction xs generalizing acc with
  | nil => simp
  | cons c xs ih =>
    rw [cons_iff, List.forall_mem_cons]
    by_cases hc : p c
    · simp only [htake acc c hc, Option.some.injEq, exists_eq_left', ih, hc, true_and,
        List.append_assoc, List.singleton_append]
    · simp only [hrefuse acc c hc, reduceCtorEq, false_and, exists_false, hc]

lemma until_iff (sep : α) {f g : List α → σ} (hne : ∀ acc, f acc ≠ t) (hsep : ¬p sep)
    (htake : ∀ acc c, p c → step (f acc) c = some (f (acc ++ [c])))
    (hleave : ∀ acc, step (f acc) sep = some (g acc))
    (hrefuse : ∀ acc c, ¬p c → c ≠ sep → step (f acc) c = none) :
    Scans step (f acc) xs t ↔
      ∃ ys zs, xs = ys ++ sep :: zs ∧ (∀ c ∈ ys, p c) ∧ Scans step (g (acc ++ ys)) zs t := by
  induction xs generalizing acc with
  | nil => simp [hne]
  | cons c xs ih =>
    rw [cons_iff]
    constructor
    · rintro ⟨u, hu, hxs⟩
      by_cases hc : p c
      · rw [htake acc c hc] at hu
        cases hu
        obtain ⟨ys, zs, rfl, hys, hzs⟩ := ih.mp hxs
        refine ⟨c :: ys, zs, rfl, List.forall_mem_cons.mpr ⟨hc, hys⟩, ?_⟩
        rwa [List.append_assoc] at hzs
      · by_cases he : c = sep
        · subst he
          rw [hleave acc] at hu
          cases hu
          exact ⟨[], xs, rfl, by simp, by rwa [List.append_nil]⟩
        · rw [hrefuse acc c hc he] at hu
          cases hu
    · rintro ⟨ys, zs, hxs, hys, hzs⟩
      cases ys with
      | nil =>
        obtain ⟨rfl, rfl⟩ := List.cons.inj hxs
        rw [List.append_nil] at hzs
        exact ⟨_, hleave acc, hzs⟩
      | cons d ys =>
        obtain ⟨rfl, rfl⟩ := List.cons.inj hxs
        obtain ⟨hc, hys⟩ := List.forall_mem_cons.mp hys
        refine ⟨_, htake acc c hc, ih.mpr ⟨ys, zs, rfl, hys, ?_⟩⟩
        rwa [List.append_assoc]

lemma skip_iff {q : α → Prop} {g : α → σ} (hne : s ≠ t)
    (hstay : ∀ c, q c → step s c = some s) (htake : ∀ c, p c → step s c = some (g c))
    (hrefuse : ∀ c, ¬q c → ¬p c → step s c = none) :
    Scans step s xs t ↔
      ∃ ys c zs, xs = ys ++ c :: zs ∧ (∀ c ∈ ys, q c) ∧ p c ∧ Scans step (g c) zs t := by
  induction xs with
  | nil => simp [hne]
  | cons x xs ih =>
    rw [cons_iff]
    constructor
    · rintro ⟨u, hu, hxs⟩
      by_cases hq : q x
      · rw [hstay x hq] at hu
        cases hu
        obtain ⟨ys, c, zs, rfl, hys, hc, hzs⟩ := ih.mp hxs
        exact ⟨x :: ys, c, zs, rfl, List.forall_mem_cons.mpr ⟨hq, hys⟩, hc, hzs⟩
      · by_cases hp : p x
        · rw [htake x hp] at hu
          cases hu
          exact ⟨[], x, xs, rfl, by simp, hp, hxs⟩
        · rw [hrefuse x hq hp] at hu
          cases hu
    · rintro ⟨ys, c, zs, hxs, hys, hc, hzs⟩
      cases ys with
      | nil =>
        obtain ⟨rfl, rfl⟩ := List.cons.inj hxs
        exact ⟨g x, htake x hc, hzs⟩
      | cons y ys =>
        obtain ⟨rfl, rfl⟩ := List.cons.inj hxs
        obtain ⟨hq, hys⟩ := List.forall_mem_cons.mp hys
        exact ⟨s, hstay x hq, ih.mpr ⟨ys, c, zs, rfl, hys, hc, hzs⟩⟩

lemma stay_iff (step : σ → α → Option σ) (hstay : ∀ c, step s c = some s) : Scans step s xs t ↔ s = t := by
  induction xs with
  | nil => exact nil_iff
  | cons c xs ih => simp only [cons_iff, hstay, Option.some.injEq, exists_eq_left', ih]

end Scans

end Simple.Lib
