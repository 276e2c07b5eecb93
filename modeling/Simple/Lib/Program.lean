import Mathlib.Tactic

/-! Programs as trees of atomic actions on a state they share with others. One
program runs alone, or its actions interleave with those of another party that
keeps to a rely relation. -/

namespace Simple.Lib

inductive Prog (A : Type) (R : A → Type) (α : Type)
  | pure (a : α)
  | act (x : A) (next : R x → Prog A R α)

namespace Prog

variable {A : Type} {R : A → Type} {S α β : Type}

def bind : Prog A R α → (α → Prog A R β) → Prog A R β
  | .pure a, f => f a
  | .act x next, f => .act x fun r => (next r).bind f

instance : Monad (Prog A R) where
  pure := .pure
  bind := bind

def perform (x : A) : Prog A R (R x) := .act x .pure

@[simp] lemma pure_bind (a : α) (f : α → Prog A R β) : (Pure.pure a : Prog A R α) >>= f = f a := rfl

lemma bind_assoc {γ : Type} (p : Prog A R α) (f : α → Prog A R β) (g : β → Prog A R γ) :
    p >>= f >>= g = p >>= fun a => f a >>= g := by
  induction p with
  | pure a => rfl
  | act x next ih => exact congrArg (Prog.act x) (funext ih)

def run (exec : (x : A) → S → S × R x) : Prog A R α → S → S × α
  | .pure a, s => (s, a)
  | .act x next, s => (next (exec x s).2).run exec (exec x s).1

@[simp] lemma run_bind (exec : (x : A) → S → S × R x) (p : Prog A R α) (f : α → Prog A R β) (s : S) :
    (p >>= f).run exec s = (f (p.run exec s).2).run exec (p.run exec s).1 := by
  induction p generalizing s with
  | pure a => rfl
  | act x next ih => exact ih (exec x s).2 (exec x s).1

lemma run_map {T : Type} (f : S → T) (exec : (x : A) → S → S × R x) (exec' : (x : A) → T → T × R x)
    (h : ∀ x s, exec' x (f s) = (f (exec x s).1, (exec x s).2)) (p : Prog A R α) (s : S) :
    p.run exec' (f s) = (f (p.run exec s).1, (p.run exec s).2) := by
  induction p generalizing s with
  | pure a => rfl
  | act x next ih => simp only [run, h, ih]

/-- An action may throw, on which nothing of the rest is done. -/
def attempt (exec : (x : A) → S → Option (S × R x)) : Prog A R α → S → S × Option α
  | .pure a, s => (s, some a)
  | .act x next, s =>
    match exec x s with
    | none => (s, none)
    | some (t, r) => (next r).attempt exec t

section Attempt

variable {exec : (x : A) → S → Option (S × R x)} {s t : S}

@[simp] lemma attempt_pure (a : α) : (Pure.pure a : Prog A R α).attempt exec s = (s, some a) := rfl

lemma attempt_throws {x : A} {f : R x → Prog A R α} (h : exec x s = none) :
    (perform x >>= f).attempt exec s = (s, none) := by
  change (Prog.act x _).attempt exec s = _
  simp only [attempt, h]

lemma attempt_goes_on {x : A} {r : R x} {f : R x → Prog A R α} (h : exec x s = some (t, r)) :
    (perform x >>= f).attempt exec s = (f r).attempt exec t := by
  change (Prog.act x _).attempt exec s = _
  simp only [attempt, h]
  rfl

end Attempt

def Never (p : A → Prop) : Prog A R α → Prop
  | .pure _ => True
  | .act x next => ¬p x ∧ ∀ r, Never p (next r)

/-- Nothing is left to do after an action of the kind `p`. -/
def Ends (p : A → Prop) : Prog A R α → Prop
  | .pure _ => True
  | .act x next => ∀ r, (p x → ∃ a, next r = .pure a) ∧ Ends p (next r)

variable {p : A → Prop}

lemma Never.bind {q : Prog A R α} {f : α → Prog A R β} (hq : q.Never p) (hf : ∀ a, (f a).Never p) :
    (q >>= f).Never p := by
  induction q with
  | pure a => exact hf a
  | act x next ih => exact ⟨hq.1, fun r => ih r (hq.2 r)⟩

lemma Never.ends_bind {q : Prog A R α} {f : α → Prog A R β} (hq : q.Never p)
    (hf : ∀ a, (f a).Ends p) : (q >>= f).Ends p := by
  induction q with
  | pure a => exact hf a
  | act x next ih => exact fun r => ⟨fun hx => absurd hx hq.1, ih r (hq.2 r)⟩

lemma Ends.map {q : Prog A R α} (g : α → β) (hq : q.Ends p) :
    (q >>= fun a => Pure.pure (g a)).Ends p := by
  induction q with
  | pure a => trivial
  | act x next ih =>
    intro r
    refine ⟨?_, ih r (hq r).2⟩
    intro hx
    obtain ⟨a, ha⟩ := (hq r).1 hx
    exact ⟨g a, congrArg (fun q => q >>= fun a => Pure.pure (g a)) ha⟩

end Prog

/-- One party of a shared state: how its actions work, what it expects of the steps
of the others, and what it promises them about its own. -/
structure Party (S A : Type) (R : A → Type) where
  exec : (x : A) → S → S × R x
  rely : S → S → Prop
  guar : A → S → S → Prop
  rely_refl : ∀ s, rely s s
  rely_trans : ∀ s t u, rely s t → rely t u → rely s u

namespace Party

variable {A : Type} {R : A → Type} {S α β : Type} (P : Party S A R)

/-- Whatever the others do in between, every action keeps the promise and the
result is as `Q` says. -/
def Wp (Q : α → S → Prop) : Prog A R α → S → Prop
  | .pure a, s => Q a s
  | .act x next, s => ∀ t, P.rely s t →
      P.guar x t (P.exec x t).1 ∧ Wp Q (next (P.exec x t).2) (P.exec x t).1

variable {P}

lemma wp_bind {Q : β → S → Prop} {p : Prog A R α} {f : α → Prog A R β} {s : S} :
    P.Wp Q (p >>= f) s ↔ P.Wp (fun a => P.Wp Q (f a)) p s := by
  induction p generalizing s with
  | pure a => rfl
  | act x next ih =>
    constructor
    · intro h t ht
      exact ⟨(h t ht).1, (ih _).mp (h t ht).2⟩
    · intro h t ht
      exact ⟨(h t ht).1, (ih _).mpr (h t ht).2⟩

lemma Wp.mono {Q Q' : α → S → Prop} {p : Prog A R α} {s : S} (h : P.Wp Q p s)
    (hQ : ∀ a t, Q a t → Q' a t) : P.Wp Q' p s := by
  induction p generalizing s with
  | pure a => exact hQ a s h
  | act x next ih =>
    intro t ht
    exact ⟨(h t ht).1, ih _ (h t ht).2⟩

lemma Wp.stable {Q : α → S → Prop} {p : Prog A R α} {s t : S} (h : P.Wp Q p s) (ht : P.rely s t)
    (hQ : ∀ a s t, Q a s → P.rely s t → Q a t) : P.Wp Q p t := by
  cases p with
  | pure a => exact hQ a s t h ht
  | act x next => exact fun u hu => h u (P.rely_trans s t u ht hu)

lemma Wp.run {Q : α → S → Prop} {p : Prog A R α} {s : S} (h : P.Wp Q p s) :
    Q (p.run P.exec s).2 (p.run P.exec s).1 := by
  induction p generalizing s with
  | pure a => exact h
  | act x next ih => exact ih _ (h s (P.rely_refl s)).2

lemma Wp.run_guar {Q : α → S → Prop} {p : Prog A R α} {s : S} {G : S → S → Prop}
    (hrefl : ∀ s, G s s) (htrans : ∀ s t u, G s t → G t u → G s u)
    (hguar : ∀ x s t, P.guar x s t → G s t) (h : P.Wp Q p s) : G s (p.run P.exec s).1 := by
  induction p generalizing s with
  | pure a => exact hrefl s
  | act x next ih =>
    obtain ⟨hx, hnext⟩ := h s (P.rely_refl s)
    exact htrans _ _ _ (hguar x _ _ hx) (ih _ hnext)

end Party

end Simple.Lib
