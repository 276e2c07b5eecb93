import Simple.Lib.Machine

/-! Event handlers, and the registrations that own them. -/

namespace Simple.Application

open Simple.Lib

/-- A node of `handlers_`. What is invoked is a parameter. -/
structure Handler (T A H : Type) where
  type : T
  address : A
  call : H

/-- `system` tells whether the pointer is set; no `type` is `typeid(void)`. -/
structure EventRegistration (T A : Type) where
  system : Bool := false
  handle : Option A := none
  type : Option T := none

def EventRegistration.active {T A : Type} (r : EventRegistration T A) : Bool := r.system && r.handle.isSome

/-- One `event_system` and the registrations that live, by the place of the object. -/
structure EventSystem (T A H P : Type) where
  handlers : List (Handler T A H) := []
  registrations : P → Option (EventRegistration T A) := fun _ => none

namespace EventSystem

variable {T A H P : Type} [DecidableEq T] [DecidableEq A] [DecidableEq P]

def registerHandler (h : Handler T A H) (p : P) (s : EventSystem T A H P) : EventSystem T A H P :=
  { handlers := s.handlers ++ [h]
    registrations := Function.update s.registrations p (some ⟨true, some h.address, some h.type⟩) }

/-- `r` leaves the place `q` for `p`. -/
def move (p q : P) (r : EventRegistration T A) (s : EventSystem T A H P) : EventSystem T A H P :=
  { s with registrations := Function.update (Function.update s.registrations q (some {})) p (some r) }

def deregisterHandler (r : EventRegistration T A) (s : EventSystem T A H P) : EventSystem T A H P :=
  { s with handlers := s.handlers.eraseP fun h => r.type = some h.type ∧ r.handle = some h.address }

def deregister (p : P) (r : EventRegistration T A) (s : EventSystem T A H P) : EventSystem T A H P :=
  if r.active then
    let s := s.deregisterHandler r
    { s with registrations := Function.update s.registrations p (some { r with handle := none }) }
  else s

def destroy (p : P) (r : EventRegistration T A) (s : EventSystem T A H P) : EventSystem T A H P :=
  let s := s.deregister p r
  { s with registrations := Function.update s.registrations p none }

def fireEvent (type : T) (s : EventSystem T A H P) : List H :=
  (s.handlers.filter fun h => h.type = type).map Handler.call

inductive Action (T A H P : Type)
  | registerHandler (h : Handler T A H) (p : P)
  | moveConstruct (p q : P)
  | moveAssign (p q : P)
  | deregister (p : P)
  | destroy (p : P)

/-- A node is allocated where none is, and an object is constructed where none lives. -/
def step (s : EventSystem T A H P) : Action T A H P → Option (EventSystem T A H P)
  | .registerHandler h p =>
    if h.address ∈ s.handlers.map Handler.address ∨ (s.registrations p).isSome then none
    else some (s.registerHandler h p)
  | .moveConstruct p q =>
    if (s.registrations p).isSome then none else (s.registrations q).map fun r => s.move p q r
  | .moveAssign p q =>
    if (s.registrations p).isNone then none
    else (s.registrations q).map fun r => if p = q then s else s.move p q r
  | .deregister p => (s.registrations p).map fun r => s.deregister p r
  | .destroy p => (s.registrations p).map fun r => s.destroy p r

/-- Which registration owns which handler, by what the operations are for. -/
def owners (o : List (P × Handler T A H)) : Action T A H P → List (P × Handler T A H)
  | .registerHandler h p => (p, h) :: o
  | .moveConstruct p q => o.map fun e => if e.1 = q then (p, e.2) else e
  | .moveAssign p q =>
    if p = q then o else (o.filter fun e => e.1 ≠ p).map fun e => if e.1 = q then (p, e.2) else e
  | .deregister p => o.filter fun e => e.1 ≠ p
  | .destroy p => o.filter fun e => e.1 ≠ p

def machine (T A H P : Type) [DecidableEq T] [DecidableEq A] [DecidableEq P] :
    Machine (EventSystem T A H P × List (P × Handler T A H)) (Action T A H P) :=
  (Machine.mk {} step).withHistory [] fun _ o a => owners o a

def due (type : T) (o : List (P × Handler T A H)) : List H :=
  (o.filter fun e => e.2.type = type).map fun e => e.2.call

def Refers (s : EventSystem T A H P) (p : P) (h : Handler T A H) : Prop :=
  s.registrations p = some ⟨true, some h.address, some h.type⟩

/-- The handlers are those that exactly one registration refers to, and no registration refers to
anything else. -/
structure Exact (s : EventSystem T A H P) : Prop where
  owner : ∀ h ∈ s.handlers, ∃! p, s.Refers p h
  handler : ∀ p r, s.registrations p = some r → r.active = true → ∃ h ∈ s.handlers, s.Refers p h

structure Right (w : EventSystem T A H P × List (P × Handler T A H)) : Prop where
  exact : w.1.Exact
  fires : ∀ type, (w.1.fireEvent type).Perm (due type w.2)

def Careful (w : EventSystem T A H P × List (P × Handler T A H)) : Action T A H P → Prop
  | .moveAssign p q => p = q ∨ ∀ r, w.1.registrations p = some r → r.active = false
  | _ => True

variable {s : EventSystem T A H P} {o : List (P × Handler T A H)} {p q : P} {h g : Handler T A H}
  {r : EventRegistration T A} {w v : EventSystem T A H P × List (P × Handler T A H)}
  {a : Action T A H P}

section Places

variable {k : P}

section Updates

omit [DecidableEq T] [DecidableEq A]

lemma register_self : (s.registerHandler h p).registrations p = some ⟨true, some h.address, some h.type⟩ :=
  Function.update_self ..

lemma register_of_ne (hk : k ≠ p) : (s.registerHandler h p).registrations k = s.registrations k :=
  Function.update_of_ne hk ..

lemma move_self : (s.move p q r).registrations p = some r := Function.update_self ..

lemma move_source (hq : q ≠ p) : (s.move p q r).registrations q = some {} :=
  (Function.update_of_ne hq ..).trans (Function.update_self ..)

lemma move_of_ne (hp : k ≠ p) (hq : k ≠ q) : (s.move p q r).registrations k = s.registrations k :=
  (Function.update_of_ne hp ..).trans (Function.update_of_ne hq ..)

end Updates

lemma deregister_eq (hr : r.active = true) : s.deregister p r =
    { s.deregisterHandler r with
      registrations := Function.update s.registrations p (some { r with handle := none }) } := if_pos hr

lemma deregister_self (hr : r.active = true) :
    (s.deregister p r).registrations p = some { r with handle := none } := by
  rw [deregister_eq hr]
  exact Function.update_self ..

lemma deregister_of_ne (hk : k ≠ p) : (s.deregister p r).registrations k = s.registrations k := by
  rw [deregister]
  split_ifs
  · exact Function.update_of_ne hk ..
  · rfl

lemma destroy_self : (s.destroy p r).registrations p = none := Function.update_self ..

lemma destroy_of_ne (hk : k ≠ p) : (s.destroy p r).registrations k = s.registrations k :=
  (Function.update_of_ne hk ..).trans (deregister_of_ne hk)

end Places

/-- Every handler has one owner, whose registration refers to it; others own nothing. -/
structure Inv (w : EventSystem T A H P × List (P × Handler T A H)) : Prop where
  perm : w.1.handlers.Perm (w.2.map Prod.snd)
  keys : (w.2.map Prod.fst).Nodup
  addresses : (w.1.handlers.map Handler.address).Nodup
  own : ∀ p h, (p, h) ∈ w.2 → w.1.Refers p h
  active : ∀ p r, w.1.registrations p = some r → r.active = true → ∃ h, (p, h) ∈ w.2

lemma inv_initial : Inv ((machine T A H P).initial) where
  perm := List.Perm.refl _
  keys := List.nodup_nil
  addresses := List.nodup_nil
  own p h hmem := absurd hmem List.not_mem_nil
  active p r hr := by cases hr

namespace Inv

section Owners

omit [DecidableEq T] [DecidableEq A] [DecidableEq P]

lemma mem_iff (hinv : Inv (s, o)) : h ∈ s.handlers ↔ ∃ p, (p, h) ∈ o := by
  rw [hinv.perm.mem_iff, List.mem_map]
  constructor
  · rintro ⟨⟨p, g⟩, hmem, rfl⟩
    exact ⟨p, hmem⟩
  · rintro ⟨p, hmem⟩
    exact ⟨(p, h), hmem, rfl⟩

lemma eq_of_address (hinv : Inv (s, o)) (hh : h ∈ s.handlers) (hg : g ∈ s.handlers)
    (he : h.address = g.address) : h = g := List.inj_on_of_nodup_map hinv.addresses hh hg he

lemma mem_of_refers (hinv : Inv (s, o)) (hh : h ∈ s.handlers) (hr : s.Refers p h) : (p, h) ∈ o := by
  obtain ⟨g, hg⟩ := hinv.active p _ hr rfl
  have heq := hinv.own p g hg
  rw [Refers, hr] at heq
  simp only [Option.some.injEq, EventRegistration.mk.injEq] at heq
  rwa [hinv.eq_of_address hh (hinv.mem_iff.mpr ⟨p, hg⟩) heq.2.1]

lemma owner_unique (hinv : Inv (s, o)) (hp : (p, h) ∈ o) (hq : (q, h) ∈ o) : p = q := by
  have hnodup : (o.map Prod.snd).Nodup := hinv.perm.nodup_iff.mp (List.Nodup.of_map _ hinv.addresses)
  exact congrArg Prod.fst (List.inj_on_of_nodup_map hnodup hp hq rfl)

lemma handler_unique (hinv : Inv (s, o)) (hh : (p, h) ∈ o) (hg : (p, g) ∈ o) : h = g :=
  congrArg Prod.snd (List.inj_on_of_nodup_map hinv.keys hh hg rfl)

lemma not_owner (hinv : Inv (s, o)) (hp : ∀ r, s.registrations p = some r → r.active = false)
    (h : Handler T A H) : (p, h) ∉ o := fun hh => Bool.noConfusion (hp _ (hinv.own p h hh))

end Owners

omit [DecidableEq A] [DecidableEq P] in
lemma right (hinv : Inv w) : Right w := by
  obtain ⟨s, o⟩ := w
  refine ⟨⟨?_, ?_⟩, ?_⟩
  · intro h hh
    obtain ⟨p, hp⟩ := hinv.mem_iff.mp hh
    exact ⟨p, hinv.own p h hp, fun q hq => hinv.owner_unique (hinv.mem_of_refers hh hq) hp⟩
  · intro p r hr hactive
    obtain ⟨h, hp⟩ := hinv.active p r hr hactive
    exact ⟨h, hinv.mem_iff.mpr ⟨p, hp⟩, hinv.own p h hp⟩
  · intro type
    have hfilter := (hinv.perm.filter fun h => decide (h.type = type)).map Handler.call
    rwa [List.filter_map, List.map_map] at hfilter

section Moves

omit [DecidableEq T] [DecidableEq A]

lemma filter_owners (hinv : Inv (s, o)) (hp : ∀ r, s.registrations p = some r → r.active = false) :
    (o.filter fun e => e.1 ≠ p) = o := by
  refine List.filter_eq_self.mpr ?_
  rintro ⟨q, h⟩ hh
  exact decide_eq_true fun he => hinv.not_owner hp h (he ▸ hh)

lemma registerHandler (hinv : Inv (s, o)) (hfresh : h.address ∉ s.handlers.map Handler.address)
    (hp : s.registrations p = none) : Inv (s.registerHandler h p, (p, h) :: o) := by
  have hnot := hinv.not_owner fun r hr => by cases hp.symm.trans hr
  constructor
  · exact (List.perm_append_singleton h s.handlers).trans (hinv.perm.cons h)
  · refine List.nodup_cons.mpr ⟨?_, hinv.keys⟩
    intro hmem
    obtain ⟨⟨p', g⟩, hg, rfl⟩ := List.mem_map.mp hmem
    exact hnot g hg
  · rw [EventSystem.registerHandler, List.map_append]
    refine List.nodup_append.mpr ⟨hinv.addresses, List.nodup_singleton _, ?_⟩
    rintro x hx y hy rfl
    obtain rfl := List.mem_singleton.mp hy
    exact hfresh hx
  · intro q g hg
    rcases List.mem_cons.mp hg with he | ho
    · cases he
      exact register_self
    · have hne : q ≠ p := by
        rintro rfl
        exact hnot g ho
      exact (register_of_ne hne).trans (hinv.own q g ho)
  · intro q r hr hactive
    by_cases hq : q = p
    · exact ⟨h, hq ▸ List.mem_cons_self⟩
    · obtain ⟨g, hg⟩ := hinv.active q r ((register_of_ne hq).symm.trans hr) hactive
      exact ⟨g, List.mem_cons_of_mem _ hg⟩

lemma move (hinv : Inv (s, o)) (hne : p ≠ q) (hq : s.registrations q = some r)
    (hp : ∀ r, s.registrations p = some r → r.active = false) :
    Inv (s.move p q r, o.map fun e => if e.1 = q then (p, e.2) else e) := by
  have hnot := hinv.not_owner hp
  have hsnd : (o.map fun e => if e.1 = q then (p, e.2) else e).map Prod.snd = o.map Prod.snd := by
    rw [List.map_map]
    refine List.map_congr_left fun e _ => ?_
    dsimp only [Function.comp_apply]
    split_ifs <;> rfl
  have hfst : (o.map fun e => if e.1 = q then (p, e.2) else e).map Prod.fst =
      (o.map Prod.fst).map fun k => if k = q then p else k := by
    rw [List.map_map, List.map_map]
    refine List.map_congr_left fun e _ => ?_
    dsimp only [Function.comp_apply]
    split_ifs <;> rfl
  have hkey {k : P} (hk : k ∈ o.map Prod.fst) : k ≠ p := by
    obtain ⟨⟨k, g⟩, hg, rfl⟩ := List.mem_map.mp hk
    exact fun he => hnot g (he ▸ hg)
  constructor
  · rw [hsnd]
    exact hinv.perm
  · rw [hfst]
    refine List.Nodup.map_on ?_ hinv.keys
    intro k hk l hl he
    split_ifs at he with h₁ h₂ h₂
    · rw [h₁, h₂]
    · exact absurd he.symm (hkey hl)
    · exact absurd he (hkey hk)
    · exact he
  · exact hinv.addresses
  · intro k h hk
    obtain ⟨⟨l, g⟩, hg, he⟩ := List.mem_map.mp hk
    have hl := hinv.own l g hg
    split_ifs at he with hlq
    · cases he
      subst hlq
      rw [Refers, hq] at hl
      exact move_self.trans hl
    · cases he
      have hkp : k ≠ p := by
        rintro rfl
        exact hnot h hg
      exact (move_of_ne hkp hlq).trans hl
  · intro k r' hk hactive
    by_cases hkp : k = p
    · subst hkp
      obtain rfl := Option.some.inj (move_self.symm.trans hk)
      obtain ⟨h, hh⟩ := hinv.active q r hq hactive
      exact ⟨h, List.mem_map.mpr ⟨(q, h), hh, if_pos rfl⟩⟩
    · by_cases hkq : k = q
      · subst hkq
        obtain rfl := Option.some.inj ((move_source hkp).symm.trans hk)
        cases hactive
      · obtain ⟨h, hh⟩ := hinv.active k r' ((move_of_ne hkp hkq).symm.trans hk) hactive
        exact ⟨h, List.mem_map.mpr ⟨(k, h), hh, if_neg hkq⟩⟩

lemma perm_cons (hinv : Inv (s, o)) (hh : (p, h) ∈ o) :
    o.Perm ((p, h) :: o.filter fun e => e.1 ≠ p) := by
  have hnodup : o.Nodup := List.Nodup.of_map _ hinv.keys
  refine (List.perm_ext_iff_of_nodup hnodup (List.nodup_cons.mpr ⟨?_, hnodup.filter _⟩)).mpr ?_
  · simp
  · rintro ⟨q, g⟩
    rw [List.mem_cons, List.mem_filter]
    by_cases hq : q = p
    · subst hq
      simp only [ne_eq, not_true, decide_false, Bool.false_eq_true, and_false, or_false, Prod.mk.injEq,
        true_and]
      exact ⟨fun hg => hinv.handler_unique hg hh, fun he => he ▸ hh⟩
    · simp [hq]

end Moves

omit [DecidableEq P] in
lemma deregisterHandler (hinv : Inv (s, o)) (hh : (p, h) ∈ o) (hr : s.registrations p = some r) :
    s.handlers.Perm (h :: (s.deregisterHandler r).handlers) := by
  have hmem : h ∈ s.handlers := hinv.mem_iff.mpr ⟨p, hh⟩
  have hown := hinv.own p h hh
  rw [Refers, hr] at hown
  cases hown
  obtain ⟨g, xs, ys, -, hg, hs, herase⟩ :=
    List.exists_of_eraseP (p := fun g : Handler T A H => some h.type = some g.type ∧
      some h.address = some g.address) hmem (by simp)
  have hgh : g = h := by
    have haddress : h.address = g.address := by
      simp only [decide_eq_true_eq, Option.some.injEq] at hg
      exact hg.2
    refine (hinv.eq_of_address hmem ?_ haddress).symm
    rw [hs]
    simp
  subst hgh
  rw [EventSystem.deregisterHandler, herase]
  exact (List.Perm.of_eq hs).trans List.perm_middle

lemma deregister (hinv : Inv (s, o)) (hr : s.registrations p = some r) :
    Inv (s.deregister p r, o.filter fun e => e.1 ≠ p) := by
  by_cases hactive : r.active = true
  · obtain ⟨h, hh⟩ := hinv.active p r hr hactive
    have hhandlers : s.handlers.Perm (h :: (s.deregister p r).handlers) := by
      rw [deregister_eq hactive]
      exact hinv.deregisterHandler hh hr
    constructor
    · have ho := (hinv.perm_cons hh).map Prod.snd
      exact (hhandlers.symm.trans (hinv.perm.trans ho)).cons_inv
    · exact hinv.keys.sublist (List.filter_sublist.map _)
    · exact (List.nodup_cons.mp ((hhandlers.map _).nodup_iff.mp hinv.addresses)).2
    · intro q g hg
      obtain ⟨hg, hq⟩ := List.mem_filter.mp hg
      exact (deregister_of_ne (of_decide_eq_true hq)).trans (hinv.own q g hg)
    · intro q r' hq hactive'
      by_cases hqp : q = p
      · subst hqp
        obtain rfl := Option.some.inj ((deregister_self hactive).symm.trans hq)
        simp [EventRegistration.active] at hactive'
      · obtain ⟨g, hg⟩ := hinv.active q r' ((deregister_of_ne hqp).symm.trans hq) hactive'
        exact ⟨g, List.mem_filter.mpr ⟨hg, decide_eq_true hqp⟩⟩
  · have hfilter : (o.filter fun e => e.1 ≠ p) = o := by
      refine hinv.filter_owners fun r' hr' => ?_
      rw [Option.some.inj (hr'.symm.trans hr)]
      exact Bool.not_eq_true _ ▸ hactive
    rwa [hfilter, EventSystem.deregister, if_neg hactive]

lemma destroy (hinv : Inv (s, o)) (hr : s.registrations p = some r) :
    Inv (s.destroy p r, o.filter fun e => e.1 ≠ p) := by
  have hd := hinv.deregister hr
  refine ⟨hd.perm, hd.keys, hd.addresses, ?_, ?_⟩
  · intro q g hg
    have hq := of_decide_eq_true (List.mem_filter.mp hg).2
    exact (destroy_of_ne hq).trans (hinv.own q g (List.mem_filter.mp hg).1)
  · intro q r' hq hactive
    by_cases hqp : q = p
    · subst hqp
      cases destroy_self.symm.trans hq
    · have hq := ((deregister_of_ne (r := r) hqp).trans (destroy_of_ne hqp).symm).trans hq
      exact hd.active q r' hq hactive

end Inv

lemma inv_step (hinv : Inv w) (hc : Careful w a) (hs : (machine T A H P).step w a = some v) : Inv v := by
  obtain ⟨s, o⟩ := w
  obtain ⟨t, o'⟩ := v
  obtain ⟨ht, rfl⟩ : step s a = some t ∧ o' = owners o a := Machine.step_withHistory.mp hs
  cases a with
  | registerHandler h p =>
    simp only [step, Option.ite_none_left_eq_some, not_or, Bool.not_eq_true, Option.isSome_eq_false_iff,
      Option.isNone_iff_eq_none, Option.some.injEq] at ht
    obtain ⟨⟨hfresh, hp⟩, rfl⟩ := ht
    exact hinv.registerHandler hfresh hp
  | moveConstruct p q =>
    simp only [step, Option.ite_none_left_eq_some, Bool.not_eq_true, Option.isSome_eq_false_iff,
      Option.isNone_iff_eq_none, Option.map_eq_some_iff] at ht
    obtain ⟨hp, r, hq, rfl⟩ := ht
    refine hinv.move ?_ hq ?_
    · rintro rfl
      cases hp.symm.trans hq
    · intro r' hr
      cases hp.symm.trans hr
  | moveAssign p q =>
    simp only [step, Option.ite_none_left_eq_some, Option.map_eq_some_iff] at ht
    obtain ⟨-, r, hq, rfl⟩ := ht
    by_cases hpq : p = q
    · simpa only [owners, if_pos hpq] using hinv
    · have hp := hc.resolve_left hpq
      simp only [owners, if_neg hpq, hinv.filter_owners hp]
      exact hinv.move hpq hq hp
  | deregister p =>
    obtain ⟨r, hr, rfl⟩ := Option.map_eq_some_iff.mp ht
    exact hinv.deregister hr
  | destroy p =>
    obtain ⟨r, hr, rfl⟩ := Option.map_eq_some_iff.mp ht
    exact hinv.destroy hr

lemma careful_of_right (hinv : Inv w) (hs : (machine T A H P).step w a = some v) (hv : Right v) :
    Careful w a := by
  obtain ⟨s, o⟩ := w
  obtain ⟨t, o'⟩ := v
  obtain ⟨ht, rfl⟩ : step s a = some t ∧ o' = owners o a := Machine.step_withHistory.mp hs
  cases a with
  | moveAssign p q =>
    by_contra hc
    simp only [Careful, not_or, not_forall, Bool.not_eq_false] at hc
    obtain ⟨hpq, r, hr, hactive⟩ := hc
    simp only [step, Option.ite_none_left_eq_some, Option.map_eq_some_iff, if_neg hpq] at ht
    obtain ⟨-, r', hq, rfl⟩ := ht
    obtain ⟨h, hh⟩ := hinv.active p r hr hactive
    have hmem : h ∈ s.handlers := hinv.mem_iff.mpr ⟨p, hh⟩
    obtain ⟨k, hk, -⟩ := hv.exact.owner h hmem
    have hk : (s.move p q r').registrations k = some ⟨true, some h.address, some h.type⟩ := hk
    by_cases hkp : k = p
    · subst hkp
      obtain rfl := Option.some.inj (move_self.symm.trans hk)
      exact hpq (hinv.owner_unique hh (hinv.mem_of_refers hmem hq))
    · by_cases hkq : k = q
      · subst hkq
        cases (move_source hkp).symm.trans hk
      · have hsk : s.Refers k h := (move_of_ne hkp hkq).symm.trans hk
        exact hkp (hinv.owner_unique (hinv.mem_of_refers hmem hsk) hh)
  | registerHandler | moveConstruct | deregister | destroy => trivial

theorem right_iff_careful (as : List (Action T A H P)) :
    (machine T A H P).Always Right (machine T A H P).initial as ↔
      (machine T A H P).Along Careful (machine T A H P).initial as :=
  Machine.always_iff_along_of_kept (fun _ => Inv.right) (fun _ _ _ => inv_step)
    (fun _ _ _ => careful_of_right) inv_initial

def takenOver : List (Action ℕ ℕ ℕ ℕ) :=
  [.registerHandler ⟨0, 0, 1⟩ 0, .registerHandler ⟨0, 1, 2⟩ 1, .moveAssign 0 1]

theorem takenOver_fires : ∃ w, (machine ℕ ℕ ℕ ℕ).run (machine ℕ ℕ ℕ ℕ).initial takenOver = some w ∧
    w.1.fireEvent 0 = [1, 2] ∧ due 0 w.2 = [2] ∧ ¬Right w := by
  refine ⟨_, rfl, rfl, rfl, ?_⟩
  intro hright
  have hperm := hright.fires 0
  exact absurd hperm.length_eq (by decide)

end EventSystem

end Simple.Application
