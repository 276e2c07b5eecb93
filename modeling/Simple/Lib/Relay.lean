import Simple.Lib.Wires

/-! Nodes that pass on each other's messages. An address has one owner for good. A node that has
heard of an address delivers what is for it, or hands it to the owner; what is for another address
stays parked. -/

namespace Simple.Lib

variable {N A M : Type}

/-- `entered` and `delivered` are the history: what came from outside, and what reached an owner. -/
structure Relay (N A M : Type) where
  owner : A → Option N := fun _ => none
  known : N → A → Bool := fun _ _ => false
  parked : N → A → List M := fun _ _ => []
  wires : Wires N M := {}
  entered : List M := []
  delivered : List (N × M) := []

namespace Relay

variable [DecidableEq N] [DecidableEq A] (dest origin : M → A)

/-- What `n` does with a message for an address it knows. -/
def hand (n : N) (s : Relay N A M) (m : M) : Relay N A M :=
  if s.owner (dest m) = some n then { s with delivered := s.delivered ++ [(n, m)] }
  else
    match s.owner (dest m) with
    | none => s
    | some b => { s with wires := s.wires.post n b m }

def park (n : N) (s : Relay N A M) (m : M) : Relay N A M :=
  { s with parked := update₂ s.parked n (dest m) (s.parked n (dest m) ++ [m]) }

def dispatch (n : N) (s : Relay N A M) (m : M) : Relay N A M :=
  if s.known n (dest m) then s.hand dest n m else s.park dest n m

def enter (n : N) (s : Relay N A M) (m : M) : Relay N A M :=
  { s with entered := s.entered ++ [m] }.dispatch dest n m

def unpark (s : Relay N A M) (n : N) (a : A) : Relay N A M :=
  { s with known := update₂ s.known n a true, parked := update₂ s.parked n a [] }

def learn (n : N) (s : Relay N A M) (a : A) : Relay N A M :=
  (s.parked n a).foldl (hand dest n) (s.unpark n a)

def restart (s : Relay N A M) (n : N) : Relay N A M :=
  { s with
    known := Function.update s.known n fun _ => false
    parked := Function.update s.parked n fun _ => []
    wires := s.wires.fail n }

def select (f d : A) (l : List M) : List M := l.filter fun m => origin m = f ∧ dest m = d

/-- What has come from elsewhere to the owner of `d`, before it knows `d`. -/
def received (s : Relay N A M) (f d : A) : List M :=
  match s.owner d with
  | none => []
  | some b => if s.owner f = some b then [] else s.parked b d

def travelling (s : Relay N A M) (f d : A) : List M :=
  match s.owner f, s.owner d with
  | some a, some b => s.wires.carried a b
  | _, _ => []

def waiting (s : Relay N A M) (f d : A) : List M :=
  match s.owner f with
  | none => []
  | some a => s.parked a d

/-- What is underway from `f` to `d`, the oldest first. -/
def underway (s : Relay N A M) (f d : A) : List M :=
  select dest origin f d (s.received f d ++ s.travelling f d ++ s.waiting f d)

def arrived (s : Relay N A M) (f d : A) : List M :=
  select dest origin f d (s.delivered.map Prod.snd)

def pipe (s : Relay N A M) (f d : A) : List M :=
  s.arrived dest origin f d ++ s.underway dest origin f d

/-- Where messages are, apart from where they come from. -/
structure Routed (s : Relay N A M) : Prop where
  wires : s.wires.Inv
  known : ∀ n a, s.known n a = true → s.owner a ≠ none
  parked : ∀ n a, ∀ m ∈ s.parked n a, dest m = a
  learned : ∀ n a, s.known n a = true → s.parked n a = []
  carried : ∀ n b, ∀ m ∈ s.wires.carried n b, s.owner (dest m) = some b ∧ n ≠ b
  delivered : ∀ e ∈ s.delivered, s.owner (dest e.2) = some e.1

/-- `m` comes from an address of `n`, or from elsewhere to one. -/
def Heard (s : Relay N A M) (n : N) (m : M) : Prop :=
  s.owner (origin m) = some n ∨ s.owner (dest m) = some n ∧ s.owner (origin m) ≠ none

/-- Every message in the system comes from an owned address, and from its owner at first. -/
structure Spoken (s : Relay N A M) : Prop where
  parked : ∀ n a, ∀ m ∈ s.parked n a, s.Heard dest origin n m
  carried : ∀ n b, ∀ m ∈ s.wires.carried n b, s.owner (origin m) = some n

variable {dest origin} {s s' : Relay N A M} {n b : N} {a f d : A} {m : M} {l : ℕ}

omit [DecidableEq N] in
@[simp] lemma select_nil : select dest origin f d [] = [] := rfl

omit [DecidableEq N] in
@[simp] lemma select_append (l l' : List M) : select dest origin f d (l ++ l') =
    select dest origin f d l ++ select dest origin f d l' := List.filter_append ..

omit [DecidableEq N] in
lemma select_eq_nil {l : List M} (h : ∀ m ∈ l, origin m = f → dest m ≠ d) :
    select dest origin f d l = [] := by
  rw [select, List.filter_eq_nil_iff]
  intro m hm
  simpa using h m hm

omit [DecidableEq N] in
lemma select_sublist {l l' : List M} (h : l.Sublist l') :
    (select dest origin f d l).Sublist (select dest origin f d l') := h.filter _

omit [DecidableEq A] in
lemma Routed.post (h : s.Routed dest) {l : List M} (hl : ∀ m ∈ l, s.owner (dest m) = some b)
    (hne : n ≠ b) : Routed dest { s with wires := l.foldl (Wires.post n b) s.wires } := by
  have hp := h.wires.posts n b l
  refine ⟨hp.inv, h.known, h.parked, h.learned, ?_, h.delivered⟩
  intro n' b' m hm
  by_cases hnb : n' = n ∧ b' = b
  · obtain ⟨rfl, rfl⟩ := hnb
    obtain ⟨l', hl', -, hcarried⟩ := hp.here
    rw [hcarried] at hm
    rcases List.mem_append.mp hm with hm | hm
    · exact h.carried n' b' m hm
    · exact ⟨hl m (hl'.subset hm), hne⟩
  · rw [hp.away n' b' hnb] at hm
    exact h.carried n' b' m hm

omit [DecidableEq A] in
lemma foldl_hand (l : List M) (hl : ∀ m ∈ l, dest m = a) (ha : s.owner a = some b) :
    l.foldl (hand dest n) s =
      if b = n then { s with delivered := s.delivered ++ l.map fun m => (n, m) }
      else { s with wires := l.foldl (Wires.post n b) s.wires } := by
  induction l generalizing s with
  | nil => simp
  | cons m l ih =>
    have hm : s.owner (dest m) = some b := by rw [hl m (by simp), ha]
    have hl' : ∀ m ∈ l, dest m = a := fun m hm => hl m (List.mem_cons_of_mem _ hm)
    rw [List.foldl_cons, hand, hm, ih hl' _]
    · by_cases hb : b = n
      · simp [hb]
      · simp [hb]
    · split_ifs <;> exact ha

omit [DecidableEq A] in
lemma hand_owner : (s.hand dest n m).owner = s.owner := by
  simp only [hand]
  split_ifs
  · rfl
  · split <;> rfl

lemma learn_owner : (s.learn dest n a).owner = s.owner := by
  suffices hall : ∀ (l : List M) (s : Relay N A M), (l.foldl (hand dest n) s).owner = s.owner from
    hall _ _
  intro l
  induction l with
  | nil => exact fun _ => rfl
  | cons m l ih => exact fun s => (ih _).trans hand_owner

omit [DecidableEq A] in
lemma Routed.hands (h : s.Routed dest) {l : List M} (hl : ∀ m ∈ l, dest m = a)
    (ha : s.owner a ≠ none) : Routed dest (l.foldl (hand dest n) s) := by
  obtain ⟨b, hb⟩ := Option.ne_none_iff_exists'.mp ha
  rw [foldl_hand l hl hb]
  split_ifs with hbn
  · refine ⟨h.wires, h.known, h.parked, h.learned, h.carried, ?_⟩
    intro e he
    rcases List.mem_append.mp he with he | he
    · exact h.delivered e he
    · obtain ⟨m, hm, rfl⟩ := List.mem_map.mp he
      rw [← hbn, ← hb, hl m hm]
  · exact h.post (fun m hm => by rw [hl m hm, hb]) (Ne.symm hbn)

lemma Routed.park (h : s.Routed dest) (hn : s.known n (dest m) = false) :
    Routed dest (s.park dest n m) := by
  refine ⟨h.wires, h.known, ?_, ?_, h.carried, h.delivered⟩
  · intro n' a' m' hm'
    by_cases heq : n' = n ∧ a' = dest m
    · obtain ⟨rfl, rfl⟩ := heq
      simp only [Relay.park, update₂_self] at hm'
      rcases List.mem_append.mp hm' with hm' | hm'
      · exact h.parked _ _ m' hm'
      · rw [List.mem_singleton.mp hm']
    · simp only [Relay.park, update₂_of_ne _ _ heq] at hm'
      exact h.parked n' a' m' hm'
  · intro n' a' hk
    have heq : ¬(n' = n ∧ a' = dest m) := by
      rintro ⟨rfl, rfl⟩
      simp [Relay.park, hn] at hk
    simp only [Relay.park, update₂_of_ne _ _ heq]
    exact h.learned n' a' hk

lemma Routed.dispatch (h : s.Routed dest) (n : N) (m : M) : Routed dest (s.dispatch dest n m) := by
  rw [Relay.dispatch]
  split_ifs with hk
  · exact h.hands (l := [m]) (by simp) (h.known n _ hk)
  · exact h.park (by simpa using hk)

lemma Routed.enter (h : s.Routed dest) (n : N) (m : M) : Routed dest (s.enter dest n m) :=
  Routed.dispatch (s := { s with entered := s.entered ++ [m] })
    ⟨h.wires, h.known, h.parked, h.learned, h.carried, h.delivered⟩ n m

lemma Routed.unpark (h : s.Routed dest) (n : N) (ha : s.owner a ≠ none) :
    Routed dest (s.unpark n a) := by
  refine ⟨h.wires, ?_, ?_, ?_, h.carried, h.delivered⟩
  · intro n' a' hk
    by_cases heq : n' = n ∧ a' = a
    · rw [heq.2]
      exact ha
    · simp only [Relay.unpark, update₂_of_ne _ _ heq] at hk
      exact h.known n' a' hk
  · intro n' a' m hm
    by_cases heq : n' = n ∧ a' = a
    · simp [Relay.unpark, heq.1, heq.2] at hm
    · simp only [Relay.unpark, update₂_of_ne _ _ heq] at hm
      exact h.parked n' a' m hm
  · intro n' a' hk
    by_cases heq : n' = n ∧ a' = a
    · simp [Relay.unpark, heq.1, heq.2]
    · simp only [Relay.unpark, update₂_of_ne _ _ heq] at hk ⊢
      exact h.learned n' a' hk

lemma Routed.learn (h : s.Routed dest) (n : N) (ha : s.owner a ≠ none) :
    Routed dest (s.learn dest n a) :=
  (h.unpark n ha).hands (h.parked n a) ha

omit [DecidableEq A] in
lemma Routed.assign (h : s.Routed dest) {own : A → Option N}
    (hown : ∀ a n, s.owner a = some n → own a = some n) : Routed dest { s with owner := own } := by
  refine ⟨h.wires, ?_, h.parked, h.learned, ?_, ?_⟩
  · intro n a hk
    obtain ⟨b, hb⟩ := Option.ne_none_iff_exists'.mp (h.known n a hk)
    simp [hown a b hb]
  · exact fun n b m hm => ⟨hown _ _ (h.carried n b m hm).1, (h.carried n b m hm).2⟩
  · exact fun e he => hown _ _ (h.delivered e he)

omit [DecidableEq A] in
lemma Routed.wires_of (h : s.Routed dest) {w : Wires N M} (hw : w.Inv)
    (hsub : ∀ n b, ∀ m ∈ w.carried n b, m ∈ s.wires.carried n b) :
    Routed dest { s with wires := w } :=
  ⟨hw, h.known, h.parked, h.learned, fun n b m hm => h.carried n b m (hsub n b m hm), h.delivered⟩

omit [DecidableEq A] in
lemma Routed.restart (h : s.Routed dest) (n : N) : Routed dest (s.restart n) := by
  have hw := h.wires.fail n
  have hfail := h.wires_of hw.inv fun n' b' m hm => (hw.carried n' b').subset hm
  refine ⟨hw.inv, ?_, ?_, ?_, hfail.carried, h.delivered⟩
  · intro n' a hk
    by_cases hn : n' = n
    · simp [Relay.restart, hn] at hk
    · simp only [Relay.restart, Function.update_of_ne hn] at hk
      exact h.known n' a hk
  · intro n' a m hm
    by_cases hn : n' = n
    · simp [Relay.restart, hn] at hm
    · simp only [Relay.restart, Function.update_of_ne hn] at hm
      exact h.parked n' a m hm
  · intro n' a hk
    by_cases hn : n' = n
    · simp [Relay.restart, hn]
    · simp only [Relay.restart, Function.update_of_ne hn] at hk ⊢
      exact h.learned n' a hk

omit [DecidableEq A] in
lemma Spoken.wires_of (h : s.Spoken dest origin) {w : Wires N M}
    (hsub : ∀ n b, ∀ m ∈ w.carried n b, m ∈ s.wires.carried n b) :
    Spoken dest origin { s with wires := w } :=
  ⟨h.parked, fun n b m hm => h.carried n b m (hsub n b m hm)⟩

omit [DecidableEq A] in
lemma Spoken.hands (h : s.Spoken dest origin) (hr : s.Routed dest) {l : List M}
    (hl : ∀ m ∈ l, dest m = a) (ha : s.owner a ≠ none) (hheard : ∀ m ∈ l, s.Heard dest origin n m) :
    Spoken dest origin (l.foldl (hand dest n) s) := by
  obtain ⟨b, hb⟩ := Option.ne_none_iff_exists'.mp ha
  rw [foldl_hand l hl hb]
  split_ifs with hbn
  · exact ⟨h.parked, h.carried⟩
  · refine ⟨h.parked, ?_⟩
    have hp := hr.wires.posts n b l
    intro n' b' m hm
    by_cases hnb : n' = n ∧ b' = b
    · obtain ⟨rfl, rfl⟩ := hnb
      obtain ⟨l', hl', -, hcarried⟩ := hp.here
      rw [hcarried] at hm
      rcases List.mem_append.mp hm with hm | hm
      · exact h.carried n' b' m hm
      · have hmem := hl'.subset hm
        rcases hheard m hmem with hfrom | ⟨hto, -⟩
        · exact hfrom
        · rw [hl m hmem, hb] at hto
          exact absurd (Option.some.inj hto) hbn
    · rw [hp.away n' b' hnb] at hm
      exact h.carried n' b' m hm

lemma Spoken.dispatch (h : s.Spoken dest origin) (hr : s.Routed dest)
    (hm : s.Heard dest origin n m) : Spoken dest origin (s.dispatch dest n m) := by
  rw [Relay.dispatch]
  split_ifs with hk
  · exact h.hands hr (l := [m]) (by simp) (hr.known n _ hk) (by simpa using hm)
  · refine ⟨?_, h.carried⟩
    intro n' a' m' hm'
    by_cases heq : n' = n ∧ a' = dest m
    · obtain ⟨rfl, rfl⟩ := heq
      simp only [Relay.park, update₂_self] at hm'
      rcases List.mem_append.mp hm' with hm' | hm'
      · exact h.parked _ _ m' hm'
      · rw [List.mem_singleton.mp hm']
        exact hm
    · simp only [Relay.park, update₂_of_ne _ _ heq] at hm'
      exact h.parked n' a' m' hm'

lemma Spoken.unpark (h : s.Spoken dest origin) (n : N) (a : A) :
    Spoken dest origin (s.unpark n a) := by
  refine ⟨?_, h.carried⟩
  intro n' a' m hm
  by_cases heq : n' = n ∧ a' = a
  · simp [Relay.unpark, heq.1, heq.2] at hm
  · simp only [Relay.unpark, update₂_of_ne _ _ heq] at hm
    exact h.parked n' a' m hm

lemma Spoken.learn (h : s.Spoken dest origin) (hr : s.Routed dest) (n : N) (ha : s.owner a ≠ none) :
    Spoken dest origin (s.learn dest n a) :=
  (h.unpark n a).hands (hr.unpark n ha) (hr.parked n a) ha (h.parked n a)

omit [DecidableEq A] in
lemma Spoken.restart (h : s.Spoken dest origin) (hr : s.Routed dest) (n : N) :
    Spoken dest origin (s.restart n) := by
  have hfail := h.wires_of fun n' b' m hm => ((hr.wires.fail n).carried n' b').subset hm
  refine ⟨?_, hfail.carried⟩
  intro n' a m hm
  by_cases hn : n' = n
  · simp [Relay.restart, hn] at hm
  · simp only [Relay.restart, Function.update_of_ne hn] at hm
    exact h.parked n' a m hm

omit [DecidableEq A] in
lemma Spoken.assign (h : s.Spoken dest origin) {own : A → Option N}
    (hown : ∀ a n, s.owner a = some n → own a = some n) :
    Spoken dest origin { s with owner := own } := by
  refine ⟨?_, fun n b m hm => hown _ _ (h.carried n b m hm)⟩
  intro n a m hm
  rcases h.parked n a m hm with hfrom | ⟨hto, hsome⟩
  · exact Or.inl (hown _ _ hfrom)
  · obtain ⟨x, hx⟩ := Option.ne_none_iff_exists'.mp hsome
    exact Or.inr ⟨hown _ _ hto, by simp [hown _ _ hx]⟩

structure All (P : M → Prop) (s : Relay N A M) : Prop where
  parked : ∀ n a, ∀ m ∈ s.parked n a, P m
  carried : ∀ n b, ∀ m ∈ s.wires.carried n b, P m

variable {P : M → Prop}

omit [DecidableEq A] in
lemma All.wires_of (h : s.All P) {w : Wires N M}
    (hsub : ∀ n b, ∀ m ∈ w.carried n b, m ∈ s.wires.carried n b) :
    All P { s with wires := w } :=
  ⟨h.parked, fun n b m hm => h.carried n b m (hsub n b m hm)⟩

omit [DecidableEq A] in
lemma All.hand (h : s.All P) (hw : s.wires.Inv) (hm : P m) : All P (s.hand dest n m) := by
  rw [Relay.hand]
  split_ifs
  · exact ⟨h.parked, h.carried⟩
  · cases s.owner (dest m) with
    | none => exact h
    | some b =>
      refine ⟨h.parked, ?_⟩
      obtain ⟨-, -, ⟨l', hsub, -, hhere⟩, haway⟩ := hw.post n b m
      intro n' b' x hx
      by_cases hnb : n' = n ∧ b' = b
      · obtain ⟨rfl, rfl⟩ := hnb
        rw [hhere] at hx
        rcases List.mem_append.mp hx with hx | hx
        · exact h.carried n' b' x hx
        · rw [List.mem_singleton.mp (hsub.subset hx)]
          exact hm
      · rw [haway n' b' hnb] at hx
        exact h.carried n' b' x hx

lemma All.dispatch (h : s.All P) (hw : s.wires.Inv) (hm : P m) : All P (s.dispatch dest n m) := by
  rw [Relay.dispatch]
  split_ifs
  · exact h.hand hw hm
  · refine ⟨?_, h.carried⟩
    intro n' a' x hx
    by_cases heq : n' = n ∧ a' = dest m
    · obtain ⟨rfl, rfl⟩ := heq
      simp only [Relay.park, update₂_self] at hx
      rcases List.mem_append.mp hx with hx | hx
      · exact h.parked _ _ x hx
      · rw [List.mem_singleton.mp hx]
        exact hm
    · simp only [Relay.park, update₂_of_ne _ _ heq] at hx
      exact h.parked n' a' x hx

lemma All.learn (h : s.All P) (hr : s.Routed dest) (ha : s.owner a ≠ none) :
    All P (s.learn dest n a) := by
  have hunpark : All P (s.unpark n a) := by
    refine ⟨?_, h.carried⟩
    intro n' a' m hm
    by_cases heq : n' = n ∧ a' = a
    · simp [unpark, heq.1, heq.2] at hm
    · simp only [unpark, update₂_of_ne _ _ heq] at hm
      exact h.parked n' a' m hm
  suffices hall : ∀ (l : List M) (s : Relay N A M), (∀ m ∈ l, P m) → (∀ m ∈ l, dest m = a) →
      s.owner a ≠ none → s.Routed dest → s.All P → All P (l.foldl (Relay.hand dest n) s) from
    hall _ _ (h.parked n a) (hr.parked n a) ha (hr.unpark n ha) hunpark
  intro l
  induction l with
  | nil => exact fun s _ _ _ _ h => h
  | cons m l ih =>
    intro s hl hd ha hr h
    have hr' := hr.hands (l := [m]) (n := n) (a := a) (by simpa using hd m (by simp)) ha
    have hown : (s.hand dest n m).owner = s.owner := by
      simp only [Relay.hand]
      split_ifs
      · rfl
      · split <;> rfl
    exact ih _ (fun x hx => hl x (by simp [hx])) (fun x hx => hd x (by simp [hx]))
      (hown.symm ▸ ha) hr' (h.hand hr.wires (hl m (by simp)))

omit [DecidableEq A] in
lemma All.restart (h : s.All P) (hr : s.Routed dest) (n : N) : All P (s.restart n) := by
  have hfail := h.wires_of fun n' b' m hm => ((hr.wires.fail n).carried n' b').subset hm
  refine ⟨?_, hfail.carried⟩
  intro n' a m hm
  by_cases hn : n' = n
  · simp [Relay.restart, hn] at hm
  · simp only [Relay.restart, Function.update_of_ne hn] at hm
    exact h.parked n' a m hm

end Relay

end Simple.Lib
