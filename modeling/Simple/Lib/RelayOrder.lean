import Simple.Lib.Relay

/-! Nothing in a relay is made up or doubled, and what one address says to another stays in order
while lines are read from the oldest on. -/

namespace Simple.Lib

namespace Relay

variable {N A M : Type} [DecidableEq N] [DecidableEq A] {dest origin : M → A}
  {s s' : Relay N A M} {n b : N} {a f d : A} {m : M} {l : ℕ} {new new' : List M}

omit [DecidableEq N] in
lemma select_of_ne (h : ¬(origin m = f ∧ dest m = d)) : select dest origin f d [m] = [] :=
  select_eq_nil (by simpa using h)

omit [DecidableEq N] in
lemma select_self : select dest origin (origin m) (dest m) [m] = [m] := by simp [select]

lemma pipe_eq : s.pipe dest origin f d = s.arrived dest origin f d ++
    (select dest origin f d (s.received f d) ++ (select dest origin f d (s.travelling f d) ++
      select dest origin f d (s.waiting f d))) := by
  simp [pipe, underway]

/-- What happens to the messages from `f` to `d` in a step that lets `new` in. -/
structure Moves (dest origin : M → A) (fair lossless : Prop) (new : List M) (s s' : Relay N A M) :
    Prop where
  routed : s'.Routed dest
  spoken : s'.Spoken dest origin
  entered : s'.entered = s.entered ++ new
  intact : lossless → s.wires.Intact → s'.wires.Intact
  once : ∀ f d, (s'.pipe dest origin f d).Subperm
    (s.pipe dest origin f d ++ select dest origin f d new)
  ordered : fair → ∀ f d, (s'.pipe dest origin f d).Sublist
    (s.pipe dest origin f d ++ select dest origin f d new)
  kept : lossless → s.wires.Intact → ∀ f d, (s'.pipe dest origin f d).Perm
    (s.pipe dest origin f d ++ select dest origin f d new)

variable {fair lossless : Prop}

lemma Moves.refl (hr : s.Routed dest) (hs : s.Spoken dest origin) :
    Moves dest origin fair lossless [] s s := by
  refine ⟨hr, hs, (List.append_nil _).symm, fun _ => id, ?_, ?_, ?_⟩
  · intro f d
    rw [select_nil, List.append_nil]
  · intro _ f d
    rw [select_nil, List.append_nil]
  · intro _ _ f d
    rw [select_nil, List.append_nil]

lemma Moves.trans {s'' : Relay N A M} (h : Moves dest origin fair lossless new s s')
    (h' : Moves dest origin fair lossless new' s' s'') :
    Moves dest origin fair lossless (new ++ new') s s'' := by
  refine ⟨h'.routed, h'.spoken, ?_, fun hl hi => h'.intact hl (h.intact hl hi), ?_, ?_, ?_⟩
  · rw [h'.entered, h.entered, List.append_assoc]
  · intro f d
    rw [select_append, ← List.append_assoc]
    exact (h'.once f d).trans ((List.subperm_append_right _).mpr (h.once f d))
  · intro hf f d
    rw [select_append, ← List.append_assoc]
    exact (h'.ordered hf f d).trans ((h.ordered hf f d).append_right _)
  · intro hl hi f d
    rw [select_append, ← List.append_assoc]
    exact (h'.kept hl (h.intact hl hi) f d).trans ((h.kept hl hi f d).append_right _)

lemma Moves.mono {fair' lossless' : Prop} (h : Moves dest origin fair lossless new s s')
    (hf : fair' → fair) (hl : lossless' → lossless) :
    Moves dest origin fair' lossless' new s s' :=
  ⟨h.routed, h.spoken, h.entered, fun hl' => h.intact (hl hl'), h.once, fun hf' => h.ordered (hf hf'),
    fun hl' => h.kept (hl hl')⟩

lemma Moves.of_sublist (hr : s'.Routed dest) (hs : s'.Spoken dest origin)
    (hentered : s'.entered = s.entered ++ new)
    (hintact : lossless → s.wires.Intact → s'.wires.Intact)
    (hsub : ∀ f d, (s'.pipe dest origin f d).Sublist
      (s.pipe dest origin f d ++ select dest origin f d new))
    (heq : lossless → s.wires.Intact → ∀ f d, s'.pipe dest origin f d =
      s.pipe dest origin f d ++ select dest origin f d new) :
    Moves dest origin fair lossless new s s' := by
  refine ⟨hr, hs, hentered, hintact, fun f d => (hsub f d).subperm, fun _ => hsub, ?_⟩
  intro hl hi f d
  rw [heq hl hi f d]

omit [DecidableEq A] in
lemma travelling_some {x y : N} (hf : s.owner f = some x) (hd : s.owner d = some y) :
    s.travelling f d = s.wires.carried x y := by
  simp only [travelling, hf, hd]

lemma pipe_wires {w : Wires N M} (hsub : ∀ n b, (w.carried n b).Sublist (s.wires.carried n b)) :
    (pipe dest origin { s with wires := w } f d).Sublist (s.pipe dest origin f d) := by
  rw [pipe_eq, pipe_eq]
  refine (List.Sublist.refl _).append ((List.Sublist.refl _).append (List.Sublist.append ?_
    (List.Sublist.refl _)))
  apply select_sublist
  cases hf : s.owner f with
  | none => simp [travelling, hf]
  | some x =>
    cases hd : s.owner d with
    | none => simp [travelling, hf, hd]
    | some y =>
      rw [travelling_some hf hd, travelling_some (s := { s with wires := w }) hf hd]
      exact hsub x y

lemma pipe_same {w : Wires N M} (h : Wires.Same s.wires w) :
    pipe dest origin { s with wires := w } f d = s.pipe dest origin f d := by
  have htravelling : travelling { s with wires := w } f d = s.travelling f d := by
    simp only [travelling, h.carried]
  rw [pipe_eq, pipe_eq, htravelling]
  rfl

lemma Moves.same {w : Wires N M} (hr : s.Routed dest) (hs : s.Spoken dest origin)
    (h : Wires.Same s.wires w) : Moves dest origin fair lossless [] s { s with wires := w } := by
  have hmem : ∀ n b, ∀ m ∈ w.carried n b, m ∈ s.wires.carried n b :=
    fun n b m hm => h.carried n b ▸ hm
  refine .of_sublist (hr.wires_of h.inv hmem) (hs.wires_of hmem) (List.append_nil _).symm
    (fun _ => h.intact) ?_ ?_
  · intro f d
    rw [pipe_same h, select_nil, List.append_nil]
  · intro _ _ f d
    rw [pipe_same h, select_nil, List.append_nil]

lemma Moves.thinned {w : Wires N M} (hr : s.Routed dest) (hs : s.Spoken dest origin)
    (h : Wires.Thinned s.wires w) : Moves dest origin fair False [] s { s with wires := w } := by
  have hmem : ∀ n b, ∀ m ∈ w.carried n b, m ∈ s.wires.carried n b :=
    fun n b m hm => (h.carried n b).subset hm
  refine .of_sublist (hr.wires_of h.inv hmem) (hs.wires_of hmem) (List.append_nil _).symm
    nofun ?_ nofun
  intro f d
  rw [select_nil, List.append_nil]
  exact pipe_wires h.carried

omit [DecidableEq A] in
lemma restart_owner (n : N) : (s.restart n).owner = s.owner := rfl

lemma Moves.restart (hr : s.Routed dest) (hs : s.Spoken dest origin) (n : N) :
    Moves dest origin fair False [] s (s.restart n) := by
  refine .of_sublist (hr.restart n) (hs.restart hr n) (List.append_nil _).symm nofun ?_ nofun
  intro f d
  rw [select_nil, List.append_nil]
  have hparked : ∀ x, ((s.restart n).parked x d).Sublist (s.parked x d) := by
    intro x
    by_cases hx : x = n
    · simp [Relay.restart, hx]
    · simp only [Relay.restart, Function.update_of_ne hx]
      exact List.Sublist.refl _
  have hlines : (pipe dest origin { s with wires := s.wires.fail n } f d).Sublist
      (s.pipe dest origin f d) := pipe_wires (hr.wires.fail n).carried
  refine List.Sublist.trans ?_ hlines
  rw [pipe_eq, pipe_eq]
  refine (List.Sublist.refl _).append (List.Sublist.append ?_ ((List.Sublist.refl _).append ?_))
  · apply select_sublist
    rw [received, received, restart_owner]
    cases hd : s.owner d with
    | none => exact List.Sublist.refl _
    | some y =>
      dsimp only
      by_cases hf : s.owner f = some y
      · rw [if_pos hf, if_pos hf]
      · rw [if_neg hf, if_neg hf]
        exact hparked y
  · apply select_sublist
    rw [waiting, waiting, restart_owner]
    cases hf : s.owner f with
    | none => exact List.Sublist.refl _
    | some x => exact hparked x

lemma select_parked_eq_nil (hs : s.Spoken dest origin) (hf : s.owner f ≠ some n)
    (hd : s.owner d = some n → s.owner f = none) : select dest origin f d (s.parked n d) = [] := by
  apply select_eq_nil
  rintro m hm rfl rfl
  rcases hs.parked n _ m hm with hfrom | ⟨hto, hsome⟩
  · exact hf hfrom
  · exact hsome (hd hto)

lemma select_carried_eq_nil (hr : s.Routed dest) (hs : s.Spoken dest origin)
    (h : s.owner f ≠ some n ∨ s.owner d ≠ some b) :
    select dest origin f d (s.wires.carried n b) = [] := by
  apply select_eq_nil
  rintro m hm rfl rfl
  rcases h with hf | hd
  · exact hf (hs.carried n b m hm)
  · exact hd (hr.carried n b m hm).1

lemma Moves.assign (hr : s.Routed dest) (hs : s.Spoken dest origin) {own : A → Option N}
    (hown : ∀ a n, s.owner a = some n → own a = some n) :
    Moves dest origin fair lossless [] s { s with owner := own } := by
  have hpipe : ∀ f d, pipe dest origin { s with owner := own } f d = s.pipe dest origin f d := by
    intro f d
    have hreceived : select dest origin f d (received { s with owner := own } f d) =
        select dest origin f d (s.received f d) := by
      have hnone : ∀ y, s.owner f ≠ some y → (s.owner d = some y → s.owner f = none) →
          select dest origin f d (if own f = some y then [] else s.parked y d) = [] := by
        intro y hf hd
        split_ifs
        · rfl
        · exact select_parked_eq_nil hs hf hd
      simp only [received]
      cases hd : s.owner d with
      | none =>
        cases hd' : own d with
        | none => rfl
        | some y =>
          dsimp only
          by_cases hf : s.owner f = some y
          · rw [if_pos (hown f y hf)]
          · rw [hnone y hf (fun h => by rw [h] at hd; cases hd), select_nil]
      | some y =>
        rw [hown d y hd]
        dsimp only
        cases hf : s.owner f with
        | none =>
          rw [hnone y (by simp [hf]) (fun _ => hf), if_neg (by simp),
            select_parked_eq_nil hs (by simp [hf]) (fun _ => hf)]
        | some x => rw [hown f x hf]
    have htravelling : select dest origin f d (travelling { s with owner := own } f d) =
        select dest origin f d (s.travelling f d) := by
      by_cases hboth : ∃ x y, s.owner f = some x ∧ s.owner d = some y
      · obtain ⟨x, y, hf, hd⟩ := hboth
        rw [travelling_some hf hd, travelling_some (s := { s with owner := own }) (hown f x hf)
          (hown d y hd)]
      · have hnil : s.travelling f d = [] := by
          cases hf : s.owner f <;> cases hd : s.owner d <;> simp [travelling, hf, hd]
          exact absurd ⟨_, _, hf, hd⟩ hboth
        rw [hnil, select_nil]
        simp only [travelling]
        split
        · next x y _ _ =>
          apply select_carried_eq_nil hr hs
          by_contra! h
          exact hboth ⟨x, y, h⟩
        · rfl
    have hwaiting : select dest origin f d (waiting { s with owner := own } f d) =
        select dest origin f d (s.waiting f d) := by
      simp only [waiting]
      cases hf : s.owner f with
      | none =>
        cases own f with
        | none => rfl
        | some x => exact select_parked_eq_nil hs (by simp [hf]) (fun _ => hf)
      | some x => rw [hown f x hf]
    rw [pipe_eq, pipe_eq, hreceived, htravelling, hwaiting]
    rfl
  refine .of_sublist (hr.assign hown) (hs.assign hown) (List.append_nil _).symm (fun _ => id) ?_ ?_
  · intro f d
    rw [hpipe, select_nil, List.append_nil]
  · intro _ _ f d
    rw [hpipe, select_nil, List.append_nil]

omit [DecidableEq A] in
lemma travelling_posts (hw : s.wires.Inv) (n b : N) (l : List M) :
    ∃ l', l'.Sublist l ∧ (s.wires.Intact → l' = l) ∧ ∀ f d,
      travelling { s with wires := l.foldl (Wires.post n b) s.wires } f d =
        s.travelling f d ++ if s.owner f = some n ∧ s.owner d = some b then l' else [] := by
  have hp := hw.posts n b l
  obtain ⟨l', hsub, hall, hcarried⟩ := hp.here
  refine ⟨l', hsub, hall, ?_⟩
  intro f d
  cases hf : s.owner f with
  | none => simp [travelling, hf]
  | some x =>
    cases hd : s.owner d with
    | none => simp [travelling, hf, hd]
    | some y =>
      rw [travelling_some (s := { s with wires := l.foldl (Wires.post n b) s.wires }) hf hd,
        travelling_some hf hd]
      by_cases hxy : x = n ∧ y = b
      · obtain ⟨rfl, rfl⟩ := hxy
        rw [hcarried, if_pos ⟨rfl, rfl⟩]
      · rw [hp.away x y hxy, if_neg (by simpa using hxy), List.append_nil]

lemma pipe_learn (hr : s.Routed dest) {b : N} (ha : s.owner a = some b) (f d : A) :
    (pipe dest origin (s.learn dest n a) f d).Sublist (s.pipe dest origin f d) ∧
      (s.wires.Intact → pipe dest origin (s.learn dest n a) f d = s.pipe dest origin f d) := by
  have hdest := hr.parked n a
  have hother : d ≠ a → ∀ l : List M, l.Sublist (s.parked n a) → select dest origin f d l = [] :=
    fun hda l hl => select_eq_nil fun m hm _ hd => hda (hd.symm.trans (hdest m (hl.subset hm)))
  have hparked : ∀ y, ¬(y = n ∧ d = a) → (s.unpark n a).parked y d = s.parked y d :=
    fun y h => update₂_of_ne _ _ h
  have hempty : (s.unpark n a).parked n a = [] := update₂_self ..
  rw [Relay.learn, foldl_hand _ hdest (s := s.unpark n a) ha]
  by_cases hbn : b = n
  · subst hbn
    rw [if_pos rfl]
    have heq : pipe dest origin { s.unpark b a with
          delivered := (s.unpark b a).delivered ++ (s.parked b a).map fun m => (b, m) } f d =
        s.pipe dest origin f d := by
      have harrived : arrived dest origin { s.unpark b a with
            delivered := (s.unpark b a).delivered ++ (s.parked b a).map fun m => (b, m) } f d =
          s.arrived dest origin f d ++ select dest origin f d (s.parked b a) := by
        simp [arrived, unpark, Function.comp_def]
      rw [pipe_eq, pipe_eq, harrived]
      simp only [received, travelling, waiting]
      by_cases hda : d = a
      · subst hda
        have hown : (s.unpark b d).owner = s.owner := rfl
        have hwires : (s.unpark b d).wires = s.wires := rfl
        simp only [hown, hwires, ha]
        cases hf : s.owner f with
        | none => simp [hempty]
        | some x =>
          by_cases hx : x = b
          · subst hx
            have hself : s.wires.carried x x = [] :=
              List.eq_nil_iff_forall_not_mem.mpr fun m hm => (hr.carried x x m hm).2 rfl
            simp [hempty, hself]
          · have hne : some x ≠ some b := fun h => hx (Option.some.inj h)
            simp [hempty, hx, hparked x (fun h => hx h.1)]
      · rw [hother hda _ (List.Sublist.refl _)]
        simp [unpark, update₂, hda]
    exact ⟨heq ▸ List.Sublist.refl _, fun _ => heq⟩
  · rw [if_neg hbn]
    obtain ⟨l', hsub, hall, htravelling⟩ :=
      travelling_posts (s := s.unpark n a) hr.wires n b (s.parked n a)
    have hold : travelling (s.unpark n a) f d = s.travelling f d := rfl
    have hreceived : received (s.unpark n a) f d = s.received f d := by
      have hown : (s.unpark n a).owner = s.owner := rfl
      simp only [received, hown]
      cases hd : s.owner d with
      | none => rfl
      | some y =>
        have hy : ¬(y = n ∧ d = a) := by
          rintro ⟨rfl, rfl⟩
          exact hbn (Option.some.inj (ha.symm.trans hd))
        simp only [hparked y hy]
    have hpipe : pipe dest origin { s.unpark n a with
          wires := (s.parked n a).foldl (Wires.post n b) (s.unpark n a).wires } f d =
        s.arrived dest origin f d ++ (select dest origin f d (s.received f d) ++
          (select dest origin f d (s.travelling f d ++
              if s.owner f = some n ∧ s.owner d = some b then l' else []) ++
            select dest origin f d ((s.unpark n a).waiting f d))) := by
      rw [pipe_eq, htravelling, hold, ← hreceived]
      rfl
    have hwaiting : ¬(s.owner f = some n ∧ d = a) → (s.unpark n a).waiting f d = s.waiting f d := by
      intro h
      have hown : (s.unpark n a).owner = s.owner := rfl
      simp only [waiting, hown]
      cases hf : s.owner f with
      | none => rfl
      | some x =>
        apply hparked
        rintro ⟨rfl, rfl⟩
        exact h ⟨hf, rfl⟩
    by_cases hfd : s.owner f = some n ∧ d = a
    · obtain ⟨hf, rfl⟩ := hfd
      have hemptied : (s.unpark n d).waiting f d = [] := by
        have hown : (s.unpark n d).owner = s.owner := rfl
        simp only [waiting, hown, hf, hempty]
      have hwas : s.waiting f d = s.parked n d := by simp only [waiting, hf]
      rw [hpipe, pipe_eq, hemptied, hwas, if_pos ⟨hf, ha⟩, select_append, select_nil, List.append_nil]
      refine ⟨?_, fun hi => by rw [hall hi]⟩
      refine (List.Sublist.refl _).append ((List.Sublist.refl _).append ((List.Sublist.refl _).append ?_))
      exact select_sublist hsub
    · have hnone : select dest origin f d
          (if s.owner f = some n ∧ s.owner d = some b then l' else []) = [] := by
        split_ifs with h
        · exact hother (fun hda => hfd ⟨h.1, hda⟩) l' hsub
        · rfl
      have heq := hpipe
      rw [select_append, hnone, List.append_nil, hwaiting hfd, ← pipe_eq] at heq
      exact ⟨heq ▸ List.Sublist.refl _, fun _ => heq⟩

lemma Moves.learn (hr : s.Routed dest) (hs : s.Spoken dest origin) (n : N) (ha : s.owner a ≠ none) :
    Moves dest origin fair lossless [] s (s.learn dest n a) := by
  obtain ⟨b, hb⟩ := Option.ne_none_iff_exists'.mp ha
  have hlearn : s.learn dest n a = if b = n then
        { s.unpark n a with delivered := s.delivered ++ (s.parked n a).map fun m => (n, m) }
      else { s.unpark n a with wires := (s.parked n a).foldl (Wires.post n b) s.wires } :=
    foldl_hand (s := s.unpark n a) _ (hr.parked n a) hb
  refine .of_sublist (hr.learn n ha) (hs.learn hr n ha) ?_ ?_ ?_ ?_
  · rw [hlearn, List.append_nil]
    split_ifs <;> rfl
  · intro _ hi
    rw [hlearn]
    split_ifs
    · exact hi
    · exact (hr.wires.posts n b _).intact hi
  · intro f d
    rw [select_nil, List.append_nil]
    exact (pipe_learn hr hb f d).1
  · intro _ hi f d
    rw [select_nil, List.append_nil]
    exact (pipe_learn hr hb f d).2 hi

lemma dispatch_known (hk : s.known n (dest m) = true) {b : N} (hb : s.owner (dest m) = some b) :
    s.dispatch dest n m = if b = n then { s with delivered := s.delivered ++ [(n, m)] }
      else { s with wires := [m].foldl (Wires.post n b) s.wires } := by
  rw [dispatch, if_pos hk]
  exact foldl_hand (s := s) [m] (by simp) hb

lemma dispatch_unknown (hk : ¬ s.known n (dest m) = true) :
    s.dispatch dest n m = s.park dest n m := if_neg hk

omit [DecidableEq N] in
lemma arrived_delivered : arrived dest origin { s with delivered := s.delivered ++ [(n, m)] } f d =
    s.arrived dest origin f d ++ select dest origin f d [m] := by
  simp [arrived]

lemma select_parked (h : ¬(origin m = f ∧ dest m = d)) (y : N) :
    select dest origin f d ((s.park dest n m).parked y d) =
      select dest origin f d (s.parked y d) := by
  by_cases hy : y = n ∧ d = dest m
  · obtain ⟨rfl, rfl⟩ := hy
    simp only [park, update₂_self, select_append, select_of_ne h, List.append_nil]
  · simp only [park, update₂_of_ne _ _ hy]

lemma pipe_park_other (h : ¬(origin m = f ∧ dest m = d)) :
    select dest origin f d ((s.park dest n m).received f d) =
        select dest origin f d (s.received f d) ∧
      select dest origin f d ((s.park dest n m).waiting f d) =
        select dest origin f d (s.waiting f d) := by
  have hown : (s.park dest n m).owner = s.owner := rfl
  constructor
  · simp only [received, hown]
    cases s.owner d with
    | none => rfl
    | some y =>
      dsimp only
      split_ifs
      · rfl
      · exact select_parked h y
  · simp only [waiting, hown]
    cases s.owner f with
    | none => rfl
    | some x => exact select_parked h x

lemma pipe_enter (hr : s.Routed dest) (hm : s.owner (origin m) = some n) (f d : A) :
    ∃ l', l'.Sublist [m] ∧ (s.wires.Intact → l' = [m]) ∧
      pipe dest origin (s.dispatch dest n m) f d =
        s.pipe dest origin f d ++ select dest origin f d l' := by
  by_cases hk : s.known n (dest m) = true
  · obtain ⟨b, hb⟩ := Option.ne_none_iff_exists'.mp (hr.known n _ hk)
    have hlearned := hr.learned n _ hk
    rw [dispatch_known hk hb]
    by_cases hbn : b = n
    · subst hbn
      rw [if_pos rfl]
      refine ⟨[m], List.Sublist.refl _, fun _ => rfl, ?_⟩
      rw [pipe_eq, pipe_eq, arrived_delivered]
      by_cases hfd : origin m = f ∧ dest m = d
      · obtain ⟨rfl, rfl⟩ := hfd
        have hself : s.wires.carried b b = [] :=
          List.eq_nil_iff_forall_not_mem.mpr fun m hm => (hr.carried b b m hm).2 rfl
        simp [received, travelling, waiting, hm, hb, hlearned, hself]
      · rw [select_of_ne hfd, List.append_nil, List.append_nil]
        rfl
    · rw [if_neg hbn]
      obtain ⟨l', hsub, hall, htravelling⟩ := travelling_posts hr.wires n b [m]
      refine ⟨l', hsub, hall, ?_⟩
      have hpipe : pipe dest origin { s with wires := [m].foldl (Wires.post n b) s.wires } f d =
          s.arrived dest origin f d ++ (select dest origin f d (s.received f d) ++
            (select dest origin f d (s.travelling f d ++
                if s.owner f = some n ∧ s.owner d = some b then l' else []) ++
              select dest origin f d (s.waiting f d))) := by
        rw [pipe_eq, htravelling]
        rfl
      rw [hpipe, pipe_eq]
      by_cases hfd : origin m = f ∧ dest m = d
      · obtain ⟨rfl, rfl⟩ := hfd
        have hwaiting : s.waiting (origin m) (dest m) = [] := by simp only [waiting, hm, hlearned]
        simp [hm, hb, hwaiting]
      · have hnil : select dest origin f d l' = [] := by
          have hsel : (select dest origin f d l').Sublist (select dest origin f d [m]) :=
            select_sublist hsub
          rw [select_of_ne hfd] at hsel
          exact List.sublist_nil.mp hsel
        split_ifs
        · simp [hnil]
        · simp [hnil]
  · rw [dispatch_unknown hk]
    refine ⟨[m], List.Sublist.refl _, fun _ => rfl, ?_⟩
    have htravelling : (s.park dest n m).travelling f d = s.travelling f d := rfl
    have harrived : (s.park dest n m).arrived dest origin f d = s.arrived dest origin f d := rfl
    rw [pipe_eq, pipe_eq, htravelling, harrived]
    by_cases hfd : origin m = f ∧ dest m = d
    · obtain ⟨rfl, rfl⟩ := hfd
      have hown : (s.park dest n m).owner = s.owner := rfl
      have hwaiting : (s.park dest n m).waiting (origin m) (dest m) =
          s.waiting (origin m) (dest m) ++ [m] := by
        simp only [waiting, hm, park, update₂_self]
      have hreceived : (s.park dest n m).received (origin m) (dest m) =
          s.received (origin m) (dest m) := by
        simp only [received, hown, hm]
        cases s.owner (dest m) with
        | none => rfl
        | some y =>
          dsimp only
          split_ifs with hy
          · rfl
          · exact update₂_of_ne _ _ fun h => hy (by rw [h.1])
      rw [hwaiting, hreceived, select_append]
      simp
    · obtain ⟨hreceived, hwaiting⟩ := pipe_park_other (s := s) (n := n) hfd
      rw [hreceived, hwaiting, select_of_ne hfd, List.append_nil]

lemma pipe_land (hr : s.Routed dest) (hto : s.owner (dest m) = some n) {x : N}
    (hfrom : s.owner (origin m) = some x) (hne : x ≠ n) (f d : A) :
    pipe dest origin (s.dispatch dest n m) f d = s.arrived dest origin f d ++
      (select dest origin f d (s.received f d) ++ (select dest origin f d [m] ++
        (select dest origin f d (s.travelling f d) ++ select dest origin f d (s.waiting f d)))) := by
  by_cases hk : s.known n (dest m) = true
  · rw [dispatch_known hk hto, if_pos rfl, pipe_eq, arrived_delivered]
    by_cases hfd : origin m = f ∧ dest m = d
    · obtain ⟨rfl, rfl⟩ := hfd
      have hreceived : s.received (origin m) (dest m) = [] := by
        simp only [received, hto, hfrom, hr.learned n _ hk, ite_self]
      have hsame : received { s with delivered := s.delivered ++ [(n, m)] } (origin m) (dest m) =
          s.received (origin m) (dest m) := rfl
      rw [hsame, hreceived]
      simp
      rfl
    · rw [select_of_ne hfd, List.append_nil, List.nil_append]
      rfl
  · rw [dispatch_unknown hk, pipe_eq]
    have htravelling : (s.park dest n m).travelling f d = s.travelling f d := rfl
    have harrived : (s.park dest n m).arrived dest origin f d = s.arrived dest origin f d := rfl
    rw [htravelling, harrived]
    by_cases hfd : origin m = f ∧ dest m = d
    · obtain ⟨rfl, rfl⟩ := hfd
      have hown : (s.park dest n m).owner = s.owner := rfl
      have hxn : some x ≠ some n := fun h => hne (Option.some.inj h)
      have hwaiting : (s.park dest n m).waiting (origin m) (dest m) =
          s.waiting (origin m) (dest m) := by
        simp only [waiting, hown, hfrom]
        exact update₂_of_ne _ _ fun h => hne h.1
      have hreceived : (s.park dest n m).received (origin m) (dest m) =
          s.received (origin m) (dest m) ++ [m] := by
        simp only [received, hown, hto, hfrom, if_neg hxn]
        exact update₂_self ..
      rw [hwaiting, hreceived, select_append]
      simp
    · obtain ⟨hreceived, hwaiting⟩ := pipe_park_other (s := s) (n := n) hfd
      rw [hreceived, hwaiting, select_of_ne hfd, List.nil_append]

lemma dispatch_entered : (s.dispatch dest n m).entered = s.entered := by
  simp only [dispatch, hand, park]
  split_ifs
  · rfl
  · split <;> rfl
  · rfl

lemma dispatch_intact (hr : s.Routed dest) (hi : s.wires.Intact) :
    (s.dispatch dest n m).wires.Intact := by
  simp only [dispatch, hand, park]
  split_ifs
  · exact hi
  · split
    · exact hi
    · exact (hr.wires.post n _ m).intact hi
  · exact hi

lemma Moves.enter (hr : s.Routed dest) (hs : s.Spoken dest origin)
    (hm : s.owner (origin m) = some n) :
    Moves dest origin fair lossless [m] s (s.enter dest n m) := by
  have hr' : Routed dest { s with entered := s.entered ++ [m] } :=
    ⟨hr.wires, hr.known, hr.parked, hr.learned, hr.carried, hr.delivered⟩
  have hs' : Spoken dest origin { s with entered := s.entered ++ [m] } := ⟨hs.parked, hs.carried⟩
  have hpipe := pipe_enter (s := { s with entered := s.entered ++ [m] }) hr' hm
  refine .of_sublist (hr'.dispatch n m) (hs'.dispatch hr' (Or.inl hm)) dispatch_entered
    (fun _ => dispatch_intact hr') ?_ ?_
  · intro f d
    obtain ⟨l', hsub, -, heq⟩ := hpipe f d
    rw [Relay.enter, heq]
    exact (List.Sublist.refl _).append (select_sublist hsub)
  · intro _ hi f d
    obtain ⟨l', -, hall, heq⟩ := hpipe f d
    rw [Relay.enter, heq, hall hi]
    rfl

def read (dest : M → A) (s : Relay N A M) (l : ℕ) : Option (Relay N A M) :=
  (s.wires.take l).map fun taken =>
    { s with wires := taken.2.2 }.dispatch dest taken.1.target taken.2.1

lemma Moves.read (hr : s.Routed dest) (hs : s.Spoken dest origin) (h : s.read dest l = some s') :
    Moves dest origin (s.wires.First l) lossless [] s s' := by
  obtain ⟨⟨line, m, w⟩, htake, rfl⟩ := Option.map_eq_some_iff.mp h
  have ht := hr.wires.take htake
  obtain ⟨l₁, l₂, hhere, hleft, hfirst⟩ := ht.here
  have hsub : ∀ n b, (w.carried n b).Sublist (s.wires.carried n b) := by
    intro n b
    by_cases hnb : n = line.source ∧ b = line.target
    · obtain ⟨rfl, rfl⟩ := hnb
      rw [hhere, hleft]
      exact (List.Sublist.refl _).append (List.sublist_cons_self _ _)
    · rw [ht.away n b hnb]
  have hmem : m ∈ s.wires.carried line.source line.target := by simp [hhere]
  obtain ⟨hto, hne⟩ := hr.carried _ _ m hmem
  have hfrom := hs.carried _ _ m hmem
  have hr' := hr.wires_of ht.inv fun n b x hx => (hsub n b).subset hx
  have hs' := hs.wires_of fun n b x hx => (hsub n b).subset hx
  have hland := pipe_land (s := { s with wires := w }) hr' hto hfrom hne
  have htravelling : ∀ f d, (origin m = f ∧ dest m = d →
        select dest origin f d (s.travelling f d) =
            select dest origin f d l₁ ++ m :: select dest origin f d l₂ ∧
          select dest origin f d (travelling { s with wires := w } f d) =
            select dest origin f d l₁ ++ select dest origin f d l₂) ∧
      (¬(origin m = f ∧ dest m = d) → select dest origin f d (travelling { s with wires := w } f d) =
        select dest origin f d (s.travelling f d)) := by
    intro f d
    constructor
    · rintro ⟨rfl, rfl⟩
      rw [travelling_some hfrom hto, travelling_some (s := { s with wires := w }) hfrom hto, hhere,
        hleft, List.append_cons, select_append, select_append, select_append, select_self]
      simp
    · intro hfd
      cases hf : s.owner f with
      | none => simp [travelling, hf]
      | some x =>
        cases hd : s.owner d with
        | none => simp [travelling, hf, hd]
        | some y =>
          rw [travelling_some hf hd, travelling_some (s := { s with wires := w }) hf hd]
          by_cases hxy : x = line.source ∧ y = line.target
          · obtain ⟨rfl, rfl⟩ := hxy
            rw [hhere, hleft, List.append_cons, select_append, select_append, select_append,
              select_of_ne hfd, List.append_nil]
          · rw [ht.away x y hxy]
  have hold : ∀ f d, arrived dest origin { s with wires := w } f d = s.arrived dest origin f d ∧
      received { s with wires := w } f d = s.received f d ∧
      waiting { s with wires := w } f d = s.waiting f d := fun f d => ⟨rfl, rfl, rfl⟩
  have hperm : ∀ f d, (pipe dest origin (dispatch dest line.target { s with wires := w } m) f d).Perm
      (s.pipe dest origin f d) := by
    intro f d
    obtain ⟨harrived, hreceived, hwaiting⟩ := hold f d
    rw [hland f d, pipe_eq, harrived, hreceived, hwaiting]
    refine List.Perm.append_left _ (List.Perm.append_left _ ?_)
    by_cases hfd : origin m = f ∧ dest m = d
    · obtain ⟨hbefore, hafter⟩ := (htravelling f d).1 hfd
      obtain ⟨rfl, rfl⟩ := hfd
      rw [hbefore, hafter, select_self, ← List.append_assoc]
      refine List.Perm.append_right _ ?_
      rw [List.singleton_append]
      exact List.perm_middle.symm
    · rw [select_of_ne hfd, (htravelling f d).2 hfd]
      rfl
  refine ⟨hr'.dispatch _ m, hs'.dispatch hr' (Or.inr ⟨hto, by simp [hfrom]⟩), ?_, ?_, ?_, ?_, ?_⟩
  · exact dispatch_entered.trans (List.append_nil _).symm
  · exact fun _ hi => dispatch_intact hr' (ht.intact hi)
  · intro f d
    rw [select_nil, List.append_nil]
    exact (hperm f d).subperm
  · intro hfair f d
    obtain ⟨harrived, hreceived, hwaiting⟩ := hold f d
    rw [select_nil, List.append_nil, hland f d, pipe_eq, harrived, hreceived, hwaiting]
    by_cases hfd : origin m = f ∧ dest m = d
    · obtain ⟨hbefore, hafter⟩ := (htravelling f d).1 hfd
      obtain ⟨rfl, rfl⟩ := hfd
      rw [hbefore, hafter, select_self, hfirst hfair]
      exact List.Sublist.refl _
    · rw [select_of_ne hfd, (htravelling f d).2 hfd]
      exact List.Sublist.refl _
  · intro _ _ f d
    rw [select_nil, List.append_nil]
    exact hperm f d

lemma read_wires (hr : s.Routed dest) (h : s.read dest l = some s') :
    ∃ line m, s.wires.take l = some (line, m, s'.wires) := by
  obtain ⟨⟨line, m, w⟩, htake, rfl⟩ := Option.map_eq_some_iff.mp h
  have ht := hr.wires.take htake
  obtain ⟨l₁, l₂, hhere, -, -⟩ := ht.here
  have hto := (hr.carried line.source line.target m (by simp [hhere])).1
  refine ⟨line, m, ?_⟩
  have hwires : (dispatch dest line.target { s with wires := w } m).wires = w := by
    simp only [dispatch, hand, park, hto, if_true]
    split_ifs <;> rfl
  rw [hwires]
  exact htake

end Relay

end Simple.Lib
