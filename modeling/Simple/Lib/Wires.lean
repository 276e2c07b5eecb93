import Simple.Lib.Modify

/-! Lines between nodes. A node puts what it has for another one on its current line there, and
keeps it until there is one. A line may break. -/

namespace Simple.Lib

/-- What is put on a broken line gets lost. -/
structure Line (N M : Type) where
  source : N
  target : N
  broken : Bool := false
  items : List M := []

/-- `current n b` is the line from `n` to `b` that `n` writes to; without one, what is meant for
`b` is `outgoing`. Lines that were current once may still hold items. -/
structure Wires (N M : Type) where
  outgoing : N → N → List M := fun _ _ => []
  current : N → N → Option ℕ := fun _ _ => none
  lines : List (Line N M) := []

section Update

variable {N A V : Type} [DecidableEq N] [DecidableEq A]

def update₂ (f : N → A → V) (n : N) (a : A) (v : V) : N → A → V := fun n' a' =>
  if n' = n ∧ a' = a then v else f n' a'

@[simp] lemma update₂_self (f : N → A → V) (n : N) (a : A) (v : V) : update₂ f n a v n a = v := by
  simp [update₂]

lemma update₂_of_ne (f : N → A → V) {n n' : N} {a a' : A} (v : V) (h : ¬(n' = n ∧ a' = a)) :
    update₂ f n a v n' a' = f n' a' := if_neg h

end Update

variable {N M : Type} [DecidableEq N]

namespace Line

def put (m : M) (line : Line N M) : Line N M :=
  if line.broken then line else { line with items := line.items ++ [m] }

def cut (k : ℕ) (line : Line N M) : Line N M :=
  { line with items := line.items.take k, broken := true }

/-- The process of `n` ends: what it has written may still arrive, what was written to it cannot. -/
def fail (n : N) (line : Line N M) : Line N M :=
  if line.target = n then { line with broken := true, items := [] }
  else if line.source = n then { line with broken := true }
  else line

def Joins (line : Line N M) (n b : N) : Prop := line.source = n ∧ line.target = b

instance (line : Line N M) (n b : N) : Decidable (line.Joins n b) :=
  inferInstanceAs (Decidable (_ ∧ _))

end Line

namespace Wires

def post (n b : N) (w : Wires N M) (m : M) : Wires N M :=
  match w.current n b with
  | none => { w with outgoing := update₂ w.outgoing n b (w.outgoing n b ++ [m]) }
  | some l => { w with lines := w.lines.modify l (Line.put m) }

def connect (w : Wires N M) (n b : N) : Wires N M where
  outgoing := update₂ w.outgoing n b []
  current := update₂ w.current n b (some w.lines.length)
  lines := w.lines ++ [{ source := n, target := b, items := w.outgoing n b }]

def drop (w : Wires N M) (n b : N) : Wires N M :=
  { w with current := update₂ w.current n b none }

def cut (w : Wires N M) (l k : ℕ) : Wires N M := { w with lines := w.lines.modify l (Line.cut k) }

def fail (w : Wires N M) (n : N) : Wires N M where
  outgoing := Function.update w.outgoing n fun _ => []
  current := Function.update w.current n fun _ => none
  lines := w.lines.map (Line.fail n)

def take (w : Wires N M) (l : ℕ) : Option (Line N M × M × Wires N M) :=
  match w.lines[l]? with
  | none => none
  | some line =>
    match line.items with
    | [] => none
    | m :: rest =>
      some (line, m, { w with lines := w.lines.modify l fun line => { line with items := rest } })

def between (lines : List (Line N M)) (n b : N) : List M :=
  (lines.filter fun line => line.Joins n b).flatMap Line.items

/-- Everything on its way from `n` to `b`, the oldest first. -/
def carried (w : Wires N M) (n b : N) : List M := between w.lines n b ++ w.outgoing n b

def Intact (w : Wires N M) : Prop := ∀ line ∈ w.lines, line.broken = false

/-- No older line between the same nodes holds anything. -/
def First (w : Wires N M) (l : ℕ) : Prop :=
  ∀ line ∈ w.lines[l]?, ∀ older ∈ w.lines.take l, older.Joins line.source line.target →
    older.items = []

def ends (w : Wires N M) : List (N × N) := w.lines.map fun line => (line.source, line.target)

def Youngest (ends : List (N × N)) (n b : N) (l : ℕ) : Prop :=
  ends[l]? = some (n, b) ∧ ∀ l', l < l' → ends[l']? ≠ some (n, b)

instance (w : Wires N M) (l : ℕ) : Decidable (w.First l) :=
  inferInstanceAs (Decidable (∀ line ∈ w.lines[l]?, ∀ older ∈ w.lines.take l,
    older.Joins line.source line.target → older.items = []))

/-- A current line is the youngest between its nodes, and nothing waits for another one. -/
structure Inv (w : Wires N M) : Prop where
  current : ∀ n b l, w.current n b = some l → Youngest w.ends n b l
  idle : ∀ n b l, w.current n b = some l → w.outgoing n b = []

variable {w : Wires N M} {n b n' b' : N} {l k : ℕ} {m : M} {lines lines' : List (Line N M)}
  {line : Line N M}

@[simp] lemma between_append : between (lines ++ lines') n b =
    between lines n b ++ between lines' n b := by
  simp [between]

lemma between_cons : between (line :: lines) n b =
    (if line.Joins n b then line.items else []) ++ between lines n b := by
  rw [between, List.filter_cons]
  split_ifs with h h' h'
  · rw [List.flatMap_cons, between]
  · exact absurd (of_decide_eq_true h) h'
  · exact absurd (decide_eq_true h') h
  · rfl

lemma between_eq_nil (h : ∀ line ∈ lines, line.Joins n b → line.items = []) :
    between lines n b = [] := by
  rw [between, List.flatMap_eq_nil_iff]
  intro line hline
  obtain ⟨hmem, hjoins⟩ := List.mem_filter.mp hline
  exact h line hmem (of_decide_eq_true hjoins)

lemma between_modify {f : Line N M → Line N M}
    (hf : ∀ line, (f line).source = line.source ∧ (f line).target = line.target)
    (hl : lines[l]? = some line) (n b : N) :
    between lines n b = between (lines.take l) n b ++
        ((if line.Joins n b then line.items else []) ++ between (lines.drop (l + 1)) n b) ∧
      between (lines.modify l f) n b = between (lines.take l) n b ++
        ((if line.Joins n b then (f line).items else []) ++ between (lines.drop (l + 1)) n b) := by
  have hjoins : (f line).Joins n b ↔ line.Joins n b := by
    rw [Line.Joins, (hf line).1, (hf line).2, Line.Joins]
  obtain ⟨hlt, rfl⟩ := List.getElem?_eq_some_iff.mp hl
  constructor
  · rw [← between_cons, ← between_append, List.getElem_cons_drop, List.take_append_drop]
  · have hif : (if lines[l].Joins n b then (f lines[l]).items else []) =
        if (f lines[l]).Joins n b then (f lines[l]).items else [] := by
      simp only [hjoins]
    rw [hif, ← between_cons, ← between_append, List.modify_eq_take_cons_drop hlt]

inductive Shrinks : Line N M → Line N M → Prop
  | mk {line line' : Line N M} (hsource : line'.source = line.source)
      (htarget : line'.target = line.target) (hitems : line'.items.Sublist line.items) :
      Shrinks line line'

lemma between_map_sublist {f : Line N M → Line N M} (hf : ∀ line, Shrinks line (f line)) :
    (between (lines.map f) n b).Sublist (between lines n b) := by
  induction lines with
  | nil => exact List.Sublist.refl _
  | cons line lines ih =>
    rw [List.map_cons, between_cons, between_cons]
    refine List.Sublist.append ?_ ih
    obtain ⟨hsource, htarget, hitems⟩ := hf line
    have hjoins : (f line).Joins n b ↔ line.Joins n b := by
      rw [Line.Joins, hsource, htarget, Line.Joins]
    by_cases h : line.Joins n b
    · rw [if_pos (hjoins.mpr h), if_pos h]
      exact hitems
    · rw [if_neg (mt hjoins.mp h), if_neg h]

lemma shrinks_fail : Shrinks line (line.fail n) := by
  rw [Line.fail]
  split_ifs
  · exact ⟨rfl, rfl, List.nil_sublist _⟩
  · exact ⟨rfl, rfl, List.Sublist.refl _⟩
  · exact ⟨rfl, rfl, List.Sublist.refl _⟩

/-- `l` has been put at the end of what is on its way from `n` to `b`, or gets lost in part. -/
structure Posted (n b : N) (l : List M) (w w' : Wires N M) : Prop where
  inv : w'.Inv
  intact : w.Intact → w'.Intact
  here : ∃ l', l'.Sublist l ∧ (w.Intact → l' = l) ∧ w'.carried n b = w.carried n b ++ l'
  away : ∀ n' b', ¬(n' = n ∧ b' = b) → w'.carried n' b' = w.carried n' b'

lemma Posted.refl (h : w.Inv) : Posted n b [] w w :=
  ⟨h, id, ⟨[], List.Sublist.refl _, fun _ => rfl, (List.append_nil _).symm⟩, fun _ _ _ => rfl⟩

lemma Posted.trans {w' w'' : Wires N M} {l l' : List M} (h : Posted n b l w w')
    (h' : Posted n b l' w' w'') : Posted n b (l ++ l') w w'' := by
  obtain ⟨x, hx, hxi, hcarried⟩ := h.here
  obtain ⟨x', hx', hxi', hcarried'⟩ := h'.here
  refine ⟨h'.inv, fun hi => h'.intact (h.intact hi), ⟨x ++ x', hx.append hx', ?_, ?_⟩, ?_⟩
  · intro hi
    rw [hxi hi, hxi' (h.intact hi)]
  · rw [hcarried', hcarried, List.append_assoc]
  · intro n' b' hne
    rw [h'.away n' b' hne, h.away n' b' hne]

omit [DecidableEq N] in
lemma Youngest.getElem? (h : Youngest w.ends n b l) :
    ∃ line, w.lines[l]? = some line ∧ line.Joins n b := by
  have hl := h.1
  rw [ends, List.getElem?_map] at hl
  obtain ⟨line, hline, heq⟩ := Option.map_eq_some_iff.mp hl
  exact ⟨line, hline, Prod.mk.inj heq⟩

lemma Youngest.after (h : Youngest w.ends n b l) : between (w.lines.drop (l + 1)) n b = [] := by
  apply between_eq_nil
  rintro y hy ⟨hsource, htarget⟩
  obtain ⟨i, hi⟩ := List.mem_iff_getElem?.mp hy
  rw [List.getElem?_drop] at hi
  refine absurd ?_ (h.2 (l + 1 + i) (by omega))
  rw [ends, List.getElem?_map, hi, Option.map_some, hsource, htarget]

omit [DecidableEq N] in
lemma ends_modify {f : Line N M → Line N M}
    (hf : ∀ line, (f line).source = line.source ∧ (f line).target = line.target) :
    ends { w with lines := w.lines.modify l f } = w.ends :=
  map_modify fun line => by rw [(hf line).1, (hf line).2]

omit [DecidableEq N] in
lemma Inv.modify (h : w.Inv) {f : Line N M → Line N M}
    (hf : ∀ line, (f line).source = line.source ∧ (f line).target = line.target) :
    Inv { w with lines := w.lines.modify l f } := by
  refine ⟨?_, h.idle⟩
  rw [ends_modify hf]
  exact h.current

omit [DecidableEq N] in
lemma put_ends (line : Line N M) :
    (line.put m).source = line.source ∧ (line.put m).target = line.target := by
  rw [Line.put]
  split_ifs <;> exact ⟨rfl, rfl⟩

lemma Inv.post (h : w.Inv) (n b : N) (m : M) : Posted n b [m] w (w.post n b m) := by
  rw [Wires.post]
  cases hc : w.current n b with
  | none =>
    refine ⟨⟨h.current, ?_⟩, id, ⟨[m], List.Sublist.refl _, fun _ => rfl, ?_⟩, ?_⟩
    · intro n' b' l' hl'
      dsimp only
      rw [update₂_of_ne]
      · exact h.idle n' b' l' hl'
      · rintro ⟨rfl, rfl⟩
        rw [hc] at hl'
        cases hl'
    · simp [carried]
    · intro n' b' hne
      simp [carried, update₂_of_ne _ _ hne]
  | some l =>
    have hyoungest := h.current n b l hc
    obtain ⟨line, hline, hjoins⟩ := hyoungest.getElem?
    have hbetween := between_modify (put_ends (m := m)) hline
    refine ⟨h.modify put_ends, ?_, ?_, ?_⟩
    · intro hintact x hx
      obtain ⟨i, hi⟩ := List.mem_iff_getElem?.mp hx
      refine forall_getElem?_modify (P := fun _ line => line.broken = false) ?_ ?_ i x hi
      · exact fun j x hx => hintact x (List.mem_of_getElem? hx)
      · intro x hx
        have hwhole := hintact x (List.mem_of_getElem? hx)
        rw [Line.put, if_neg (by simp [hwhole])]
        exact hwhole
    · simp only [carried, hbetween n b, if_pos hjoins, hyoungest.after, List.append_nil,
        h.idle n b l hc]
      cases hbroken : line.broken with
      | true =>
        refine ⟨[], List.nil_sublist _, ?_, by simp [Line.put, hbroken]⟩
        intro hintact
        rw [hintact line (List.mem_of_getElem? hline)] at hbroken
        cases hbroken
      | false => exact ⟨[m], List.Sublist.refl _, fun _ => rfl, by simp [Line.put, hbroken]⟩
    · intro n' b' hne
      have hnot : ¬ line.Joins n' b' := by
        rintro ⟨rfl, rfl⟩
        exact hne hjoins
      simp only [carried, hbetween n' b', if_neg hnot]

lemma Inv.posts (h : w.Inv) (n b : N) (l : List M) :
    Posted n b l w (l.foldl (Wires.post n b) w) := by
  induction l generalizing w with
  | nil => exact .refl h
  | cons m l ih => exact (h.post n b m).trans (ih (h.post n b m).inv)

/-- What is left of the wires when something on them may have been lost. -/
structure Thinned (w w' : Wires N M) : Prop where
  inv : w'.Inv
  carried : ∀ n b, (w'.carried n b).Sublist (w.carried n b)

structure Same (w w' : Wires N M) : Prop where
  inv : w'.Inv
  intact : w.Intact → w'.Intact
  carried : ∀ n b, w'.carried n b = w.carried n b

lemma Inv.connect (h : w.Inv) (n b : N) : Same w (w.connect n b) := by
  refine ⟨⟨?_, ?_⟩, ?_, ?_⟩
  · intro n' b' l hl
    have hends : (w.connect n b).ends = w.ends ++ [(n, b)] := by simp [ends, Wires.connect]
    rw [hends]
    by_cases hnb : n' = n ∧ b' = b
    · obtain ⟨rfl, rfl⟩ := hnb
      simp only [Wires.connect, update₂_self] at hl
      obtain rfl := Option.some.inj hl
      refine ⟨by simp [ends], ?_⟩
      intro l' hl'
      rw [List.getElem?_eq_none]
      · exact nofun
      · simp [ends]
        omega
    · simp only [Wires.connect, update₂_of_ne _ _ hnb] at hl
      obtain ⟨hget, hlast⟩ := h.current n' b' l hl
      have hlt := (List.getElem?_eq_some_iff.mp hget).1
      refine ⟨List.getElem?_append_left hlt ▸ hget, ?_⟩
      intro l' hl' hget'
      rcases lt_or_ge l' w.ends.length with hlt' | hge
      · exact hlast l' hl' (List.getElem?_append_left hlt' ▸ hget')
      · rw [List.getElem?_append_right hge] at hget'
        obtain ⟨rfl, rfl⟩ := Prod.mk.inj (List.mem_singleton.mp (List.mem_of_getElem? hget'))
        exact hnb ⟨rfl, rfl⟩
  · intro n' b' l hl
    by_cases hnb : n' = n ∧ b' = b
    · obtain ⟨rfl, rfl⟩ := hnb
      exact update₂_self ..
    · simp only [Wires.connect, update₂_of_ne _ _ hnb] at hl ⊢
      exact h.idle n' b' l hl
  · intro hintact line hline
    rcases List.mem_append.mp hline with hline | hline
    · exact hintact line hline
    · rw [List.mem_singleton.mp hline]
  · intro n' b'
    simp only [Wires.carried, Wires.connect, between_append]
    by_cases hnb : n' = n ∧ b' = b
    · obtain ⟨rfl, rfl⟩ := hnb
      simp [between, Line.Joins]
    · have hnot : ¬ Line.Joins ({ source := n, target := b, items := w.outgoing n b } : Line N M) n' b' :=
        fun hj => hnb ⟨hj.1.symm, hj.2.symm⟩
      rw [update₂_of_ne _ _ hnb, between_cons, if_neg hnot]
      simp [between]

lemma Inv.drop (h : w.Inv) (n b : N) : Same w (w.drop n b) := by
  have hold : ∀ {n' b' l}, (w.drop n b).current n' b' = some l → w.current n' b' = some l := by
    intro n' b' l hl
    by_cases hnb : n' = n ∧ b' = b
    · obtain ⟨rfl, rfl⟩ := hnb
      simp only [Wires.drop, update₂_self] at hl
      cases hl
    · simpa only [Wires.drop, update₂_of_ne _ _ hnb] using hl
  exact ⟨⟨fun n' b' l hl => h.current n' b' l (hold hl), fun n' b' l hl => h.idle n' b' l (hold hl)⟩,
    id, fun _ _ => rfl⟩

lemma Inv.cut (h : w.Inv) (l k : ℕ) : Thinned w (w.cut l k) := by
  refine ⟨h.modify fun _ => ⟨rfl, rfl⟩, ?_⟩
  intro n b
  refine List.Sublist.append ?_ (List.Sublist.refl _)
  cases hline : w.lines[l]? with
  | none =>
    rw [Wires.cut, List.modify_eq_self (List.getElem?_eq_none_iff.mp hline)]
  | some line =>
    obtain ⟨hold, hnew⟩ := between_modify (f := Line.cut k) (fun _ => ⟨rfl, rfl⟩) hline n b
    rw [hold, Wires.cut, hnew]
    refine (List.Sublist.refl _).append (List.Sublist.append ?_ (List.Sublist.refl _))
    split_ifs
    · exact List.take_sublist k _
    · exact List.Sublist.refl _

lemma Inv.fail (h : w.Inv) (n : N) : Thinned w (w.fail n) := by
  have hends : (w.fail n).ends = w.ends := by
    rw [ends, Wires.fail, List.map_map]
    apply List.map_congr_left
    intro line _
    obtain ⟨hsource, htarget, -⟩ : Shrinks line (line.fail n) := shrinks_fail
    rw [Function.comp_apply, hsource, htarget]
  have hold : ∀ {n' b' l}, (w.fail n).current n' b' = some l →
      n' ≠ n ∧ w.current n' b' = some l := by
    intro n' b' l hl
    by_cases hn : n' = n
    · subst hn
      simp only [Wires.fail, Function.update_self] at hl
      cases hl
    · simp only [Wires.fail, Function.update_of_ne hn] at hl
      exact ⟨hn, hl⟩
  refine ⟨⟨?_, ?_⟩, ?_⟩
  · intro n' b' l hl
    rw [hends]
    exact h.current n' b' l (hold hl).2
  · intro n' b' l hl
    simp only [Wires.fail, Function.update_of_ne (hold hl).1]
    exact h.idle n' b' l (hold hl).2
  · intro n' b'
    refine List.Sublist.append (between_map_sublist fun _ => shrinks_fail) ?_
    by_cases hn : n' = n
    · simp only [Wires.fail, hn, Function.update_self]
      exact List.nil_sublist _
    · simp only [Wires.fail, Function.update_of_ne hn]
      exact List.Sublist.refl _

/-- `m` has been taken off a line from `n` to `b`, off everything older when `First` holds. -/
structure Taken (n b : N) (m : M) (first : Prop) (w w' : Wires N M) : Prop where
  inv : w'.Inv
  intact : w.Intact → w'.Intact
  here : ∃ l₁ l₂, w.carried n b = l₁ ++ m :: l₂ ∧ w'.carried n b = l₁ ++ l₂ ∧ (first → l₁ = [])
  away : ∀ n' b', ¬(n' = n ∧ b' = b) → w'.carried n' b' = w.carried n' b'

lemma Inv.take {w' : Wires N M} (h : w.Inv) (ht : w.take l = some (line, m, w')) :
    Taken line.source line.target m (w.First l) w w' := by
  simp only [Wires.take] at ht
  split at ht
  · cases ht
  · next line' hline =>
    split at ht
    · cases ht
    · next m' rest hitems =>
      obtain ⟨rfl, rfl, rfl⟩ := by simpa using ht
      have hbetween := between_modify (f := fun line => { line with items := rest })
        (fun _ => ⟨rfl, rfl⟩) hline
      refine ⟨h.modify fun _ => ⟨rfl, rfl⟩, ?_, ?_, ?_⟩
      · intro hintact x hx
        obtain ⟨i, hi⟩ := List.mem_iff_getElem?.mp hx
        refine forall_getElem?_modify (P := fun _ line => line.broken = false) ?_ ?_ i x hi
        · exact fun j x hx => hintact x (List.mem_of_getElem? hx)
        · exact fun x hx => hintact x (List.mem_of_getElem? hx)
      · have hjoins : line'.Joins line'.source line'.target := ⟨rfl, rfl⟩
        refine ⟨between (w.lines.take l) line'.source line'.target,
          rest ++ (between (w.lines.drop (l + 1)) line'.source line'.target ++
            w.outgoing line'.source line'.target), ?_, ?_, ?_⟩
        · simp [carried, (hbetween _ _).1, if_pos hjoins, hitems]
        · simp [carried, (hbetween _ _).2, if_pos hjoins]
        · exact fun hfirst => between_eq_nil (hfirst line' hline)
      · intro n' b' hne
        have hnot : ¬ line'.Joins n' b' := fun hj => hne ⟨hj.1.symm, hj.2.symm⟩
        simp only [carried, hbetween n' b', if_neg hnot]

lemma Inv.take_sub {w' : Wires N M} (h : w.Inv) (ht : w.take l = some (line, m, w')) (n b : N) :
    ∀ x ∈ w'.carried n b, x ∈ w.carried n b := by
  have htaken := h.take ht
  intro x hx
  by_cases hnb : n = line.source ∧ b = line.target
  · obtain ⟨rfl, rfl⟩ := hnb
    obtain ⟨l₁, l₂, hhere, hleft, -⟩ := htaken.here
    rw [hleft] at hx
    rw [hhere]
    exact ((List.Sublist.refl l₁).append (List.sublist_cons_self m l₂)).subset hx
  · rwa [htaken.away n b hnb] at hx

end Wires

end Simple.Lib
