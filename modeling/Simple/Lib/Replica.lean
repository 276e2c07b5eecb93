import Mathlib.Tactic

/-! A copy of a table that is kept at a distance. Every change is sent through a queue, and now and
then a copy of the whole table. The reader makes a change when it takes it from the queue; a copy
may wait until the reader takes it over, or is never taken over. -/

namespace Simple.Lib

universe u v

inductive Note (K : Type u) (V : Type v)
  | put (k : K) (v : V)
  | copy (m : K → Option V)

namespace Note

variable {K : Type u} {V : Type v}

def Says (k : K) (v : V) : Note K V → Prop
  | put j w => j = k → w = v
  | copy m => m k = some v

def Changes (k : K) (notes : List (Note K V)) : Prop := ∃ v, put k v ∈ notes

/-- Whatever says anything else of `k` is followed by a change of `k`. -/
def Ends (k : K) (v : V) : List (Note K V) → Prop
  | [] => True
  | note :: notes => (note.Says k v ∨ Changes k notes) ∧ Ends k v notes

variable {k j : K} {v w : V} {note : Note K V} {notes more : List (Note K V)}

lemma Changes.append (h : Changes k notes) : Changes k (notes ++ more) := by
  obtain ⟨v, hv⟩ := h
  exact ⟨v, List.mem_append_left _ hv⟩

lemma Changes.of_cons (h : Changes k (note :: notes)) (hn : ∀ v, note ≠ put k v) :
    Changes k notes := by
  obtain ⟨v, hv⟩ := h
  rcases List.mem_cons.mp hv with heq | hv
  · exact absurd heq.symm (hn v)
  · exact ⟨v, hv⟩

lemma Ends.append (h : Ends k v notes) (hnote : note.Says k v) : Ends k v (notes ++ [note]) := by
  induction notes with
  | nil => exact ⟨.inl hnote, trivial⟩
  | cons first notes ih => exact ⟨h.1.imp_right Changes.append, ih h.2⟩

lemma Ends.of_append (h : Ends k v (more ++ notes)) : Ends k v notes := by
  induction more with
  | nil => exact h
  | cons note more ih => exact ih h.2

lemma ends_append_put : Ends k v (notes ++ [put k v]) := by
  induction notes with
  | nil => exact ⟨.inl fun _ => rfl, trivial⟩
  | cons first notes ih => exact ⟨.inr ⟨v, by simp⟩, ih⟩

end Note

open Note

variable {K : Type u} {V : Type v}

def override (t w : K → Option V) : K → Option V := fun k => (w k).or (t k)

/-- What is still to be read, the waiting copies and the reader's table agree with `m`. -/
structure Follows (m : K → Option V) (notes : List (Note K V)) (waiting : Set (K → Option V))
    (synced : Prop) (t : K → Option V) : Prop where
  ends : ∀ k v, m k = some v → Ends k v notes
  waits : ∀ k v, m k = some v → ∀ w ∈ waiting, override t w k = some v ∨ Changes k notes
  table : synced → ∀ k v, m k = some v → t k = some v ∨ Changes k notes

variable {m m' t : K → Option V} {notes more : List (Note K V)} {waiting : Set (K → Option V)}
  {synced : Prop} {k : K} {v : V}

namespace Follows

lemma settled (h : Follows m [] waiting synced t) (hs : synced) (hk : m k = some v) :
    t k = some v := by
  rcases h.table hs k v hk with ht | ⟨w, hw⟩
  · exact ht
  · cases hw

lemma mono {fewer : Set (K → Option V)} (h : Follows m notes waiting synced t)
    (hw : fewer ⊆ waiting) : Follows m notes fewer synced t :=
  ⟨h.ends, fun k v hk w hmem => h.waits k v hk w (hw hmem), h.table⟩

lemma send_copy (h : Follows m notes waiting synced t) :
    Follows m (notes ++ [copy m]) waiting synced t := by
  refine ⟨?_, ?_, ?_⟩
  · intro k v hk
    exact (h.ends k v hk).append hk
  · intro k v hk w hw
    exact (h.waits k v hk w hw).imp_right Changes.append
  · intro hs k v hk
    exact (h.table hs k v hk).imp_right Changes.append

lemma send_put [DecidableEq K] (h : Follows m notes waiting synced t) :
    Follows (Function.update m k (some v)) (notes ++ [put k v]) waiting synced t := by
  have hlast : Changes k (notes ++ [put k v]) := ⟨v, by simp⟩
  refine ⟨?_, ?_, ?_⟩
  · intro j w hj
    by_cases hjk : j = k
    · subst hjk
      rw [Function.update_self, Option.some.injEq] at hj
      subst hj
      exact ends_append_put
    · rw [Function.update_of_ne hjk] at hj
      exact (h.ends j w hj).append fun heq => absurd heq.symm hjk
  · intro j w hj c hc
    by_cases hjk : j = k
    · exact .inr (hjk ▸ hlast)
    · rw [Function.update_of_ne hjk] at hj
      exact (h.waits j w hj c hc).imp_right Changes.append
  · intro hs j w hj
    by_cases hjk : j = k
    · exact .inr (hjk ▸ hlast)
    · rw [Function.update_of_ne hjk] at hj
      exact (h.table hs j w hj).imp_right Changes.append

lemma read_put [DecidableEq K] (h : Follows m (put k v :: notes) waiting synced t)
    (hw : ∀ w ∈ waiting, ∀ v', w k = some v' → v' = v) :
    Follows m notes waiting synced (Function.update t k (some v)) := by
  have hother : ∀ j, j ≠ k → Changes j (put k v :: notes) → Changes j notes := by
    intro j hj hc
    apply hc.of_cons
    rintro w ⟨⟩
    exact hj rfl
  refine ⟨fun j w hj => (h.ends j w hj).2, ?_, ?_⟩
  · intro j w hj c hc
    by_cases hjk : j = k
    · subst hjk
      refine (h.ends j w hj).1.imp_left fun hv => ?_
      obtain rfl : v = w := hv rfl
      cases hcj : c j with
      | none => simp [override, hcj]
      | some v' => simp [override, hcj, hw c hc v' hcj]
    · refine (h.waits j w hj c hc).imp ?_ (hother j hjk)
      simp [override, Function.update_of_ne hjk]
  · intro hs j w hj
    by_cases hjk : j = k
    · subst hjk
      refine (h.ends j w hj).1.imp_left fun hv => ?_
      rw [Function.update_self, hv rfl]
    · rw [Function.update_of_ne hjk]
      exact (h.table hs j w hj).imp_right (hother j hjk)

lemma read_copy {c : K → Option V} (h : Follows m (copy c :: notes) waiting synced t) :
    Follows m notes (insert c waiting) synced t := by
  have hnotes : ∀ j, Changes j (copy c :: notes) → Changes j notes := by
    intro j hc
    apply hc.of_cons
    rintro w ⟨⟩
  refine ⟨fun j w hj => (h.ends j w hj).2, ?_, ?_⟩
  · rintro j w hj c' (rfl | hc')
    · refine (h.ends j w hj).1.imp_left fun (hcj : _ = _) => ?_
      simp [override, hcj]
    · exact (h.waits j w hj c' hc').imp_right (hnotes j)
  · intro hs j w hj
    exact (h.table hs j w hj).imp_right (hnotes j)

lemma take_over {c : K → Option V} (h : Follows m notes waiting synced t) (hc : c ∈ waiting) :
    Follows m notes waiting True (override t c) := by
  refine ⟨h.ends, ?_, fun _ k v hk => h.waits k v hk c hc⟩
  intro k v hk w hw
  cases hwk : w k with
  | none =>
    refine (h.waits k v hk c hc).imp_left fun hk' => ?_
    rw [override, hwk]
    exact hk'
  | some v' =>
    refine (h.waits k v hk w hw).imp_left fun hk' => ?_
    simpa [override, hwk] using hk'

lemma nil : Follows m [] ∅ False t := ⟨fun _ _ _ => trivial, nofun, nofun⟩

lemma weaken {synced' : Prop} (h : Follows m notes waiting synced t) (hs : synced' → synced) :
    Follows m notes waiting synced' t :=
  ⟨h.ends, h.waits, fun hs' => h.table (hs hs')⟩

lemma retable {t' : K → Option V} (h : Follows m notes ∅ synced t)
    (ht : synced → ∀ k v, m k = some v → t' k = t k) : Follows m notes ∅ synced t' := by
  refine ⟨h.ends, nofun, ?_⟩
  intro hs k v hk
  rw [ht hs k v hk]
  exact h.table hs k v hk

lemma skip {t' : K → Option V} {synced' : Prop} (h : Follows m (more ++ notes) ∅ synced t)
    (hs : ¬ synced') : Follows m notes ∅ synced' t' :=
  ⟨fun k v hk => (h.ends k v hk).of_append, nofun, fun hs' => absurd hs' hs⟩

lemma skip_put (h : Follows m (put k v :: notes) waiting synced t) (hk : m k = none) :
    Follows m notes waiting synced t := by
  have hother : ∀ j w, m j = some w → Changes j (put k v :: notes) → Changes j notes := by
    intro j w hj hc
    apply hc.of_cons
    rintro _ ⟨⟩
    simp [hk] at hj
  refine ⟨fun j w hj => (h.ends j w hj).2, ?_, ?_⟩
  · intro j w hj c hc
    exact (h.waits j w hj c hc).imp_right (hother j w hj)
  · intro hs j w hj
    exact (h.table hs j w hj).imp_right (hother j w hj)

lemma send_other (h : Follows m notes waiting synced t) (hk : m k = none) :
    Follows m (notes ++ [put k v]) waiting synced t := by
  refine ⟨?_, ?_, ?_⟩
  · intro j w hj
    apply (h.ends j w hj).append
    rintro rfl
    simp [hk] at hj
  · intro j w hj c hc
    exact (h.waits j w hj c hc).imp_right Changes.append
  · intro hs j w hj
    exact (h.table hs j w hj).imp_right Changes.append

end Follows

/-- Who follows the first table and is sent the notes follows the second. -/
def Carries (m : K → Option V) (notes : List (Note K V)) (m' : K → Option V) : Prop :=
  ∀ queue synced t, Follows m queue ∅ synced t → Follows m' (queue ++ notes) ∅ synced t

lemma Carries.refl (m : K → Option V) : Carries m [] m := by
  intro queue synced t h
  rwa [List.append_nil]

lemma carries_put [DecidableEq K] :
    Carries m [put k v] (Function.update m k (some v)) :=
  fun _ _ _ hf => hf.send_put

lemma carries_put_other (hk : m k = none) : Carries m [put k v] m :=
  fun _ _ _ hf => hf.send_other hk

variable {l l' : List (K × V)}

lemma override_assoc (a b c : K → Option V) :
    override (override a b) c = override a (override b c) := by
  funext k
  simp only [override, Option.or_assoc]

section Collect

variable [DecidableEq K]

def collect : List (K × V) → K → Option V
  | [] => fun _ => none
  | e :: l => override (Function.update (fun _ => none) e.1 (some e.2)) (collect l)

lemma override_update (a : K → Option V) :
    override a (Function.update (fun _ => none) k (some v)) = Function.update a k (some v) := by
  funext j
  by_cases hj : j = k
  · subst hj
    simp [override]
  · simp [override, Function.update_of_ne hj]

lemma collect_append : collect (l ++ l') = override (collect l) (collect l') := by
  induction l with
  | nil =>
    funext k
    simp [collect, override]
  | cons e l ih => rw [List.cons_append, collect, ih, collect, override_assoc]

lemma collect_concat : collect (l ++ [(k, v)]) = Function.update (collect l) k (some v) := by
  rw [collect_append, collect, collect]
  funext j
  by_cases hj : j = k
  · subst hj
    simp [override]
  · simp [override, Function.update_of_ne hj]

lemma mem_of_collect (h : collect l k = some v) : (k, v) ∈ l := by
  induction l with
  | nil => cases h
  | cons e l ih =>
    rw [collect, override, Option.or_eq_some_iff] at h
    rcases h with h | ⟨-, h⟩
    · exact List.mem_cons_of_mem e (ih h)
    · by_cases hk : k = e.1
      · subst hk
        rw [Function.update_self, Option.some.injEq] at h
        exact List.mem_cons.mpr (.inl (Prod.ext rfl h.symm))
      · rw [Function.update_of_ne hk] at h
        cases h

lemma isSome_collect (h : k ∈ l.map Prod.fst) : (collect l k).isSome := by
  induction l with
  | nil => cases h
  | cons e l ih =>
    rw [collect, override, Option.isSome_or, Bool.or_eq_true]
    rcases List.mem_cons.mp h with rfl | h
    · exact .inr (by simp)
    · exact .inl (ih h)

lemma collect_of_mem (hl : (l.map Prod.fst).Nodup) (h : (k, v) ∈ l) : collect l k = some v := by
  obtain ⟨w, hw⟩ := Option.isSome_iff_exists.mp
    (isSome_collect (List.mem_map.mpr ⟨(k, v), h, rfl⟩))
  have heq := List.inj_on_of_nodup_map hl h (mem_of_collect hw) rfl
  rw [hw, (Prod.mk.inj heq).2]

lemma collect_set (h : k ∈ l.map Prod.fst) :
    collect (l.map fun e => if e.1 = k then (k, v) else e) =
      Function.update (collect l) k (some v) := by
  -- the other entries are as before
  have hother : ∀ (l : List (K × V)) j, j ≠ k →
      collect (l.map fun e => if e.1 = k then (k, v) else e) j = collect l j := by
    intro l j hj
    induction l with
    | nil => rfl
    | cons e l ih =>
      rw [List.map_cons, collect, collect, override, override, ih]
      split_ifs with he
      · rw [Function.update_of_ne hj, Function.update_of_ne (he ▸ hj)]
      · rfl
  funext j
  by_cases hj : j = k
  · subst hj
    have hmem : j ∈ (l.map fun e => if e.1 = j then (j, v) else e).map Prod.fst := by
      obtain ⟨e, he, rfl⟩ := List.mem_map.mp h
      rw [List.map_map]
      exact List.mem_map.mpr ⟨e, he, by simp⟩
    obtain ⟨w, hw⟩ := Option.isSome_iff_exists.mp (isSome_collect hmem)
    obtain ⟨e, -, heq⟩ := List.mem_map.mp (mem_of_collect hw)
    split_ifs at heq with he
    · rw [hw, Function.update_self, ← (Prod.mk.inj heq).2]
    · exact absurd (congrArg Prod.fst heq) he
  · rw [Function.update_of_ne hj, hother l j hj]

end Collect

inductive Tells [DecidableEq K] : (K → Option V) → List (Note K V) → (K → Option V) → Prop
  | nil (m : K → Option V) : Tells m [] m
  | put {m m' : K → Option V} {k : K} {v : V} {notes : List (Note K V)}
      (h : Tells (Function.update m k (some v)) notes m') : Tells m (.put k v :: notes) m'
  | copy {m m' : K → Option V} {notes : List (Note K V)} (h : Tells m notes m') :
      Tells m (.copy m :: notes) m'

variable [DecidableEq K]

lemma Tells.trans {m'' : K → Option V} (h : Tells m notes m') (h' : Tells m' more m'') :
    Tells m (notes ++ more) m'' := by
  induction h with
  | nil => exact h'
  | put _ ih => exact .put (ih h')
  | copy _ ih => exact .copy (ih h')

lemma Tells.puts (n : ℕ) : Tells m (List.replicate (n + 1) (.put k v))
    (Function.update m k (some v)) := by
  induction n generalizing m with
  | zero => exact .put (.nil _)
  | succ n ih =>
    apply Tells.put
    have h := ih (m := Function.update m k (some v))
    rwa [Function.update_idem] at h

lemma Follows.tells (h : Follows m notes waiting synced t) (ht : Tells m more m') :
    Follows m' (notes ++ more) waiting synced t := by
  induction ht generalizing notes with
  | nil => rwa [List.append_nil]
  | put _ ih =>
    have hsent := ih h.send_put
    rwa [List.append_assoc] at hsent
  | copy _ ih =>
    have hsent := ih h.send_copy
    rwa [List.append_assoc] at hsent

lemma Follows.read_puts {l : List (K × V)}
    (h : Follows m (l.map (fun e => .put e.1 e.2) ++ notes) waiting synced t)
    (hw : ∀ e ∈ l, ∀ w ∈ waiting, ∀ v', w e.1 = some v' → v' = e.2) :
    Follows m notes waiting synced (override t (collect l)) := by
  induction l generalizing t with
  | nil => exact h
  | cons e l ih =>
    have hfirst := h.read_put (hw e List.mem_cons_self)
    have hrest := ih hfirst fun e' he' => hw e' (List.mem_cons_of_mem e he')
    rwa [← override_update, override_assoc] at hrest

end Simple.Lib
