import Mathlib.Tactic

/-! Documents with named fields, and collections that keep some of the fields unique. -/

namespace Simple.Lib

abbrev Document (K V : Type) : Type := List (K × V)

variable {K V : Type} [DecidableEq K] [DecidableEq V]

namespace Document

def set : Document K V → K → V → Document K V
  | [], k, v => [(k, v)]
  | e :: d, k, v => if e.1 = k then (k, v) :: d else e :: set d k v

def setAll (d fields : Document K V) : Document K V := fields.foldl (fun d e => set d e.1 e.2) d

variable {d fields : Document K V} {k l : K} {v : V}

omit [DecidableEq V]

lemma lookup_cons {e : K × V} : List.lookup l (e :: d) = if l = e.1 then some e.2 else d.lookup l := by
  obtain ⟨k, v⟩ := e
  by_cases h : l = k
  · simp [h]
  · simp [List.lookup_cons, h, beq_false_of_ne h]

@[simp] lemma lookup_set : (set d k v).lookup l = if l = k then some v else d.lookup l := by
  induction d with
  | nil => exact lookup_cons
  | cons e rest ih =>
    unfold set
    split_ifs with he hl hl
    · rw [lookup_cons, if_pos hl]
    · rw [lookup_cons, if_neg hl, lookup_cons, he, if_neg hl]
    · rw [lookup_cons, ih, if_pos hl, if_neg (fun hle => he (hle.symm.trans hl))]
    · rw [lookup_cons, ih, if_neg hl, lookup_cons]

lemma lookup_setAll_of_ne (h : ∀ e ∈ fields, e.1 ≠ l) :
    (setAll d fields).lookup l = d.lookup l := by
  induction fields generalizing d with
  | nil => rfl
  | cons e rest ih =>
    rw [List.forall_mem_cons] at h
    exact (ih h.2).trans (lookup_set.trans (if_neg h.1.symm))

lemma lookup_setAll (hn : (fields.map Prod.fst).Nodup) {e : K × V} (he : e ∈ fields) :
    (setAll d fields).lookup e.1 = some e.2 := by
  induction fields generalizing d with
  | nil => simp at he
  | cons f rest ih =>
    rw [List.map_cons, List.nodup_cons] at hn
    rcases List.mem_cons.mp he with rfl | he
    · have hrest : ∀ f ∈ rest, f.1 ≠ e.1 := by
        intro f hf hfe
        exact hn.1 (List.mem_map.mpr ⟨f, hf, hfe⟩)
      exact (lookup_setAll_of_ne hrest).trans (lookup_set.trans (if_pos rfl))
    · exact ih hn.2 he

end Document

structure Collection (K V : Type) [DecidableEq K] (unique : List K) where
  docs : List (Document K V)
  distinct : ∀ k ∈ unique, (docs.map fun d => d.lookup k).Nodup

namespace Collection

variable {unique : List K}

omit [DecidableEq V] in
@[ext] lemma ext {c c' : Collection K V unique} (h : c.docs = c'.docs) : c = c' := by
  cases c
  cases c'
  subst h
  rfl

instance : EmptyCollection (Collection K V unique) := ⟨⟨[], fun _ _ => List.nodup_nil⟩⟩

/-- Each unique field of the document is of a value that no other document has there. -/
def Accepts (c : Collection K V unique) (d : Document K V) : Prop :=
  ∀ k ∈ unique, d.lookup k ∉ c.docs.map fun e => e.lookup k

instance (c : Collection K V unique) (d : Document K V) : Decidable (c.Accepts d) :=
  inferInstanceAs (Decidable (∀ k ∈ unique, _))

def insert (c : Collection K V unique) (d : Document K V) (h : c.Accepts d) :
    Collection K V unique where
  docs := c.docs ++ [d]
  distinct := by
    intro k hk
    rw [List.map_append]
    refine List.nodup_append.mpr ⟨c.distinct k hk, List.nodup_singleton _, ?_⟩
    rintro v hv w hw rfl
    obtain rfl := List.mem_singleton.mp hw
    exact h k hk hv

def insertOne (c : Collection K V unique) (d : Document K V) : Option (Collection K V unique) :=
  if h : c.Accepts d then some (c.insert d h) else none

def findOne (c : Collection K V unique) (k : K) (v : V) : Option (Document K V) :=
  c.docs.find? fun d => d.lookup k = some v

/-- Of the documents with `v` at `k` the first one gets the fields. -/
def updated (k : K) (v : V) (fields : Document K V) : List (Document K V) → List (Document K V)
  | [] => []
  | d :: docs => if d.lookup k = some v then Document.setAll d fields :: docs else d :: updated k v fields docs

def updateOne (c : Collection K V unique) (k : K) (v : V) (fields : Document K V) :
    Option (Collection K V unique) :=
  if h : ∀ l ∈ unique, ((updated k v fields c.docs).map fun d => d.lookup l).Nodup then
    some ⟨updated k v fields c.docs, h⟩
  else
    none

variable {c c' : Collection K V unique} {d : Document K V} {fields : Document K V} {k : K} {v w : V}

lemma docs_insertOne (h : c.insertOne d = some c') : c.Accepts d ∧ c'.docs = c.docs ++ [d] := by
  unfold insertOne at h
  split_ifs at h with ha
  obtain rfl := Option.some.inj h
  exact ⟨ha, rfl⟩

lemma insertOne_of_accepts (h : c.Accepts d) : c.insertOne d = some (c.insert d h) := dif_pos h

lemma insertOne_of_not_accepts (h : ¬c.Accepts d) : c.insertOne d = none := dif_neg h

lemma docs_updateOne (h : c.updateOne k v fields = some c') :
    c'.docs = updated k v fields c.docs := by
  unfold updateOne at h
  split_ifs at h
  obtain rfl := Option.some.inj h
  rfl

lemma findOne_of_mem (hk : k ∈ unique) (hd : d ∈ c.docs) (hv : d.lookup k = some v) :
    c.findOne k v = some d := by
  cases he : c.findOne k v with
  | none =>
    have := List.find?_eq_none.mp he d hd
    simp [hv] at this
  | some e =>
    have hev : e.lookup k = some v := by simpa using List.find?_some he
    rw [List.inj_on_of_nodup_map (c.distinct k hk) (List.mem_of_find?_eq_some he) hd (hev.trans hv.symm)]

lemma mem_updated_of_ne {docs : List (Document K V)} (hd : d ∈ docs) (hv : d.lookup k ≠ some v) :
    d ∈ updated k v fields docs := by
  induction docs with
  | nil => simp at hd
  | cons e docs ih =>
    unfold updated
    rcases List.mem_cons.mp hd with rfl | hd
    · rw [if_neg hv]
      exact List.mem_cons_self
    · split_ifs
      · exact List.mem_cons_of_mem _ hd
      · exact List.mem_cons_of_mem _ (ih hd)

/-- Fields other than the one by which documents are found may be set. -/
lemma findOne_updateOne (hk : ∀ e ∈ fields, e.1 ≠ k) (h : c.updateOne k v fields = some c') :
    c'.findOne k w = if w = v then (c.findOne k v).map fun d => Document.setAll d fields else c.findOne k w := by
  unfold findOne
  rw [docs_updateOne h]
  induction c.docs with
  | nil => split_ifs <;> rfl
  | cons e docs ih =>
    unfold updated
    by_cases he : e.lookup k = some v
    · rw [if_pos he]
      by_cases hw : w = v
      · simp [Document.lookup_setAll_of_ne hk, he, hw]
      · simp [Document.lookup_setAll_of_ne hk, he, hw, Ne.symm hw]
    · rw [if_neg he]
      by_cases hw : e.lookup k = some w
      · have hne : w ≠ v := fun hwv => he (hwv ▸ hw)
        simp [hw, hne]
      · rw [List.find?_cons_of_neg (by simpa using hw), ih, List.find?_cons_of_neg (by simpa using he),
          List.find?_cons_of_neg (by simpa using hw)]

end Collection

end Simple.Lib
