import Mathlib.Data.List.AList
import Mathlib.Tactic

/-! Finite tables with keys and values, after `AList`. -/

namespace Simple.Lib

def Table (K V : Type) : Type := AList fun _ : K => V

namespace Table

variable {K V : Type}

def toList (t : Table K V) : List (K × V) := t.entries.map fun e => (e.1, e.2)

instance : EmptyCollection (Table K V) := ⟨(∅ : AList _)⟩

variable [DecidableEq K]

def get (t : Table K V) (k : K) : Option V := AList.lookup k t

def set (t : Table K V) (k : K) (v : V) : Table K V := AList.insert k v t

def remove (t : Table K V) (k : K) : Table K V := AList.erase k t

def modify (t : Table K V) (k : K) (f : V → V) : Table K V :=
  match t.get k with
  | none => t
  | some v => t.set k (f v)

variable {t : Table K V} {k l : K} {v : V}

@[simp] lemma get_set_self : (t.set k v).get k = some v := AList.lookup_insert t

@[simp] lemma get_set_ne (h : l ≠ k) : (t.set k v).get l = t.get l := AList.lookup_insert_ne h

lemma get_set : (t.set k v).get l = if l = k then some v else t.get l := by
  split_ifs with h
  · rw [h, get_set_self]
  · exact get_set_ne h

lemma get_remove : (t.remove k).get l = if l = k then none else t.get l := by
  split_ifs with h
  · subst h
    exact AList.lookup_erase l t
  · exact AList.lookup_erase_ne h

lemma get_modify (f : V → V) :
    (t.modify k f).get l = if l = k then (t.get l).map f else t.get l := by
  unfold modify
  split
  · next hn =>
    split_ifs with h
    · rw [h, hn, Option.map_none]
    · rfl
  · next v hv =>
    rw [get_set]
    split_ifs with h
    · rw [h, hv, Option.map_some]
    · rfl

lemma get_foldl_remove (ks : List K) :
    (ks.foldl (fun t k => t.remove k) t).get l = if l ∈ ks then none else t.get l := by
  induction ks generalizing t with
  | nil => rfl
  | cons k ks ih =>
    rw [List.foldl_cons, ih, get_remove]
    by_cases hk : l = k <;> by_cases hks : l ∈ ks <;> simp [hk, hks]

lemma get_foldl_modify (ks : List K) {f : V → V} (hf : ∀ v, f (f v) = f v) :
    (ks.foldl (fun t k => t.modify k f) t).get l =
      if l ∈ ks then (t.get l).map f else t.get l := by
  induction ks generalizing t with
  | nil => simp
  | cons k ks ih =>
    rw [List.foldl_cons, ih, get_modify]
    by_cases hk : l = k
    · simp [hk, Function.comp_def, hf]
    · simp [hk]

lemma mem_toList : (k, v) ∈ t.toList ↔ t.get k = some v := by
  rw [toList, List.mem_map]
  constructor
  · rintro ⟨⟨k', v'⟩, he, heq⟩
    obtain ⟨rfl, rfl⟩ := Prod.mk.inj heq
    exact AList.mem_lookup_iff.mpr he
  · intro h
    exact ⟨⟨k, v⟩, AList.mem_lookup_iff.mp h, rfl⟩

end Table

end Simple.Lib
