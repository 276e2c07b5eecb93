import Simple.Lib.Cyclic

/-! Memory as regions of cells. What a program does outside of a region is undefined. -/

namespace Simple.Lib

open Cyclic

universe u v

inductive Result (α : Type u)
  | undefined
  | throws
  | returns (a : α)

namespace Result

variable {α : Type u} {β : Type v}

def bind (x : Result α) (f : α → Result β) : Result β :=
  match x with
  | undefined => undefined
  | throws => throws
  | returns a => f a

def ofOption : Option α → Result α
  | none => undefined
  | some a => returns a

def toOption : Result α → Option α
  | returns a => some a
  | _ => none

@[simp] lemma bind_returns (a : α) (f : α → Result β) : (returns a).bind f = f a := rfl

@[simp] lemma bind_throws (f : α → Result β) : (throws : Result α).bind f = throws := rfl

@[simp] lemma ofOption_some (a : α) : ofOption (some a) = returns a := rfl

end Result

structure Region (β : Type) where
  size : ℕ
  cells : ℕ → β

def Memory (R β : Type) : Type := R → Option (Region β)

namespace Memory

variable {R β : Type}

def load (m : Memory R β) (r : R) (i n : ℕ) : Result (List β) :=
  match m r with
  | none => .undefined
  | some g => if i + n ≤ g.size then .returns (readRange g.cells i n) else .undefined

variable [DecidableEq R]

def map (m : Memory R β) (r : R) (g : Region β) : Memory R β := Function.update m r (some g)

def unmap (m : Memory R β) (r : R) : Memory R β := Function.update m r none

def save (m : Memory R β) (r : R) (i : ℕ) (xs : List β) : Result (Memory R β) :=
  match m r with
  | none => .undefined
  | some g =>
    if i + xs.length ≤ g.size then .returns (m.map r { g with cells := writeRange g.cells i xs })
    else .undefined

/-- The size that a region is freed with is the one that it was allocated with. -/
def free (m : Memory R β) (r : R) (size : ℕ) : Result (Memory R β) :=
  match m r with
  | none => .undefined
  | some g => if g.size = size then .returns (m.unmap r) else .undefined

variable {m : Memory R β} {r s : R} {g : Region β} {i n : ℕ} {xs : List β}

@[simp] lemma map_self : m.map r g r = some g := Function.update_self ..

lemma map_of_ne (h : s ≠ r) : m.map r g s = m s := Function.update_of_ne h ..

@[simp] lemma map_map {g' : Region β} : (m.map r g).map r g' = m.map r g' := Function.update_idem ..

lemma unmap_of_ne (h : s ≠ r) : m.unmap r s = m s := Function.update_of_ne h ..

omit [DecidableEq R] in
lemma load_eq (hr : m r = some g) (hi : i + n ≤ g.size) : m.load r i n = .returns (readRange g.cells i n) := by
  simp only [load, hr, if_pos hi]

lemma save_eq (hr : m r = some g) (hi : i + xs.length ≤ g.size) :
    m.save r i xs = .returns (m.map r { g with cells := writeRange g.cells i xs }) := by
  simp only [save, hr, if_pos hi]

lemma free_eq (hr : m r = some g) (hn : g.size = n) : m.free r n = .returns (m.unmap r) := by
  simp only [free, hr, if_pos hn]

end Memory

end Simple.Lib
