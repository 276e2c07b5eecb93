import Simple.Lib.Machine

/-! `heap_raw`: binary heaps of nodes that are linked to each other. -/

namespace Simple.Containers

open Simple.Lib

@[ext] structure HeapNode (N H : Type) where
  left : Option N := none
  right : Option N := none
  parent : Option N := none
  heap : Option H := none

/-- The nodes, and the heaps with their `min_` and `size_`. -/
structure HeapRaw (N H : Type) where
  node : N → HeapNode N H := fun _ => {}
  min : H → Option N := fun _ => none
  size : H → ℕ := fun _ => 0

namespace HeapRaw

/-- Where a link is kept: the target of a `heap_node**`. -/
inductive Slot (N : Type)
  | min
  | left (x : N)
  | right (x : N)
deriving DecidableEq

variable {N H : Type} [DecidableEq N] [DecidableEq H]

def modify (x : N) (f : HeapNode N H → HeapNode N H) (m : HeapRaw N H) : HeapRaw N H :=
  { m with node := Function.update m.node x (f (m.node x)) }

def setMin (h : H) (x : Option N) (m : HeapRaw N H) : HeapRaw N H := { m with min := Function.update m.min h x }

def setSize (h : H) (n : ℕ) (m : HeapRaw N H) : HeapRaw N H := { m with size := Function.update m.size h n }

def get (h : H) (m : HeapRaw N H) : Slot N → Option N
  | .min => m.min h
  | .left x => (m.node x).left
  | .right x => (m.node x).right

def set (h : H) (x : Option N) (m : HeapRaw N H) : Slot N → HeapRaw N H
  | .min => m.setMin h x
  | .left y => m.modify y fun v => { v with left := x }
  | .right y => m.modify y fun v => { v with right := x }

/-- `if (x) x->parent = y`. -/
def adopt (x : Option N) (y : N) (m : HeapRaw N H) : HeapRaw N H :=
  match x with
  | none => m
  | some x => m.modify x fun v => { v with parent := some y }

/-- The link from above to `old`, which is the left child of `parent` or else the right one. -/
def replace (h : H) (parent : Option N) (old new : N) (m : HeapRaw N H) : HeapRaw N H :=
  match parent with
  | none => m.setMin h (some new)
  | some p =>
    if (m.node p).left = some old then m.modify p fun v => { v with left := some new }
    else m.modify p fun v => { v with right := some new }

/-- `swap_node` but for the link from above. -/
def exchange (parent child : N) (m : HeapRaw N H) : HeapRaw N H :=
  let temp := m.node parent
  let m := m.modify parent fun _ => m.node child
  let m := m.modify child fun _ => temp
  let m := m.modify parent fun v => { v with parent := some child }
  let m :=
    if (m.node child).left = some child then
      let m := m.modify child fun v => { v with left := some parent }
      m.adopt (m.node child).right child
    else
      let m := m.modify child fun v => { v with right := some parent }
      m.adopt (m.node child).left child
  let m := m.adopt (m.node parent).left parent
  m.adopt (m.node parent).right parent

def swapNode (h : H) (parent child : N) (m : HeapRaw N H) : HeapRaw N H :=
  let m := m.exchange parent child
  m.replace h (m.node child).parent parent child

/-- The path to the position `n`, with the first step in the lowest bit, and its length. -/
def path (n k path : ℕ) : ℕ × ℕ :=
  if 2 ≤ n then HeapRaw.path (n / 2) (k + 1) (path <<< 1 ||| (n &&& 1)) else (k, path)
termination_by n

/-- The two pointers after `k` steps, unless one of them would go through a null link. -/
def walk (h : H) (m : HeapRaw N H) : ℕ → ℕ → Slot N → Slot N → Option (Slot N × Slot N)
  | 0, _, parent, child => some (parent, child)
  | k + 1, path, _, child =>
    (m.get h child).bind fun x => walk h m k (path >>> 1) child (if path &&& 1 ≠ 0 then .right x else .left x)

variable (less : N → N → Bool)

/-- The loops take at most `turns` turns; there is no result when they take more. -/
def siftUp (h : H) (x : N) : ℕ → HeapRaw N H → Option (HeapRaw N H)
  | 0, _ => none
  | turns + 1, m =>
    match (m.node x).parent with
    | none => some m
    | some p => if less x p then siftUp h x turns (m.swapNode h p x) else some m

def smaller (x : Option N) (smallest : N) : N :=
  match x with
  | none => smallest
  | some x => if less x smallest then x else smallest

def siftDown (h : H) (x : N) : ℕ → HeapRaw N H → Option (HeapRaw N H)
  | 0, _ => none
  | turns + 1, m =>
    let smallest := smaller less (m.node x).right (smaller less (m.node x).left x)
    if smallest = x then some m else siftDown h x turns (m.swapNode h x smallest)

/-- `child` is the free place of the bottom row, and `parent` the link before it on the path. -/
def attach (h : H) (x : N) (parent child : Slot N) (m : HeapRaw N H) : HeapRaw N H :=
  let m := m.modify x fun v => { v with parent := m.get h parent }
  let m := m.set h (some x) child
  let m := m.modify x fun v => { v with heap := some h }
  m.setSize h (m.size h + 1)

def insert (h : H) (x : N) (m : HeapRaw N H) : Option (HeapRaw N H × Bool) :=
  if (m.node x).heap.isSome then some (m, false)
  else
    let m := m.modify x fun v => { v with left := none, right := none, parent := none }
    let (k, path) := path (1 + m.size h) 0 0
    (walk h m k path .min .min).bind fun (parent, child) =>
      let m := m.attach h x parent child
      (siftUp less h x (m.size h) m).map fun m => (m, true)

def inherit (node child : N) (m : HeapRaw N H) : HeapRaw N H :=
  let v := m.node node
  let m := m.modify child fun c => { c with left := v.left, right := v.right, parent := v.parent }
  let m := m.adopt (m.node child).left child
  m.adopt (m.node child).right child

def putInPlace (h : H) (node child : N) (m : HeapRaw N H) : HeapRaw N H :=
  let m := m.inherit node child
  let m := m.replace h (m.node node).parent node child
  m.modify node fun v => { v with heap := none }

def remove (h : H) (x : N) (m : HeapRaw N H) : Option (HeapRaw N H × Bool) :=
  if (m.node x).heap ≠ some h then some (m, false)
  else if m.size h = 0 then some (m, false)
  else
    let (k, path) := path (m.size h) 0 0
    (walk h m k path .min .min).bind fun (_, max) =>
      let m := m.setSize h (m.size h - 1)
      (m.get h max).bind fun child =>
        let m := m.set h none max
        if child = x then
          let m := if some child = m.min h then m.setMin h none else m
          some (m.modify x fun v => { v with heap := none }, true)
        else
          (siftDown less h child (m.size h) (m.putInPlace h x child)).bind fun m =>
            (siftUp less h child (m.size h) m).map fun m => (m, true)

inductive Action (N H : Type)
  | insert (h : H) (x : N)
  | remove (h : H) (x : N)

def step (m : HeapRaw N H) : Action N H → Option (HeapRaw N H)
  | .insert h x => (m.insert less h x).map Prod.fst
  | .remove h x => (m.remove less h x).map Prod.fst

def machine : Machine (HeapRaw N H) (Action N H) where
  initial := {}
  step := step less

end HeapRaw

end Simple.Containers
