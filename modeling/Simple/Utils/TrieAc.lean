import Simple.Lib.Breadth

/-! `trie_ac`: a trie of patterns becomes an automaton. States are numbered from 0, and an index
behind the end of a table gives `none`. -/

namespace Simple.Utils

open Simple.Lib

structure TrieNode where
  character : UInt8
  next : ℕ
deriving DecidableEq

abbrev NodeSet := List TrieNode

/-- In which order a loop over a set takes its nodes. -/
structure Iteration where
  items : NodeSet → List TrieNode
  perm : ∀ s, (items s).Perm s

structure AcDfa where
  gotoT : List NodeSet := []
  outputT : List ℕ := []
  ignoreCase : Bool := false
deriving DecidableEq

structure TrieAc where
  data : Option AcDfa := none
  reserve : Option AcDfa := none
  failTable : List Int := []
  state : ℕ := 0

def NodeSet.emplace (s : NodeSet) (node : TrieNode) : NodeSet :=
  if s.any fun it => it.character = node.character then s else s ++ [node]

def tolower (ch : UInt8) : UInt8 := if 65 ≤ ch ∧ ch ≤ 90 then ch + 32 else ch

def folded (ignoreCase : Bool) (ch : UInt8) : UInt8 := if ignoreCase then tolower ch else ch

namespace TrieAc

def resize {α : Type} (l : List α) (n : ℕ) (x : α) : List α :=
  l.take n ++ List.replicate (n - l.length) x

def at? {α : Type} (l : List α) (i : Int) : Option α := if i < 0 then none else l[i.toNat]?

def put? {α : Type} (l : List α) (i : ℕ) (x : α) : Option (List α) :=
  if i < l.length then some (l.set i x) else none

def nextState (table : List NodeSet) (state : Int) (ch : UInt8) : Int :=
  if state < 0 then 0
  else
    match table[state.toNat]? with
    | none => 0
    | some item =>
      match item.find? fun it => it.character = ch with
      | none => if state = 0 then 0 else -1
      | some it => it.next

def init (t : TrieAc) (ignoreCase : Bool) : TrieAc :=
  let reserve := t.reserve.getD {}
  { t with
    reserve := some {
      gotoT := resize reserve.gotoT 1 []
      outputT := resize reserve.outputT 1 0
      ignoreCase := ignoreCase }
    state := 0 }

def updateLoop (d : AcDfa) (state now : ℕ) : List UInt8 → Option (AcDfa × ℕ × ℕ)
  | [] => some (d, state, now)
  | ch :: strv =>
    let ch := folded d.ignoreCase ch
    let next := nextState d.gotoT now ch
    if next ≤ 0 then
      (d.gotoT[now]?).bind fun item =>
        updateLoop { d with
          gotoT := d.gotoT.set now (item.emplace ⟨ch, state + 1⟩) ++ [[]]
          outputT := d.outputT ++ [0] } (state + 1) (state + 1) strv
    else updateLoop d state next.toNat strv

def update (t : TrieAc) (strv : List UInt8) : Option TrieAc := do
  let d ← t.reserve
  let (d, state, now) ← updateLoop d t.state 0 strv
  let out ← d.outputT[now]?
  let outputT ← put? d.outputT now (max out strv.length)
  some { t with reserve := some { d with outputT := outputT }, state := state }

def failLoop (table : List NodeSet) (fail : List Int) (ch : UInt8) : ℕ → Int → Option Int
  | 0, _ => none
  | fuel + 1, prev =>
    (at? fail prev).bind fun prev =>
      let ret := nextState table prev ch
      if ret < 0 then failLoop table fail ch fuel prev else some ret

structure Links where
  fail : List Int
  output : List ℕ

def linkChild (table : List NodeSet) (fuel state : ℕ) (it : TrieNode) (s : Links) : Option Links := do
  let ret ← failLoop table s.fail it.character fuel state
  let fail ← put? s.fail it.next ret
  let val ← at? s.output ret
  if 0 < val then
    let own ← s.output[it.next]?
    let output ← put? s.output it.next (max val own)
    some ⟨fail, output⟩
  else some { s with fail := fail }

def linkChildren (table : List NodeSet) (fuel state : ℕ) :
    Links → List ℕ → List TrieNode → Option (Links × List ℕ)
  | s, new, [] => some (s, new)
  | s, new, it :: items =>
    (s.fail[it.next]?).bind fun old =>
      if old ≠ -1 then linkChildren table fuel state s new items
      else
        (linkChild table fuel state it s).bind fun s =>
          linkChildren table fuel state s (new ++ [it.next]) items

def linkRoots (fail : List Int) (q : List ℕ) : List TrieNode → Option (List Int × List ℕ)
  | [] => some (fail, q)
  | it :: items => (put? fail it.next 0).bind fun fail => linkRoots fail (q ++ [it.next]) items

def visitLinks (order : Iteration) (table : List NodeSet) (fuel : ℕ) (s : Links) (state : ℕ) :
    Option (Links × List ℕ) :=
  (table[state]?).bind fun item => linkChildren table fuel state s [] (order.items item)

def buildFailTable (order : Iteration) (fuel : ℕ) (t : TrieAc) : Option TrieAc := do
  let d ← t.reserve
  if d.gotoT = [] then some t
  else
    let resized := resize t.failTable d.gotoT.length (-1)
    let reset := min t.failTable.length resized.length
    let cleared := List.replicate reset (-1) ++ resized.drop reset
    let root ← d.gotoT[0]?
    let (fail, q) ← linkRoots cleared [] (order.items root)
    let s ← whileQueue (visitLinks order d.gotoT fuel) fuel ⟨fail, d.outputT⟩ q
    some { t with reserve := some { d with outputT := s.output }, failTable := s.fail }

def allChars : List UInt8 := (List.range 256).map UInt8.ofNat

/-- What the state has no transition for it does as its link does. -/
def completeState (fail : List Int) (state : ℕ) :
    List NodeSet → List ℕ → List UInt8 → Option (List NodeSet × List ℕ)
  | table, new, [] => some (table, new)
  | table, new, ch :: chs =>
    let next := nextState table state ch
    if 0 < next then completeState fail state table (new ++ [next.toNat]) chs
    else
      (fail[state]?).bind fun link =>
        let next := nextState table link ch
        if 0 < next then
          (table[state]?).bind fun item =>
            completeState fail state (table.set state (item.emplace ⟨ch, next.toNat⟩)) new chs
        else completeState fail state table new chs

def convertToDfa (order : Iteration) (fuel : ℕ) (t : TrieAc) : Option TrieAc := do
  let d ← t.reserve
  if d.gotoT = [] ∨ t.failTable = [] then some t
  else
    let root ← d.gotoT[0]?
    let table ← whileQueue (fun table state => completeState t.failTable state table [] allChars) fuel
      d.gotoT ((order.items root).map TrieNode.next)
    some { t with reserve := some { d with gotoT := table } }

/-- `inUse` is whether somebody still searches the automaton that is replaced. -/
def final (order : Iteration) (fuel : ℕ) (inUse : Bool) (t : TrieAc) : Option TrieAc := do
  let t ← buildFailTable order fuel t
  let t ← convertToDfa order fuel t
  some { t with data := t.reserve, reserve := if inUse then none else t.data }

def inTrieLoop (d : AcDfa) : Int → List UInt8 → Option Bool
  | _, [] => some false
  | state, ch :: strv =>
    if ch = 0 then some false
    else
      let next := nextState d.gotoT state (folded d.ignoreCase ch)
      let state := if next < 0 then 0 else next
      (at? d.outputT state).bind fun out => if 0 < out then some true else inTrieLoop d state strv

def inTrie (t : TrieAc) (strv : List UInt8) : Option Bool :=
  match t.data with
  | none => some false
  | some d => if d.gotoT = [] then some false else inTrieLoop d 0 strv

def byteAt (str : List UInt8) (i : ℕ) : Option UInt8 := (str ++ [0])[i]?

def utf8Loop (str : List UInt8) (size cnt : ℕ) : List ℕ → Option ℕ
  | [] => some cnt
  | i :: is =>
    (byteAt str i).bind fun val =>
      if size ≤ i ∨ 192 ≤ val ∨ val < 128 then some 1 else utf8Loop str size cnt is

/-- How far the next character is, of which the first byte tells the length. -/
def nextUtf8 (str : List UInt8) (size : ℕ) : Option ℕ :=
  (byteAt str 0).bind fun val =>
    if val < 128 then some 1
    else if val < 224 then utf8Loop str size 2 (List.range' 1 1)
    else if val < 240 then utf8Loop str size 3 (List.range' 1 2)
    else if val < 248 then utf8Loop str size 4 (List.range' 1 3)
    else if val < 252 then utf8Loop str size 5 (List.range' 1 4)
    else if val < 254 then utf8Loop str size 6 (List.range' 1 5)
    else some 1

def cntUtf8 : ℕ → List UInt8 → ℕ → Option ℕ
  | _, _, 0 => some 0
  | 0, _, _ + 1 => none
  | fuel + 1, str, len + 1 =>
    (nextUtf8 str (len + 1)).bind fun next =>
      (cntUtf8 fuel (str.drop next) (len + 1 - next)).map (· + 1)

/-- The positions are unsigned, and a loop from behind its end does nothing. -/
def addIdx (sz : ℕ) (replaceIdx : List Bool) (maxSz pos : ℕ) : Option (List Bool) :=
  if 0 < maxSz then
    let replaceIdx := if replaceIdx = [] then resize replaceIdx sz false else replaceIdx
    let start := if maxSz ≤ pos then pos - maxSz else pos + 2 ^ 64 - maxSz
    (List.range' start (pos - start)).foldlM (fun replaceIdx i => put? replaceIdx i true) replaceIdx
  else some replaceIdx

def markLoop (d : AcDfa) (sz : ℕ) : Int → ℕ → List Bool → List UInt8 → Option (List Bool)
  | _, _, replaceIdx, [] => some replaceIdx
  | state, i, replaceIdx, ch :: str =>
    if ch = 0 then some replaceIdx
    else
      let next := nextState d.gotoT state (folded d.ignoreCase ch)
      let state := if next < 0 then 0 else next
      (at? d.outputT state).bind fun maxSz =>
        (addIdx sz replaceIdx maxSz (i + 1)).bind fun replaceIdx =>
          markLoop d sz state (i + 1) replaceIdx str

def runEnd (replaceIdx : List Bool) (stop : ℕ) : ℕ :=
  stop + ((replaceIdx.drop stop).takeWhile id).length

def starLoop (str : List UInt8) (replaceIdx : List Bool) :
    ℕ → ℕ → ℕ → List UInt8 → Option (List UInt8 × ℕ)
  | 0, start, last, temp => if start < str.length then none else some (temp, last)
  | fuel + 1, start, last, temp =>
    if start < str.length then
      (replaceIdx[start]?).bind fun marked =>
        if marked then
          let temp := temp ++ (str.drop last).take (start - last)
          let stop := runEnd replaceIdx (start + 1)
          (cntUtf8 (stop - start) (str.drop start) (stop - start)).bind fun cnt =>
            starLoop str replaceIdx fuel stop stop (temp ++ List.replicate cnt 42)
        else starLoop str replaceIdx fuel (start + 1) last temp
    else some (temp, last)

def replace (t : TrieAc) (str : List UInt8) : Option (List UInt8) :=
  match t.data with
  | none => some str
  | some d =>
    if d.gotoT = [] then some str
    else
      (markLoop d str.length 0 0 [] str).bind fun replaceIdx =>
        if replaceIdx = [] then some str
        else
          (starLoop str replaceIdx str.length 0 0 []).map fun (temp, last) =>
            if last < str.length then temp ++ str.drop last else temp

def cycle (order : Iteration) (fuel : ℕ) (ignoreCase : Bool) (patterns : List (List UInt8)) :
    Option TrieAc := do
  let t ← patterns.foldlM update (init {} ignoreCase)
  final order fuel false t

end TrieAc

end Simple.Utils
