import Mathlib.Tactic
import Simple.Lib.Checked

/-! The client of the game: the lines that are typed at the prompt, and the stones they put. -/

namespace Simple.Gobang

open Simple.Lib

namespace Client

abbrev Line := List Char

inductive PosState
  | none | black | white
  deriving DecidableEq

def checkerboardSize : ℕ := 15

abbrev Board := Vector PosState (checkerboardSize * checkerboardSize)

inductive ErrorCode
  | success | unknown | system | timeout | invalidPos | noMatch | noData
  deriving DecidableEq

inductive OverType
  | none | win | lose | draw
  deriving DecidableEq

/-- A value of `int32_t` as a `uint32_t`. -/
def unsigned (n : ℤ) : ℕ := (n % 2 ^ 32).toNat

/-- `x * checkerboard_size + y` in `uint32_t` -/
def index (x y : ℕ) : ℕ := (x * checkerboardSize + y) % 2 ^ 32

def split (line : Line) : Option (Line × Line) :=
  let pos := line.idxOf ','
  if pos = line.length ∨ pos + 1 = line.length then none
  else some (line.take pos, line.drop (pos + 1))

def digitsValue (digits : Line) : ℤ := digits.foldl (fun n c => n * 10 + (c.toNat - '0'.toNat)) 0

def signOf : Line → ℤ × Line
  | '-' :: rest => (-1, rest)
  | text => (1, text)

/-- `std::from_chars` on an `int32_t`, which is left alone when there is no number or too large a
one. -/
def fromChars (text : Line) : Option ℤ :=
  let (sign, rest) := signOf text
  let digits := rest.takeWhile Char.isDigit
  if digits = [] then none else int32 (sign * digitsValue digits)

end Client

open Client

/-- `x` and `y` are the coordinates of `logic`, which are unset until a number is read. -/
structure Client where
  checkerboard : Board := Vector.replicate _ .none
  isBlack : Bool
  isMyTurn : Bool
  room : ℤ
  stopped : Bool := false
  x : Option ℤ := none
  y : Option ℤ := none

namespace Client

def put (index : ℕ) (s : PosState) (c : Client) : Option Client :=
  if h : index < checkerboardSize * checkerboardSize then
    some { c with checkerboard := c.checkerboard.set index s h }
  else none

def move (isBlack : Bool) (x y : ℕ) (c : Client) : Option Client :=
  c.put (index x y) (if isBlack then .black else .white)

def back (x y : ℕ) (c : Client) : Option Client := c.put (index x y) .none

def checkPos (x y : ℕ) (c : Client) : Bool :=
  if checkerboardSize ≤ x ∨ checkerboardSize ≤ y then false
  else c.checkerboard[index x y]? = some .none

inductive Reply
  | askAgain
  | moveReq (x y : ℕ)
  deriving DecidableEq

def readPos (first second : Line) (c : Client) : Client :=
  { c with x := (fromChars first).or c.x, y := (fromChars second).or c.y }

/-- The coordinates are refused where `check_pos` takes them. -/
def tryMove (c : Client) : Option (Client × Reply) := do
  let x ← c.x
  let y ← c.y
  if c.checkPos (unsigned x) (unsigned y) = true then some (c, .askAgain)
  else do
    let c' ← c.move c.isBlack (unsigned x) (unsigned y)
    some (c', .moveReq (unsigned x) (unsigned y))

/-- A line at the prompt; `none`: coordinates are read that were never set, or the stone is put
outside of the board. -/
def typed (line : Line) (c : Client) : Option (Client × Reply) :=
  match split line with
  | none => some (c, .askAgain)
  | some (first, second) => (c.readPos first second).tryMove

def showGameOver (result : OverType) (c : Client) : Client :=
  match result with
  | .win | .lose | .draw => { c with room := 0 }
  | .none => c

def moveAck (x y : ℕ) (ec : ErrorCode) (result : OverType) (c : Client) : Option Client :=
  if ec = .invalidPos then c.back x y
  else if ec ≠ .success then some { c with stopped := true }
  else some { c.showGameOver result with isMyTurn := false }

/-- The line names an empty cell of the board. -/
def Names (board : Board) (line : Line) (x y : ℕ) : Prop :=
  ∃ first second, line = first ++ ',' :: second ∧ ',' ∉ first ∧
    fromChars first = some (x : ℤ) ∧ fromChars second = some (y : ℤ) ∧
    x < checkerboardSize ∧ y < checkerboardSize ∧ board[x * checkerboardSize + y]? = some .none

/-- The stone is put and requested exactly where the line says, and neither it nor the answer to the
request touches anything outside of the board. -/
def Guarded (c : Client) (line : Line) : Prop :=
  ∃ c' r, c.typed line = some (c', r) ∧
    (∀ x y, Names c.checkerboard line x y → r = .moveReq x y ∧
      c.move c.isBlack x y = some { c with checkerboard := c'.checkerboard }) ∧
    ((¬∃ x y, Names c.checkerboard line x y) → r = .askAgain ∧ c'.checkerboard = c.checkerboard) ∧
    ∀ x y ec result, r = .moveReq x y → index x y < checkerboardSize * checkerboardSize ∧
      c'.moveAck x y ec result ≠ none

/-- The line has no two parts, or one of them is no number and the coordinates that `x` and `y` hold
then are those of an empty cell. -/
def Refused (c : Client) (line : Line) : Prop :=
  ∀ first second, split line = some (first, second) →
    (fromChars first = none ∨ fromChars second = none) ∧
      ∃ x y, (fromChars first).or c.x = some x ∧ (fromChars second).or c.y = some y ∧
        c.checkPos (unsigned x) (unsigned y) = true

variable {line first second text : Line} {board : Board} {c : Client} {x y : ℕ} {n : ℤ}

lemma split_append (h : ',' ∉ first) :
    split (first ++ ',' :: second) = if second = [] then none else some (first, second) := by
  have hpos : (first ++ ',' :: second).idxOf ',' = first.length := by
    rw [List.idxOf_append_of_notMem h, List.idxOf_cons_self, Nat.add_zero]
  simp [split, hpos]

lemma split_of_notMem (h : ',' ∉ line) : split line = none := by
  rw [split]
  exact if_pos (Or.inl (List.idxOf_eq_length_iff.mpr h))

lemma split_eq_some_iff : split line = some (first, second) ↔
    line = first ++ ',' :: second ∧ ',' ∉ first ∧ second ≠ [] := by
  constructor
  · intro h
    by_cases hmem : ',' ∈ line
    · obtain ⟨before, behind, rfl, hbefore⟩ := List.eq_append_cons_of_mem hmem
      rw [split_append hbefore] at h
      split_ifs at h with hbehind
      cases h
      exact ⟨rfl, hbefore, hbehind⟩
    · rw [split_of_notMem hmem] at h
      cases h
  · rintro ⟨rfl, hfirst, hsecond⟩
    rw [split_append hfirst, if_neg hsecond]

lemma unsigned_natCast (h : x < 2 ^ 32) : unsigned x = x := by
  rw [unsigned]
  omega

lemma eq_unsigned_of_fromChars (h : fromChars text = some n) (hlt : unsigned n < checkerboardSize) :
    n = unsigned n := by
  have hfits : -2 ^ 31 ≤ n ∧ n < 2 ^ 31 := by
    by_contra hnot
    simp only [fromChars] at h
    split_ifs at h
    have heq := eq_of_int32 h
    rw [heq, int32_of_not_fits hnot] at h
    cases h
  rw [unsigned, checkerboardSize] at *
  omega

lemma index_eq (hx : x < checkerboardSize) (hy : y < checkerboardSize) :
    index x y = x * checkerboardSize + y := by
  rw [index, checkerboardSize] at *
  omega

lemma checkPos_iff : c.checkPos x y = true ↔ x < checkerboardSize ∧ y < checkerboardSize ∧
    c.checkerboard[x * checkerboardSize + y]? = some .none := by
  rw [checkPos]
  split_ifs with hout
  · refine iff_of_false (by simp) fun h => ?_
    omega
  · obtain ⟨hx, hy⟩ := not_or.mp hout
    rw [not_le] at hx hy
    rw [index_eq hx hy, decide_eq_true_iff]
    exact ⟨fun h => ⟨hx, hy, h⟩, fun h => h.2.2⟩

lemma split_of_names (h : Names board line x y) : ∃ first second, split line = some (first, second) ∧
    fromChars first = some (x : ℤ) ∧ fromChars second = some (y : ℤ) := by
  obtain ⟨first, second, hline, hcomma, hx, hy, -⟩ := h
  refine ⟨first, second, split_eq_some_iff.mpr ⟨hline, hcomma, ?_⟩, hx, hy⟩
  rintro rfl
  cases hy

lemma typed_of_split_eq_none (h : split line = none) : c.typed line = some (c, .askAgain) := by
  rw [typed, h]

lemma typed_of_unset (h : split line = some (first, second))
    (hunset : (fromChars first).or c.x = none ∨ (fromChars second).or c.y = none) :
    c.typed line = none := by
  simp only [typed, h, readPos, tryMove]
  cases hx : (fromChars first).or c.x with
  | none => rfl
  | some x =>
    rw [hx] at hunset
    rw [hunset.resolve_left (Option.some_ne_none x)]
    rfl

lemma typed_of_set {x y : ℤ} (h : split line = some (first, second))
    (hx : (fromChars first).or c.x = some x) (hy : (fromChars second).or c.y = some y) :
    c.typed line = if c.checkPos (unsigned x) (unsigned y) = true
      then some ({ c with x := some x, y := some y }, .askAgain)
      else (({ c with x := some x, y := some y } : Client).move c.isBlack (unsigned x)
        (unsigned y)).map (·, .moveReq (unsigned x) (unsigned y)) := by
  simp only [typed, h, readPos, tryMove, hx, hy, Option.bind_eq_bind, Option.bind_some, Option.map_eq_bind]
  rfl

lemma typed_of_names (h : Names c.checkerboard line x y) :
    c.typed line = some ({ c with x := some (x : ℤ), y := some (y : ℤ) }, .askAgain) := by
  obtain ⟨first, second, hsplit, hx, hy⟩ := split_of_names h
  obtain ⟨-, -, -, -, -, -, hxlt, hylt, hcell⟩ := h
  rw [typed_of_set hsplit (by rw [hx]; rfl) (by rw [hy]; rfl), if_pos]
  rw [unsigned_natCast (by rw [checkerboardSize] at hxlt; omega),
    unsigned_natCast (by rw [checkerboardSize] at hylt; omega)]
  exact checkPos_iff.mpr ⟨hxlt, hylt, hcell⟩

lemma names_of_checkPos {x y : ℤ} (h : split line = some (first, second))
    (hx : fromChars first = some x) (hy : fromChars second = some y)
    (hpos : c.checkPos (unsigned x) (unsigned y) = true) :
    Names c.checkerboard line (unsigned x) (unsigned y) := by
  obtain ⟨hline, hcomma, -⟩ := split_eq_some_iff.mp h
  obtain ⟨hxlt, hylt, hcell⟩ := checkPos_iff.mp hpos
  rw [eq_unsigned_of_fromChars hx hxlt] at hx
  rw [eq_unsigned_of_fromChars hy hylt] at hy
  exact ⟨first, second, hline, hcomma, hx, hy, hxlt, hylt, hcell⟩

lemma not_names_of_refused (h : c.Refused line) : ¬∃ x y, Names c.checkerboard line x y := by
  rintro ⟨x, y, hnames⟩
  obtain ⟨first, second, hsplit, hx, hy⟩ := split_of_names hnames
  rcases (h first second hsplit).1 with hnone | hnone
  · exact Option.some_ne_none _ (hx.symm.trans hnone)
  · exact Option.some_ne_none _ (hy.symm.trans hnone)

lemma typed_of_refused (h : c.Refused line) :
    ∃ c', c.typed line = some (c', .askAgain) ∧ c'.checkerboard = c.checkerboard := by
  cases hsplit : split line with
  | none => exact ⟨c, typed_of_split_eq_none hsplit, rfl⟩
  | some parts =>
    obtain ⟨-, x, y, hx, hy, hpos⟩ := h parts.1 parts.2 hsplit
    exact ⟨_, (typed_of_set hsplit hx hy).trans (if_pos hpos), rfl⟩

lemma refused_of_askAgain {c' : Client} (h : c.typed line = some (c', .askAgain))
    (hnot : ¬∃ x y, Names c.checkerboard line x y) : c.Refused line := by
  intro first second hsplit
  cases hx : (fromChars first).or c.x with
  | none =>
    rw [typed_of_unset hsplit (Or.inl hx)] at h
    cases h
  | some x =>
    cases hy : (fromChars second).or c.y with
    | none =>
      rw [typed_of_unset hsplit (Or.inr hy)] at h
      cases h
    | some y =>
      rw [typed_of_set hsplit hx hy] at h
      split_ifs at h with hpos
      · refine ⟨?_, x, y, rfl, rfl, hpos⟩
        by_contra hnumbers
        obtain ⟨hfirst, hsecond⟩ := not_or.mp hnumbers
        obtain ⟨x', hx'⟩ := Option.ne_none_iff_exists'.mp hfirst
        obtain ⟨y', hy'⟩ := Option.ne_none_iff_exists'.mp hsecond
        obtain rfl : x' = x := by simpa [hx'] using hx
        obtain rfl : y' = y := by simpa [hy'] using hy
        exact hnot ⟨_, _, names_of_checkPos hsplit hx' hy' hpos⟩
      · obtain ⟨_, -, hreply⟩ := Option.map_eq_some_iff.mp h
        cases hreply

lemma refused_of_guarded (h : c.Guarded line) : c.Refused line := by
  obtain ⟨c', r, htyped, hnames, hother, -⟩ := h
  have hnot : ¬∃ x y, Names c.checkerboard line x y := by
    rintro ⟨x, y, hxy⟩
    have hreply := (hnames x y hxy).1
    rw [typed_of_names hxy, hreply] at htyped
    cases htyped
  rw [(hother hnot).1] at htyped
  exact refused_of_askAgain htyped hnot

/-- The prompt does what it is for exactly on the lines that it would refuse anyway: `check_pos` is
true of the coordinates that are good, and its result is read the other way. -/
theorem guarded_iff_refused (c : Client) (line : Line) : c.Guarded line ↔ c.Refused line := by
  constructor
  · exact refused_of_guarded
  · intro h
    obtain ⟨c', htyped, hboard⟩ := typed_of_refused h
    refine ⟨c', .askAgain, htyped, ?_, ?_, ?_⟩
    · exact fun x y hnames => absurd ⟨x, y, hnames⟩ (not_names_of_refused h)
    · exact fun _ => ⟨rfl, hboard⟩
    · exact fun x y ec result hr => by cases hr

def inGame : Client := { isBlack := true, isMyTurn := true, room := 1 }

/-- A good line is refused, and one that names no cell writes behind the board. -/
theorem good_line_refused :
    Names inGame.checkerboard ['7', ',', '7'] 7 7 ∧
    (∃ c, inGame.typed ['7', ',', '7'] = some (c, .askAgain)) ∧
    ¬inGame.Guarded ['7', ',', '7'] ∧
    inGame.typed ['9', '9', ',', '9', '9'] = none := by
  have hnames : Names inGame.checkerboard ['7', ',', '7'] 7 7 :=
    ⟨['7'], ['7'], rfl, by decide, by decide, by decide, by decide, by decide, by decide⟩
  have hfar : split ['9', '9', ',', '9', '9'] = some (['9', '9'], ['9', '9']) := by decide
  refine ⟨hnames, ⟨_, typed_of_names hnames⟩, ?_, ?_⟩
  · intro hguarded
    exact not_names_of_refused (refused_of_guarded hguarded) ⟨7, 7, hnames⟩
  · rw [typed_of_set (x := 99) (y := 99) hfar (by decide) (by decide), if_neg (by decide)]
    rfl

end Client

end Simple.Gobang
