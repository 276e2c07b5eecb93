import Simple.Lib.Utf8
import Simple.Utils.TrieDfa

/-! `replace` puts one star for each character of what the patterns cover. -/

namespace Simple.Utils

open Simple.Lib

namespace TrieAc

variable {d : AcDfa} {words pats : List (List UInt8)} {i k sz pos maxSz : ℕ} {t : TrieAc}

/-- The marks are those of `P`. They are made when there is something to mark. -/
structure Marked (sz : ℕ) (replaceIdx : List Bool) (P : ℕ → Prop) : Prop where
  length : replaceIdx = [] ∨ replaceIdx.length = sz
  marked : ∀ k, replaceIdx[k]? = some true ↔ P k

variable {marks : List Bool} {P Q : ℕ → Prop}

lemma Marked.congr (hm : Marked sz marks P) (h : ∀ k, P k ↔ Q k) : Marked sz marks Q :=
  ⟨hm.length, fun k => (hm.marked k).trans (h k)⟩

lemma markRange_spec (marks : List Bool) (n : ℕ) (hi : i + n ≤ marks.length) :
    ∃ marks', (List.range' i n).foldlM (fun marks i => put? marks i true) marks = some marks' ∧
      marks'.length = marks.length ∧
      ∀ k, marks'[k]? = some true ↔ marks[k]? = some true ∨ i ≤ k ∧ k < i + n := by
  induction n generalizing i marks with
  | zero =>
    refine ⟨marks, rfl, rfl, fun k => (or_iff_left ?_).symm⟩
    omega
  | succ n ih =>
    have hlt : i < marks.length := by omega
    obtain ⟨marks', hrun, hlen, hmarked⟩ := ih (i := i + 1) (marks.set i true)
      (by rw [List.length_set]; omega)
    refine ⟨marks', ?_, hlen.trans List.length_set, fun k => (hmarked k).trans ?_⟩
    · rw [List.range'_succ, List.foldlM_cons, put?, if_pos hlt]
      exact hrun
    · by_cases hk : i = k
      · subst hk
        rw [List.getElem?_set_self hlt]
        refine iff_of_true (Or.inl rfl) (Or.inr ?_)
        omega
      · rw [List.getElem?_set_ne hk]
        refine or_congr_right ?_
        omega

lemma addIdx_spec (hm : Marked sz marks P) (hle : maxSz ≤ pos) (hpos : pos ≤ sz) :
    ∃ marks', addIdx sz marks maxSz pos = some marks' ∧
      Marked sz marks' fun k => P k ∨ k < pos ∧ pos ≤ k + maxSz := by
  unfold addIdx
  by_cases hmax : 0 < maxSz
  · rw [if_pos hmax, if_pos hle]
    dsimp only
    set whole := if marks = [] then resize marks sz false else marks with hwhole
    have hlen : whole.length = sz := by
      rw [hwhole]
      split_ifs with hnil
      · simp [hnil, resize]
      · exact hm.length.resolve_left hnil
    have hsame (k : ℕ) : whole[k]? = some true ↔ P k := by
      rw [← hm.marked k, hwhole]
      split_ifs with hnil
      · simp [hnil, resize, List.getElem?_replicate]
      · rfl
    obtain ⟨marks', hrun, hlen', hmarked⟩ := markRange_spec (i := pos - maxSz) whole
      (pos - (pos - maxSz)) (by omega)
    refine ⟨marks', hrun, Or.inr (hlen'.trans hlen), fun k => ?_⟩
    rw [hmarked k, hsame k]
    refine or_congr_right ?_
    omega
  · rw [if_neg hmax]
    refine ⟨marks, rfl, hm.congr fun k => (or_iff_left ?_).symm⟩
    omega

lemma markLoop_spec (ha : Automaton d words pats) {read : List UInt8}
    (hi : words[i]? = some (longest (· ∈ words) read)) (hm : Marked sz marks (Covered pats read))
    (str : List UInt8) (hsz : read.length + str.length ≤ sz) :
    ∃ marks', markLoop d sz i read.length marks str = some marks' ∧
      Marked sz marks' (Covered pats (read ++ visible d.ignoreCase str)) := by
  induction str generalizing i read marks with
  | nil => exact ⟨marks, rfl, by simpa [visible] using hm⟩
  | cons ch str ih =>
    unfold markLoop
    by_cases hch : ch = 0
    · exact ⟨marks, if_pos hch, by simpa [visible, hch] using hm⟩
    · rw [if_neg hch]
      dsimp only
      rw [visible_cons d.ignoreCase hch]
      set c := folded d.ignoreCase ch
      obtain ⟨j, hj, hstate, hout⟩ := ha.advance hi c
      have hle := (longest_suffix (P := (· ∈ pats)) (read ++ [c])).length_le
      rw [List.length_append, List.length_singleton] at hle
      rw [List.length_cons] at hsz
      obtain ⟨marks₁, hadd, hm₁⟩ := addIdx_spec hm hle (by omega)
      have hm₂ : Marked sz marks₁ (Covered pats (read ++ [c])) := by
        refine hm₁.congr fun k => ?_
        rw [covered_concat]
      have hlen : (read ++ [c]).length = read.length + 1 := by simp
      obtain ⟨marks', hrun, hm'⟩ := ih hj hm₂ (by omega)
      refine ⟨marks', ?_, by simpa using hm'⟩
      rw [hstate, hout, Option.bind_some, hadd, Option.bind_some, ← hlen]
      exact hrun

lemma byteAt_eq_some (str : List UInt8) (hi : i ≤ str.length) : ∃ val, byteAt str i = some val := by
  have hlt : i < (str ++ [0]).length := by
    rw [List.length_append, List.length_singleton]
    omega
  exact ⟨_, List.getElem?_eq_getElem hlt⟩

lemma byteAt_append {run : List UInt8} (hi : i < run.length) (rest : List UInt8) :
    byteAt (run ++ rest) i = run[i]? := by
  unfold byteAt
  rw [List.append_assoc, List.getElem?_append_left hi]

variable {run : List UInt8} {fuel : ℕ}

lemma utf8Loop_spec (cnt n : ℕ) (hi : i ≤ run.length) :
    ∃ m, (∀ rest, utf8Loop (run ++ rest) run.length cnt (List.range' i n) = some m) ∧
      (m = 1 ∨ m = cnt ∧ i + n ≤ run.length) := by
  induction n generalizing i with
  | zero => exact ⟨cnt, fun _ => rfl, Or.inr ⟨rfl, hi⟩⟩
  | succ n ih =>
    simp only [List.range'_succ, utf8Loop]
    by_cases hlt : i < run.length
    · obtain ⟨m, hrun, hm⟩ := ih hlt
      have hbyte := List.getElem?_eq_getElem hlt
      by_cases hval : 192 ≤ run[i] ∨ run[i] < 128
      · refine ⟨1, fun rest => ?_, Or.inl rfl⟩
        rw [byteAt_append hlt, hbyte, Option.bind_some, if_pos (Or.inr hval)]
      · refine ⟨m, fun rest => ?_, hm.imp_right fun h => ⟨h.1, by omega⟩⟩
        rw [byteAt_append hlt, hbyte, Option.bind_some, if_neg (not_or.mpr ⟨by omega, hval⟩)]
        exact hrun rest
    · refine ⟨1, fun rest => ?_, Or.inl rfl⟩
      obtain ⟨val, hval⟩ := byteAt_eq_some (run ++ rest) (i := i)
        (by rw [List.length_append]; omega)
      rw [hval, Option.bind_some, if_pos (Or.inl (by omega))]

lemma nextUtf8_spec (hne : run ≠ []) :
    ∃ m, (∀ rest, nextUtf8 (run ++ rest) run.length = some m) ∧ 0 < m ∧ m ≤ run.length := by
  have hpos := List.length_pos_iff.mpr hne
  have hbyte (rest : List UInt8) : byteAt (run ++ rest) 0 = some run[0] :=
    (byteAt_append hpos rest).trans (List.getElem?_eq_getElem hpos)
  have hloop (n : ℕ) : ∃ m, (∀ rest, utf8Loop (run ++ rest) run.length (n + 1) (List.range' 1 n) =
      some m) ∧ 0 < m ∧ m ≤ run.length := by
    obtain ⟨m, hrun, hm⟩ := utf8Loop_spec (n + 1) n (show 1 ≤ run.length from hpos)
    exact ⟨m, hrun, by omega, by omega⟩
  simp only [nextUtf8, hbyte, Option.bind_some]
  split_ifs
  · exact ⟨1, fun _ => rfl, Nat.one_pos, hpos⟩
  · exact hloop 1
  · exact hloop 2
  · exact hloop 3
  · exact hloop 4
  · exact hloop 5
  · exact ⟨1, fun _ => rfl, Nat.one_pos, hpos⟩

def chars (run : List UInt8) : ℕ := (cntUtf8 run.length run run.length).getD 0

lemma cntUtf8_zero (str : List UInt8) : cntUtf8 fuel str 0 = some 0 := by
  cases fuel <;> rfl

lemma cntUtf8_unique (run : List UInt8) :
    ∃ m, ∀ fuel rest, run.length ≤ fuel → cntUtf8 fuel (run ++ rest) run.length = some m := by
  induction hn : run.length using Nat.strong_induction_on generalizing run with
  | _ n ih =>
    subst hn
    by_cases hne : run = []
    · subst hne
      exact ⟨0, fun fuel rest _ => cntUtf8_zero _⟩
    · obtain ⟨next, hnext, hpos, hle⟩ := nextUtf8_spec hne
      have hdrop : (run.drop next).length = run.length - next := List.length_drop
      obtain ⟨m, hm⟩ := ih _ (by omega) (run.drop next) rfl
      refine ⟨m + 1, fun fuel rest hfuel => ?_⟩
      obtain ⟨fuel, rfl⟩ : ∃ n, fuel = n + 1 := ⟨fuel - 1, by omega⟩
      obtain ⟨len, hlen⟩ : ∃ n, run.length = n + 1 := ⟨run.length - 1, by omega⟩
      have hrest := hm fuel rest (by omega)
      rw [← List.drop_append_of_le_length hle, hdrop, hlen] at hrest
      have hhead := hnext rest
      rw [hlen] at hhead ⊢
      rw [cntUtf8, hhead, Option.bind_some, hrest, Option.map_some]

lemma cntUtf8_eq (hfuel : run.length ≤ fuel) (rest : List UInt8) :
    cntUtf8 fuel (run ++ rest) run.length = some (chars run) := by
  obtain ⟨m, hm⟩ := cntUtf8_unique run
  have hown := hm run.length [] le_rfl
  rw [List.append_nil] at hown
  rw [hm fuel rest hfuel, chars, hown, Option.getD_some]

lemma chars_nil : chars [] = 0 := rfl

def starred : List UInt8 → List (UInt8 × Bool) → List UInt8
  | run, [] => List.replicate (chars run) 42
  | run, (b, true) :: l => starred (run ++ [b]) l
  | run, (b, false) :: l => List.replicate (chars run) 42 ++ b :: starred [] l

lemma starred_unmarked (str : List UInt8) : starred [] (str.map fun b => (b, false)) = str := by
  induction str with
  | nil => rfl
  | cons b str ih => rw [List.map_cons, starred, chars_nil, ih, List.replicate_zero, List.nil_append]

lemma starred_run (str : List UInt8) (marks : List Bool) (hlen : str.length = marks.length) :
    starred run (str.zip marks) =
      List.replicate (chars (run ++ str.take (marks.takeWhile id).length)) 42 ++
        starred [] ((str.zip marks).drop (marks.takeWhile id).length) := by
  induction str generalizing run marks with
  | nil => simp [starred, chars_nil]
  | cons b str ih =>
    obtain ⟨m, marks, rfl⟩ := List.exists_cons_of_length_eq_add_one hlen.symm
    rw [List.zip_cons_cons]
    cases m with
    | false => simp [starred, chars_nil]
    | true =>
      rw [starred, ih marks (by simpa using hlen)]
      simp

lemma drop_zip (str : List UInt8) (marks : List Bool) (n : ℕ) :
    (str.zip marks).drop n = (str.drop n).zip (marks.drop n) := List.drop_zipWith

lemma drop_zip_cons {str : List UInt8} {start : ℕ} {m : Bool} (hlt : start < str.length)
    (hm : marks[start]? = some m) :
    (str.zip marks).drop start = (str[start], m) :: (str.zip marks).drop (start + 1) := by
  obtain ⟨hlt', rfl⟩ := List.getElem?_eq_some_iff.mp hm
  rw [drop_zip, drop_zip, List.drop_eq_getElem_cons hlt, List.drop_eq_getElem_cons hlt',
    List.zip_cons_cons]

lemma runEnd_spec {str : List UInt8} (hlen : marks.length = str.length) {start : ℕ}
    (hlt : start < str.length) (hm : marks[start]? = some true) :
    ∃ run, str.drop start = run ++ str.drop (runEnd marks (start + 1)) ∧
      start + run.length = runEnd marks (start + 1) ∧ run ≠ [] ∧
      starred [] ((str.zip marks).drop start) = List.replicate (chars run) 42 ++
        starred [] ((str.zip marks).drop (runEnd marks (start + 1))) := by
  unfold runEnd
  set n := ((marks.drop (start + 1)).takeWhile id).length with hn
  have hle : n ≤ str.length - (start + 1) := by
    rw [← hlen, ← List.length_drop]
    exact (List.takeWhile_prefix _).length_le
  refine ⟨str[start] :: (str.drop (start + 1)).take n, ?_, ?_, List.cons_ne_nil _ _, ?_⟩
  · rw [List.drop_eq_getElem_cons hlt, ← List.drop_drop (i := n), List.cons_append, List.take_append_drop]
  · rw [List.length_cons, List.length_take, List.length_drop]
    omega
  · rw [drop_zip_cons hlt hm, starred, drop_zip, starred_run _ _ (by simp [hlen]), ← hn, ← drop_zip,
      List.drop_drop]
    rfl

lemma starLoop_done {str : List UInt8} (hlen : marks.length = str.length) (last : ℕ)
    (temp : List UInt8) :
    ∃ temp' last', starLoop str marks fuel str.length last temp = some (temp', last') ∧
      temp' ++ str.drop last' = temp ++ ((str.drop last).take (str.length - last) ++
        starred [] ((str.zip marks).drop str.length)) := by
  refine ⟨temp, last, ?_, ?_⟩
  · cases fuel with
    | zero => exact if_neg (lt_irrefl _)
    | succ fuel => exact if_neg (lt_irrefl _)
  · rw [List.drop_of_length_le (l := str.zip marks) (by simp [hlen]), List.take_of_length_le (by simp)]
    simp [starred, chars_nil]

lemma starLoop_spec {str : List UInt8} (hlen : marks.length = str.length) (start last : ℕ)
    (temp : List UInt8) (hlast : last ≤ start) (hstart : start ≤ str.length)
    (hfuel : str.length ≤ start + fuel) :
    ∃ temp' last', starLoop str marks fuel start last temp = some (temp', last') ∧
      temp' ++ str.drop last' = temp ++ ((str.drop last).take (start - last) ++
        starred [] ((str.zip marks).drop start)) := by
  induction fuel generalizing start last temp with
  | zero =>
    obtain rfl : start = str.length := by omega
    exact starLoop_done hlen last temp
  | succ fuel ih =>
    by_cases hlt : start < str.length
    · obtain ⟨m, hm⟩ : ∃ m, marks[start]? = some m := ⟨_, List.getElem?_eq_getElem (hlen ▸ hlt)⟩
      unfold starLoop
      rw [if_pos hlt, hm, Option.bind_some]
      cases m with
      | false =>
        obtain ⟨temp', last', hrun, hout⟩ :=
          ih (start + 1) last temp (by omega) hlt (by omega)
        refine ⟨temp', last', hrun, hout.trans ?_⟩
        have htake : (str.drop last).take (start + 1 - last) =
            (str.drop last).take (start - last) ++ [str[start]] := by
          rw [Nat.succ_sub hlast, List.take_succ_eq_append_getElem (by simp; omega), List.getElem_drop]
          simp only [Nat.add_sub_cancel' hlast]
        rw [drop_zip_cons hlt hm, starred, chars_nil, htake]
        simp
      | true =>
        obtain ⟨run, hsplit, hend, hne, hstars⟩ := runEnd_spec hlen hlt hm
        have hpos := List.length_pos_iff.mpr hne
        have hle := congrArg List.length hsplit
        rw [List.length_drop, List.length_append] at hle
        have hcnt := cntUtf8_eq (le_refl run.length) (str.drop (runEnd marks (start + 1)))
        rw [← hsplit, show run.length = runEnd marks (start + 1) - start by omega] at hcnt
        obtain ⟨temp', last', hrun, hout⟩ := ih (runEnd marks (start + 1)) _
          (temp ++ (str.drop last).take (start - last) ++ List.replicate (chars run) 42)
          le_rfl (by omega) (by omega)
        refine ⟨temp', last', ?_, hout.trans ?_⟩
        · rw [if_pos rfl]
          dsimp only
          rw [hcnt, Option.bind_some]
          exact hrun
        · rw [hstars]
          simp
    · obtain rfl : start = str.length := by omega
      exact starLoop_done hlen last temp

def selection (ignoreCase : Bool) (pats : List (List UInt8)) (str : List UInt8) : List Bool :=
  (List.range str.length).map fun k => decide (Covered pats (visible ignoreCase str) k)

lemma selection_length (ignoreCase : Bool) (pats : List (List UInt8)) (str : List UInt8) :
    (selection ignoreCase pats str).length = str.length := by simp [selection]

lemma selection_eq {ignoreCase : Bool} {str : List UInt8} (hlen : marks.length = str.length)
    (hm : ∀ k, marks[k]? = some true ↔ Covered pats (visible ignoreCase str) k) :
    marks = selection ignoreCase pats str := by
  refine List.ext_getElem (hlen.trans (selection_length _ _ _).symm) fun k hk _ => ?_
  have hiff := hm k
  rw [List.getElem?_eq_getElem hk, Option.some_inj] at hiff
  simp only [selection, List.getElem_map, List.getElem_range]
  rw [Bool.eq_iff_iff, hiff, decide_eq_true_iff]

lemma zip_selection_unmarked {ignoreCase : Bool} {str : List UInt8}
    (hm : ∀ k, ¬Covered pats (visible ignoreCase str) k) :
    str.zip (selection ignoreCase pats str) = str.map fun b => (b, false) := by
  refine List.ext_getElem (by simp [selection]) fun k hk _ => ?_
  simp [selection, hm]

lemma replace_eq (ha : Automaton d words pats) (hdata : t.data = some d) (str : List UInt8) :
    replace t str = some (starred [] (str.zip (selection d.ignoreCase pats str))) := by
  have hstart : words[0]? = some (longest (· ∈ words) []) := ha.start
  have hinitial : Marked str.length [] (Covered pats []) := by
    refine ⟨Or.inl rfl, fun k => iff_of_false (by simp) fun h => ?_⟩
    exact absurd h.lt (Nat.not_lt_zero k)
  obtain ⟨marks, hloop, hm⟩ := markLoop_spec ha hstart hinitial str (by simp)
  simp only [replace, hdata, if_neg ha.nonempty]
  rw [List.nil_append] at hm
  rw [show markLoop d str.length 0 0 [] str = some marks from hloop, Option.bind_some]
  by_cases hnil : marks = []
  · subst hnil
    rw [if_pos rfl, zip_selection_unmarked fun k hk => by simpa using (hm.marked k).mpr hk,
      starred_unmarked]
  · have hlen := hm.length.resolve_left hnil
    obtain ⟨temp, last, hrun, hout⟩ := starLoop_spec hlen 0 0 [] (le_refl 0) (Nat.zero_le _)
      (Nat.le_add_left _ 0)
    rw [if_neg hnil, hrun, Option.map_some, ← selection_eq hlen hm.marked]
    have htail : (if last < str.length then temp ++ str.drop last else temp) =
        temp ++ str.drop last := by
      split_ifs with hlast
      · rfl
      · rw [List.drop_of_length_le (by omega), List.append_nil]
    rw [htail, hout]
    simp

lemma tolower_low {ch : UInt8} (hch : ¬tolower ch = ch) :
    ch < 128 ∧ tolower ch < 128 := by
  unfold tolower at hch ⊢
  split_ifs at hch ⊢ with hupper
  · simp only [UInt8.le_iff_toNat_le, UInt8.lt_iff_toNat_lt, UInt8.toNat_add] at hupper ⊢
    change 65 ≤ ch.toNat ∧ ch.toNat ≤ 90 at hupper
    change ch.toNat < 128 ∧ (ch.toNat + 32) % 256 < 128
    omega
  · exact absurd rfl hch

lemma isCharacter_folded (ignoreCase : Bool) {x : List UInt8} (hx : IsCharacter x) :
    IsCharacter (x.map (folded ignoreCase)) := by
  have hsame (b : UInt8) : folded ignoreCase b = b ∨ b < 128 ∧ folded ignoreCase b < 128 := by
    unfold folded
    split_ifs
    · by_cases h : tolower b = b
      · exact Or.inl h
      · exact Or.inr (tolower_low h)
    · exact Or.inl rfl
  have hlow {b : UInt8} (hb : b < 128) : ¬Continues b := fun hc => absurd hb (UInt8.not_lt.mpr hc.1)
  refine hx.map ?_ ?_ ?_
  · intro b
    rcases hsame b with h | ⟨h, h'⟩
    · rw [h]
    · exact iff_of_false (hlow h') (hlow h)
  · intro b hb
    rcases hsame b with h | ⟨-, h'⟩
    · rwa [h]
    · exact UInt8.lt_trans h' (by decide)
  · intro b
    rcases hsame b with h | ⟨h, h'⟩
    · rw [h]
    · rw [charWidth, charWidth, if_pos h, if_pos h']

def characters (ignoreCase : Bool) (text : List Char) : List (List UInt8) :=
  text.map fun c => (String.utf8EncodeChar c).map (folded ignoreCase)

lemma isCharacter_characters {ignoreCase : Bool} {text : List Char} :
    ∀ x ∈ characters ignoreCase text, IsCharacter x := by
  intro x hx
  obtain ⟨c, -, rfl⟩ := List.mem_map.mp hx
  exact isCharacter_folded ignoreCase (isCharacter_utf8EncodeChar c)

lemma characters_flatten (ignoreCase : Bool) (text : List Char) :
    (characters ignoreCase text).flatten = (utf8 text).map (folded ignoreCase) := by
  induction text with
  | nil => rfl
  | cons c text ih =>
    rw [characters, List.map_cons, List.flatten_cons, ← characters, ih, utf8_cons, List.map_append]

lemma takeWhile_utf8 (text : List Char) :
    (utf8 text).takeWhile (· ≠ 0) = utf8 (text.takeWhile (· ≠ Char.ofNat 0)) := by
  induction text with
  | nil => rfl
  | cons c text ih =>
    rw [utf8_cons]
    by_cases hc : c = Char.ofNat 0
    · subst hc
      rfl
    · have hall : ∀ b ∈ String.utf8EncodeChar c, decide (b ≠ 0) = true := by
        intro b hb
        rw [decide_eq_true_iff]
        rintro rfl
        exact hc (zero_mem_utf8EncodeChar.mp hb)
      rw [List.takeWhile_append_of_pos hall, ih, List.takeWhile_cons_of_pos (by simpa using hc),
        utf8_cons]

lemma visible_utf8 (ignoreCase : Bool) (text : List Char) : visible ignoreCase (utf8 text) =
    (characters ignoreCase (text.takeWhile (· ≠ Char.ofNat 0))).flatten := by
  rw [characters_flatten, visible, takeWhile_utf8]

lemma utf8Loop_continues {str : List UInt8} {size cnt : ℕ} {is : List ℕ}
    (his : ∀ i ∈ is, i < size ∧ ∃ val, byteAt str i = some val ∧ Continues val) :
    utf8Loop str size cnt is = some cnt := by
  induction is with
  | nil => rfl
  | cons i is ih =>
    rw [List.forall_mem_cons] at his
    obtain ⟨⟨hlt, val, hval, hle, hlt'⟩, hrest⟩ := his
    have hnone : ¬(size ≤ i ∨ 192 ≤ val ∨ val < 128) := by
      rw [UInt8.le_iff_toNat_le, UInt8.lt_iff_toNat_lt] at *
      omega
    rw [utf8Loop, hval, Option.bind_some, if_neg hnone, ih hrest]

lemma nextUtf8_character {x rest : List UInt8} {size : ℕ} (hx : IsCharacter x)
    (hsize : x.length ≤ size) : nextUtf8 (x ++ rest) size = some x.length := by
  obtain ⟨b, bs, lead, low, hrest, width⟩ := hx
  have hloop (n : ℕ) (hn : (b :: bs).length = n + 1) :
      utf8Loop (b :: bs ++ rest) size (n + 1) (List.range' 1 n) = some (b :: bs).length := by
    rw [hn]
    refine utf8Loop_continues fun i hi => ?_
    rw [List.mem_range'_1] at hi
    have hlt : i < (b :: bs).length := by omega
    refine ⟨by omega, (b :: bs)[i], ?_, ?_⟩
    · rw [byteAt_append hlt, List.getElem?_eq_getElem hlt]
    · obtain ⟨j, rfl⟩ : ∃ j, i = j + 1 := ⟨i - 1, by omega⟩
      exact hrest _ (List.getElem_mem _)
  have hhead : byteAt (b :: bs ++ rest) 0 = some b := rfl
  rw [← List.length_cons (a := b)] at width
  unfold nextUtf8
  rw [hhead, Option.bind_some]
  unfold charWidth at width
  split_ifs at width ⊢ with h1 h2 h3
  · rw [width]
  · exact hloop 1 width
  · exact hloop 2 width
  · exact hloop 3 width

lemma chars_flatten {us : List (List UInt8)} (hus : ∀ x ∈ us, IsCharacter x) :
    chars us.flatten = us.length := by
  have hcount (fuel : ℕ) (hfuel : us.flatten.length ≤ fuel) :
      cntUtf8 fuel us.flatten us.flatten.length = some us.length := by
    induction us generalizing fuel with
    | nil => exact cntUtf8_zero _
    | cons x us ih =>
      rw [List.forall_mem_cons] at hus
      rw [List.flatten_cons, List.length_append] at hfuel ⊢
      have hpos := List.length_pos_iff.mpr hus.1.ne_nil
      obtain ⟨fuel, rfl⟩ : ∃ n, fuel = n + 1 := ⟨fuel - 1, by omega⟩
      obtain ⟨len, hlen⟩ : ∃ n, x.length + us.flatten.length = n + 1 :=
        ⟨x.length + us.flatten.length - 1, by omega⟩
      have hnext : nextUtf8 (x ++ us.flatten) (len + 1) = some x.length :=
        nextUtf8_character hus.1 (by omega)
      rw [hlen, cntUtf8, hnext, Option.bind_some, List.drop_left,
        show len + 1 - x.length = us.flatten.length by omega, ih hus.2 fuel (by omega)]
      rfl
  rw [chars, hcount _ le_rfl, Option.getD_some]

lemma starred_marked (x : List UInt8) (l : List (UInt8 × Bool)) :
    starred run ((x.map fun b => (b, true)) ++ l) = starred (run ++ x) l := by
  induction x generalizing run with
  | nil => rw [List.append_nil]; rfl
  | cons b x ih => rw [List.map_cons, List.cons_append, starred, ih, List.append_assoc]; rfl

lemma starred_plain {x : List UInt8} (hx : x ≠ []) (l : List (UInt8 × Bool)) :
    starred run ((x.map fun b => (b, false)) ++ l) =
      List.replicate (chars run) 42 ++ (x ++ starred [] l) := by
  induction x generalizing run with
  | nil => exact absurd rfl hx
  | cons b x ih =>
    rw [List.map_cons, List.cons_append, starred]
    by_cases hnil : x = []
    · subst hnil
      rfl
    · rw [ih hnil, chars_nil]
      rfl

def redacted (p : List UInt8 × Bool) : List UInt8 :=
  if p.2 then List.replicate (chars p.1) 42 else p.1

lemma starred_pieces (run : List UInt8) (l : List (UInt8 × Bool)) :
    ∃ pieces : List (List UInt8 × Bool), (∀ p ∈ pieces, p.1 ≠ []) ∧
      pieces.IsChain (fun p q => p.2 = true → q.2 = false) ∧
      pieces.flatMap Prod.fst = run ++ l.map Prod.fst ∧
      (pieces.flatMap fun p => List.replicate p.1.length p.2) =
        List.replicate run.length true ++ l.map Prod.snd ∧
      starred run l = pieces.flatMap redacted := by
  induction l generalizing run with
  | nil =>
    by_cases hrun : run = []
    · subst hrun
      exact ⟨[], by simp, List.IsChain.nil, rfl, rfl, rfl⟩
    · refine ⟨[(run, true)], by simpa using hrun, List.IsChain.singleton _, ?_, ?_, ?_⟩
      · simp
      · simp
      · simp [starred, redacted]
  | cons a l ih =>
    obtain ⟨b, m⟩ := a
    cases m with
    | true =>
      obtain ⟨pieces, hne, hchain, htext, hmarks, hout⟩ := ih (run ++ [b])
      refine ⟨pieces, hne, hchain, by simpa using htext, ?_, hout⟩
      rw [hmarks]
      simp [List.replicate_add]
    | false =>
      obtain ⟨pieces, hne, hchain, htext, hmarks, hout⟩ := ih []
      have hchain' : (([b], false) :: pieces).IsChain (fun p q => p.2 = true → q.2 = false) := by
        cases pieces with
        | nil => exact List.IsChain.singleton _
        | cons p pieces => exact List.IsChain.cons_cons (fun h => absurd h Bool.false_ne_true) hchain
      by_cases hrun : run = []
      · subst hrun
        refine ⟨([b], false) :: pieces, ?_, hchain', ?_, ?_, ?_⟩
        · exact List.forall_mem_cons.mpr ⟨List.cons_ne_nil _ _, hne⟩
        · simp [htext]
        · simp [hmarks]
        · simp [starred, hout, redacted, chars_nil]
      · refine ⟨(run, true) :: ([b], false) :: pieces, ?_, ?_, ?_, ?_, ?_⟩
        · exact List.forall_mem_cons.mpr ⟨hrun, List.forall_mem_cons.mpr ⟨List.cons_ne_nil _ _, hne⟩⟩
        · exact List.IsChain.cons_cons (fun _ => rfl) hchain'
        · simp [htext]
        · simp [hmarks]
        · simp [starred, hout, redacted]

lemma redacted_character {x : List UInt8} (hx : IsCharacter x) (m : Bool) :
    redacted (x, m) = if m then [42] else x := by
  have hone : chars [x].flatten = 1 := chars_flatten (by simpa using hx)
  rw [List.flatten_singleton] at hone
  simp [redacted, hone]

lemma starred_characters (l : List (List UInt8 × Bool)) (hl : ∀ p ∈ l, IsCharacter p.1)
    {us : List (List UInt8)} (hus : ∀ x ∈ us, IsCharacter x) :
    starred us.flatten (l.flatMap fun p => p.1.map fun b => (b, p.2)) =
      List.replicate us.length 42 ++ l.flatMap redacted := by
  induction l generalizing us with
  | nil => simp [starred, chars_flatten hus]
  | cons p l ih =>
    obtain ⟨x, m⟩ := p
    rw [List.forall_mem_cons] at hl
    rw [List.flatMap_cons, List.flatMap_cons]
    cases m with
    | false =>
      rw [starred_plain hl.1.ne_nil, chars_flatten hus]
      have hrest := ih hl.2 (List.forall_mem_nil IsCharacter)
      rw [List.flatten_nil] at hrest
      rw [hrest]
      simp [redacted]
    | true =>
      have hus' : ∀ y ∈ us ++ [x], IsCharacter y := by
        intro y hy
        rcases List.mem_append.mp hy with hy | hy
        · exact hus y hy
        · exact List.mem_singleton.mp hy ▸ hl.1
      have hrest := ih hl.2 hus'
      rw [List.flatten_append, List.flatten_singleton] at hrest
      rw [starred_marked, hrest, redacted_character hl.1]
      simp [List.replicate_add]

lemma zip_const (x : List UInt8) {l : List Bool} {m : Bool} (hlen : l.length = x.length)
    (hl : ∀ b ∈ l, b = m) : x.zip l = x.map fun b => (b, m) := by
  rw [List.eq_replicate_of_mem hl, hlen]
  induction x generalizing l with
  | nil => rfl
  | cons b x ih =>
    obtain ⟨a, l, rfl⟩ := List.exists_cons_of_length_eq_add_one hlen
    have hrest := ih (l := l) (by simpa using hlen) fun b hb => hl b (List.mem_cons_of_mem a hb)
    rw [List.length_cons, List.replicate_succ, List.zip_cons_cons, hrest, List.map_cons]

lemma zip_flatten (marked flags : ℕ → Bool) (xs : List (List UInt8))
    (h : ∀ i k, (xs.take i).flatten.length ≤ k → k < (xs.take (i + 1)).flatten.length →
      marked k = flags i) :
    xs.flatten.zip ((List.range xs.flatten.length).map marked) =
      (xs.zip ((List.range xs.length).map flags)).flatMap fun p => p.1.map fun b => (b, p.2) := by
  induction xs generalizing marked flags with
  | nil => rfl
  | cons x xs ih =>
    have hrest := ih (fun k => marked (x.length + k)) (fun i => flags (i + 1))
      fun i k hle hlt => h (i + 1) (x.length + k) (by simpa using hle) (by simpa using hlt)
    have hfirst : x.zip ((List.range x.length).map marked) = x.map fun b => (b, flags 0) := by
      refine zip_const x (by simp) fun b hb => ?_
      obtain ⟨k, hk, rfl⟩ := List.mem_map.mp hb
      exact h 0 k (Nat.zero_le k) (by simpa using List.mem_range.mp hk)
    rw [List.flatten_cons, List.length_append, List.range_add, List.map_append,
      List.zip_append (by simp), hfirst, List.map_map, List.length_cons, List.range_succ_eq_map,
      List.map_cons, List.map_map, List.zip_cons_cons, List.flatMap_cons]
    exact congrArg _ hrest

lemma item_unique {xs : List (List UInt8)} {i j k : ℕ} (hi : (xs.take i).flatten.length ≤ k)
    (hi' : k < (xs.take (i + 1)).flatten.length) (hj : (xs.take j).flatten.length ≤ k)
    (hj' : k < (xs.take (j + 1)).flatten.length) : i = j := by
  by_contra hne
  rcases Nat.lt_or_gt_of_ne hne with hlt | hlt
  · exact absurd (hi'.trans_le (flatten_take_mono xs hlt)) (not_lt.mpr hj)
  · exact absurd (hj'.trans_le (flatten_take_mono xs hlt)) (not_lt.mpr hi)

def visibleCharacters (ignoreCase : Bool) (text : List Char) : List (List UInt8) :=
  characters ignoreCase (text.takeWhile (· ≠ Char.ofNat 0))

lemma take_visible_length (ignoreCase : Bool) {text : List Char}
    (hi : i ≤ (visibleCharacters ignoreCase text).length) :
    ((visibleCharacters ignoreCase text).take i).flatten.length =
      ((text.map String.utf8EncodeChar).take i).flatten.length := by
  have hprefix := List.takeWhile_prefix (l := text) (fun c => decide (c ≠ Char.ofNat 0))
  have hi' : i ≤ (text.takeWhile (· ≠ Char.ofNat 0)).length := by
    simpa [visibleCharacters, characters] using hi
  have htake : (text.takeWhile (· ≠ Char.ofNat 0)).take i = text.take i := by
    obtain ⟨rest, hrest⟩ := hprefix
    conv_rhs => rw [← hrest]
    rw [List.take_append_of_le_length hi']
  rw [visibleCharacters, characters, ← List.map_take, htake, ← characters, characters_flatten,
    List.length_map, ← List.map_take, ← List.flatMap_def]
  rfl

lemma covered_byte_iff {ignoreCase : Bool} (patterns : List (List Char)) (text : List Char)
    (hi : ((text.map String.utf8EncodeChar).take i).flatten.length ≤ k)
    (hi' : k < ((text.map String.utf8EncodeChar).take (i + 1)).flatten.length) :
    Covered ((patterns.map utf8).map fun p => p.map (folded ignoreCase))
        (visible ignoreCase (utf8 text)) k ↔
      Covered (patterns.map (characters ignoreCase)) (visibleCharacters ignoreCase text) i := by
  have hpats : ((patterns.map utf8).map fun p => p.map (folded ignoreCase)) =
      (patterns.map (characters ignoreCase)).map List.flatten := by
    rw [List.map_map, List.map_map]
    exact List.map_congr_left fun p _ => (characters_flatten ignoreCase p).symm
  have hwhole : ∀ p ∈ patterns.map (characters ignoreCase), ∀ x ∈ p, IsCharacter x := by
    intro p hp
    obtain ⟨text, -, rfl⟩ := List.mem_map.mp hp
    exact isCharacter_characters
  have hvisible : ∀ x ∈ visibleCharacters ignoreCase text, IsCharacter x := isCharacter_characters
  rw [hpats, visible_utf8, ← visibleCharacters, covered_flatten hvisible hwhole]
  constructor
  · rintro ⟨j, hj, hle, hlt⟩
    rw [take_visible_length ignoreCase hj.lt.le] at hle
    rw [take_visible_length ignoreCase hj.lt] at hlt
    exact item_unique hi hi' hle hlt ▸ hj
  · intro h
    refine ⟨i, h, ?_, ?_⟩
    · rwa [take_visible_length ignoreCase h.lt.le]
    · rwa [take_visible_length ignoreCase h.lt]

def selectedCharacters (ignoreCase : Bool) (patterns : List (List Char)) (text : List Char) :
    List Bool :=
  (List.range text.length).map fun i => decide
    (Covered (patterns.map (characters ignoreCase)) (visibleCharacters ignoreCase text) i)

lemma zip_selection_utf8 (ignoreCase : Bool) (patterns : List (List Char)) (text : List Char) :
    (utf8 text).zip (selection ignoreCase
        ((patterns.map utf8).map fun p => p.map (folded ignoreCase)) (utf8 text)) =
      ((text.map String.utf8EncodeChar).zip (selectedCharacters ignoreCase patterns text)).flatMap
        fun p => p.1.map fun b => (b, p.2) := by
  have hlen : text.length = (text.map String.utf8EncodeChar).length := by simp
  unfold selection selectedCharacters
  rw [hlen]
  exact zip_flatten _ _ (text.map String.utf8EncodeChar) fun i k hle hlt =>
    decide_eq_decide.mpr (covered_byte_iff patterns text hle hlt)

lemma map_snd_marked (x : List UInt8) (m : Bool) :
    (x.map fun b => (b, m)).map Prod.snd = List.replicate x.length m := by
  induction x with
  | nil => rfl
  | cons b x ih => rw [List.map_cons, List.map_cons, ih, List.length_cons, List.replicate_succ]

/-- After one cycle `replace` marks the bytes that a pattern covers. A marked run becomes as many
stars as it is taken to have characters, which in UTF-8 is one star for each covered character. -/
theorem replace_covered (order : Iteration) (ignoreCase : Bool) (patterns : List (List UInt8)) :
    ∃ n, ∀ fuel, n ≤ fuel → ∃ t, cycle order fuel ignoreCase patterns = some t ∧ ∀ str,
      (∃ pieces : List (List UInt8 × Bool), (∀ p ∈ pieces, p.1 ≠ []) ∧
        pieces.IsChain (fun p q => p.2 = true → q.2 = false) ∧
        pieces.flatMap Prod.fst = str ∧
        (pieces.flatMap fun p => List.replicate p.1.length p.2) =
          selection ignoreCase (patterns.map fun p => p.map (folded ignoreCase)) str ∧
        replace t str = some (pieces.flatMap redacted)) ∧
      ∀ texts text, patterns = texts.map utf8 → str = utf8 text →
        selection ignoreCase (patterns.map fun p => p.map (folded ignoreCase)) str =
          ((text.zip (selectedCharacters ignoreCase texts text)).flatMap
            fun p => List.replicate (String.utf8EncodeChar p.1).length p.2) ∧
        replace t str = some ((text.zip (selectedCharacters ignoreCase texts text)).flatMap
          fun p => if p.2 then [42] else String.utf8EncodeChar p.1) := by
  obtain ⟨n, hcycle⟩ := cycle_spec order ignoreCase patterns
  refine ⟨n, fun fuel hfuel => ?_⟩
  obtain ⟨t, d, words, hrun, hdata, rfl, ha⟩ := hcycle fuel hfuel
  refine ⟨t, hrun, fun str => ⟨?_, ?_⟩⟩
  · obtain ⟨pieces, hne, hchain, htext, hmarks, hout⟩ := starred_pieces []
      (str.zip (selection d.ignoreCase (patterns.map fun p => p.map (folded d.ignoreCase)) str))
    refine ⟨pieces, hne, hchain, htext.trans ?_, hmarks.trans ?_, ?_⟩
    · rw [List.nil_append, List.map_fst_zip (selection_length _ _ _).ge]
    · rw [List.length_nil, List.replicate_zero, List.nil_append,
        List.map_snd_zip (selection_length _ _ _).le]
    · rw [replace_eq ha hdata, hout]
  · rintro texts text rfl rfl
    have hzip := zip_selection_utf8 d.ignoreCase texts text
    set flags := selectedCharacters d.ignoreCase texts text
    constructor
    · have hmarks := congrArg (List.map Prod.snd) hzip
      rw [List.map_snd_zip (selection_length _ _ _).le, List.map_flatMap, List.zip_map_left,
        List.flatMap_map] at hmarks
      refine hmarks.trans (congrArg (List.flatMap · _) (funext fun p => ?_))
      exact map_snd_marked _ _
    · have hwhole : ∀ p ∈ (text.map String.utf8EncodeChar).zip flags, IsCharacter p.1 := by
        intro p hp
        obtain ⟨c, -, hc⟩ := List.mem_map.mp (List.of_mem_zip hp).1
        exact hc ▸ isCharacter_utf8EncodeChar c
      have hstars := starred_characters _ hwhole (List.forall_mem_nil IsCharacter)
      rw [List.flatten_nil, List.length_nil, List.replicate_zero, List.nil_append] at hstars
      rw [replace_eq ha hdata, hzip, hstars, List.zip_map_left, List.flatMap_map]
      refine congrArg some (congrArg (List.flatMap · _) (funext fun p => ?_))
      exact redacted_character (isCharacter_utf8EncodeChar p.1) p.2

end TrieAc

end Simple.Utils
