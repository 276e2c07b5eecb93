import Simple.Lib.Suffix
import Simple.Utils.TrieAc

/-! Each state of the trie stands for a word, a prefix of some pattern. -/

namespace Simple.Utils

open Simple.Lib

namespace TrieAc

/-- State `i` stands for the word `words[i]`. -/
structure Labelled (table : List NodeSet) (words : List (List UInt8)) : Prop where
  length : table.length = words.length
  start : words[0]? = some []
  nodup : words.Nodup
  closed : PrefixClosed (· ∈ words)
  node : ∀ (i : ℕ) item w, table[i]? = some item → words[i]? = some w →
    ∀ it, it ∈ item ↔ words[it.next]? = some (w ++ [it.character])
  sets : ∀ item ∈ table, item.Nodup

variable {table : List NodeSet} {words : List (List UInt8)} {item : NodeSet} {w : List UInt8}
variable {i j : ℕ} {c : UInt8}

lemma index_unique {α : Type} {l : List α} {x : α} (hn : l.Nodup) (hi : l[i]? = some x)
    (hj : l[j]? = some x) : i = j := by
  obtain ⟨hi', rfl⟩ := List.getElem?_eq_some_iff.mp hi
  obtain ⟨hj', heq⟩ := List.getElem?_eq_some_iff.mp hj
  exact (hn.getElem_inj_iff.mp heq).symm

lemma emplace_eq (hc : (item.find? fun it => it.character = c) = none) (k : ℕ) :
    item.emplace ⟨c, k⟩ = item ++ [⟨c, k⟩] := by
  refine if_neg fun hany => ?_
  obtain ⟨it, hit, hchar⟩ := List.any_eq_true.mp hany
  exact List.find?_eq_none.mp hc it hit hchar

namespace Labelled

variable (h : Labelled table words)

include h

lemma item_of_word (hw : words[i]? = some w) : ∃ item, table[i]? = some item := by
  have hlt := (List.getElem?_eq_some_iff.mp hw).1
  rw [← h.length] at hlt
  exact ⟨table[i], List.getElem?_eq_getElem hlt⟩

lemma find_child (hi : table[i]? = some item) (hw : words[i]? = some w)
    (hj : words[j]? = some (w ++ [c])) :
    (item.find? fun it => it.character = c) = some ⟨c, j⟩ := by
  have hmem := (h.node i item w hi hw ⟨c, j⟩).mpr hj
  cases hf : item.find? fun it => it.character = c with
  | none => simpa using List.find?_eq_none.mp hf _ hmem
  | some it =>
    have hchar : it.character = c := by simpa using List.find?_some hf
    have hnext := (h.node i item w hi hw it).mp (List.mem_of_find?_eq_some hf)
    rw [hchar] at hnext
    have hj' := index_unique h.nodup hnext hj
    cases it
    simp_all

lemma find_none (hi : table[i]? = some item) (hw : words[i]? = some w) (hc : w ++ [c] ∉ words) :
    (item.find? fun it => it.character = c) = none := by
  rw [List.find?_eq_none]
  intro it hit hchar
  have hchar' : it.character = c := by simpa using hchar
  have hnext := (h.node i item w hi hw it).mp hit
  rw [hchar'] at hnext
  exact hc (List.mem_of_getElem? hnext)

lemma ne_zero (hw : words[i]? = some w) : i ≠ 0 ↔ w ≠ [] := by
  refine not_congr ⟨?_, ?_⟩
  · rintro rfl
    exact Option.some.inj (hw.symm.trans h.start)
  · rintro rfl
    exact index_unique h.nodup hw h.start

lemma nextState_child (hw : words[i]? = some w) (hj : words[j]? = some (w ++ [c])) :
    nextState table i c = j := by
  obtain ⟨item, hi⟩ := h.item_of_word hw
  simp [nextState, hi, h.find_child hi hw hj]

lemma nextState_none (hw : words[i]? = some w) (hc : w ++ [c] ∉ words) :
    nextState table i c = if i = 0 then 0 else -1 := by
  obtain ⟨item, hi⟩ := h.item_of_word hw
  simp [nextState, hi, h.find_none hi hw hc]

lemma child_pos (hj : words[j]? = some (w ++ [c])) : 0 < j := by
  rw [Nat.pos_iff_ne_zero, h.ne_zero hj]
  simp

lemma extend (hi : table[i]? = some item) (hw : words[i]? = some w) (hc : w ++ [c] ∉ words) :
    Labelled (table.set i (item.emplace ⟨c, words.length⟩) ++ [[]]) (words ++ [w ++ [c]]) := by
  have hemplace := emplace_eq (h.find_none hi hw hc) words.length
  have hword (j : ℕ) (v : List UInt8) : (words ++ [w ++ [c]])[j]? = some v ↔
      words[j]? = some v ∨ j = words.length ∧ v = w ++ [c] := by
    rw [List.getElem?_append]
    split_ifs with hj
    · simp [hj.ne]
    · rw [List.getElem?_singleton]
      have : words[j]? = none := List.getElem?_eq_none (by omega)
      split_ifs with hz
      · have : j = words.length := by omega
        simp [*, eq_comm]
      · have : j ≠ words.length := by omega
        simp [*]
  have hfresh (j : ℕ) (v : List UInt8) (hv : words[j]? = some v) : j ≠ words.length :=
    (List.getElem?_eq_some_iff.mp hv).1.ne
  rw [hemplace]
  refine ⟨?_, ?_, ?_, ?_, ?_, ?_⟩
  · simp [h.length]
  · exact (hword 0 []).mpr (Or.inl h.start)
  · exact List.nodup_append.mpr ⟨h.nodup, List.nodup_singleton _, by
      rintro v hv u hu rfl
      exact hc (List.mem_singleton.mp hu ▸ hv)⟩
  · intro v a hv
    rcases List.mem_append.mp hv with hv | hv
    · exact List.mem_append_left _ (h.closed v a hv)
    · have heq := List.append_inj_left' (List.mem_singleton.mp hv) rfl
      exact List.mem_append_left _ (heq ▸ List.mem_of_getElem? hw)
  · intro j set v hj hv it
    rw [hword] at hv ⊢
    rcases hv with hv | ⟨rfl, rfl⟩
    · have hlt : j < (table.set i (item ++ [⟨c, words.length⟩])).length := by
        rw [List.length_set, h.length]
        exact (List.getElem?_eq_some_iff.mp hv).1
      rw [List.getElem?_append_left hlt, List.getElem?_set] at hj
      split_ifs at hj with hij
      · subst hij
        obtain rfl := Option.some.inj (hw.symm.trans hv)
        obtain rfl : item ++ [⟨c, words.length⟩] = set := by simpa using hj
        rw [List.mem_append, h.node i item w hi hw it, List.mem_singleton]
        refine or_congr_right ?_
        obtain ⟨a, k⟩ := it
        simp [and_comm]
      · rw [h.node j set v hj hv it, iff_self_or]
        rintro ⟨-, heq⟩
        obtain rfl : v = w := List.append_inj_left' heq rfl
        exact absurd (index_unique h.nodup hw hv) hij
    · have hset : set = [] := by
        simpa [List.getElem?_append, h.length] using hj.symm
      subst hset
      refine iff_of_false List.not_mem_nil ?_
      rintro (hnext | ⟨-, heq⟩)
      · exact hc (h.closed _ _ (List.mem_of_getElem? hnext))
      · have := congrArg List.length heq
        simp at this
  · intro set hset
    rcases List.mem_append.mp hset with hset | hset
    · rcases List.mem_or_eq_of_mem_set hset with hset | rfl
      · exact h.sets set hset
      · refine List.nodup_append.mpr ⟨h.sets item (List.mem_of_getElem? hi), List.nodup_singleton _, ?_⟩
        rintro it hit it' hit' rfl
        obtain rfl := List.mem_singleton.mp hit'
        exact hfresh _ _ ((h.node i item w hi hw _).mp hit) rfl
    · rw [List.mem_singleton.mp hset]
      exact List.nodup_nil

end Labelled

structure Built (d : AcDfa) (state : ℕ) (words pats : List (List UInt8)) : Prop where
  labelled : Labelled d.gotoT words
  last : state + 1 = words.length
  outputs : d.outputT.length = words.length
  output : ∀ (i : ℕ) w, words[i]? = some w → d.outputT[i]? = some (if w ∈ pats then w.length else 0)
  pats : ∀ p ∈ pats, p ∈ words

variable {d : AcDfa} {state now : ℕ} {pats : List (List UInt8)} {t : TrieAc}

lemma Built.extend (hb : Built d state words pats) (hi : d.gotoT[i]? = some item)
    (hw : words[i]? = some w) (hc : w ++ [c] ∉ words) :
    Built { d with
      gotoT := d.gotoT.set i (item.emplace ⟨c, state + 1⟩) ++ [[]]
      outputT := d.outputT ++ [0] } (state + 1) (words ++ [w ++ [c]]) pats := by
  refine ⟨?_, ?_, ?_, ?_, fun p hp => List.mem_append_left _ (hb.pats p hp)⟩
  · rw [hb.last]
    exact hb.labelled.extend hi hw hc
  · simp [hb.last]
  · simp [hb.outputs]
  · intro j v hv
    rw [List.getElem?_append] at hv ⊢
    rw [hb.outputs]
    split_ifs at hv with hj
    · rw [if_pos hj]
      exact hb.output j v hv
    · rw [if_neg hj]
      obtain ⟨hz, rfl⟩ := List.getElem?_eq_some_iff.mp hv
      have hz' : j - words.length = 0 := by simpa using hz
      simp only [hz', List.getElem_cons_zero, List.getElem?_cons_zero]
      rw [if_neg fun hp => hc (hb.pats _ hp)]

lemma updateLoop_spec (strv : List UInt8) (hb : Built d state words pats) (hw : words[now]? = some w) :
    ∃ d' state' now' words', updateLoop d state now strv = some (d', state', now') ∧
      Built d' state' words' pats ∧
      words'[now']? = some (w ++ strv.map (folded d.ignoreCase)) ∧ d'.ignoreCase = d.ignoreCase := by
  induction strv generalizing d state now words w with
  | nil => exact ⟨d, state, now, words, rfl, hb, by simpa using hw, rfl⟩
  | cons ch strv ih =>
    unfold updateLoop
    dsimp only
    by_cases hc : w ++ [folded d.ignoreCase ch] ∈ words
    · obtain ⟨j, hj⟩ := List.getElem?_of_mem hc
      have hpos := hb.labelled.child_pos hj
      rw [hb.labelled.nextState_child hw hj, if_neg (by omega)]
      obtain ⟨d', state', now', words', hrun, hb', hw', hcase⟩ := ih hb hj
      refine ⟨d', state', now', words', hrun, hb', ?_, hcase⟩
      simpa using hw'
    · obtain ⟨item, hi⟩ := hb.labelled.item_of_word hw
      have hnext : nextState d.gotoT now (folded d.ignoreCase ch) ≤ 0 := by
        rw [hb.labelled.nextState_none hw hc]
        split_ifs <;> decide
      rw [if_pos hnext, hi, Option.bind_some]
      have hnow : (words ++ [w ++ [folded d.ignoreCase ch]])[state + 1]? =
          some (w ++ [folded d.ignoreCase ch]) := by
        rw [hb.last]
        exact List.getElem?_concat_length
      obtain ⟨d', state', now', words', hrun, hb', hw', hcase⟩ := ih (hb.extend hi hw hc) hnow
      refine ⟨d', state', now', words', hrun, hb', ?_, hcase⟩
      simpa using hw'

lemma put?_eq {α : Type} {l : List α} {x y : α} (hi : l[i]? = some x) :
    put? l i y = some (l.set i y) := if_pos (List.getElem?_eq_some_iff.mp hi).1

def Growing (t : TrieAc) (ignoreCase : Bool) (pats : List (List UInt8)) : Prop :=
  ∃ d words, t.reserve = some d ∧ d.ignoreCase = ignoreCase ∧ Built d t.state words pats

lemma update_spec {ignoreCase : Bool} (strv : List UInt8) (h : Growing t ignoreCase pats) :
    ∃ t', update t strv = some t' ∧
      Growing t' ignoreCase (pats ++ [strv.map (folded ignoreCase)]) := by
  obtain ⟨d, words, ht, rfl, hb⟩ := h
  obtain ⟨d', state', now', words', hrun, hb', hw', hcase⟩ := updateLoop_spec strv hb hb.labelled.start
  have hout := hb'.output now' _ hw'
  rw [List.nil_append] at hw' hout
  set p := strv.map (folded d.ignoreCase) with hp
  have hlen : p.length = strv.length := by simp [hp]
  refine ⟨{ t with reserve := some { d' with outputT := d'.outputT.set now' p.length }, state := state' }, ?_, ?_⟩
  · have hmax : max (if p ∈ pats then p.length else 0) strv.length = p.length := by
      split_ifs <;> omega
    simp [update, ht, hrun, hout, put?_eq hout, hmax]
  · refine ⟨_, words', rfl, hcase, hb'.labelled, hb'.last, by simp [hb'.outputs], ?_, ?_⟩
    · intro i w hw
      by_cases hi : now' = i
      · subst hi
        obtain rfl := Option.some.inj (hw'.symm.trans hw)
        rw [List.getElem?_set_self (List.getElem?_eq_some_iff.mp hout).1]
        simp
      · rw [List.getElem?_set_ne hi, hb'.output i w hw]
        have hne : w ≠ p := fun heq => hi (index_unique hb'.labelled.nodup (heq ▸ hw') hw)
        simp [hne]
    · intro q hq
      rcases List.mem_append.mp hq with hq | hq
      · exact hb'.pats q hq
      · exact List.mem_singleton.mp hq ▸ List.mem_of_getElem? hw'

lemma init_growing_of_clean (ignoreCase : Bool)
    (h : ∀ d, t.reserve = some d → d.gotoT[0]? = some [] ∧ d.outputT[0]? = some 0) :
    Growing (init t ignoreCase) ignoreCase [] := by
  have hlabelled : Labelled [[]] [[]] := by
    refine ⟨rfl, rfl, List.nodup_singleton _, fun w c hw => by simp at hw, ?_, by simp⟩
    intro i item w hi hw it
    cases i with
    | zero =>
      obtain rfl : [] = item := by simpa using hi
      simp [List.getElem?_singleton]
    | succ i => simp at hi
  have hone {α : Type} {l : List α} {x : α} (hl : l = [] ∨ l[0]? = some x) : resize l 1 x = [x] := by
    cases l with
    | nil => rfl
    | cons a l =>
      obtain rfl : a = x := by simpa using hl
      simp [resize]
  set d := t.reserve.getD {} with hd
  have hleft : (d.gotoT = [] ∨ d.gotoT[0]? = some []) ∧ (d.outputT = [] ∨ d.outputT[0]? = some 0) := by
    cases hr : t.reserve with
    | none =>
      rw [hr] at hd
      exact ⟨Or.inl (by rw [hd]; rfl), Or.inl (by rw [hd]; rfl)⟩
    | some d' =>
      rw [hr, Option.getD_some] at hd
      exact hd ▸ ⟨Or.inr (h d' hr).1, Or.inr (h d' hr).2⟩
  refine ⟨_, [[]], rfl, rfl, ?_, ?_, ?_, ?_, by simp⟩
  · rw [← hd, hone hleft.1]
    exact hlabelled
  · rfl
  · rw [← hd, hone hleft.2]
    rfl
  · intro i w hw
    rw [← hd, hone hleft.2]
    cases i with
    | zero => simp
    | succ i => simp at hw

lemma init_growing (ignoreCase : Bool) : Growing (init {} ignoreCase) ignoreCase [] :=
  init_growing_of_clean ignoreCase fun d hd => absurd hd.symm (Option.some_ne_none d)

lemma updates_growing {ignoreCase : Bool} (patterns : List (List UInt8))
    (h : Growing t ignoreCase pats) : ∃ t', patterns.foldlM update t = some t' ∧
      Growing t' ignoreCase (pats ++ patterns.map fun p => p.map (folded ignoreCase)) := by
  induction patterns generalizing t pats with
  | nil => exact ⟨t, rfl, by simpa using h⟩
  | cons p patterns ih =>
    obtain ⟨t₁, h₁, hg₁⟩ := update_spec p h
    obtain ⟨t₂, h₂, hg₂⟩ := ih hg₁
    refine ⟨t₂, ?_, by simpa using hg₂⟩
    rw [List.foldlM_cons, h₁]
    exact h₂

end TrieAc

end Simple.Utils
