import Simple.Utils.TrieWords

/-! The link of a state is the longest other state that its word ends with. -/

namespace Simple.Utils

open Simple.Lib

namespace TrieAc

variable {table : List NodeSet} {words pats : List (List UInt8)} {item : NodeSet} {w : List UInt8}
variable {i j : ℕ} {c : UInt8}

def wordAt (words : List (List UInt8)) (i : ℕ) : List UInt8 := words[i]?.getD []

lemma wordAt_eq (hw : words[i]? = some w) : wordAt words i = w := by simp [wordAt, hw]

def forest (h : Labelled table words) : Forest ℕ where
  nodes := (List.range words.length).filter (· ≠ 0)
  root j := ∃ c, words[j]? = some [c]
  child i j := i ≠ 0 ∧ ∃ w c, words[i]? = some w ∧ words[j]? = some (w ++ [c])
  depth i := (wordAt words i).length - 1
  mem_root j := by
    rintro ⟨c, hj⟩
    simpa using ⟨(List.getElem?_eq_some_iff.mp hj).1, (h.ne_zero hj).mpr (List.cons_ne_nil _ _)⟩
  mem_child i j := by
    rintro ⟨-, w, c, -, hj⟩
    simpa using ⟨(List.getElem?_eq_some_iff.mp hj).1, (h.child_pos hj).ne'⟩
  covered j := by
    intro hj
    obtain ⟨hlt, hne⟩ : j < words.length ∧ j ≠ 0 := by simpa using hj
    have hw := List.getElem?_eq_getElem hlt
    obtain hnil | ⟨v, c, hv⟩ := List.eq_nil_or_concat' words[j]
    · exact absurd hnil ((h.ne_zero hw).mp hne)
    · rw [hv] at hw
      obtain ⟨i, hi⟩ := List.getElem?_of_mem (h.closed v c (List.mem_of_getElem? hw))
      by_cases hi0 : i = 0
      · subst hi0
        obtain rfl := Option.some.inj (hi.symm.trans h.start)
        exact Or.inl ⟨c, hw⟩
      · refine Or.inr ⟨i, ?_, hi0, v, c, hi, hw⟩
        simpa using ⟨(List.getElem?_eq_some_iff.mp hi).1, hi0⟩
  depth_root j := by
    rintro ⟨c, hj⟩
    simp [wordAt_eq hj]
  depth_child i j := by
    rintro ⟨hi0, w, c, hi, hj⟩
    have := List.length_pos_iff.mpr ((h.ne_zero hi).mp hi0)
    simp only [wordAt_eq hi, wordAt_eq hj, List.length_append, List.length_singleton]
    omega
  parent_unique i i' j := by
    rintro ⟨-, w, c, hi, hj⟩ ⟨-, w', c', hi', hj'⟩
    have heq := Option.some.inj (hj.symm.trans hj')
    obtain rfl : w = w' := (List.append_inj' heq rfl).1
    exact index_unique h.nodup hi hi'

/-- The states that were queued have their links, and what is found in them. -/
structure LinksInv (words pats : List (List UInt8)) (queued : List ℕ) (s : Links) : Prop where
  linked : ∀ j ∈ queued, ∀ w, words[j]? = some w → ∃ k : ℕ, s.fail[j]? = some (k : Int) ∧
    words[k]? = some (border (· ∈ words) w) ∧ s.output[j]? = some (longest (· ∈ pats) w).length
  unlinked : ∀ j ∉ queued, ∀ w, words[j]? = some w → s.fail[j]? = some (-1) ∧
    s.output[j]? = some (if w ∈ pats then w.length else 0)

variable {queued : List ℕ} {s : Links} {n fuel : ℕ} {it : TrieNode} {state : ℕ}

/-- Every state with a word so short has been queued. -/
def Shallow (words : List (List UInt8)) (queued : List ℕ) (n : ℕ) : Prop :=
  ∀ (i : ℕ) w, words[i]? = some w → w ≠ [] → w.length ≤ n → i ∈ queued

lemma at?_natCast {α : Type} (l : List α) (i : ℕ) : at? l (i : Int) = l[i]? := by
  simp [at?]

lemma failLoop_spec (h : Labelled table words) (hs : LinksInv words pats queued s)
    (hq : Shallow words queued n) (hw : words[i]? = some w) (hne : w ≠ []) (hn : w.length ≤ n)
    (hfuel : w.length ≤ fuel) : ∃ k : ℕ, failLoop table s.fail c fuel i = some (k : Int) ∧
      words[k]? = some (longest (· ∈ words) (border (· ∈ words) w ++ [c])) := by
  induction fuel generalizing i w with
  | zero =>
    have := List.length_pos_iff.mpr hne
    omega
  | succ fuel ih =>
    obtain ⟨k, hfail, hk, -⟩ := hs.linked i (hq i w hw hne hn) w hw
    unfold failLoop
    rw [at?_natCast, hfail, Option.bind_some]
    by_cases hc : border (· ∈ words) w ++ [c] ∈ words
    · obtain ⟨j, hj⟩ := List.getElem?_of_mem hc
      refine ⟨j, ?_, ?_⟩
      · simp [h.nextState_child hk hj]
      · rw [hj, longest_of_mem hc]
    · rw [h.nextState_none hk hc]
      by_cases hnil : border (· ∈ words) w = []
      · rw [hnil, List.nil_append] at hc ⊢
        rw [hnil] at hk
        refine ⟨0, ?_, ?_⟩
        · simp [index_unique h.nodup hk h.start]
        · rw [longest_singleton_of_not_mem hc]
          exact h.start
      · have hlt := border_length_lt (P := (· ∈ words)) hne
        rw [if_neg ((h.ne_zero hk).mpr hnil)]
        dsimp only
        rw [if_pos (by decide), longest_concat_of_not_mem h.closed hnil hc]
        exact ih hk hnil (by omega) (by omega)

lemma LinksInv.output_eq (hs : LinksInv words pats queued s) (hw : words[i]? = some w)
    (hi : w ≠ [] → i ∈ queued) : s.output[i]? = some (longest (· ∈ pats) w).length := by
  by_cases hq : i ∈ queued
  · obtain ⟨k, -, -, hout⟩ := hs.linked i hq w hw
    exact hout
  · obtain rfl : w = [] := by_contra fun hne => hq (hi hne)
    rw [(hs.unlinked i hq _ hw).2]
    simp [longest]

lemma output_concat (hpats : ∀ p ∈ pats, p ∈ words) (hne : w ≠ []) :
    (longest (· ∈ pats) w).length =
      max (longest (· ∈ pats) (border (· ∈ words) w)).length (if w ∈ pats then w.length else 0) := by
  have hborder : longest (· ∈ pats) (border (· ∈ words) w) = longest (· ∈ pats) w.tail :=
    longest_longest hpats
  obtain ⟨a, v, rfl⟩ := List.exists_cons_of_ne_nil hne
  rw [hborder, List.tail_cons]
  by_cases hp : a :: v ∈ pats
  · have hle := (longest_suffix (P := (· ∈ pats)) v).length_le
    rw [longest_of_mem hp, if_pos hp, List.length_cons]
    omega
  · rw [longest_cons_of_not_mem hp, if_neg hp, Nat.max_zero]

lemma set_same {α : Type} {l : List α} {x : α} (hx : l[i]? = some x) : l.set i x = l := by
  obtain ⟨hlt, rfl⟩ := List.getElem?_eq_some_iff.mp hx
  exact List.set_getElem_self hlt

lemma next_not_mem {items : List TrieNode} (hnext : it.next ∉ items.map TrieNode.next)
    (hnew : ∀ it' ∈ items, it'.next ∉ queued) : ∀ it' ∈ items, it'.next ∉ queued ++ [it.next] := by
  intro it' hit' hmem
  rcases List.mem_append.mp hmem with hmem | hmem
  · exact hnew it' hit' hmem
  · exact hnext (List.mem_singleton.mp hmem ▸ List.mem_map_of_mem hit')

lemma LinksInv.link {k v : ℕ} (hs : LinksInv words pats queued s) (hj : words[j]? = some w)
    (hnew : j ∉ queued) (hk : words[k]? = some (border (· ∈ words) w))
    (hv : v = (longest (· ∈ pats) w).length) :
    LinksInv words pats (queued ++ [j]) ⟨s.fail.set j k, s.output.set j v⟩ := by
  obtain ⟨hfail, hown⟩ := hs.unlinked j hnew w hj
  constructor
  · intro i hi u hu
    by_cases hji : j = i
    · subst hji
      obtain rfl := Option.some.inj (hj.symm.trans hu)
      refine ⟨k, ?_, hk, ?_⟩
      · exact List.getElem?_set_self (List.getElem?_eq_some_iff.mp hfail).1
      · rw [← hv]
        exact List.getElem?_set_self (List.getElem?_eq_some_iff.mp hown).1
    · have hi' : i ∈ queued := by simpa [Ne.symm hji] using hi
      simpa only [List.getElem?_set_ne hji] using hs.linked i hi' u hu
  · intro i hi u hu
    simp only [List.mem_append, List.mem_singleton, not_or] at hi
    simpa only [List.getElem?_set_ne (Ne.symm hi.2)] using hs.unlinked i hi.1 u hu

lemma linkChild_spec (h : Labelled table words) (hpats : ∀ p ∈ pats, p ∈ words)
    (hs : LinksInv words pats queued s) (hq : Shallow words queued w.length)
    (hw : words[state]? = some w) (hne : w ≠ [])
    (hit : words[it.next]? = some (w ++ [it.character])) (hnew : it.next ∉ queued)
    (hfuel : w.length ≤ fuel) : ∃ s', linkChild table fuel state it s = some s' ∧
      LinksInv words pats (queued ++ [it.next]) s' := by
  have hchild : w ++ [it.character] ≠ [] :=
    List.append_ne_nil_of_right_ne_nil w (List.cons_ne_nil _ _)
  obtain ⟨k, hrun, hk⟩ := failLoop_spec (c := it.character) h hs hq hw hne le_rfl hfuel
  rw [← border_concat h.closed hne] at hk
  obtain ⟨hfail, hown⟩ := hs.unlinked it.next hnew _ hit
  have hshort := border_length_lt (P := (· ∈ words)) hchild
  rw [List.length_append, List.length_singleton] at hshort
  have hval := hs.output_eq hk fun hborder => hq k _ hk hborder (by omega)
  have hmax := output_concat hpats hchild
  set val := (longest (· ∈ pats) (border (· ∈ words) (w ++ [it.character]))).length
  set own := if w ++ [it.character] ∈ pats then (w ++ [it.character]).length else 0
  refine ⟨⟨s.fail.set it.next k, s.output.set it.next (max val own)⟩, ?_,
    hs.link hit hnew hk hmax.symm⟩
  simp only [linkChild, hrun, put?_eq hfail, at?_natCast, hval, hown, put?_eq hown,
    Option.bind_eq_bind, Option.bind_some]
  split_ifs with hpos
  · rfl
  · have hz : max val own = own := by omega
    rw [hz, set_same hown]

lemma Shallow.mono {queued' : List ℕ} (hq : Shallow words queued n) (hsub : queued ⊆ queued') :
    Shallow words queued' n := fun i w hw hne hn => hsub (hq i w hw hne hn)

lemma linkChildren_spec (h : Labelled table words) (hpats : ∀ p ∈ pats, p ∈ words)
    (hw : words[state]? = some w) (hne : w ≠ []) (hfuel : w.length ≤ fuel) (new : List ℕ)
    (items : List TrieNode) (hitems : ∀ it ∈ items, words[it.next]? = some (w ++ [it.character]))
    (hnodup : (items.map TrieNode.next).Nodup) (hnew : ∀ it ∈ items, it.next ∉ queued)
    (hs : LinksInv words pats queued s) (hq : Shallow words queued w.length) :
    ∃ s', linkChildren table fuel state s new items = some (s', new ++ items.map TrieNode.next) ∧
      LinksInv words pats (queued ++ items.map TrieNode.next) s' := by
  induction items generalizing s queued new with
  | nil => exact ⟨s, by simp [linkChildren], by simpa using hs⟩
  | cons it items ih =>
    rw [List.forall_mem_cons] at hitems hnew
    rw [List.map_cons, List.nodup_cons] at hnodup
    obtain ⟨s₁, hrun₁, hs₁⟩ :=
      linkChild_spec h hpats hs hq hw hne hitems.1 hnew.1 hfuel
    have hnew₁ := next_not_mem hnodup.1 hnew.2
    obtain ⟨s₂, hrun₂, hs₂⟩ := ih (new ++ [it.next]) hitems.2 hnodup.2 hnew₁ hs₁
      (hq.mono (List.subset_append_left _ _))
    refine ⟨s₂, ?_, by simpa using hs₂⟩
    rw [linkChildren, (hs.unlinked it.next hnew.1 _ hitems.1).1, Option.bind_some, if_neg (by simp),
      hrun₁, Option.bind_some, hrun₂]
    simp

lemma items_nodup (h : Labelled table words) (hi : table[i]? = some item) (hw : words[i]? = some w)
    {items : List TrieNode} (hperm : items.Perm item) : (items.map TrieNode.next).Nodup := by
  refine (hperm.nodup_iff.mpr (h.sets item (List.mem_of_getElem? hi))).map_on ?_
  intro it hit it' hit' hnext
  have hword := (h.node i item w hi hw it).mp (hperm.mem_iff.mp hit)
  have hword' := (h.node i item w hi hw it').mp (hperm.mem_iff.mp hit')
  rw [← hnext, hword] at hword'
  have hchar := List.append_inj_right' (Option.some.inj hword') rfl
  cases it
  cases it'
  simp_all

lemma mem_items (h : Labelled table words) (hi : table[i]? = some item) (hw : words[i]? = some w)
    {items : List TrieNode} (hperm : items.Perm item) (j : ℕ) :
    j ∈ items.map TrieNode.next ↔ ∃ c, words[j]? = some (w ++ [c]) := by
  rw [List.mem_map]
  constructor
  · rintro ⟨it, hit, rfl⟩
    exact ⟨it.character, (h.node i item w hi hw it).mp (hperm.mem_iff.mp hit)⟩
  · rintro ⟨c, hj⟩
    exact ⟨⟨c, j⟩, hperm.mem_iff.mpr ((h.node i item w hi hw ⟨c, j⟩).mpr hj), rfl⟩

lemma longest_letter : longest (· ∈ pats) [c] = if [c] ∈ pats then [c] else [] := rfl

lemma linkRoots_spec {fail : List Int} {output q : List ℕ} {items : List TrieNode}
    (h : Labelled table words) (hitems : ∀ it ∈ items, words[it.next]? = some [it.character])
    (hnodup : (items.map TrieNode.next).Nodup) (hnew : ∀ it ∈ items, it.next ∉ q)
    (hs : LinksInv words pats q ⟨fail, output⟩) :
    ∃ fail', linkRoots fail q items = some (fail', q ++ items.map TrieNode.next) ∧
      LinksInv words pats (q ++ items.map TrieNode.next) ⟨fail', output⟩ := by
  induction items generalizing fail q with
  | nil => exact ⟨fail, by simp [linkRoots], by simpa using hs⟩
  | cons it items ih =>
    rw [List.forall_mem_cons] at hitems hnew
    rw [List.map_cons, List.nodup_cons] at hnodup
    obtain ⟨hfail, hown⟩ := hs.unlinked it.next hnew.1 _ hitems.1
    dsimp only at hfail hown
    have hs₁ : LinksInv words pats (q ++ [it.next]) ⟨fail.set it.next 0, output⟩ := by
      have hletter : some (if [it.character] ∈ pats then [it.character].length else 0) =
          some (longest (· ∈ pats) [it.character]).length := by
        rw [longest_letter]
        split_ifs <;> rfl
      have hlink := hs.link hitems.1 hnew.1 h.start rfl
      rwa [set_same (hown.trans hletter)] at hlink
    have hnew₁ := next_not_mem hnodup.1 hnew.2
    obtain ⟨fail', hrun, hs'⟩ := ih hitems.2 hnodup.2 hnew₁ hs₁
    refine ⟨fail', ?_, by simpa using hs'⟩
    rw [linkRoots, put?_eq hfail, Option.bind_some, hrun]
    simp

lemma cleared_eq (l : List Int) (n : ℕ) :
    List.replicate (min l.length (resize l n (-1)).length) (-1) ++
      (resize l n (-1)).drop (min l.length (resize l n (-1)).length) = List.replicate n (-1) := by
  unfold resize
  by_cases hn : n ≤ l.length
  · simp [hn, Nat.sub_eq_zero_of_le hn]
  · have hle : l.length ≤ n := by omega
    have hlen : (l.take n ++ List.replicate (n - l.length) (-1)).length = n := by
      simp [hle]
    rw [hlen, min_eq_left hle, List.take_of_length_le hle, List.drop_left,
      ← List.replicate_add, Nat.add_sub_cancel' hle]

structure Linked (words pats : List (List UInt8)) (s : Links) : Prop where
  nonempty : s.fail ≠ []
  output : ∀ (i : ℕ) w, words[i]? = some w → s.output[i]? = some (longest (· ∈ pats) w).length
  fail : ∀ (i : ℕ) w, words[i]? = some w → w ≠ [] → ∃ k : ℕ, s.fail[i]? = some (k : Int) ∧
    words[k]? = some (border (· ∈ words) w)

variable {d : AcDfa} {t : TrieAc} {seen q : List ℕ}

lemma forest_shallow (h : Labelled table words) (ho : (forest h).Order seen (state :: q))
    (hw : words[state]? = some w) : Shallow words (seen ++ state :: q) w.length := by
  intro i v hv hne hlen
  refine ho.queued ?_ ?_
  · simpa [forest] using ⟨(List.getElem?_eq_some_iff.mp hv).1, (h.ne_zero hv).mpr hne⟩
  · simp only [forest, wordAt_eq hv, wordAt_eq hw]
    omega

lemma forest_word (h : Labelled table words) (ho : (forest h).Order seen (state :: q)) :
    ∃ w, words[state]? = some w ∧ w ≠ [] := by
  rcases (ho.mem state).mp (List.mem_append_right _ List.mem_cons_self) with ⟨c, hc⟩ | ⟨i, -, hi⟩
  · exact ⟨[c], hc, List.cons_ne_nil _ _⟩
  · obtain ⟨-, w, c, -, hj⟩ := hi
    exact ⟨w ++ [c], hj, List.append_ne_nil_of_right_ne_nil w (List.cons_ne_nil _ _)⟩

lemma zero_not_seen {h : Labelled table words} (ho : (forest h).Order seen q) : 0 ∉ seen ++ q := by
  intro hmem
  rcases (ho.mem 0).mp hmem with ⟨c, hc⟩ | ⟨i, -, -, w, c, -, hc⟩
  · exact (h.ne_zero hc).mpr (List.cons_ne_nil _ _) rfl
  · exact (h.child_pos hc).ne rfl

lemma nodes_length_le (h : Labelled table words) (hfuel : words.length ≤ fuel) :
    (forest h).nodes.length ≤ ([] : List ℕ).length + fuel := by
  have hle := List.length_filter_le (fun i : ℕ => decide (i ≠ 0)) (List.range words.length)
  rw [List.length_range] at hle
  exact (hle.trans hfuel).trans (Nat.le_add_left _ _)

lemma visitLinks_spec (order : Iteration) (h : Labelled table words) (hpats : ∀ p ∈ pats, p ∈ words)
    (hfuel : words.length ≤ fuel) (ho : (forest h).Order seen (state :: q))
    (hs : LinksInv words pats (seen ++ state :: q) s) :
    ∃ s' new, visitLinks order table fuel s state = some (s', new) ∧ new.Nodup ∧
      (∀ j, j ∈ new ↔ (forest h).child state j) ∧
      LinksInv words pats (seen ++ [state] ++ (q ++ new)) s' := by
  obtain ⟨w, hw, hne⟩ := forest_word h ho
  obtain ⟨item, hi⟩ := h.item_of_word hw
  have hperm := order.perm item
  have hnodup := items_nodup h hi hw hperm
  have hmem := mem_items h hi hw hperm
  have hchild (j : ℕ) : j ∈ (order.items item).map TrieNode.next ↔ (forest h).child state j := by
    rw [hmem]
    constructor
    · rintro ⟨c, hj⟩
      exact ⟨(h.ne_zero hw).mpr hne, w, c, hw, hj⟩
    · rintro ⟨-, w', c, hw', hj⟩
      obtain rfl := Option.some.inj (hw.symm.trans hw')
      exact ⟨c, hj⟩
  have hlen := (h.closed.length_lt (List.mem_of_getElem? hw)).le.trans hfuel
  have hitems : ∀ it ∈ order.items item, words[it.next]? = some (w ++ [it.character]) :=
    fun it hit => (h.node state item w hi hw it).mp (hperm.mem_iff.mp hit)
  have happend (new : List ℕ) : seen ++ [state] ++ (q ++ new) = (seen ++ state :: q) ++ new := by
    simp
  have hnew : ∀ it ∈ order.items item, it.next ∉ seen ++ state :: q := by
    intro it hit hqueued
    have hall := (ho.step hnodup hchild).nodup
    rw [happend] at hall
    exact List.disjoint_of_nodup_append hall hqueued (List.mem_map_of_mem hit)
  obtain ⟨s', hrun, hs'⟩ := linkChildren_spec h hpats hw hne hlen [] (order.items item) hitems
    hnodup hnew hs (forest_shallow h ho hw)
  refine ⟨s', _, ?_, hnodup, hchild, ?_⟩
  · rw [visitLinks, hi, Option.bind_some, hrun, List.nil_append]
  · rwa [happend]

lemma roots_mem (h : Labelled table words) (hi : table[0]? = some item) {items : List TrieNode}
    (hperm : items.Perm item) (j : ℕ) :
    j ∈ items.map TrieNode.next ↔ (forest h).root j := by
  rw [mem_items h hi h.start hperm]
  rfl

lemma buildFailTable_spec (order : Iteration) (ht : t.reserve = some d)
    (hb : Built d t.state words pats) (hfuel : words.length ≤ fuel) :
    ∃ s : Links, buildFailTable order fuel t =
      some { t with reserve := some { d with outputT := s.output }, failTable := s.fail } ∧
        Linked words pats s := by
  have h := hb.labelled
  obtain ⟨item, hi⟩ := h.item_of_word h.start
  have hperm := order.perm item
  have hnonempty : d.gotoT ≠ [] := by
    intro hnil
    simp [hnil] at hi
  have hinitial : LinksInv words pats [] ⟨List.replicate d.gotoT.length (-1), d.outputT⟩ := by
    refine ⟨fun j hj => absurd hj List.not_mem_nil, ?_⟩
    intro j _ w hw
    refine ⟨?_, hb.output j w hw⟩
    rw [h.length]
    exact List.getElem?_replicate_of_lt (List.getElem?_eq_some_iff.mp hw).1
  have hitems : ∀ it ∈ order.items item, words[it.next]? = some [it.character] :=
    fun it hit => (h.node 0 item [] hi h.start it).mp (hperm.mem_iff.mp hit)
  have hnodup := items_nodup h hi h.start hperm
  obtain ⟨fail, hroots, hs⟩ := linkRoots_spec h hitems hnodup
    (fun _ _ => List.not_mem_nil) hinitial
  rw [List.nil_append] at hroots hs
  have horder := Forest.Order.initial hnodup (roots_mem h hi hperm)
  obtain ⟨s, seen, hrun, hdone, hfinal⟩ := Forest.whileQueue_spec
    (I := fun seen q s => LinksInv words pats (seen ++ q) s)
    (fun seen x q s ho hs => visitLinks_spec order h hb.pats hfuel ho hs) horder hs
    (nodes_length_le h hfuel)
  rw [List.append_nil] at hfinal
  have hlinked {i : ℕ} {w : List UInt8} (hw : words[i]? = some w) (hne : w ≠ []) : i ∈ seen := by
    refine hdone.complete ?_
    simpa [forest] using ⟨(List.getElem?_eq_some_iff.mp hw).1, (h.ne_zero hw).mpr hne⟩
  have hzero : 0 ∉ seen := fun hmem => zero_not_seen hdone (List.mem_append_left _ hmem)
  refine ⟨s, ?_, ?_, ?_, ?_⟩
  · simp only [buildFailTable, ht, Option.bind_eq_bind, Option.bind_some, if_neg hnonempty,
      cleared_eq, hi, hroots, hrun]
  · intro hnil
    have hfail := (hfinal.unlinked 0 hzero [] h.start).1
    simp [hnil] at hfail
  · exact fun i w hw => hfinal.output_eq hw (hlinked hw)
  · intro i w hw hne
    obtain ⟨k, hfail, hk, -⟩ := hfinal.linked i (hlinked hw hne) w hw
    exact ⟨k, hfail, hk⟩

end TrieAc

end Simple.Utils
