import Simple.Utils.TrieLinks

/-! The automaton follows the longest word of the trie that the text ends with. -/

namespace Simple.Utils

open Simple.Lib

namespace TrieAc

variable {table table' : List NodeSet} {words pats : List (List UInt8)} {item item' : NodeSet}
variable {w : List UInt8} {i j state link : ℕ} {c : UInt8} {fail : List Int}

def find (item : NodeSet) (c : UInt8) : Option TrieNode := item.find? fun it => it.character = c

lemma nextState_find (hi : table[i]? = some item) :
    nextState table i c = match find item c with
      | none => if i = 0 then 0 else -1
      | some it => it.next := by
  unfold nextState find
  rw [if_neg (by omega), Int.toNat_natCast, hi]
  dsimp only
  cases item.find? fun it => it.character = c <;> simp

lemma nextState_congr (hi : table'[i]? = table[i]?) : nextState table' i c = nextState table i c := by
  simp [nextState, hi]

lemma find_emplace (hc : find item c = none) (k : ℕ) (b : UInt8) :
    find (item.emplace ⟨c, k⟩) b = if b = c then some ⟨c, k⟩ else find item b := by
  rw [emplace_eq hc]
  unfold find at hc ⊢
  rw [List.find?_append]
  split_ifs with hb
  · subst hb
    simp [hc]
  · simp [Ne.symm hb]

/-- In the state of `w` every character leads to the longest word that there is then. -/
def Moves (table : List NodeSet) (words : List (List UInt8)) (i : ℕ) (w : List UInt8) : Prop :=
  ∀ c, ∃ k : ℕ, words[k]? = some (longest (· ∈ words) (w ++ [c])) ∧
    (nextState table i c = k ∨ k = 0 ∧ nextState table i c < 0)

lemma Moves.congr (hm : Moves table words i w) (hi : table'[i]? = table[i]?) :
    Moves table' words i w := by
  intro c
  rw [nextState_congr hi]
  exact hm c

lemma moves_start (h : Labelled table words) : Moves table words 0 [] := by
  intro c
  by_cases hc : [c] ∈ words
  · obtain ⟨j, hj⟩ := List.getElem?_of_mem hc
    refine ⟨j, ?_, Or.inl (h.nextState_child h.start hj)⟩
    rw [hj, List.nil_append, longest_of_mem hc]
  · refine ⟨0, ?_, Or.inl (h.nextState_none h.start hc)⟩
    rw [List.nil_append, longest_singleton_of_not_mem hc]
    exact h.start

def Goes (words : List (List UInt8)) (w : List UInt8) (item : NodeSet) (c : UInt8) : Prop :=
  ∃ k : ℕ, words[k]? = some (longest (· ∈ words) (w ++ [c])) ∧
    ((find item c).map TrieNode.next = some k ∨ k = 0 ∧ find item c = none)

lemma completeState_cons (h : Labelled table words) (hi : table[state]? = some item)
    (hw : words[state]? = some w) (hne : w ≠ []) (hfail : fail[state]? = some (link : Int))
    (hm : Moves table' words link (border (· ∈ words) w)) (hi' : table'[state]? = some item')
    (new : List ℕ) {ch : UInt8} (hfind : find item' ch = find item ch) (chs : List UInt8) :
    ∃ table₁ item₁, completeState fail state table' new (ch :: chs) =
        completeState fail state table₁
          (new ++ ((find item ch).map TrieNode.next).toList) chs ∧
      (∀ i, i ≠ state → table₁[i]? = table'[i]?) ∧ table₁[state]? = some item₁ ∧
      (∀ c, c ≠ ch → find item₁ c = find item' c) ∧ Goes words w item₁ ch := by
  rw [completeState]
  dsimp only
  rw [nextState_find hi', hfind]
  by_cases hc : w ++ [ch] ∈ words
  · obtain ⟨j, hj⟩ := List.getElem?_of_mem hc
    have hchild : find item ch = some ⟨ch, j⟩ := h.find_child hi hw hj
    refine ⟨table', item', ?_, fun _ _ => rfl, hi', fun _ _ => rfl, j, ?_, Or.inl ?_⟩
    · simp [hchild, h.child_pos hj]
    · rw [hj, longest_of_mem hc]
    · rw [hfind, hchild]
      rfl
  · have hnone : find item ch = none := h.find_none hi hw hc
    have hstate := (h.ne_zero hw).mpr hne
    obtain ⟨k, hk, hnext⟩ := hm ch
    rw [← longest_concat_of_not_mem h.closed hne hc] at hk
    have hneg : ¬(0 : Int) < -1 := by decide
    simp only [hnone, if_neg hstate, if_neg hneg, hfail, Option.bind_some, Option.map_none,
      Option.toList_none, List.append_nil]
    by_cases hpos : 0 < nextState table' link ch
    · have hlink : nextState table' link ch = k := by
        rcases hnext with hnext | ⟨-, hnext⟩
        · exact hnext
        · omega
      have hitem : find item' ch = none := hfind.trans hnone
      rw [if_pos hpos, hi', Option.bind_some, hlink, Int.toNat_natCast]
      refine ⟨_, _, rfl, fun i hne => List.getElem?_set_ne (Ne.symm hne),
        List.getElem?_set_self (List.getElem?_eq_some_iff.mp hi').1, ?_, k, hk, Or.inl ?_⟩
      · intro c hne
        rw [find_emplace hitem, if_neg hne]
      · rw [find_emplace hitem, if_pos rfl]
        rfl
    · have hzero : k = 0 := by
        rcases hnext with hnext | ⟨hnext, -⟩
        · omega
        · exact hnext
      rw [if_neg hpos]
      exact ⟨table', item', rfl, fun _ _ => rfl, hi', fun _ _ => rfl, k, hk,
        Or.inr ⟨hzero, hfind.trans hnone⟩⟩

lemma completeState_spec (h : Labelled table words) (hi : table[state]? = some item)
    (hw : words[state]? = some w) (hne : w ≠ []) (hfail : fail[state]? = some (link : Int))
    (hlink : link ≠ state) (hm : Moves table' words link (border (· ∈ words) w))
    (hi' : table'[state]? = some item') (new : List ℕ) {chs : List UInt8} (hn : chs.Nodup)
    (hfind : ∀ c ∈ chs, find item' c = find item c) :
    ∃ table'' item'', completeState fail state table' new chs =
        some (table'', new ++ chs.filterMap fun c => (find item c).map TrieNode.next) ∧
      (∀ i, i ≠ state → table''[i]? = table'[i]?) ∧ table''[state]? = some item'' ∧
      (∀ c, c ∉ chs → find item'' c = find item' c) ∧ ∀ c ∈ chs, Goes words w item'' c := by
  induction chs generalizing table' item' new with
  | nil => exact ⟨table', item', by simp [completeState], fun _ _ => rfl, hi', fun _ _ => rfl, by simp⟩
  | cons ch chs ih =>
    rw [List.nodup_cons] at hn
    rw [List.forall_mem_cons] at hfind
    obtain ⟨table₁, item₁, hrun₁, hother₁, hset₁, hkeep, hgoes₁⟩ :=
      completeState_cons h hi hw hne hfail hm hi' new hfind.1 chs
    have hfind₁ : ∀ c ∈ chs, find item₁ c = find item c := fun c hc =>
      (hkeep c fun heq => hn.1 (heq ▸ hc)).trans (hfind.2 c hc)
    obtain ⟨table'', item'', hrun, hother, hset, hkept, hgoes⟩ :=
      ih (hm.congr (hother₁ link hlink)) hset₁ _ hn.2 hfind₁
    refine ⟨table'', item'', ?_, fun i hne => (hother i hne).trans (hother₁ i hne), hset, ?_, ?_⟩
    · rw [hrun₁, hrun, List.append_assoc, List.filterMap_cons]
      cases find item ch <;> rfl
    · intro c hmem
      rw [List.mem_cons, not_or] at hmem
      exact (hkept c hmem.2).trans (hkeep c hmem.1)
    · refine List.forall_mem_cons.mpr ⟨?_, hgoes⟩
      simpa only [Goes, hkept ch hn.1] using hgoes₁

lemma mem_allChars (c : UInt8) : c ∈ allChars := by
  refine List.mem_map.mpr ⟨c.toNat, List.mem_range.mpr c.toNat_lt, ?_⟩
  simp

lemma allChars_nodup : allChars.Nodup := by
  refine List.nodup_range.map_on ?_
  intro a ha b hb heq
  rw [List.mem_range] at ha hb
  have htoNat := congrArg UInt8.toNat heq
  rwa [UInt8.toNat_ofNat_of_lt' ha, UInt8.toNat_ofNat_of_lt' hb] at htoNat

/-- The states that were visited are complete, and the others as they were. -/
structure DfaInv (table : List NodeSet) (words : List (List UInt8)) (seen : List ℕ)
    (table' : List NodeSet) : Prop where
  kept : ∀ i, i ∉ seen → table'[i]? = table[i]?
  moves : ∀ i ∈ seen, ∀ w, words[i]? = some w → Moves table' words i w

variable {seen q : List ℕ} {s : Links}

lemma child_eq_some (h : Labelled table words) (hi : table[i]? = some item)
    (hw : words[i]? = some w) :
    (find item c).map TrieNode.next = some j ↔ words[j]? = some (w ++ [c]) := by
  constructor
  · intro hj
    obtain ⟨it, hit, rfl⟩ := Option.map_eq_some_iff.mp hj
    have hchar : it.character = c := by simpa using List.find?_some hit
    rw [← hchar]
    exact (h.node i item w hi hw it).mp (List.mem_of_find?_eq_some hit)
  · intro hj
    rw [show find item c = some ⟨c, j⟩ from h.find_child hi hw hj]
    rfl

lemma completeState_visit (h : Labelled table words) (hl : Linked words pats s)
    (ho : (forest h).Order seen (state :: q)) (hd : DfaInv table words seen table') :
    ∃ table'' new, completeState s.fail state table' [] allChars = some (table'', new) ∧
      new.Nodup ∧ (∀ j, j ∈ new ↔ (forest h).child state j) ∧
      DfaInv table words (seen ++ [state]) table'' := by
  obtain ⟨w, hw, hne⟩ := forest_word h ho
  obtain ⟨item, hi⟩ := h.item_of_word hw
  obtain ⟨link, hfail, hlink⟩ := hl.fail state w hw hne
  have hshort := border_length_lt (P := (· ∈ words)) hne
  have hlinkne : link ≠ state := by
    rintro rfl
    have := congrArg List.length (Option.some.inj (hlink.symm.trans hw))
    omega
  have hstate : state ∉ seen := fun hmem =>
    List.disjoint_of_nodup_append ho.nodup hmem List.mem_cons_self
  have hm : Moves table' words link (border (· ∈ words) w) := by
    by_cases hnil : border (· ∈ words) w = []
    · rw [hnil] at hlink ⊢
      obtain rfl := index_unique h.nodup hlink h.start
      exact (moves_start h).congr
        (hd.kept 0 fun hmem => zero_not_seen ho (List.mem_append_left _ hmem))
    · refine hd.moves link (ho.visited ?_ ?_) _ hlink
      · simpa [forest] using
          ⟨(List.getElem?_eq_some_iff.mp hlink).1, (h.ne_zero hlink).mpr hnil⟩
      · have := List.length_pos_iff.mpr hnil
        simp only [forest, wordAt_eq hlink, wordAt_eq hw]
        omega
  have hi' : table'[state]? = some item := (hd.kept state hstate).trans hi
  obtain ⟨table'', item'', hrun, hother, hset, -, hgoes⟩ := completeState_spec h hi hw hne hfail
    hlinkne hm hi' [] allChars_nodup fun _ _ => rfl
  refine ⟨table'', _, hrun, ?_, ?_, ?_, ?_⟩
  · rw [List.nil_append]
    refine allChars_nodup.filterMap fun c c' j hj hj' => ?_
    have hword := (child_eq_some h hi hw).mp hj
    rw [(child_eq_some h hi hw).mp hj'] at hword
    simpa using Option.some.inj hword.symm
  · intro j
    rw [List.nil_append, List.mem_filterMap]
    constructor
    · rintro ⟨c, -, hj⟩
      exact ⟨(h.ne_zero hw).mpr hne, w, c, hw, (child_eq_some h hi hw).mp hj⟩
    · rintro ⟨-, w', c, hw', hj⟩
      obtain rfl := Option.some.inj (hw.symm.trans hw')
      exact ⟨c, mem_allChars c, (child_eq_some h hi hw).mpr hj⟩
  · intro i hmem
    rw [List.mem_append, List.mem_singleton, not_or] at hmem
    exact (hother i hmem.2).trans (hd.kept i hmem.1)
  · intro i hmem v hv
    rcases List.mem_append.mp hmem with hmem | hmem
    · exact (hd.moves i hmem v hv).congr (hother i fun heq => hstate (heq ▸ hmem))
    · obtain rfl := List.mem_singleton.mp hmem
      obtain rfl := Option.some.inj (hw.symm.trans hv)
      intro c
      obtain ⟨k, hk, hfind⟩ := hgoes c (mem_allChars c)
      refine ⟨k, hk, ?_⟩
      rw [nextState_find hset]
      rcases hfind with hfind | ⟨hzero, hfind⟩
      · obtain ⟨it, hit, rfl⟩ := Option.map_eq_some_iff.mp hfind
        exact Or.inl (by rw [hit])
      · refine Or.inr ⟨hzero, ?_⟩
        rw [hfind, if_neg ((h.ne_zero hw).mpr hne)]
        decide

variable {d : AcDfa} {t : TrieAc} {fuel : ℕ}

structure Automaton (d : AcDfa) (words pats : List (List UInt8)) : Prop where
  start : words[0]? = some []
  listed : ∀ p ∈ pats, p ∈ words
  closed : PrefixClosed (· ∈ words)
  nonempty : d.gotoT ≠ []
  moves : ∀ (i : ℕ) w, words[i]? = some w → Moves d.gotoT words i w
  output : ∀ (i : ℕ) w, words[i]? = some w → d.outputT[i]? = some (longest (· ∈ pats) w).length

def Rooted (table : List NodeSet) : Prop :=
  ∃ item, table[0]? = some item ∧ ∀ it ∈ item, it.next ≠ 0

lemma Labelled.rooted (h : Labelled table words) : Rooted table := by
  obtain ⟨item, hi⟩ := h.item_of_word h.start
  refine ⟨item, hi, fun it hit => ?_⟩
  rw [h.ne_zero ((h.node 0 item [] hi h.start it).mp hit)]
  exact List.cons_ne_nil _ _

lemma convertToDfa_spec (order : Iteration)
    (ht : t.reserve = some { d with outputT := s.output }) (hfail : t.failTable = s.fail)
    (h : Labelled d.gotoT words) (hpats : ∀ p ∈ pats, p ∈ words) (hl : Linked words pats s)
    (hfuel : words.length ≤ fuel) :
    ∃ table, convertToDfa order fuel t =
        some { t with reserve := some { d with gotoT := table, outputT := s.output } } ∧
      Automaton { d with gotoT := table, outputT := s.output } words pats ∧ Rooted table := by
  obtain ⟨item, hi⟩ := h.item_of_word h.start
  have hperm := order.perm item
  have hnonempty : ¬(d.gotoT = [] ∨ s.fail = []) := by
    rintro (hnil | hnil)
    · simp [hnil] at hi
    · exact hl.nonempty hnil
  have horder := Forest.Order.initial (items_nodup h hi h.start hperm) (roots_mem h hi hperm)
  have hinitial : DfaInv d.gotoT words [] d.gotoT :=
    ⟨fun _ _ => rfl, fun i hi => absurd hi List.not_mem_nil⟩
  obtain ⟨table, seen, hrun, hdone, hfinal⟩ := Forest.whileQueue_spec
    (I := fun seen _ table => DfaInv d.gotoT words seen table)
    (fun seen x q table ho hd => completeState_visit h hl ho hd) horder hinitial
    (nodes_length_le h hfuel)
  have hzero : 0 ∉ seen := fun hmem => zero_not_seen hdone (List.mem_append_left _ hmem)
  have hroot : Rooted table := by
    obtain ⟨root, hitem, hnext⟩ := h.rooted
    exact ⟨root, (hfinal.kept 0 hzero).trans hitem, hnext⟩
  refine ⟨table, ?_, ⟨h.start, hpats, h.closed, ?_, ?_, hl.output⟩, hroot⟩
  · simp only [convertToDfa, ht, hfail, Option.bind_eq_bind, Option.bind_some, if_neg hnonempty,
      hi, hrun]
  · intro hnil
    have hkept := hfinal.kept 0 hzero
    rw [hi, show table = [] from hnil] at hkept
    simp at hkept
  · intro i w hw
    by_cases hne : w = []
    · subst hne
      obtain rfl := index_unique h.nodup hw h.start
      exact (moves_start h).congr (hfinal.kept 0 hzero)
    · refine hfinal.moves i (hdone.complete ?_) w hw
      simpa [forest] using ⟨(List.getElem?_eq_some_iff.mp hw).1, (h.ne_zero hw).mpr hne⟩

lemma build_spec (order : Iteration) {ignoreCase : Bool} (hg : Growing t ignoreCase pats) :
    ∃ n, ∀ fuel, n ≤ fuel → ∃ t₁ t₂ d words, buildFailTable order fuel t = some t₁ ∧
      convertToDfa order fuel t₁ = some t₂ ∧ t₂.reserve = some d ∧ t₂.data = t.data ∧
      d.ignoreCase = ignoreCase ∧ Automaton d words pats ∧ Rooted d.gotoT := by
  obtain ⟨d, words, ht, hcase, hb⟩ := hg
  refine ⟨words.length, fun fuel hfuel => ?_⟩
  obtain ⟨s, hfail, hl⟩ := buildFailTable_spec order ht hb hfuel
  have hspec {t : TrieAc} (ht : t.reserve = some { d with outputT := s.output })
      (hfail : t.failTable = s.fail) : ∃ table,
        convertToDfa order fuel t =
          some { t with reserve := some { d with gotoT := table, outputT := s.output } } ∧
        Automaton { d with gotoT := table, outputT := s.output } words pats ∧ Rooted table :=
    convertToDfa_spec order ht hfail hb.labelled hb.pats hl hfuel
  obtain ⟨table, hconvert, ha, hroot⟩ :=
    hspec (t := { t with reserve := some { d with outputT := s.output }, failTable := s.fail }) rfl rfl
  exact ⟨_, _, _, words, hfail, hconvert, rfl, rfl, hcase, ha, hroot⟩

lemma final_spec (order : Iteration) {ignoreCase : Bool} (hg : Growing t ignoreCase pats) :
    ∃ n, ∀ fuel, n ≤ fuel → ∃ t' d words, final order fuel false t = some t' ∧ t'.data = some d ∧
      d.ignoreCase = ignoreCase ∧ Automaton d words pats := by
  obtain ⟨n, hbuild⟩ := build_spec order hg
  refine ⟨n, fun fuel hfuel => ?_⟩
  obtain ⟨t₁, t₂, d, words, hlinks, hconvert, hreserve, -, hcase, ha, -⟩ := hbuild fuel hfuel
  refine ⟨{ t₂ with data := t₂.reserve, reserve := t₂.data }, d, words, ?_, hreserve, hcase, ha⟩
  simp [final, hlinks, hconvert]

lemma cycle_spec (order : Iteration) (ignoreCase : Bool) (patterns : List (List UInt8)) :
    ∃ n, ∀ fuel, n ≤ fuel → ∃ t d words, cycle order fuel ignoreCase patterns = some t ∧
      t.data = some d ∧ d.ignoreCase = ignoreCase ∧
      Automaton d words (patterns.map fun p => p.map (folded ignoreCase)) := by
  obtain ⟨t, ht, hg⟩ := updates_growing patterns (init_growing ignoreCase)
  obtain ⟨n, hfinal⟩ := final_spec order hg
  refine ⟨n, fun fuel hfuel => ?_⟩
  obtain ⟨t', d, words, hrun, hdata, hcase, ha⟩ := hfinal fuel hfuel
  refine ⟨t', d, words, ?_, hdata, hcase, ha⟩
  rw [cycle, ht]
  exact hrun

lemma Automaton.advance (ha : Automaton d words pats) {read : List UInt8}
    (hi : words[i]? = some (longest (· ∈ words) read)) (c : UInt8) :
    ∃ k : ℕ, words[k]? = some (longest (· ∈ words) (read ++ [c])) ∧
      (if nextState d.gotoT i c < 0 then 0 else nextState d.gotoT i c) = (k : Int) ∧
      at? d.outputT k = some (longest (· ∈ pats) (read ++ [c])).length := by
  obtain ⟨k, hk, hnext⟩ := ha.moves i _ hi c
  rw [← longest_concat ha.closed] at hk
  refine ⟨k, hk, ?_, ?_⟩
  · rcases hnext with hnext | ⟨rfl, hnext⟩
    · rw [hnext, if_neg (by omega)]
    · rw [if_pos hnext]
      rfl
  · rw [at?_natCast, ha.output k _ hk, longest_longest ha.listed]

/-- What is compared of a text: the bytes before its first NUL. -/
def visible (ignoreCase : Bool) (strv : List UInt8) : List UInt8 :=
  (strv.takeWhile (· ≠ 0)).map (folded ignoreCase)

lemma visible_cons (ignoreCase : Bool) {ch : UInt8} (hch : ch ≠ 0) (strv : List UInt8) :
    visible ignoreCase (ch :: strv) = folded ignoreCase ch :: visible ignoreCase strv := by
  simp [visible, hch]

lemma inTrieLoop_spec (ha : Automaton d words pats) {read : List UInt8}
    (hi : words[i]? = some (longest (· ∈ words) read)) (strv : List UInt8) :
    ∃ found, inTrieLoop d i strv = some found ∧ (found = true ↔ ∃ u, u ≠ [] ∧
      u <+: visible d.ignoreCase strv ∧ ∃ p ∈ pats, p ≠ [] ∧ p <:+ read ++ u) := by
  induction strv generalizing i read with
  | nil =>
    refine ⟨false, rfl, ?_⟩
    simp +contextual [visible]
  | cons ch strv ih =>
    unfold inTrieLoop
    by_cases hch : ch = 0
    · refine ⟨false, if_pos hch, ?_⟩
      simp +contextual [visible, hch]
    · rw [if_neg hch]
      dsimp only
      rw [visible_cons d.ignoreCase hch]
      set c := folded d.ignoreCase ch
      obtain ⟨k, hk, hstate, hout⟩ := ha.advance hi c
      rw [hstate, hout, Option.bind_some]
      by_cases hnone : longest (· ∈ pats) (read ++ [c]) = []
      · obtain ⟨found, hrun, hfound⟩ := ih hk
        refine ⟨found, ?_, hfound.trans ⟨?_, ?_⟩⟩
        · rw [hnone, List.length_nil, if_neg (lt_irrefl 0), hrun]
        · rintro ⟨u, -, hu, p, hp, hpne, hs⟩
          refine ⟨c :: u, List.cons_ne_nil _ _, List.cons_prefix_cons.mpr ⟨rfl, hu⟩, p, hp, hpne, ?_⟩
          simpa using hs
        · rintro ⟨u, hune, hu, p, hp, hpne, hs⟩
          obtain ⟨b, v, rfl⟩ := List.exists_cons_of_ne_nil hune
          obtain ⟨rfl, hv⟩ := List.cons_prefix_cons.mp hu
          refine ⟨v, ?_, hv, p, hp, hpne, by simpa using hs⟩
          rintro rfl
          exact longest_ne_nil_iff.mpr ⟨p, hp, hpne, hs⟩ hnone
      · refine ⟨true, ?_, iff_of_true rfl ?_⟩
        · rw [if_pos (List.length_pos_iff.mpr hnone)]
        · obtain ⟨p, hp, hpne, hs⟩ := longest_ne_nil_iff.mp hnone
          refine ⟨[c], List.cons_ne_nil _ _, ?_, p, hp, hpne, hs⟩
          exact List.cons_prefix_cons.mpr ⟨rfl, List.nil_prefix⟩

lemma exists_prefix_suffix_iff {p text : List UInt8} (hp : p ≠ []) :
    p <:+: text ↔ ∃ u, u ≠ [] ∧ u <+: text ∧ p <:+ u := by
  constructor
  · rintro ⟨v, z, rfl⟩
    refine ⟨v ++ p, List.append_ne_nil_of_right_ne_nil v hp, List.prefix_append _ z, ?_⟩
    exact List.suffix_append v p
  · rintro ⟨u, -, hu, hs⟩
    exact hs.isInfix.trans hu.isInfix

lemma inTrie_spec (ha : Automaton d words pats) (hdata : t.data = some d) (strv : List UInt8) :
    ∃ found, inTrie t strv = some found ∧
      (found = true ↔ ∃ p ∈ pats, p ≠ [] ∧ p <:+: visible d.ignoreCase strv) := by
  have hstart : words[0]? = some (longest (· ∈ words) []) := ha.start
  obtain ⟨found, hloop, hfound⟩ := inTrieLoop_spec ha hstart strv
  refine ⟨found, ?_, hfound.trans ⟨?_, ?_⟩⟩
  · simp only [inTrie, hdata, if_neg ha.nonempty]
    exact hloop
  · rintro ⟨u, -, hu, p, hp, hpne, hs⟩
    exact ⟨p, hp, hpne, hs.isInfix.trans hu.isInfix⟩
  · rintro ⟨p, hp, hpne, hinfix⟩
    obtain ⟨u, hune, hu, hs⟩ := (exists_prefix_suffix_iff hpne).mp hinfix
    exact ⟨u, hune, hu, p, hp, hpne, hs⟩

/-- After one cycle `in_trie` finds a pattern in the text before its first NUL where one is there. -/
theorem in_trie_iff (order : Iteration) (ignoreCase : Bool) (patterns : List (List UInt8))
    (hne : [] ∉ patterns) :
    ∃ n, ∀ fuel, n ≤ fuel → ∃ t, cycle order fuel ignoreCase patterns = some t ∧
      ∀ strv, ∃ found, inTrie t strv = some found ∧ (found = true ↔ ∃ p ∈ patterns,
        p.map (folded ignoreCase) <:+: (strv.takeWhile (· ≠ 0)).map (folded ignoreCase)) := by
  obtain ⟨n, hcycle⟩ := cycle_spec order ignoreCase patterns
  refine ⟨n, fun fuel hfuel => ?_⟩
  obtain ⟨t, d, words, hrun, hdata, rfl, ha⟩ := hcycle fuel hfuel
  refine ⟨t, hrun, fun strv => ?_⟩
  obtain ⟨found, hfound, hiff⟩ := inTrie_spec ha hdata strv
  refine ⟨found, hfound, hiff.trans ⟨?_, ?_⟩⟩
  · rintro ⟨q, hq, -, hinfix⟩
    obtain ⟨p, hp, rfl⟩ := List.mem_map.mp hq
    exact ⟨p, hp, hinfix⟩
  · rintro ⟨p, hp, hinfix⟩
    refine ⟨_, List.mem_map_of_mem hp, ?_, hinfix⟩
    rw [Ne, List.map_eq_nil_iff]
    exact fun hnil => hne (hnil ▸ hp)

def asStored : Iteration := ⟨id, List.Perm.refl⟩

theorem in_trie_ra_hello : ∃ n, ∀ fuel, n ≤ fuel →
    ∃ t, cycle asStored fuel true [[114, 97], [104, 101, 108, 108, 111]] = some t ∧
      ∀ strv, ∃ found, inTrie t strv = some found ∧ (found = true ↔
        ∃ p ∈ [[114, 97], [104, 101, 108, 108, 111]],
          p.map (folded true) <:+: (strv.takeWhile (· ≠ 0)).map (folded true)) :=
  in_trie_iff asStored true [[114, 97], [104, 101, 108, 108, 111]] (by decide)

end TrieAc

end Simple.Utils
