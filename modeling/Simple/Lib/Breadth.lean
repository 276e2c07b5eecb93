import Mathlib.Tactic

/-! Loops over a queue that go through a forest breadth first. -/

namespace Simple.Lib

structure Forest (α : Type) where
  nodes : List α
  root : α → Prop
  child : α → α → Prop
  depth : α → ℕ
  mem_root : ∀ x, root x → x ∈ nodes
  mem_child : ∀ x y, child x y → y ∈ nodes
  covered : ∀ y ∈ nodes, root y ∨ ∃ x ∈ nodes, child x y
  depth_root : ∀ x, root x → depth x = 0
  depth_child : ∀ x y, child x y → depth y = depth x + 1
  parent_unique : ∀ x x' y, child x y → child x' y → x = x'

def whileQueue {α S : Type} (visit : S → α → Option (S × List α)) : ℕ → S → List α → Option S
  | _, s, [] => some s
  | 0, _, _ :: _ => none
  | n + 1, s, x :: q => (visit s x).bind fun r => whileQueue visit n r.1 (q ++ r.2)

lemma whileQueue_mono {α S : Type} {visit visit' : S → α → Option (S × List α)} {s t : S}
    {q : List α} {n m : ℕ} (hv : ∀ s x r, visit s x = some r → visit' s x = some r)
    (h : whileQueue visit n s q = some t) (hnm : n ≤ m) : whileQueue visit' m s q = some t := by
  induction n generalizing s q m with
  | zero =>
    cases q with
    | nil => cases m <;> exact h
    | cons x q => exact absurd h (Option.some_ne_none t).symm
  | succ n ih =>
    obtain ⟨m, rfl⟩ : ∃ k, m = k + 1 := ⟨m - 1, by omega⟩
    cases q with
    | nil => exact h
    | cons x q =>
      obtain ⟨r, hr, hrest⟩ := Option.bind_eq_some_iff.mp h
      rw [whileQueue, hv s x r hr, Option.bind_some]
      exact ih hrest (Nat.le_of_succ_le_succ hnm)

namespace Forest

variable {α S : Type} (F : Forest α)

/-- The nodes of `seen` were visited, and those of `q` are to be. -/
structure Order (seen q : List α) : Prop where
  nodup : (seen ++ q).Nodup
  sorted : (seen ++ q).Pairwise fun x y => F.depth x ≤ F.depth y
  near : q.Pairwise fun x y => F.depth y ≤ F.depth x + 1
  mem : ∀ y, y ∈ seen ++ q ↔ F.root y ∨ ∃ x ∈ seen, F.child x y

variable {F} {seen q new : List α} {x y : α}

lemma Order.initial (hn : q.Nodup) (hq : ∀ y, y ∈ q ↔ F.root y) : F.Order [] q := by
  refine ⟨hn, ?_, ?_, fun y => by simp [hq]⟩
  · refine List.Pairwise.imp_of_mem ?_ (List.pairwise_of_forall fun _ _ => trivial)
    intro x y hx hy _
    rw [F.depth_root x ((hq x).mp hx)]
    exact Nat.zero_le _
  · refine List.Pairwise.imp_of_mem ?_ (List.pairwise_of_forall fun _ _ => trivial)
    intro x y hx hy _
    rw [F.depth_root y ((hq y).mp hy)]
    exact Nat.zero_le _

lemma Order.sorted_head (h : F.Order seen (x :: q)) :
    (∀ y ∈ seen, F.depth y ≤ F.depth x) ∧ ∀ y ∈ q, F.depth x ≤ F.depth y := by
  obtain ⟨-, hright, hleft⟩ := List.pairwise_append.mp h.sorted
  exact ⟨fun y hy => hleft y hy x List.mem_cons_self, (List.pairwise_cons.mp hright).1⟩

lemma Order.step (h : F.Order seen (x :: q)) (hn : new.Nodup)
    (hnew : ∀ y, y ∈ new ↔ F.child x y) : F.Order (seen ++ [x]) (q ++ new) := by
  obtain ⟨hseen, hq⟩ := h.sorted_head
  have hx : x ∉ seen := fun hx => List.disjoint_of_nodup_append h.nodup hx List.mem_cons_self
  have happend : seen ++ [x] ++ (q ++ new) = (seen ++ x :: q) ++ new := by simp
  have hnear := List.pairwise_cons.mp h.near
  have hdepth : ∀ y ∈ new, F.depth y = F.depth x + 1 :=
    fun y hy => F.depth_child x y ((hnew y).mp hy)
  refine ⟨?_, ?_, ?_, ?_⟩
  · rw [happend]
    refine List.nodup_append.mpr ⟨h.nodup, hn, ?_⟩
    rintro y hy z hz rfl
    have hchild := (hnew y).mp hz
    rcases (h.mem y).mp hy with hroot | ⟨x', hx', hchild'⟩
    · have := F.depth_root y hroot
      have := F.depth_child x y hchild
      omega
    · exact hx (F.parent_unique x x' y hchild hchild' ▸ hx')
  · rw [happend]
    refine List.pairwise_append.mpr ⟨h.sorted, ?_, ?_⟩
    · refine List.Pairwise.imp_of_mem ?_ (List.pairwise_of_forall fun _ _ => trivial)
      intro y z hy hz _
      rw [hdepth y hy, hdepth z hz]
    · intro y hy z hz
      rw [hdepth z hz]
      rcases List.mem_append.mp hy with hy | hy
      · exact (hseen y hy).trans (Nat.le_succ _)
      · rcases List.mem_cons.mp hy with rfl | hy
        · exact Nat.le_succ _
        · exact hnear.1 y hy
  · refine List.pairwise_append.mpr ⟨hnear.2, ?_, ?_⟩
    · refine List.Pairwise.imp_of_mem ?_ (List.pairwise_of_forall fun _ _ => trivial)
      intro y z hy hz _
      rw [hdepth y hy, hdepth z hz]
      exact Nat.le_succ _
    · intro y hy z hz
      rw [hdepth z hz]
      exact Nat.succ_le_succ (hq y hy)
  · intro y
    rw [happend, List.mem_append, h.mem y, hnew y]
    simp only [List.mem_append, List.mem_singleton, or_and_right, exists_or, exists_eq_left, or_assoc]

lemma Order.queued (h : F.Order seen (x :: q)) (hy : y ∈ F.nodes) (hd : F.depth y ≤ F.depth x) :
    y ∈ seen ++ x :: q := by
  induction hn : F.depth y using Nat.strong_induction_on generalizing y with
  | _ n ih =>
    rw [h.mem]
    rcases F.covered y hy with hroot | ⟨z, hz, hchild⟩
    · exact Or.inl hroot
    · have hdepth := F.depth_child z y hchild
      refine Or.inr ⟨z, ?_, hchild⟩
      rcases List.mem_append.mp (ih (F.depth z) (by omega) hz (by omega) rfl) with hseen | hqueue
      · exact hseen
      · rcases List.mem_cons.mp hqueue with rfl | hqueue
        · omega
        · have := h.sorted_head.2 z hqueue
          omega

lemma Order.visited (h : F.Order seen (x :: q)) (hy : y ∈ F.nodes) (hd : F.depth y < F.depth x) :
    y ∈ seen := by
  rcases List.mem_append.mp (h.queued hy hd.le) with hseen | hqueue
  · exact hseen
  · rcases List.mem_cons.mp hqueue with rfl | hqueue
    · omega
    · have := h.sorted_head.2 y hqueue
      omega

lemma Order.complete (h : F.Order seen []) (hy : y ∈ F.nodes) : y ∈ seen := by
  induction hn : F.depth y using Nat.strong_induction_on generalizing y with
  | _ n ih =>
    have hmem := h.mem y
    rw [List.append_nil] at hmem
    rw [hmem]
    rcases F.covered y hy with hroot | ⟨z, hz, hchild⟩
    · exact Or.inl hroot
    · have hdepth := F.depth_child z y hchild
      exact Or.inr ⟨z, ih (F.depth z) (by omega) hz rfl, hchild⟩

lemma Order.length_le (h : F.Order seen q) : seen.length + q.length ≤ F.nodes.length := by
  rw [← List.length_append]
  refine (List.subperm_of_subset h.nodup fun y hy => ?_).length_le
  rcases (h.mem y).mp hy with hroot | ⟨x, -, hchild⟩
  · exact F.mem_root y hroot
  · exact F.mem_child x y hchild

/-- A visit that appends the children of its node keeps the invariant, and every node is visited. -/
theorem whileQueue_spec {visit : S → α → Option (S × List α)} {I : List α → List α → S → Prop}
    (hstep : ∀ seen x q s, F.Order seen (x :: q) → I seen (x :: q) s →
      ∃ t new, visit s x = some (t, new) ∧ new.Nodup ∧ (∀ y, y ∈ new ↔ F.child x y) ∧
        I (seen ++ [x]) (q ++ new) t)
    {s : S} {n : ℕ} (ho : F.Order seen q) (hi : I seen q s)
    (hn : F.nodes.length ≤ seen.length + n) :
    ∃ t seen', whileQueue visit n s q = some t ∧ F.Order seen' [] ∧ I seen' [] t := by
  induction n generalizing seen q s with
  | zero =>
    cases q with
    | nil => exact ⟨s, seen, rfl, ho, hi⟩
    | cons x q =>
      have hlen := ho.length_le
      rw [List.length_cons] at hlen
      omega
  | succ n ih =>
    cases q with
    | nil => exact ⟨s, seen, rfl, ho, hi⟩
    | cons x q =>
      obtain ⟨t, new, hvisit, hnodup, hnew, ht⟩ := hstep seen x q s ho hi
      have hlen : F.nodes.length ≤ (seen ++ [x]).length + n := by
        rw [List.length_append, List.length_singleton]
        omega
      obtain ⟨u, seen', hrun, ho', hi'⟩ := ih (ho.step hnodup hnew) ht hlen
      refine ⟨u, seen', ?_, ho', hi'⟩
      simp only [whileQueue, hvisit, Option.bind_some]
      exact hrun

end Forest

end Simple.Lib
