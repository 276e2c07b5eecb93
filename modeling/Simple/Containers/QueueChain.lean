import Simple.Containers.Queue

/-! The list behind a `mpsc_queue`: its nodes from `tail_` to `head_` in the order of the exchanges,
with a gap wherever somebody has taken the end and not stored the link. -/

namespace Simple.Containers

open Simple.Lib

variable {P N : Type}

def QueueNode.isUser : QueueNode N → Bool
  | .stub => false
  | .user _ => true

def Pop.held : Pop N → List (QueueNode N)
  | .count n => [n]
  | _ => []

def Pop.Links (pc : Pop N) : Prop := ∃ a, pc = .link a

lemma Pop.quiet {pc : Pop N} (h : pc = .first ∨ pc = .second ∨ pc = .check ∨ pc = .last) :
    ¬pc.Links ∧ pc.held = [] := by
  rcases h with rfl | rfl | rfl | rfl <;> simp [Links, held]

def Push.Links (pc : Push N) : Prop := ∃ n a, pc = .link n a

lemma QueueNode.isUser_iff {a : QueueNode N} : a.isUser = true ↔ a ≠ .stub := by
  cases a <;> simp [isUser]

namespace Mpsc

variable {s t : Mpsc P N} {xs : List (QueueNode N)} {p : P} {n : N} {a b next : QueueNode N}

def Gap (s : Mpsc P N) (a b : QueueNode N) : Prop :=
  (∃ p n, s.producers p = .link n a ∧ b = .user n) ∨ (s.consumer = .link a ∧ b = .stub)

def Control (s : Mpsc P N) (xs : List (QueueNode N)) : Prop :=
  match s.consumer with
  | .idle | .first => True
  | .second | .check | .last | .link _ => s.queue.tail ≠ .stub
  | .clear => s.queue.tail ≠ .stub ∧ .stub ∉ xs
  | .exchange => s.queue.tail ≠ .stub ∧ .stub ∉ xs ∧ s.queue.next .stub = none
  | .count n => n ≠ .stub

lemma Control.tail_ne {s : Mpsc P N} {xs : List (QueueNode N)} (h : Control s xs)
    (hpc : s.consumer = .second ∨ s.consumer = .last) : s.queue.tail ≠ .stub := by
  rcases hpc with hpc | hpc <;> simpa only [Control, hpc] using h

structure Chain (s : Mpsc P N) (xs : List (QueueNode N)) : Prop where
  tail : xs.head? = some s.queue.tail
  head : xs.getLast? = some s.queue.head
  gapped : Gapped s.queue.next s.Gap xs
  order : s.order.map (fun e => .user e.2) =
    s.popped ++ s.consumer.held ++ xs.filter QueueNode.isUser

lemma gap_congr (hp : t.producers = s.producers) (hs : ¬s.consumer.Links) (ht : ¬t.consumer.Links) :
    t.Gap a b ↔ s.Gap a b := by
  unfold Gap
  rw [hp]
  apply or_congr_right
  constructor
  · rintro ⟨h, -⟩
    exact absurd ⟨a, h⟩ ht
  · rintro ⟨h, -⟩
    exact absurd ⟨a, h⟩ hs

lemma Control.congr (h : Control s xs) (hc : t.consumer = s.consumer)
    (htail : t.queue.tail = s.queue.tail)
    (hn : s.consumer = .exchange → .stub ∉ xs → t.queue.next .stub = s.queue.next .stub) :
    Control t xs := by
  unfold Control at h ⊢
  rw [hc, htail]
  split at h
  · trivial
  · trivial
  iterate 4 exact h
  · exact h
  · next hpc => exact ⟨h.1, h.2.1, (hn hpc h.2.1).trans h.2.2⟩
  · exact h

lemma Control.append (h : Control s xs) (n : N) : Control s (xs ++ [.user n]) := by
  unfold Control at h ⊢
  split at h <;> simp_all

namespace Chain

lemma mem_order (h : Chain s xs) (hn : .user n ∈ xs) : n ∈ s.order.map Prod.snd := by
  have hmem : QueueNode.user n ∈ s.order.map (fun e => QueueNode.user e.2) := by
    rw [h.order]
    simp [hn, QueueNode.isUser]
  simpa using hmem

lemma congr (h : Chain s xs) (hp : t.producers = s.producers) (hq : t.queue.head = s.queue.head)
    (htail : t.queue.tail = s.queue.tail) (hn : ∀ a ∈ xs, t.queue.next a = s.queue.next a)
    (ho : t.order = s.order) (hpop : t.popped ++ t.consumer.held = s.popped ++ s.consumer.held)
    (hs : ¬s.consumer.Links) (ht : ¬t.consumer.Links) : Chain t xs := by
  refine ⟨?_, ?_, h.gapped.congr hn fun a b => gap_congr hp hs ht, ?_⟩
  · rw [htail, h.tail]
  · rw [hq, h.head]
  · rw [ho, hpop, h.order]

lemma eq_cons (h : Chain s xs) : ∃ ys, xs = s.queue.tail :: ys := List.head?_eq_some_iff.mp h.tail

lemma advance (h : Chain s xs) (hnext : s.queue.next s.queue.tail = some next) :
    ∃ ys, xs = s.queue.tail :: ys ∧ ys.head? = some next ∧ ys.getLast? = some s.queue.head ∧
      Gapped s.queue.next s.Gap ys := by
  obtain ⟨ys, rfl⟩ := h.eq_cons
  have hhead := h.gapped.head_next hnext
  refine ⟨ys, rfl, hhead, ?_, h.gapped.tail (by simp [hnext])⟩
  have hlast := h.head
  cases ys with
  | nil => simp at hhead
  | cons y ys => rwa [List.getLast?_cons_cons] at hlast

lemma take (h : Chain s xs) (htail : s.queue.tail ≠ .stub)
    (hnext : s.queue.next s.queue.tail = some next) (hl : ¬s.consumer.Links)
    (hheld : s.consumer.held = []) : ∃ ys, Chain (s.take next) ys := by
  obtain ⟨ys, hys, hhead, hlast, hgapped⟩ := h.advance hnext
  have ht : ¬(s.take next).consumer.Links := by simp [Mpsc.take, turn, Pop.Links]
  refine ⟨ys, hhead, hlast, hgapped.congr (fun _ _ => rfl) fun a b => gap_congr rfl hl ht, ?_⟩
  have horder := h.order
  rw [hys, hheld, List.filter_cons_of_pos (QueueNode.isUser_iff.mpr htail)] at horder
  simpa [Mpsc.take, turn, setTail, Pop.held] using horder

lemma skip (h : Chain s xs) (htail : s.queue.tail = .stub)
    (hnext : s.queue.next s.queue.tail = some next) (hl : ¬s.consumer.Links)
    (hheld : s.consumer.held = []) :
    next ≠ .stub ∧ ∃ ys, Chain ((s.setTail next).turn .second) ys := by
  obtain ⟨ys, hys, hhead, hlast, hgapped⟩ := h.advance hnext
  have ht : ¬((s.setTail next).turn .second).consumer.Links := by simp [turn, Pop.Links]
  constructor
  · rintro rfl
    have hnodup := h.gapped.nodup
    rw [hys, htail] at hnodup
    exact (List.nodup_cons.mp hnodup).1 (List.mem_of_head? hhead)
  · refine ⟨ys, hhead, hlast, hgapped.congr (fun _ _ => rfl) fun a b => gap_congr rfl hl ht, ?_⟩
    have horder := h.order
    rw [hys, htail, List.filter_cons_of_neg (by simp [QueueNode.isUser]), hheld] at horder
    simpa [turn, setTail, Pop.held] using horder

lemma eq_singleton (h : Chain s xs) (heq : s.queue.tail = s.queue.head) : xs = [s.queue.tail] := by
  obtain ⟨ys, rfl⟩ := h.eq_cons
  cases ys with
  | nil => rfl
  | cons y ys =>
    have hlast := h.head
    rw [List.getLast?_cons_cons, ← heq] at hlast
    exact absurd (List.mem_of_getLast? hlast) (List.nodup_cons.mp h.gapped.nodup).1

lemma exchange_stub (h : Chain s xs) (hpc : s.consumer = .exchange) (hstub : .stub ∉ xs)
    (hnone : s.queue.next .stub = none) :
    Chain ((s.exchange .stub).turn (.link s.queue.head)) (xs ++ [.stub]) := by
  refine ⟨?_, by simp [exchange, turn], ?_, ?_⟩
  · rw [List.head?_append, h.tail]
    rfl
  · apply h.gapped.concat h.head hstub hnone
    intro a b
    simp only [Gap, exchange, turn, hpc, reduceCtorEq, false_and, or_false, Pop.link.injEq]
    apply or_congr_right
    rw [eq_comm]
  · have horder := h.order
    rw [hpc] at horder
    simpa [exchange, turn, Pop.held, QueueNode.isUser] using horder

section

variable [DecidableEq P]

lemma goOn (h : Chain s xs) {pc : Push N} (hp : t.producers = Function.update s.producers p pc)
    (hc : t.consumer = s.consumer) (hhead : t.queue.head = s.queue.head)
    (htail : t.queue.tail = s.queue.tail) (hn : ∀ a ∈ xs, t.queue.next a = s.queue.next a)
    (ho : t.order = s.order) (hpop : t.popped = s.popped) (hs : ¬(s.producers p).Links)
    (hl : ¬pc.Links) : Chain t xs := by
  refine ⟨by rw [htail, h.tail], by rw [hhead, h.head], h.gapped.congr hn ?_, ?_⟩
  · intro a b
    unfold Gap
    rw [hp, hc]
    refine or_congr_left ⟨?_, ?_⟩
    · rintro ⟨q, n, hq, rfl⟩
      rw [Function.update_apply] at hq
      split_ifs at hq
      · exact absurd ⟨n, a, hq⟩ hl
      · exact ⟨q, n, hq, rfl⟩
    · rintro ⟨q, n, hq, rfl⟩
      have hqp : q ≠ p := by
        rintro rfl
        exact hs ⟨n, a, hq⟩
      exact ⟨q, n, by rwa [Function.update_of_ne hqp], rfl⟩
  · rw [ho, hpop, hc, h.order]

lemma exchange_user (h : Chain s xs) (hpc : s.producers p = .exchange n) (hn : .user n ∉ xs)
    (hnone : s.queue.next (.user n) = none) :
    Chain ({ s.exchange (.user n) with order := s.order ++ [(p, n)] }.goOn p (.link n s.queue.head))
      (xs ++ [.user n]) := by
  refine ⟨?_, by simp [exchange, Mpsc.goOn], ?_, ?_⟩
  · rw [List.head?_append, h.tail]
    rfl
  · apply h.gapped.concat h.head hn hnone
    intro a b
    simp only [Gap, exchange, Mpsc.goOn]
    constructor
    · rintro (⟨q, m, hq, rfl⟩ | hc)
      · by_cases hqp : q = p
        · subst hqp
          obtain ⟨rfl, rfl⟩ : n = m ∧ s.queue.head = a := by simpa using hq
          exact Or.inr ⟨rfl, rfl⟩
        · exact Or.inl (Or.inl ⟨q, m, by simpa [hqp] using hq, rfl⟩)
      · exact Or.inl (Or.inr hc)
    · rintro ((⟨q, m, hq, rfl⟩ | hc) | ⟨rfl, rfl⟩)
      · have hqp : q ≠ p := by
          rintro rfl
          simp [hpc] at hq
        exact Or.inl ⟨q, m, by simpa [hqp] using hq, rfl⟩
      · exact Or.inr hc
      · exact Or.inl ⟨p, n, by simp, rfl⟩
  · simp only [exchange, Mpsc.goOn, List.map_append, h.order, List.filter_append, List.append_assoc]
    rfl

end

variable [DecidableEq N]

lemma link_stub {prev : QueueNode N} (h : Chain s xs) (hpc : s.consumer = .link prev) :
    Chain ((s.store prev (some .stub)).turn .last) xs := by
  have hgap : s.Gap prev .stub := Or.inr ⟨hpc, rfl⟩
  obtain ⟨hadj, -⟩ := h.gapped.gap _ _ hgap
  refine ⟨h.tail, h.head, h.gapped.store hgap ?_, ?_⟩
  · intro a b
    constructor
    · rintro (⟨p, n, hp, rfl⟩ | ⟨hc, -⟩)
      · refine ⟨Or.inl ⟨p, n, hp, rfl⟩, ?_⟩
        rintro rfl
        have hadj' := (h.gapped.gap _ _ (Or.inl ⟨p, n, hp, rfl⟩)).1
        simpa using hadj.right_unique h.gapped.nodup hadj'
      · simp [turn] at hc
    · rintro ⟨⟨p, n, hp, rfl⟩ | ⟨hc, -⟩, hne⟩
      · exact Or.inl ⟨p, n, hp, rfl⟩
      · rw [hpc] at hc
        exact absurd (Pop.link.inj hc).symm hne
  · have horder := h.order
    rw [hpc] at horder
    simpa [turn, store, Pop.held] using horder

variable [DecidableEq P]

lemma link_user (h : Chain s xs) (hpc : s.producers p = .link n a)
    (huniq : ∀ q, s.producers q = .link n a → q = p) {first : Bool} :
    Chain ((s.store a (some (.user n))).goOn p (.ret n first)) xs := by
  have hgap : s.Gap a (.user n) := Or.inl ⟨p, n, hpc, rfl⟩
  obtain ⟨hadj, -⟩ := h.gapped.gap _ _ hgap
  refine ⟨h.tail, h.head, h.gapped.store hgap ?_, h.order⟩
  intro b c
  constructor
  · rintro (⟨q, m, hq, rfl⟩ | ⟨hc, rfl⟩)
    · have hqp : q ≠ p := by
        rintro rfl
        simp [Mpsc.goOn] at hq
      have hq' : s.producers q = .link m b := by simpa [Mpsc.goOn, store, hqp] using hq
      refine ⟨Or.inl ⟨q, m, hq', rfl⟩, ?_⟩
      rintro rfl
      have hadj' := (h.gapped.gap _ _ (Or.inl ⟨q, m, hq', rfl⟩)).1
      obtain rfl : n = m := by simpa using hadj.right_unique h.gapped.nodup hadj'
      exact hqp (huniq q hq')
    · refine ⟨Or.inr ⟨hc, rfl⟩, ?_⟩
      rintro rfl
      have hadj' := (h.gapped.gap _ _ (Or.inr ⟨hc, rfl⟩)).1
      simpa using hadj.right_unique h.gapped.nodup hadj'
  · rintro ⟨⟨q, m, hq, rfl⟩ | ⟨hc, rfl⟩, hne⟩
    · have hqp : q ≠ p := by
        rintro rfl
        rw [hpc] at hq
        exact hne (Push.link.inj hq).2.symm
      exact Or.inl ⟨q, m, by simpa [Mpsc.goOn, store, hqp] using hq, rfl⟩
    · exact Or.inr ⟨hc, rfl⟩

end Chain

end Mpsc

end Simple.Containers
