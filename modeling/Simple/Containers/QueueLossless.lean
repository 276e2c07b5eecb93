import Simple.Containers.QueueChain

/-! `mpsc_queue` hands out every node once, in the order of the exchanges. -/

namespace Simple.Containers

open Simple.Lib

variable {P N : Type}

def Push.waiting (p : P) : Push N → List (P × N)
  | .count n | .clear n | .exchange n => [(p, n)]
  | _ => []

namespace Mpsc

variable [DecidableEq P] {s t : Mpsc P N} {xs : List (QueueNode N)} {p : P} {n : N}
  {a next : QueueNode N}

structure Calls (s : Mpsc P N) : Prop where
  nodup : (s.calls.map Prod.snd).Nodup
  fifo : ∀ p, s.calls.filter (·.1 = p) = s.order.filter (·.1 = p) ++ (s.producers p).waiting p
  linking : ∀ p n a, s.producers p = .link n a → (p, n) ∈ s.order
  counted : ∀ n ∈ s.order.map Prod.snd, n ∈ s.counted
  counts : ∀ p n, s.producers p = .clear n ∨ s.producers p = .exchange n → n ∈ s.counted

structure Inv (s : Mpsc P N) : Prop where
  chain : ∃ xs, Chain s xs ∧ Control s xs
  calls : Calls s
  cleared : ∀ p n, s.producers p = .exchange n → s.queue.next (.user n) = none
  size : s.queue.size = .ofNat (s.counted.length - s.popped.length)

namespace Calls

lemma order_subset (h : Calls s) {e : P × N} (he : e ∈ s.order) : e ∈ s.calls := by
  have hmem : e ∈ s.calls.filter (·.1 = e.1) := by
    rw [h.fifo e.1]
    simp [he]
  exact List.mem_of_mem_filter hmem

lemma waiting_mem (h : Calls s) (hw : (s.producers p).waiting p = [(p, n)]) : (p, n) ∈ s.calls := by
  have hmem : (p, n) ∈ s.calls.filter (·.1 = p) := by
    rw [h.fifo p, hw]
    simp
  exact List.mem_of_mem_filter hmem

lemma eq_of_node (h : Calls s) {e f : P × N} (he : e ∈ s.calls) (hf : f ∈ s.calls)
    (hn : e.2 = f.2) : e = f := List.inj_on_of_nodup_map h.nodup he hf hn

lemma waiting_not_mem (h : Calls s) (hw : (s.producers p).waiting p = [(p, n)]) :
    n ∉ s.order.map Prod.snd := by
  intro hn
  obtain ⟨e, he, rfl⟩ := List.mem_map.mp hn
  have heq : e = (p, e.2) := h.eq_of_node (h.order_subset he) (h.waiting_mem hw) rfl
  have hnodup : (s.calls.filter (·.1 = p)).Nodup := (List.Nodup.of_map _ h.nodup).filter _
  rw [h.fifo p, hw] at hnodup
  have hdisjoint := (List.nodup_append.mp hnodup).2.2
  have hmem : e ∈ s.order.filter (·.1 = p) := by
    rw [List.mem_filter, heq]
    exact ⟨heq ▸ he, by simp⟩
  exact hdisjoint e hmem (p, e.2) (by simp) heq

lemma order_nodup [DecidableEq N] (h : Calls s) : (s.order.map Prod.snd).Nodup := by
  have hcalls : s.calls.Nodup := List.Nodup.of_map _ h.nodup
  have horder : s.order.Nodup := by
    rw [List.nodup_iff_count_le_one]
    intro e
    have hle : (s.order.filter (·.1 = e.1)).count e ≤ (s.calls.filter (·.1 = e.1)).count e := by
      rw [h.fifo e.1]
      exact (List.sublist_append_left _ _).count_le e
    rw [List.count_filter (by simp), List.count_filter (by simp)] at hle
    exact hle.trans (List.nodup_iff_count_le_one.mp hcalls e)
  apply horder.map_on
  intro e he f hf hef
  exact h.eq_of_node (h.order_subset he) (h.order_subset hf) hef

lemma goOn (h : Calls s) {pc : Push N} (hp : t.producers = Function.update s.producers p pc)
    (hc : t.calls = s.calls) (ho : t.order = s.order) (hcounted : ∀ n ∈ s.counted, n ∈ t.counted)
    (hw : pc.waiting p = (s.producers p).waiting p) (hl : ¬pc.Links)
    (hn : ∀ n, pc = .clear n ∨ pc = .exchange n → n ∈ t.counted) : Calls t := by
  refine ⟨?_, ?_, ?_, ?_, ?_⟩
  · rw [hc]
    exact h.nodup
  · intro q
    rw [hc, ho, hp, h.fifo q, Function.update_apply]
    split_ifs with hqp
    · rw [hqp, hw]
    · rfl
  · intro q n a hq
    rw [hp, Function.update_apply] at hq
    rw [ho]
    split_ifs at hq
    · exact absurd ⟨n, a, hq⟩ hl
    · exact h.linking q n a hq
  · intro n hn
    rw [ho] at hn
    exact hcounted n (h.counted n hn)
  · intro q n hq
    rw [hp, Function.update_apply] at hq
    split_ifs at hq
    · exact hn n hq
    · exact hcounted n (h.counts q n hq)

lemma push (h : Calls s) (hp : s.producers p = .idle) (hn : n ∉ s.calls.map Prod.snd) :
    Calls ({ s with calls := s.calls ++ [(p, n)] }.goOn p (.count n)) := by
  refine ⟨?_, ?_, ?_, h.counted, ?_⟩
  · simp only [Mpsc.goOn, List.map_append, List.map_cons, List.map_nil]
    apply h.nodup.append (List.nodup_singleton n)
    simpa using hn
  · intro q
    simp only [Mpsc.goOn, Function.update_apply, List.filter_append, h.fifo q]
    by_cases hqp : q = p
    · subst hqp
      simp [hp, Push.waiting]
    · have hpq : p ≠ q := fun heq => hqp heq.symm
      simp [hqp, hpq]
  · intro q m a hq
    by_cases hqp : q = p
    · simp [Mpsc.goOn, hqp] at hq
    · exact h.linking q m a (by simpa [Mpsc.goOn, hqp] using hq)
  · intro q m hq
    by_cases hqp : q = p
    · simp [Mpsc.goOn, hqp] at hq
    · exact h.counts q m (by simpa [Mpsc.goOn, hqp] using hq)

lemma exchange (h : Calls s) (hp : s.producers p = .exchange n) :
    Calls ({ s.exchange (.user n) with order := s.order ++ [(p, n)] }.goOn p
      (.link n s.queue.head)) := by
  refine ⟨h.nodup, ?_, ?_, ?_, ?_⟩
  · intro q
    simp only [Mpsc.goOn, Mpsc.exchange, Function.update_apply, List.filter_append, h.fifo q]
    by_cases hqp : q = p
    · subst hqp
      simp [hp, Push.waiting]
    · have hpq : p ≠ q := fun heq => hqp heq.symm
      simp [hqp, hpq]
  · intro q m a hq
    apply List.mem_append.mpr
    by_cases hqp : q = p
    · subst hqp
      obtain ⟨rfl, -⟩ : n = m ∧ s.queue.head = a := by simpa [Mpsc.goOn] using hq
      exact Or.inr (by simp)
    · exact Or.inl (h.linking q m a (by simpa [Mpsc.goOn, Mpsc.exchange, hqp] using hq))
  · intro m hm
    simp only [Mpsc.goOn, Mpsc.exchange, List.map_append, List.mem_append] at hm
    rcases hm with hm | hm
    · exact h.counted m hm
    · obtain rfl : m = n := by simpa using hm
      exact h.counts p m (Or.inr hp)
  · intro q m hq
    by_cases hqp : q = p
    · simp [Mpsc.goOn, hqp] at hq
    · exact h.counts q m (by simpa [Mpsc.goOn, Mpsc.exchange, hqp] using hq)

end Calls

lemma Inv.waiting_fresh (h : Inv s) {xs : List (QueueNode N)} (hx : Chain s xs)
    (hw : (s.producers p).waiting p = [(p, n)]) : .user n ∉ xs :=
  fun hmem => h.calls.waiting_not_mem hw (hx.mem_order hmem)

lemma Inv.goOn (h : Inv s) {pc : Push N} (hp : t.producers = Function.update s.producers p pc)
    (hc : t.consumer = s.consumer) (hhead : t.queue.head = s.queue.head)
    (htail : t.queue.tail = s.queue.tail) (hnext : t.queue.next = s.queue.next)
    (ho : t.order = s.order) (hpop : t.popped = s.popped) (hs : ¬(s.producers p).Links)
    (hl : ¬pc.Links) (hcalls : Calls t) (hpc : ∀ n, pc ≠ .exchange n)
    (hsize : t.queue.size = .ofNat (t.counted.length - t.popped.length)) : Inv t := by
  obtain ⟨xs, hx, hcontrol⟩ := h.chain
  have hnext' := congrFun hnext
  refine ⟨⟨xs, ?_, hcontrol.congr hc htail fun _ _ => hnext' _⟩, hcalls, ?_, hsize⟩
  · exact hx.goOn hp hc hhead htail (fun a _ => hnext' a) ho hpop hs hl
  · intro q m hq
    rw [hp, Function.update_apply] at hq
    rw [hnext']
    split_ifs at hq
    · exact absurd hq (hpc m)
    · exact h.cleared q m hq

lemma push_inv (h : Inv s) (hp : s.producers p = .idle) (hn : n ∉ s.calls.map Prod.snd) :
    Inv ({ s with calls := s.calls ++ [(p, n)] }.goOn p (.count n)) :=
  h.goOn rfl rfl rfl rfl rfl rfl rfl (by simp [hp, Push.Links]) (by simp [Push.Links])
    (h.calls.push hp hn) (by simp) h.size

lemma Calls.consumer (h : Calls s) (hp : t.producers = s.producers) (hc : t.calls = s.calls)
    (ho : t.order = s.order) (hn : t.counted = s.counted) : Calls t := by
  obtain ⟨h1, h2, h3, h4, h5⟩ := h
  rw [← hc] at h1 h2
  rw [← ho] at h2 h3 h4
  rw [← hp] at h2 h3 h5
  rw [← hn] at h4 h5
  exact ⟨h1, h2, h3, h4, h5⟩

lemma Inv.turn (h : Inv s) (hp : t.producers = s.producers) (hc : t.calls = s.calls)
    (ho : t.order = s.order) (hn : t.counted = s.counted) (hsize : t.queue.size = s.queue.size)
    (hpop : t.popped = s.popped)
    (hcleared : ∀ p n, s.producers p = .exchange n →
      t.queue.next (.user n) = s.queue.next (.user n))
    (hchain : ∃ xs, Chain t xs ∧ Control t xs) : Inv t := by
  refine ⟨hchain, h.calls.consumer hp hc ho hn, ?_, by rw [hsize, hn, hpop, h.size]⟩
  intro p n hpn
  rw [hp] at hpn
  rw [hcleared p n hpn, h.cleared p n hpn]

lemma Inv.retry (h : Inv s) (hl : ¬s.consumer.Links) (hheld : s.consumer.held = []) :
    Inv s.retry := by
  obtain ⟨xs, hx, -⟩ := h.chain
  unfold Mpsc.retry
  split
  · refine h.turn rfl rfl rfl rfl rfl rfl (fun _ _ _ => rfl) ⟨xs, ?_, trivial⟩
    refine hx.congr rfl rfl rfl (fun _ _ => rfl) rfl ?_ hl (by simp [Mpsc.turn, Pop.Links])
    rw [hheld]
    rfl
  · refine h.turn rfl rfl rfl rfl rfl rfl (fun _ _ _ => rfl) ⟨xs, ?_, trivial⟩
    refine hx.congr rfl rfl rfl (fun _ _ => rfl) rfl ?_ hl (by simp [answered, Pop.Links])
    rw [hheld]
    rfl

lemma Inv.take (h : Inv s) (htail : s.queue.tail ≠ .stub)
    (hnext : s.queue.next s.queue.tail = some next) (hl : ¬s.consumer.Links)
    (hheld : s.consumer.held = []) : Inv (s.take next) := by
  obtain ⟨xs, hx, -⟩ := h.chain
  obtain ⟨ys, hy⟩ := hx.take htail hnext hl hheld
  exact h.turn rfl rfl rfl rfl rfl rfl (fun _ _ _ => rfl) ⟨ys, hy, htail⟩

lemma Inv.pass (h : Inv s) {pc : Pop N} (hl : ¬s.consumer.Links) (hheld : s.consumer.held = [])
    (hpc : ¬pc.Links) (hpcheld : pc.held = [])
    (hcontrol : ∀ xs, Chain s xs → Control s xs → Control (s.turn pc) xs) : Inv (s.turn pc) := by
  obtain ⟨xs, hx, hc⟩ := h.chain
  refine h.turn rfl rfl rfl rfl rfl rfl (fun _ _ _ => rfl) ⟨xs, ?_, hcontrol xs hx hc⟩
  refine hx.congr rfl rfl rfl (fun _ _ => rfl) rfl ?_ hl hpc
  rw [hheld]
  exact congrArg (s.popped ++ ·) hpcheld

lemma Inv.call (h : Inv s) (hpc : s.consumer = .idle) {again : Bool} :
    Inv { s with consumer := .first, again := again, answer := none } := by
  obtain ⟨xs, hx, -⟩ := h.chain
  refine h.turn rfl rfl rfl rfl rfl rfl (fun _ _ _ => rfl) ⟨xs, ?_, trivial⟩
  refine hx.congr rfl rfl rfl (fun _ _ => rfl) rfl ?_ (by simp [hpc, Pop.Links]) (by simp [Pop.Links])
  rw [hpc]
  rfl

lemma popped_length_le [DecidableEq N] (h : Inv s) :
    s.popped.length + s.consumer.held.length ≤ s.counted.length := by
  obtain ⟨xs, hx, -⟩ := h.chain
  have horder := congrArg List.length hx.order
  have hle := h.calls.order_nodup.length_le_of_subset h.calls.counted
  simp only [List.length_append, List.length_map] at horder hle
  omega

variable [DecidableEq N]

lemma produce_inv (h : Inv s) (ht : s.produce p (s.producers p) = some t) : Inv t := by
  obtain ⟨xs, hx, hcontrol⟩ := h.chain
  cases hp : s.producers p with
  | idle => simp [hp, produce] at ht
  | count n =>
    rw [hp] at ht
    obtain rfl := Option.some.inj ht
    have hle := popped_length_le h
    refine h.goOn rfl rfl rfl rfl rfl rfl rfl (by simp [hp, Push.Links]) (by simp [Push.Links])
      ?_ ?_ ?_
    · refine h.calls.goOn rfl rfl rfl ?_ ?_ ?_ ?_
      · exact fun m hm => List.mem_append_left _ hm
      · simp [hp, Push.waiting]
      · simp [Push.Links]
      · rintro m (hm | hm) <;> simp at hm
        simp [Mpsc.goOn, hm]
    · simp
    · simp only [Mpsc.goOn, h.size, List.length_append, List.length_singleton]
      rw [show s.counted.length + 1 - s.popped.length = s.counted.length - s.popped.length + 1 by omega]
      simp
  | clear n =>
    rw [hp] at ht
    obtain rfl := Option.some.inj ht
    have hfresh := h.waiting_fresh hx (hp ▸ rfl : (s.producers p).waiting p = [(p, n)])
    refine ⟨⟨xs, ?_, hcontrol.congr rfl rfl fun _ _ => by simp⟩, ?_, ?_, h.size⟩
    · refine hx.goOn rfl rfl rfl rfl ?_ rfl rfl (by simp [hp, Push.Links]) (by simp [Push.Links])
      intro a ha
      have hne : a ≠ .user n := fun heq => hfresh (heq ▸ ha)
      simp [hne]
    · refine h.calls.goOn rfl rfl rfl (fun m hm => hm) ?_ ?_ ?_
      · simp [hp, Push.waiting]
      · simp [Push.Links]
      · rintro m (hm | hm) <;> simp at hm
        exact hm ▸ h.calls.counts p n (Or.inl hp)
    · intro q m hq
      rw [goOn_queue, store_next]
      split_ifs with hm
      · rfl
      · have hqp : q ≠ p := by
          rintro rfl
          obtain rfl : n = m := by simpa using hq
          exact hm rfl
        exact h.cleared q m (by simpa [store, hqp] using hq)
  | exchange n =>
    rw [hp] at ht
    obtain rfl := Option.some.inj ht
    have hfresh := h.waiting_fresh hx (hp ▸ rfl : (s.producers p).waiting p = [(p, n)])
    refine ⟨⟨_, hx.exchange_user hp hfresh (h.cleared p n hp), (hcontrol.append n).congr rfl rfl fun _ _ => rfl⟩,
      h.calls.exchange hp, ?_, h.size⟩
    intro q m hq
    by_cases hqp : q = p
    · simp [Mpsc.goOn, hqp] at hq
    · exact h.cleared q m (by simpa [Mpsc.goOn, exchange, hqp] using hq)
  | link n a =>
    rw [hp] at ht
    obtain rfl := Option.some.inj ht
    have hgap := (hx.gapped.gap a (.user n) (Or.inl ⟨p, n, hp, rfl⟩))
    refine ⟨⟨xs, ?_, ?_⟩, ?_, ?_, h.size⟩
    · apply hx.link_user hp
      intro q hq
      have heq := h.calls.eq_of_node (h.calls.order_subset (h.calls.linking q n a hq))
        (h.calls.order_subset (h.calls.linking p n a hp)) rfl
      exact congrArg Prod.fst heq
    · refine hcontrol.congr rfl rfl ?_
      intro _ hstub
      have hne : a ≠ .stub := fun heq => hstub (heq ▸ hgap.1.left_mem)
      simp [hne.symm]
    · refine h.calls.goOn rfl rfl rfl (fun m hm => hm) ?_ ?_ ?_
      · simp [hp, Push.waiting]
      · simp [Push.Links]
      · rintro m (hm | hm) <;> simp at hm
    · intro q m hq
      have hqp : q ≠ p := by
        rintro rfl
        simp [Mpsc.goOn] at hq
      have hq' : s.producers q = .exchange m := by simpa [Mpsc.goOn, store, hqp] using hq
      have hne : QueueNode.user m ≠ a := by
        rintro rfl
        exact h.waiting_fresh hx (hq' ▸ rfl : (s.producers q).waiting q = [(q, m)]) hgap.1.left_mem
      rw [goOn_queue, store_next, if_neg hne]
      exact h.cleared q m hq'
  | ret n first =>
    rw [hp] at ht
    obtain rfl := Option.some.inj ht
    refine h.goOn rfl rfl rfl rfl rfl rfl rfl (by simp [hp, Push.Links]) (by simp [Push.Links])
      ?_ ?_ ?_
    · refine h.calls.goOn rfl rfl rfl (fun m hm => hm) ?_ ?_ ?_
      · simp [hp, Push.waiting]
      · simp [Push.Links]
      · rintro m (hm | hm) <;> simp at hm
    · simp
    · exact h.size

inductive Consumes (s : Mpsc P N) : Mpsc P N → Prop
  | empty (hpc : s.consumer = .first) (htail : s.queue.tail = .stub)
      (hnext : s.queue.next s.queue.tail = none) : Consumes s (s.answered none true)
  | skip {next : QueueNode N} (hpc : s.consumer = .first) (htail : s.queue.tail = .stub)
      (hnext : s.queue.next s.queue.tail = some next) : Consumes s ((s.setTail next).turn .second)
  | last (hpc : s.consumer = .first ∧ s.queue.tail ≠ .stub ∨ s.consumer = .second)
      (hnext : s.queue.next s.queue.tail = none) : Consumes s (s.turn .check)
  | take {next : QueueNode N}
      (hpc : s.consumer = .first ∧ s.queue.tail ≠ .stub ∨ s.consumer = .second ∨ s.consumer = .last)
      (hnext : s.queue.next s.queue.tail = some next) : Consumes s (s.take next)
  | retry (hpc : s.consumer = .check ∧ s.queue.tail ≠ s.queue.head ∨
      s.consumer = .last ∧ s.queue.next s.queue.tail = none) : Consumes s s.retry
  | alone (hpc : s.consumer = .check) (hhead : s.queue.tail = s.queue.head) :
      Consumes s (s.turn .clear)
  | clear (hpc : s.consumer = .clear) : Consumes s ((s.store .stub none).turn .exchange)
  | exchange (hpc : s.consumer = .exchange) :
      Consumes s ((s.exchange .stub).turn (.link s.queue.head))
  | link {prev : QueueNode N} (hpc : s.consumer = .link prev) :
      Consumes s ((s.store prev (some .stub)).turn .last)
  | count {m : QueueNode N} (hpc : s.consumer = .count m) :
      Consumes s { (s.answered (some m) false) with
        queue := { s.queue with size := s.queue.size - 1 }
        popped := s.popped ++ [m] }

omit [DecidableEq P] in
lemma consume_cases (ht : s.consume = some t) : Consumes s t := by
  unfold consume at ht
  cases hpc : s.consumer with
  | idle => simp [hpc] at ht
  | first =>
    simp only [hpc] at ht
    cases hnext : s.queue.next s.queue.tail with
    | none =>
      simp only [hnext] at ht
      split_ifs at ht with htail <;> obtain rfl := Option.some.inj ht
      · exact .empty hpc htail hnext
      · exact .last (.inl ⟨hpc, htail⟩) hnext
    | some next =>
      simp only [hnext] at ht
      split_ifs at ht with htail <;> obtain rfl := Option.some.inj ht
      · exact .skip hpc htail hnext
      · exact .take (.inl ⟨hpc, htail⟩) hnext
  | second =>
    simp only [hpc] at ht
    cases hnext : s.queue.next s.queue.tail <;> simp only [hnext] at ht <;>
      obtain rfl := Option.some.inj ht
    · exact .last (.inr hpc) hnext
    · exact .take (.inr (.inl hpc)) hnext
  | check =>
    simp only [hpc] at ht
    split_ifs at ht with hhead <;> obtain rfl := Option.some.inj ht
    · exact .retry (.inl ⟨hpc, hhead⟩)
    · exact .alone hpc (not_not.mp hhead)
  | last =>
    simp only [hpc] at ht
    cases hnext : s.queue.next s.queue.tail <;> simp only [hnext] at ht <;>
      obtain rfl := Option.some.inj ht
    · exact .retry (.inr ⟨hpc, hnext⟩)
    · exact .take (.inr (.inr hpc)) hnext
  | clear =>
    simp only [hpc] at ht
    obtain rfl := Option.some.inj ht
    exact .clear hpc
  | exchange =>
    simp only [hpc] at ht
    obtain rfl := Option.some.inj ht
    exact .exchange hpc
  | link prev =>
    simp only [hpc] at ht
    obtain rfl := Option.some.inj ht
    exact .link hpc
  | count m =>
    simp only [hpc] at ht
    obtain rfl := Option.some.inj ht
    exact .count hpc

lemma consume_inv (h : Inv s) (ht : s.consume = some t) : Inv t := by
  obtain ⟨xs, hx, hcontrol⟩ := h.chain
  cases consume_cases ht with
  | empty hpc =>
    obtain ⟨hl, hheld⟩ := Pop.quiet (.inl hpc)
    refine h.turn rfl rfl rfl rfl rfl rfl (fun _ _ _ => rfl) ⟨xs, ?_, trivial⟩
    refine hx.congr rfl rfl rfl (fun _ _ => rfl) rfl ?_ hl (by simp [answered, Pop.Links])
    rw [hheld]
    rfl
  | skip hpc htail hnext =>
    obtain ⟨hl, hheld⟩ := Pop.quiet (.inl hpc)
    obtain ⟨hne, ys, hy⟩ := hx.skip htail hnext hl hheld
    exact h.turn rfl rfl rfl rfl rfl rfl (fun _ _ _ => rfl) ⟨ys, hy, hne⟩
  | last hpc =>
    have htail : s.queue.tail ≠ .stub := hpc.elim And.right fun hpc => hcontrol.tail_ne (.inl hpc)
    obtain ⟨hl, hheld⟩ := Pop.quiet (hpc.imp And.left .inl)
    exact h.pass hl hheld (by simp [Pop.Links]) rfl fun _ _ _ => htail
  | take hpc hnext =>
    have htail : s.queue.tail ≠ .stub := hpc.elim And.right hcontrol.tail_ne
    obtain ⟨hl, hheld⟩ := Pop.quiet (hpc.imp And.left (Or.imp_right .inr))
    exact h.take htail hnext hl hheld
  | retry hpc =>
    obtain ⟨hl, hheld⟩ := Pop.quiet (.inr (.inr (hpc.imp And.left And.left)))
    exact h.retry hl hheld
  | alone hpc hhead =>
    obtain ⟨hl, hheld⟩ := Pop.quiet (.inr (.inr (.inl hpc)))
    have htail : s.queue.tail ≠ .stub := by simpa only [Control, hpc] using hcontrol
    apply h.pass hl hheld (by simp [Pop.Links]) rfl
    intro ys hy _
    rw [hy.eq_singleton hhead]
    exact ⟨htail, by simpa using htail.symm⟩
  | clear hpc =>
    simp only [Control, hpc] at hcontrol
    obtain ⟨htail, hstub⟩ := hcontrol
    refine h.turn rfl rfl rfl rfl rfl rfl (fun p n _ => by simp [Mpsc.turn]) ⟨xs, ?_, htail, hstub, ?_⟩
    · refine hx.congr rfl rfl rfl ?_ rfl (by rw [hpc]; rfl) (by simp [hpc, Pop.Links])
        (by simp [Mpsc.turn, Pop.Links])
      intro a ha
      have hne : a ≠ .stub := fun heq => hstub (heq ▸ ha)
      simp [Mpsc.turn, hne]
    · simp [Mpsc.turn]
  | exchange hpc =>
    simp only [Control, hpc] at hcontrol
    obtain ⟨htail, hstub, hnone⟩ := hcontrol
    exact h.turn rfl rfl rfl rfl rfl rfl (fun _ _ _ => rfl)
      ⟨_, hx.exchange_stub hpc hstub hnone, htail⟩
  | @link prev hpc =>
    simp only [Control, hpc] at hcontrol
    refine h.turn rfl rfl rfl rfl rfl rfl ?_ ⟨xs, hx.link_stub hpc, hcontrol⟩
    intro p n hp
    have hne : QueueNode.user n ≠ prev := by
      rintro rfl
      have hadj := (hx.gapped.gap _ _ (Or.inr ⟨hpc, rfl⟩)).1
      exact h.waiting_fresh hx (hp ▸ rfl : (s.producers p).waiting p = [(p, n)]) hadj.left_mem
    simp [Mpsc.turn, hne]
  | count hpc =>
    have hle := popped_length_le h
    rw [hpc] at hle
    refine ⟨⟨xs, ?_, trivial⟩, h.calls.consumer rfl rfl rfl rfl, h.cleared, ?_⟩
    · refine hx.congr rfl rfl rfl (fun _ _ => rfl) rfl ?_ (by simp [hpc, Pop.Links])
        (by simp [answered, Pop.Links])
      simp [answered, hpc, Pop.held]
    · simp only [Pop.held, List.length_singleton] at hle
      simp only [answered, h.size, List.length_append, List.length_singleton]
      rw [show s.counted.length - s.popped.length =
        s.counted.length - (s.popped.length + 1) + 1 by omega]
      simp

inductive Stepped (s : Mpsc P N) : Action P N → Mpsc P N → Prop
  | push {p : P} {n : N} (hp : s.producers p = .idle) (hn : n ∉ s.calls.map Prod.snd) :
      Stepped s (.push p n) ({ s with calls := s.calls ++ [(p, n)] }.goOn p (.count n))
  | produce {p : P} {t : Mpsc P N} (ht : s.produce p (s.producers p) = some t) :
      Stepped s (.produce p) t
  | pop (hpc : s.consumer = .idle) :
      Stepped s .pop { s with consumer := .first, again := true, answer := none }
  | popAndCheckEnd (hpc : s.consumer = .idle) :
      Stepped s .popAndCheckEnd { s with consumer := .first, again := false, answer := none }
  | consume {t : Mpsc P N} (ht : s.consume = some t) : Stepped s .consume t

lemma step_stepped {act : Action P N} (ht : s.step act = some t) : Stepped s act t := by
  cases act with
  | push p n =>
    simp only [step] at ht
    split at ht
    · next hp =>
      split_ifs at ht with hn
      obtain rfl := Option.some.inj ht
      exact .push hp hn
    · simp at ht
  | produce p => exact .produce ht
  | consume => exact .consume ht
  | pop =>
    simp only [step] at ht
    split at ht
    · next hpc =>
      obtain rfl := Option.some.inj ht
      exact .pop hpc
    · simp at ht
  | popAndCheckEnd =>
    simp only [step] at ht
    split at ht
    · next hpc =>
      obtain rfl := Option.some.inj ht
      exact .popAndCheckEnd hpc
    · simp at ht

lemma step_inv {act : Action P N} (h : Inv s) (ht : s.step act = some t) : Inv t := by
  cases step_stepped ht with
  | push hp hn => exact push_inv h hp hn
  | produce ht => exact produce_inv h ht
  | consume ht => exact consume_inv h ht
  | pop hpc | popAndCheckEnd hpc => exact h.call hpc

lemma inv_initial (next : N → Option (QueueNode N)) : Inv (machine P next).initial := by
  refine ⟨⟨[.stub], ⟨rfl, rfl, ⟨List.nodup_singleton _, ?_, ?_, ?_⟩, rfl⟩, trivial⟩,
    ⟨List.nodup_nil, ?_, ?_, ?_, ?_⟩, ?_, rfl⟩
  · exact fun a b hab => absurd hab Adj.not_singleton
  · rintro a b (⟨p, n, hp, -⟩ | ⟨hc, -⟩)
    · simp [machine] at hp
    · simp [machine] at hc
  · intro a ha
    obtain rfl : .stub = a := by simpa using ha
    rfl
  · exact fun p => rfl
  · exact fun p n a hp => by simp [machine] at hp
  · exact fun n hn => by simp [machine] at hn
  · exact fun p n hp => by simp [machine] at hp
  · exact fun p n hp => by simp [machine] at hp

lemma reachable_inv {next : N → Option (QueueNode N)} (h : (machine P next).Reachable s) : Inv s :=
  Machine.reachable_invariant (inv_initial next) (fun _ _ _ hi ht => step_inv hi ht) h

def Quiet (s : Mpsc P N) : Prop := ∀ p, s.producers p = .idle

def AllPopped (s : Mpsc P N) : Prop := ∀ e ∈ s.calls, .user e.2 ∈ s.popped

structure Lossless (s : Mpsc P N) : Prop where
  once : s.popped.Nodup
  ordered : s.popped <+: s.order.map fun e => .user e.2
  fifo : ∀ p, s.order.filter (·.1 = p) <+: s.calls.filter (·.1 = p)
  size_le : s.popped.length ≤ s.counted.length
  size : s.queue.size = .ofNat (s.counted.length - s.popped.length)
  null : ∀ t empty, s.consume = some t → t.answer = some (none, empty) →
    s.again = true ∨ empty = true → s.Quiet → s.AllPopped
  drained : s.Quiet → s.consumer = .idle → s.AllPopped →
    s.queue.head = .stub ∧ s.queue.tail = .stub

omit [DecidableEq P] [DecidableEq N] in
lemma user_injective : Function.Injective fun e : N => QueueNode.user e :=
  fun _ _ h => QueueNode.user.inj h

lemma Inv.all_nodup (h : Inv s) {xs : List (QueueNode N)} (hx : Chain s xs) :
    (s.popped ++ s.consumer.held ++ xs.filter QueueNode.isUser).Nodup := by
  rw [← hx.order]
  have hmap := h.calls.order_nodup.map user_injective
  rwa [List.map_map] at hmap

lemma Inv.eq_stub (h : Inv s) {xs : List (QueueNode N)} (hx : Chain s xs)
    (hall : ∀ e ∈ s.order, .user e.2 ∈ s.popped) : ∀ a ∈ xs, a = .stub := by
  intro a ha
  cases a with
  | stub => rfl
  | user n =>
    obtain ⟨e, he, rfl⟩ := List.mem_map.mp (hx.mem_order ha)
    have hnodup := h.all_nodup hx
    rw [List.append_assoc] at hnodup
    have hdisjoint := (List.nodup_append.mp hnodup).2.2 _ (hall e he) (.user e.2)
    simp [ha, QueueNode.isUser] at hdisjoint

omit [DecidableEq N] in
lemma Calls.order_quiet (h : Calls s) (hq : Quiet s) {e : P × N} (he : e ∈ s.calls) :
    e ∈ s.order := by
  have hmem : e ∈ s.calls.filter (·.1 = e.1) := by simp [he]
  rw [h.fifo e.1, hq e.1] at hmem
  simpa [Push.waiting] using hmem

omit [DecidableEq N] in
lemma Inv.allPopped_of_stub (h : Inv s) (hq : Quiet s) (hheld : s.consumer.held = [])
    (hx : Chain s [.stub]) : AllPopped s := by
  intro e he
  have hmem : QueueNode.user e.2 ∈ s.order.map fun e => QueueNode.user e.2 :=
    List.mem_map.mpr ⟨e, h.calls.order_quiet hq he, rfl⟩
  rw [hx.order, hheld] at hmem
  simpa [QueueNode.isUser] using hmem

omit [DecidableEq P] [DecidableEq N] in
lemma Chain.tail_alone {xs : List (QueueNode N)} (hx : Chain s xs) (hq : Quiet s)
    (hl : ¬s.consumer.Links) (hnext : s.queue.next s.queue.tail = none) : xs = [s.queue.tail] := by
  obtain ⟨ys, rfl⟩ := hx.eq_cons
  cases ys with
  | nil => rfl
  | cons y ys =>
    have hadj : Adj (s.queue.tail :: y :: ys) s.queue.tail y := Adj.cons_iff.mpr (Or.inl ⟨rfl, rfl⟩)
    rcases hx.gapped.link _ _ hadj with hy | ⟨-, ⟨p, n, hp, -⟩ | ⟨hc, -⟩⟩
    · simp [hnext] at hy
    · simp [hq p] at hp
    · exact absurd ⟨_, hc⟩ hl

/-- A call has no answer before it returns. -/
def Busy (s : Mpsc P N) : Prop := s.consumer ≠ .idle → s.answer = none

omit [DecidableEq P] in
lemma consume_busy (h : Busy s) (ht : s.consume = some t) :
    Busy t ∧ ∀ empty, t.answer = some (none, empty) → s.again = true ∨ empty = true →
      s.consumer = .first ∧ s.queue.tail = .stub ∧ s.queue.next s.queue.tail = none := by
  have hretry : s.consumer ≠ .idle → Busy s.retry ∧
      ∀ empty, s.retry.answer = some (none, empty) → s.again = true ∨ empty = true → False := by
    intro hpc
    have hnone := h hpc
    unfold retry
    split
    · exact ⟨fun _ => hnone, fun empty ha => by simp [turn, hnone] at ha⟩
    · next hagain =>
      refine ⟨fun hne => absurd rfl hne, fun empty ha => ?_⟩
      obtain rfl : false = empty := by simpa [answered] using ha
      simpa using hagain
  cases consume_cases ht with
  | empty hpc htail hnext => exact ⟨fun hne => absurd rfl hne, fun _ _ _ => ⟨hpc, htail, hnext⟩⟩
  | retry hpc =>
    obtain ⟨hbusy, hanswer⟩ := hretry (by rcases hpc with ⟨hpc, -⟩ | ⟨hpc, -⟩ <;> simp [hpc])
    exact ⟨hbusy, fun empty ha hagain => (hanswer empty ha hagain).elim⟩
  | count hpc => exact ⟨fun hne => absurd rfl hne, fun empty ha => by simp [answered] at ha⟩
  | last hpc =>
    have hnone := h (by rcases hpc with ⟨hpc, -⟩ | hpc <;> simp [hpc])
    exact ⟨fun _ => hnone, fun empty ha => by simp [turn, hnone] at ha⟩
  | take hpc =>
    have hnone := h (by rcases hpc with ⟨hpc, -⟩ | hpc | hpc <;> simp [hpc])
    exact ⟨fun _ => hnone, fun empty ha => by simp [Mpsc.take, turn, setTail, hnone] at ha⟩
  | skip hpc | alone hpc | clear hpc | exchange hpc | link hpc =>
    have hnone := h (by simp [hpc])
    exact ⟨fun _ => hnone, fun empty ha => by simp [turn, setTail, store, Mpsc.exchange, hnone] at ha⟩

lemma step_busy {act : Action P N} (h : Busy s) (ht : s.step act = some t) : Busy t := by
  cases step_stepped ht with
  | push => exact h
  | @produce p _ ht =>
    cases hp : s.producers p <;> simp only [hp, produce, reduceCtorEq] at ht <;>
      obtain rfl := Option.some.inj ht <;> exact h
  | consume ht => exact (consume_busy h ht).1
  | pop | popAndCheckEnd => exact fun _ => rfl

lemma Inv.lossless (h : Inv s) (hb : Busy s) : Lossless s := by
  obtain ⟨xs, hx, -⟩ := h.chain
  have hnodup := h.all_nodup hx
  have hle := popped_length_le h
  refine ⟨(List.nodup_append.mp (List.nodup_append.mp hnodup).1).1, ?_, ?_, by omega, h.size, ?_, ?_⟩
  · rw [hx.order, List.append_assoc]
    exact List.prefix_append _ _
  · intro p
    rw [h.calls.fifo p]
    exact List.prefix_append _ _
  · intro t empty ht ha hagain hq
    obtain ⟨hpc, htail, hnext⟩ := (consume_busy hb ht).2 empty ha hagain
    have hxs := hx.tail_alone hq (by simp [hpc, Pop.Links]) hnext
    rw [htail] at hxs
    subst hxs
    exact h.allPopped_of_stub hq (by rw [hpc]; rfl) hx
  · intro hq hpc hall
    have hstub := h.eq_stub hx fun e he => hall e (h.calls.order_subset he)
    exact ⟨hstub _ (List.mem_of_getLast? hx.head), hstub _ (List.mem_of_head? hx.tail)⟩

/-- Whatever the interleaving, nodes come out once and in the order of the exchanges, `size_` counts
those that are in, and an idle queue tells correctly whether it is empty. -/
theorem mpsc_lossless (next : N → Option (QueueNode N)) (s : Mpsc P N)
    (h : (machine P next).Reachable s) : Lossless s := by
  have hbusy : Busy s := Machine.reachable_invariant (M := machine P next)
    (fun hne => absurd rfl hne) (fun _ _ _ hb ht => step_busy hb ht) h
  exact (reachable_inv h).lossless hbusy

/-- The producer 0 is stalled between its exchange and its link while 1 pushes. -/
def stalled : List (Action ℕ ℕ) :=
  [.push 0 10, .produce 0, .produce 0, .produce 0, .push 1 20] ++ List.replicate 5 (.produce 1)

def linked : List (Action ℕ ℕ) :=
  [.produce 0, .produce 0, .pop] ++ List.replicate 3 .consume ++ .pop :: List.replicate 7 .consume

lemma linked_result : ((machine ℕ fun _ : ℕ => none).run (machine ℕ fun _ => none).initial
    (stalled ++ linked)).map popped = some [.user 10, .user 20] := by
  decide +kernel

theorem mpsc_lossless_stalled : ∃ s, (machine ℕ fun _ : ℕ => none).run
    (machine ℕ fun _ => none).initial (stalled ++ linked) = some s ∧
    s.popped = [.user 10, .user 20] ∧ Lossless s := by
  obtain ⟨s, hs, hpopped⟩ := Option.map_eq_some_iff.mp linked_result
  exact ⟨s, hs, hpopped, mpsc_lossless (fun _ => none) s ⟨_, hs⟩⟩

end Mpsc

end Simple.Containers
