import Simple.Containers.QueueLossless

/-! When `pop` says that the queue is empty, and when `push` says that it was. -/

namespace Simple.Containers

open Simple.Lib

namespace Mpsc

variable {P N : Type} [DecidableEq P] [DecidableEq N]

def Drained (s : Mpsc P N) : Prop := ∀ e ∈ s.returned, .user e.1 ∈ s.popped

instance (s : Mpsc P N) : Decidable s.Drained := inferInstanceAs (Decidable (∀ e ∈ _, _))

/-- `known` are the nodes whose push had returned when `pop` was called, `met` is whether the queue
was `Drained` at some moment since, and `alone` whether every node pushed before a producer's
exchange had been popped by then. -/
structure Window (P N : Type) where
  known : List N := []
  met : Bool := false
  alone : P → Bool := fun _ => false

def exchanged (s : Mpsc P N) (alone : P → Bool) (p : P) : Push N → P → Bool
  | .exchange _ => Function.update alone p (∀ e ∈ s.order, .user e.2 ∈ s.popped)
  | _ => alone

def record (s : Mpsc P N) (w : Window P N) : Action P N → Window P N
  | .pop => { w with known := s.returned.map Prod.fst, met := s.Drained }
  | .produce p =>
    { w with
      met := w.met || s.Drained
      alone := s.exchanged w.alone p (s.producers p) }
  | _ => { w with met := w.met || s.Drained }

def watched (P : Type) [DecidableEq P] (next : N → Option (QueueNode N)) :
    Machine (Mpsc P N × Window P N) (Action P N) :=
  (machine P next).withHistory {} record

structure Contract (x : Mpsc P N × Window P N) : Prop where
  pop : x.1.again = true → ∀ empty, x.1.answer = some (none, empty) → x.2.met = true
  push : ∀ p n first, x.1.producers p = .ret n first → x.2.alone p = true → first = true

/-- `pop` finds nothing behind `stub_`, because a producer has still to link its node there, and
another push had returned before the call. -/
def Overtaken (x : Mpsc P N × Window P N) : Action P N → Prop
  | .consume =>
    x.1.consumer = .first ∧ x.1.again = true ∧ x.1.queue.tail = .stub ∧ x.1.queue.next .stub = none ∧
      (∃ p n, x.1.producers p = .link n .stub) ∧ ∃ n ∈ x.2.known, .user n ∉ x.1.popped
  | _ => False

variable {s t : Mpsc P N} {x y : Mpsc P N × Window P N} {p : P} {n : N}

structure Consumed (s t : Mpsc P N) : Prop where
  producers : t.producers = s.producers
  order : t.order = s.order
  returned : t.returned = s.returned
  again : t.again = s.again
  popped : t.consumer ≠ .idle → t.popped = s.popped

omit [DecidableEq P] in
lemma consume_consumed (ht : s.consume = some t) : Consumed s t := by
  cases consume_cases ht with
  | retry =>
    unfold retry
    split <;> exact ⟨rfl, rfl, rfl, rfl, fun _ => rfl⟩
  | count => exact ⟨rfl, rfl, rfl, rfl, fun hne => absurd rfl hne⟩
  | _ => exact ⟨rfl, rfl, rfl, rfl, fun _ => rfl⟩

lemma produce_frame (ht : s.produce p (s.producers p) = some t) :
    t.consumer = s.consumer ∧ t.again = s.again ∧ t.answer = s.answer ∧ t.popped = s.popped ∧
      s.returned <+: t.returned := by
  cases hp : s.producers p <;> simp only [hp, produce, reduceCtorEq] at ht <;>
    obtain rfl := Option.some.inj ht
  all_goals first
    | exact ⟨rfl, rfl, rfl, rfl, List.prefix_rfl⟩
    | exact ⟨rfl, rfl, rfl, rfl, List.prefix_append _ _⟩

structure Pushes (x : Mpsc P N × Window P N) : Prop where
  ret : ∀ p n first, x.1.producers p = .ret n first → n ∈ x.1.order.map Prod.snd
  returned : ∀ e ∈ x.1.returned, e.1 ∈ x.1.order.map Prod.snd
  alone : ∀ p n prev, x.1.producers p = .link n prev → x.2.alone p = true → prev = .stub
  push : ∀ p n first, x.1.producers p = .ret n first → x.2.alone p = true → first = true

omit [DecidableEq P] [DecidableEq N] in
lemma Pushes.congr (h : Pushes x) (hp : y.1.producers = x.1.producers) (ho : y.1.order = x.1.order)
    (hr : y.1.returned = x.1.returned) (ha : y.2.alone = x.2.alone) : Pushes y := by
  obtain ⟨h1, h2, h3, h4⟩ := h
  rw [← hp, ← ho] at h1
  rw [← ho, ← hr] at h2
  rw [← hp, ← ha] at h3 h4
  exact ⟨h1, h2, h3, h4⟩

lemma Pushes.produce (h : Pushes x) (hi : Inv x.1) {w : Window P N}
    (hw : w.alone = x.1.exchanged x.2.alone p (x.1.producers p))
    (ht : x.1.produce p (x.1.producers p) = some t) : Pushes (t, w) := by
  obtain ⟨s, v⟩ := x
  dsimp only at hi hw ht
  obtain ⟨h1, h2, h3, h4⟩ := h
  dsimp only at h1 h2 h3 h4
  cases hp : s.producers p with
  | idle => simp [hp, Mpsc.produce] at ht
  | exchange n =>
    rw [hp] at ht hw
    obtain rfl := Option.some.inj ht
    have hmem : ∀ m ∈ s.order.map Prod.snd, m ∈ (s.order ++ [(p, n)]).map Prod.snd := by
      intro m hm
      rw [List.map_append]
      exact List.mem_append_left _ hm
    refine ⟨?_, fun e he => hmem _ (h2 e he), ?_, ?_⟩
    · intro q m first hq
      rw [goOn_producers] at hq
      split_ifs at hq
      exact hmem m (h1 q m first hq)
    · intro q m prev hq ha
      rw [goOn_producers] at hq
      simp only [hw, exchanged, Function.update_apply] at ha
      split_ifs at hq ha
      · obtain ⟨xs, hx, -⟩ := hi.chain
        obtain ⟨-, rfl⟩ : n = m ∧ s.queue.head = prev := by simpa using hq
        exact hi.eq_stub hx (by simpa using ha) _ (List.mem_of_getLast? hx.head)
      · exact h3 q m prev hq ha
    · intro q m first hq ha
      rw [goOn_producers] at hq
      simp only [hw, exchanged, Function.update_apply] at ha
      split_ifs at hq ha
      exact h4 q m first hq ha
  | link n prev =>
    rw [hp] at ht hw
    obtain rfl := Option.some.inj ht
    refine ⟨?_, h2, ?_, ?_⟩
    · intro q m first hq
      rw [goOn_producers] at hq
      split_ifs at hq
      · obtain ⟨rfl, -⟩ := Push.ret.inj hq
        exact List.mem_map.mpr ⟨_, hi.calls.linking p n prev hp, rfl⟩
      · exact h1 q m first hq
    · intro q m prev hq ha
      rw [goOn_producers] at hq
      split_ifs at hq
      exact h3 q m prev hq (by simpa [hw, exchanged] using ha)
    · intro q m first hq ha
      have ha' : v.alone q = true := by simpa [hw, exchanged] using ha
      rw [goOn_producers] at hq
      split_ifs at hq with hqp
      · subst hqp
        obtain ⟨-, rfl⟩ := Push.ret.inj hq
        simp [h3 q n prev hp ha']
      · exact h4 q m first hq ha'
  | _ =>
    rw [hp] at ht hw
    obtain rfl := Option.some.inj ht
    refine ⟨?_, ?_, ?_, ?_⟩
    · intro q m first hq
      rw [goOn_producers] at hq
      split_ifs at hq
      exact h1 q m first hq
    · intro e he
      first
        | exact h2 e he
        | rcases List.mem_append.mp he with he | he
          · exact h2 e he
          · obtain rfl := List.mem_singleton.mp he
            exact h1 p _ _ hp
    · intro q m prev hq ha
      rw [goOn_producers] at hq
      split_ifs at hq
      exact h3 q m prev hq (by simpa [hw, exchanged] using ha)
    · intro q m first hq ha
      rw [goOn_producers] at hq
      split_ifs at hq
      exact h4 q m first hq (by simpa [hw, exchanged] using ha)

/-- A call of `pop` has met the empty queue exactly when nothing was left of what it knew. -/
structure Watch (x : Mpsc P N × Window P N) : Prop where
  inv : Inv x.1
  busy : Busy x.1
  pushes : Pushes x
  pop : x.1.consumer ≠ .idle → x.1.again = true →
    (∀ n ∈ x.2.known, n ∈ x.1.returned.map Prod.fst) ∧
      (x.2.met = true ↔ ∀ n ∈ x.2.known, .user n ∈ x.1.popped)

omit [DecidableEq P] in
lemma met_iff {met : Bool} {known : List N} (hknown : ∀ n ∈ known, n ∈ s.returned.map Prod.fst)
    (hmet : met = true ↔ ∀ n ∈ known, .user n ∈ s.popped) :
    (met || decide s.Drained) = true ↔ ∀ n ∈ known, .user n ∈ s.popped := by
  rw [Bool.or_eq_true, hmet, decide_eq_true_eq]
  constructor
  · rintro (h | h) n hn
    · exact h n hn
    · obtain ⟨e, he, rfl⟩ := List.mem_map.mp (hknown n hn)
      exact h e he
  · exact Or.inl

omit [DecidableEq P] [DecidableEq N] in
lemma drained_iff : s.Drained ↔ ∀ n ∈ s.returned.map Prod.fst, .user n ∈ s.popped := by
  rw [List.forall_mem_map]
  rfl

lemma watch_step {act : Action P N} {next : N → Option (QueueNode N)} (h : Watch x)
    (ht : (watched P next).step x act = some y) : Watch y := by
  obtain ⟨hstep, hw⟩ := Machine.step_withHistory.mp ht
  obtain ⟨s, v⟩ := x
  obtain ⟨t, w⟩ := y
  dsimp only at hstep hw
  have hinv := step_inv h.inv hstep
  have hbusy := step_busy h.busy hstep
  cases step_stepped hstep with
  | consume hconsume =>
    have hmove := consume_consumed hconsume
    have hpc : s.consumer ≠ .idle := by
      intro hpc
      simp [consume, hpc] at hconsume
    subst hw
    refine ⟨hinv, hbusy, h.pushes.congr hmove.producers hmove.order hmove.returned rfl, ?_⟩
    intro hpc' hagain
    rw [hmove.again] at hagain
    rw [hmove.popped hpc', hmove.returned]
    obtain ⟨hknown, hmet⟩ := h.pop hpc hagain
    exact ⟨hknown, met_iff hknown hmet⟩
  | produce hproduce =>
    obtain ⟨hconsumer, hagain, -, hpopped, hreturned⟩ := produce_frame hproduce
    subst hw
    refine ⟨hinv, hbusy, h.pushes.produce h.inv rfl hproduce, ?_⟩
    intro hpc ha
    rw [hconsumer] at hpc
    rw [hagain] at ha
    rw [hpopped]
    obtain ⟨hknown, hmet⟩ := h.pop hpc ha
    exact ⟨fun n hn => (hreturned.map Prod.fst).subset (hknown n hn), met_iff hknown hmet⟩
  | push hp hn =>
    subst hw
    refine ⟨hinv, hbusy, ⟨?_, h.pushes.returned, ?_, ?_⟩, ?_⟩
    · intro q m first hq
      rw [goOn_producers] at hq
      split_ifs at hq
      exact h.pushes.ret q m first hq
    · intro q m prev hq ha
      rw [goOn_producers] at hq
      split_ifs at hq
      exact h.pushes.alone q m prev hq ha
    · intro q m first hq ha
      rw [goOn_producers] at hq
      split_ifs at hq
      exact h.pushes.push q m first hq ha
    · intro hpc ha
      obtain ⟨hknown, hmet⟩ := h.pop hpc ha
      exact ⟨hknown, met_iff hknown hmet⟩
  | pop =>
    subst hw
    refine ⟨hinv, hbusy, h.pushes.congr rfl rfl rfl rfl, fun _ _ => ⟨fun n hn => hn, ?_⟩⟩
    exact decide_eq_true_iff.trans drained_iff
  | popAndCheckEnd =>
    subst hw
    exact ⟨hinv, hbusy, h.pushes.congr rfl rfl rfl rfl, fun _ ha => by simp at ha⟩

omit [DecidableEq N] in
lemma Watch.stalled (h : Watch x) (hpc : x.1.consumer = .first) (hagain : x.1.again = true)
    (htail : x.1.queue.tail = .stub) (hnext : x.1.queue.next .stub = none)
    (hn : n ∈ x.2.known) (hpopped : .user n ∉ x.1.popped) :
    ∃ p m, x.1.producers p = .link m .stub := by
  obtain ⟨xs, hx, -⟩ := h.inv.chain
  obtain ⟨e, he, rfl⟩ := List.mem_map.mp ((h.pop (by simp [hpc]) hagain).1 n hn)
  obtain ⟨f, hf, hfe⟩ := List.mem_map.mp (h.pushes.returned e he)
  have hmem : QueueNode.user e.1 ∈ x.1.order.map fun e => QueueNode.user e.2 :=
    List.mem_map.mpr ⟨f, hf, by rw [hfe]⟩
  rw [hx.order, hpc] at hmem
  have hxs : QueueNode.user e.1 ∈ xs := by
    simpa [Pop.held, hpopped, QueueNode.isUser] using hmem
  obtain ⟨ys, rfl⟩ := hx.eq_cons
  cases ys with
  | nil => simp [htail] at hxs
  | cons y ys =>
    have hadj : Adj (x.1.queue.tail :: y :: ys) .stub y := Adj.cons_iff.mpr (Or.inl ⟨htail.symm, rfl⟩)
    rcases hx.gapped.link _ _ hadj with hy | ⟨-, ⟨p, m, hp, -⟩ | ⟨hc, -⟩⟩
    · simp [hnext] at hy
    · exact ⟨p, m, hp⟩
    · simp [hpc] at hc

lemma contract_iff {act : Action P N} {next : N → Option (QueueNode N)} (h : Watch x)
    (hc : Contract x) (ht : (watched P next).step x act = some y) :
    Contract y ↔ ¬Overtaken x act := by
  have hy := watch_step h ht
  obtain ⟨hstep, hw⟩ := Machine.step_withHistory.mp ht
  obtain ⟨s, v⟩ := x
  obtain ⟨t, w⟩ := y
  dsimp only at hstep hw
  subst hw
  have hgrows {met : Bool} (hm : met = true) : (met || decide s.Drained) = true := by simp [hm]
  cases step_stepped hstep with
  | consume hconsume =>
    have hmove := consume_consumed hconsume
    constructor
    · rintro hcontract ⟨hpc, hagain, htail, hnext, -, n, hn, hpopped⟩
      dsimp only at hpc hagain htail hnext hn hpopped
      obtain ⟨hknown, hmet⟩ := h.pop (by simp [hpc]) hagain
      have ht' : t = s.answered none true := by
        simpa [consume, hpc, hnext, htail] using hconsume.symm
      subst ht'
      have hmet' := hcontract.pop hagain true rfl
      exact hpopped ((met_iff hknown hmet).mp hmet' n hn)
    · intro hclear
      refine ⟨?_, hy.pushes.push⟩
      intro hagain empty ha
      dsimp only at hagain ha
      rw [hmove.again] at hagain
      obtain ⟨hpc, htail, hnext⟩ := (consume_busy h.busy hconsume).2 empty ha (Or.inl hagain)
      dsimp only at hpc htail hnext
      obtain ⟨hknown, hmet⟩ := h.pop (by simp [hpc]) hagain
      apply (met_iff hknown hmet).mpr
      intro n hn
      by_contra hpopped
      rw [htail] at hnext
      exact hclear ⟨hpc, hagain, htail, hnext, h.stalled hpc hagain htail hnext hn hpopped, n, hn, hpopped⟩
  | produce hproduce =>
    obtain ⟨-, hagain, hanswer, -, -⟩ := produce_frame hproduce
    refine iff_of_true ⟨?_, hy.pushes.push⟩ id
    intro ha empty he
    dsimp only at ha he
    rw [hagain] at ha
    rw [hanswer] at he
    exact hgrows (hc.pop ha empty he)
  | push =>
    refine iff_of_true ⟨?_, hy.pushes.push⟩ id
    exact fun ha empty he => hgrows (hc.pop ha empty he)
  | pop =>
    refine iff_of_true ⟨?_, hy.pushes.push⟩ id
    exact fun _ empty he => by simp at he
  | popAndCheckEnd =>
    refine iff_of_true ⟨?_, hy.pushes.push⟩ id
    exact fun ha => by simp at ha

/-- `pop` and `push` say what they promise exactly as long as no `pop` reads the link of `stub_`
while a producer that has still to store it has been overtaken. -/
theorem contract_iff_not_overtaken (next : N → Option (QueueNode N)) (as : List (Action P N)) :
    (watched P next).Always Contract (watched P next).initial as ↔
      (watched P next).Along (fun x act => ¬Overtaken x act) (watched P next).initial as := by
  apply Machine.always_iff_along (I := Watch)
  · exact fun x act y h ht => watch_step h ht
  · exact fun x act y h hc ht => contract_iff h hc ht
  · refine ⟨inv_initial next, fun hne => absurd rfl hne, ⟨?_, ?_, ?_, ?_⟩, fun hne => absurd rfl hne⟩
    · exact fun p n first hp => by simp [watched, Machine.withHistory, machine] at hp
    · exact fun e he => by simp [watched, Machine.withHistory, machine] at he
    · exact fun p n prev hp => by simp [watched, Machine.withHistory, machine] at hp
    · exact fun p n first hp => by simp [watched, Machine.withHistory, machine] at hp
  · exact ⟨fun ha => by simp [watched, Machine.withHistory, machine] at ha,
      fun p n first hp => by simp [watched, Machine.withHistory, machine] at hp⟩

def overtaken : List (Action ℕ ℕ) := stalled ++ [.pop, .consume]

lemma overtaken_result :
    ((watched ℕ fun _ => none).run (watched ℕ fun _ => none).initial overtaken).map
      (fun x => (decide (x.1.answer = some (none, true)), x.1.again, x.2.met)) =
        some (true, true, false) := by
  decide +kernel

/-- The push of 20 has returned, and `pop` returns null. -/
theorem overtaken_null : ¬(watched ℕ fun _ => none).Always Contract
    (watched ℕ fun _ => none).initial overtaken := by
  intro h
  obtain ⟨x, hx, hres⟩ := Option.map_eq_some_iff.mp overtaken_result
  simp only [Prod.mk.injEq, decide_eq_true_eq] at hres
  obtain ⟨hanswer, hagain, hmet⟩ := hres
  have htrue := (h.last hx).pop hagain true hanswer
  rw [hmet] at htrue
  exact Bool.false_ne_true htrue

end Mpsc

end Simple.Containers
