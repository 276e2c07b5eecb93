import Simple.Coro.Cancellation

/-! What `request_cancellation` does with the registrations on its token, whatever the callbacks do:
each one alive at its turn is called once, and none that was destroyed. The pointers stay in order
exactly as long as the cancellation is requested with at most one registration on the list, since
the loop does not repair the pointer back of the new first one. -/

namespace Simple.Coro.Cancellation

open Simple.Lib

variable {s t : Cancellation} {r : ℕ} {p : Option ℕ} {xs : List ℕ}

/-- The list is `xs`, seen from the front; the first registration points back to `p`. -/
structure Listed (s : Cancellation) (p : Option ℕ) (xs : List ℕ) : Prop where
  nodup : xs.Nodup
  head : s.registrations = xs.head?
  linked : Linked s.next s.prev p xs
  cut : ∀ y ∈ p, y ∉ xs
  bound : ∀ r, s.bound r = true ↔ r ∈ xs
  alive : ∀ r ∈ xs, s.alive r = true
  listed : ∀ r ∈ xs, r ∈ s.registered
  known : ∀ r, s.alive r = true ∨ r ∈ s.registered → r ∈ s.known
  live : ∀ c ∈ s.calls, c.alive = true
  once : (s.calls.map Call.registration).Nodup
  gone : ∀ r ∈ s.calls.map Call.registration, r ∈ s.registered ∧ r ∉ xs
  turn : ∀ r ∈ s.registered, s.alive r = true → r ∈ xs ∨ r ∈ s.calls.map Call.registration

lemma listed_initial : Listed {} none [] where
  nodup := List.nodup_nil
  head := rfl
  linked := Linked.nil
  cut := by simp
  bound := by simp
  alive := by simp
  listed := by simp
  known := by simp
  live := by simp
  once := List.nodup_nil
  gone := by simp
  turn := by simp

lemma registerCallback_eq (hc : s.cancelled = false) (hp : s.prev r = none)
    (hr : s.registrations ≠ some r) :
    s.registerCallback r = { s with
      registrations := some r
      next := Function.update s.next r s.registrations
      prev := match s.registrations with
        | none => Function.update s.prev r none
        | some head => Function.update (Function.update s.prev r none) head (some r)
      stray := s.stray || !s.alive r || s.registrations.any fun head => !s.alive head } := by
  have hguard : ¬((s.access r).prev r ≠ none ∨ (s.access r).registrations = some r) := by
    simp [access, hp, hr]
  rw [registerCallback, if_neg (by simp [hc]), if_neg hguard]
  cases hs : s.registrations with
  | none => cases h : s.stray <;> cases h' : s.alive r <;> simp [access, setNext, setPrev, hs, h, h']
  | some head =>
    cases h : s.stray <;> cases h' : s.alive r <;> simp [access, setNext, setPrev, hs, h, h']

lemma deregisterCallback_eq (ha : s.alive r = true) (hp : s.prev r ≠ some r) :
    s.deregisterCallback r = { s with
      registrations := if s.registrations = some r then s.next r else s.registrations
      next := fun y => if r = y then none else if s.prev r = some y then s.next r else s.next y
      prev := fun y => if r = y then none else if s.next r = some y then s.prev r else s.prev y
      stray := s.stray || (s.prev r).any (fun y => !s.alive y) ||
        (s.next r).any (fun y => !s.alive y) } := by
  have hset : ∀ (f : ℕ → Option ℕ) (z : ℕ) (v : Option ℕ),
      Function.update f z v = fun y => if z = y then v else f y := by
    intro f z v
    funext y
    rw [Function.update_apply]
    exact if_congr eq_comm rfl rfl
  cases hpr : s.prev r with
  | none =>
    cases hnr : s.next r <;> by_cases hreg : s.registrations = some r <;>
      simp [deregisterCallback, access, setNext, setPrev, hpr, hnr, hreg, ha, hset]
  | some p =>
    have hrp : p ≠ r := fun e => hp (by rw [hpr, e])
    cases hnr : s.next r <;> by_cases hreg : s.registrations = some r <;>
      simp [deregisterCallback, access, setNext, setPrev, hpr, hnr, hreg, hrp, ha, hset]

structure Frame (s t : Cancellation) : Prop where
  cancelled : t.cancelled = s.cancelled
  running : t.running = s.running
  stray : t.stray = s.stray

lemma Listed.ne_of_mem (h : Listed s p xs) (hr : r ∉ s.known) : ∀ y ∈ xs, y ≠ r := by
  rintro y hy rfl
  exact hr (h.known y (.inl (h.alive y hy)))

lemma Listed.construct_cancelled (h : Listed s p xs) (hr : r ∉ s.known) (hc : s.cancelled = true) :
    Listed (s.construct r) p xs ∧ Frame s (s.construct r) := by
  have hne := h.ne_of_mem hr
  have hrr : r ∉ s.registered := fun e => hr (h.known r (.inr e))
  have heq : s.construct r = { s with
      known := r :: s.known
      alive := Function.update s.alive r true
      next := Function.update s.next r none
      prev := Function.update s.prev r none } := by simp [construct, hc]
  rw [heq]
  refine ⟨{ h with linked := ?_, alive := ?_, known := ?_, turn := ?_ }, rfl, rfl, rfl⟩
  · exact h.linked.congr (fun y hy => Function.update_of_ne (hne y hy) _ _)
      (fun y hy => Function.update_of_ne (hne y hy) _ _)
  · intro y hy
    simpa [Function.update_of_ne (hne y hy)] using h.alive y hy
  · intro y hy
    by_cases hyr : y = r
    · simp [hyr]
    · exact List.mem_cons_of_mem _ (h.known y (by simpa [Function.update_of_ne hyr] using hy))
  · intro y hy
    have hyr : y ≠ r := fun e => hrr (e ▸ hy)
    simpa only [Function.update_of_ne hyr] using h.turn y hy

lemma Listed.construct_listed (h : Listed s none xs) (hr : r ∉ s.known) (hc : s.cancelled = false) :
    Listed (s.construct r) none (r :: xs) ∧ Frame s (s.construct r) := by
  have hne := h.ne_of_mem hr
  have hrx : r ∉ xs := fun e => hne r e rfl
  have hrr : r ∉ s.registered := fun e => hr (h.known r (.inr e))
  have hhead : s.registrations ≠ some r := fun e => hrx (List.mem_of_head? (h.head ▸ e))
  have hlive : s.registrations.any (fun y => !Function.update s.alive r true y) = false := by
    cases hx : s.registrations with
    | none => rfl
    | some y =>
      have hy : y ∈ xs := List.mem_of_head? (h.head ▸ hx)
      simp [Function.update_of_ne (hne y hy), h.alive y hy]
  have heq : s.construct r = { s with
      known := r :: s.known
      registered := r :: s.registered
      bound := Function.update s.bound r true
      alive := Function.update s.alive r true
      registrations := some r
      next := Function.update s.next r s.registrations
      prev := match s.registrations with
        | none => Function.update s.prev r none
        | some head => Function.update (Function.update s.prev r none) head (some r) } := by
    rw [construct, if_neg (by simp [hc]), registerCallback_eq]
    · simp [hlive]
    · exact hc
    · simp
    · exact hhead
  rw [heq]
  refine ⟨{ h with
    nodup := List.nodup_cons.mpr ⟨hrx, h.nodup⟩
    head := rfl
    linked := ?_, cut := by simp, bound := ?_, alive := ?_, listed := ?_, known := ?_, gone := ?_
    turn := ?_ }, rfl, rfl, rfl⟩
  · refine Linked.cons_iff.mpr ⟨by simp [h.head], ?_, h.linked.relink h.nodup ?_ ?_ ?_⟩
    · cases hx : s.registrations with
      | none => simp
      | some y =>
        have hyr : y ≠ r := fun e => hhead (e ▸ hx)
        simp [Function.update_of_ne hyr.symm]
    · intro y hy
      exact Function.update_of_ne (hne y hy) _ _
    · intro y hy
      simp [h.head, Option.mem_def.mp hy]
    · intro y hy hh
      cases hx : s.registrations with
      | none => exact Function.update_of_ne (hne y hy) _ _
      | some z =>
        have hyz : y ≠ z := fun e => hh (by rw [← h.head, hx, e]; rfl)
        simp [Function.update_of_ne hyz, Function.update_of_ne (hne y hy)]
  · intro y
    by_cases hy : y = r
    · simp [hy]
    · simpa [Function.update_of_ne hy, hy] using h.bound y
  · intro y hy
    by_cases hyr : y = r
    · simp [hyr]
    · simpa [Function.update_of_ne hyr] using h.alive y (by simpa [hyr] using hy)
  · intro y hy
    exact List.mem_cons.mpr ((List.mem_cons.mp hy).imp_right (h.listed y))
  · intro y hy
    by_cases hyr : y = r
    · simp [hyr]
    · exact List.mem_cons_of_mem _ (h.known y (by simpa [Function.update_of_ne hyr, hyr] using hy))
  · intro y hy
    obtain ⟨hyr, hyx⟩ := h.gone y hy
    exact ⟨List.mem_cons_of_mem _ hyr, by
      rintro (_ | ⟨_, e⟩)
      · exact hrr hyr
      · exact hyx e⟩
  · intro y hy hya
    by_cases hyr : y = r
    · simp [hyr]
    · have hya' : s.alive y = true := by simpa [Function.update_of_ne hyr] using hya
      exact (h.turn y (by simpa [hyr] using hy) hya').imp_left (List.mem_cons_of_mem r)

lemma Listed.prev_ne (h : Listed s p xs) (hr : r ∈ xs) : s.prev r ≠ some r := by
  obtain ⟨a, b, rfl⟩ := List.append_of_mem hr
  have hra : r ∉ a := fun e => (List.nodup_append.mp h.nodup).2.2 r e r (by simp) rfl
  rw [(h.linked a r b rfl).2]
  cases ha : a.getLast? with
  | none => exact fun e => h.cut r (by simpa using e) (by simp)
  | some z =>
    intro e
    obtain rfl : z = r := by simpa using e
    exact hra (List.mem_of_getLast? ha)

lemma Listed.destroy_listed (h : Listed s p xs) (hr : r ∈ xs) :
    Listed (s.destroy r) p (xs.erase r) ∧ (s.destroy r).cancelled = s.cancelled ∧
      (s.destroy r).running = s.running ∧ (p = none → (s.destroy r).stray = s.stray) := by
  rw [Cancellation.destroy, if_pos ((h.bound r).mpr hr),
    deregisterCallback_eq (h.alive r hr) (h.prev_ne hr)]
  refine ⟨{ h with
    nodup := h.nodup.erase r
    head := ?_, linked := ?_, cut := ?_, bound := ?_, alive := ?_, known := ?_, gone := ?_
    listed := fun y hy => h.listed y (List.mem_of_mem_erase hy)
    turn := ?_ }, rfl, rfl, ?_⟩
  · cases xs with
    | nil => simp at hr
    | cons x xs =>
      have hn := (Linked.cons_iff.mp h.linked).1
      by_cases hx : x = r
      · subst hx
        simp [h.head, hn]
      · simp [h.head, hx]
  · refine h.linked.unlink h.nodup hr h.cut ?_ ?_
    · intro y _ hy
      exact if_neg hy.symm
    · intro y _ hy
      exact if_neg hy.symm
  · intro y hy hyx
    exact h.cut y hy (List.mem_of_mem_erase hyx)
  · intro y
    by_cases hy : y = r
    · simp [hy, h.nodup.not_mem_erase]
    · simpa [Function.update_of_ne hy, List.mem_erase_of_ne hy] using h.bound y
  · intro y hy
    have hyr : y ≠ r := fun e => h.nodup.not_mem_erase (e ▸ hy)
    simpa [Function.update_of_ne hyr] using h.alive y (List.mem_of_mem_erase hy)
  · intro y hy
    by_cases hyr : y = r
    · exact h.known y (.inl (hyr ▸ h.alive r hr))
    · exact h.known y (by simpa [Function.update_of_ne hyr] using hy)
  · intro y hy
    exact ⟨(h.gone y hy).1, fun e => (h.gone y hy).2 (List.mem_of_mem_erase e)⟩
  · intro y hy hya
    have hyr : y ≠ r := by
      rintro rfl
      simp at hya
    rw [List.mem_erase_of_ne hyr]
    exact h.turn y hy (by simpa [Function.update_of_ne hyr] using hya)
  · rintro rfl
    obtain ⟨a, b, rfl⟩ := List.append_of_mem hr
    obtain ⟨hn, hp⟩ := h.linked a r b rfl
    have hprev : (s.prev r).any (fun y => !s.alive y) = false := by
      cases hy : s.prev r with
      | none => rfl
      | some y =>
        rw [hp, Option.or_none] at hy
        simp [h.alive y (by simp [List.mem_of_getLast? hy])]
    have hnext : (s.next r).any (fun y => !s.alive y) = false := by
      cases hy : s.next r with
      | none => rfl
      | some y =>
        rw [hn] at hy
        simp [h.alive y (by simp [List.mem_of_head? hy])]
    simp [hprev, hnext]

lemma Listed.destroy_off (h : Listed s p xs) (hr : r ∉ xs) (ha : s.alive r = true) :
    Listed (s.destroy r) p xs ∧ Frame s (s.destroy r) := by
  have hb : ¬s.bound r = true := fun e => hr ((h.bound r).mp e)
  rw [Cancellation.destroy, if_neg hb]
  refine ⟨{ h with bound := ?_, alive := ?_, known := ?_, turn := ?_ }, rfl, rfl, rfl⟩
  · intro y
    by_cases hy : y = r
    · simp [hy, hr]
    · simpa [Function.update_of_ne hy] using h.bound y
  · intro y hy
    have hyr : y ≠ r := fun e => hr (e ▸ hy)
    simpa [Function.update_of_ne hyr] using h.alive y hy
  · intro y hy
    by_cases hyr : y = r
    · exact h.known y (.inl (hyr ▸ ha))
    · exact h.known y (by simpa [Function.update_of_ne hyr] using hy)
  · intro y hy hya
    have hyr : y ≠ r := by
      rintro rfl
      simp at hya
    exact h.turn y hy (by simpa [Function.update_of_ne hyr] using hya)

lemma loop_nil (h : s.registrations = none) : s.loop = { s with running := none } := by
  rw [loop, h]

lemma loop_cons (h : s.registrations = some r) (ha : s.alive r = true) :
    s.loop = { s with
      registrations := s.next r
      next := Function.update s.next r none
      prev := Function.update s.prev r none
      bound := Function.update s.bound r false
      calls := s.calls ++ [⟨r, true⟩]
      running := some r } := by
  rw [loop, h]
  simp [access, setNext, setPrev, ha]

lemma Listed.loop_nil (h : Listed s p []) : Listed s.loop p [] := by
  rw [Cancellation.loop_nil h.head]
  exact { h with }

lemma Listed.loop_cons {x : ℕ} (h : Listed s p (x :: xs)) :
    Listed s.loop (some x) xs := by
  obtain ⟨hx, hd⟩ := List.nodup_cons.mp h.nodup
  obtain ⟨hnext, -, hlinked⟩ := Linked.cons_iff.mp h.linked
  have hne : ∀ y ∈ xs, y ≠ x := fun y hy e => hx (e ▸ hy)
  have hcalls : x ∉ s.calls.map Call.registration := fun e => (h.gone x e).2 (by simp)
  rw [Cancellation.loop_cons h.head (h.alive x (by simp))]
  refine { h with
    nodup := hd
    head := hnext
    linked := ?_, cut := ?_, bound := ?_
    alive := fun y hy => h.alive y (by simp [hy])
    listed := fun y hy => h.listed y (by simp [hy])
    live := ?_, once := ?_, gone := ?_, turn := ?_ }
  · exact hlinked.congr (fun y hy => Function.update_of_ne (hne y hy) _ _)
      (fun y hy => Function.update_of_ne (hne y hy) _ _)
  · rintro y ⟨⟩
    exact hx
  · intro y
    by_cases hy : y = x
    · simp [hy, hx]
    · simpa [Function.update_of_ne hy, hy] using h.bound y
  · intro c hcall
    rcases List.mem_append.mp hcall with hcall | hcall
    · exact h.live c hcall
    · simp [List.mem_singleton.mp hcall]
  · rw [List.map_append, List.map_singleton]
    exact List.nodup_append.mpr ⟨h.once, List.nodup_singleton x, by
      rintro y hy z hz rfl
      obtain rfl : y = x := by simpa using hz
      exact hcalls hy⟩
  · intro y hy
    rw [List.map_append, List.mem_append] at hy
    rcases hy with hy | hy
    · exact ⟨(h.gone y hy).1, fun e => (h.gone y hy).2 (by simp [e])⟩
    · obtain rfl : y = x := by simpa using hy
      exact ⟨h.listed y (by simp), hx⟩
  · intro y hy hya
    rw [List.map_append, List.mem_append]
    rcases h.turn y hy hya with hy | hy
    · rcases List.mem_cons.mp hy with rfl | hy
      · simp
      · exact .inl hy
    · exact .inr (.inl hy)

/-- Outside of `request_cancellation` the first registration points back to nothing, and after it
none is left. -/
def Inv (s : Cancellation) : Prop :=
  ∃ p xs, Listed s p xs ∧ (s.cancelled = false → p = none ∧ s.running = none) ∧
    (s.cancelled = true → s.running = none → xs = [])

lemma inv_initial : Inv machine.initial := ⟨none, [], listed_initial, by simp [machine], by simp⟩

lemma Listed.loop (h : Listed s p xs) (hc : s.cancelled = true) : Inv s.loop := by
  cases xs with
  | nil => 
    have hl : s.loop.cancelled = true := by rw [Cancellation.loop_nil h.head]; exact hc
    exact ⟨p, [], h.loop_nil, by simp [hl], by simp⟩
  | cons x xs =>
    have heq := Cancellation.loop_cons h.head (h.alive x (by simp))
    refine ⟨some x, xs, h.loop_cons, ?_, ?_⟩
    · simp [heq, hc]
    · simp [heq]

lemma Inv.cancelled_of_running (h : Inv s) (hr : s.running ≠ none) : s.cancelled = true := by
  obtain ⟨p, xs, -, hidle, -⟩ := h
  cases hc : s.cancelled with
  | true => rfl
  | false => exact absurd (hidle hc).2 hr

lemma Listed.request (h : Listed s p xs) : Listed { s with cancelled := true } p xs := { h with }

lemma step_cases {a : Action} (hs : machine.step s a = some t) :
    (∃ r, a = .construct r ∧ r ∉ s.known ∧ t = s.construct r) ∨
    (∃ r, a = .destroy r ∧ s.alive r = true ∧ t = s.destroy r) ∨
    (a = .request ∧ s.cancelled = true ∧ t = s) ∨
    (a = .request ∧ s.cancelled = false ∧ t = { s with cancelled := true }.loop) ∨
    (a = .done ∧ s.running ≠ none ∧ t = s.loop) := by
  cases a with
  | construct r =>
    simp only [machine, step] at hs
    split_ifs at hs with hr
    exact .inl ⟨r, rfl, hr, (Option.some.inj hs).symm⟩
  | destroy r =>
    simp only [machine, step] at hs
    split_ifs at hs with hr
    exact .inr (.inl ⟨r, rfl, hr, (Option.some.inj hs).symm⟩)
  | request =>
    obtain rfl : s.requestCancellation = t := Option.some.inj hs
    cases hc : s.cancelled with
    | true => exact .inr (.inr (.inl ⟨rfl, rfl, by simp [requestCancellation, hc]⟩))
    | false => exact .inr (.inr (.inr (.inl ⟨rfl, rfl, by simp [requestCancellation, hc]⟩)))
  | done =>
    simp only [machine, step] at hs
    split_ifs at hs with hr
    exact .inr (.inr (.inr (.inr ⟨rfl, hr, (Option.some.inj hs).symm⟩)))

lemma step_inv (a : Action) (h : Inv s) (hs : machine.step s a = some t) : Inv t := by
  have hcancelled := h.cancelled_of_running
  obtain ⟨p, xs, hl, hidle, hdone⟩ := h
  obtain ⟨r, rfl, hr, rfl⟩ | ⟨r, rfl, hr, rfl⟩ | ⟨rfl, -, rfl⟩ | ⟨rfl, -, rfl⟩ | ⟨rfl, hr, rfl⟩ :=
    step_cases hs
  · cases hc : s.cancelled with
    | true =>
      obtain ⟨hl, hf⟩ := hl.construct_cancelled hr hc
      exact ⟨p, xs, hl, by rwa [hf.cancelled, hf.running], by rwa [hf.cancelled, hf.running]⟩
    | false =>
      obtain ⟨rfl, hrun⟩ := hidle hc
      obtain ⟨hl, hf⟩ := hl.construct_listed hr hc
      exact ⟨none, r :: xs, hl, fun _ => ⟨rfl, hf.running.trans hrun⟩, by simp [hf.cancelled, hc]⟩
  · by_cases hrx : r ∈ xs
    · obtain ⟨hl, hc, hrun, -⟩ := hl.destroy_listed hrx
      refine ⟨p, xs.erase r, hl, by rwa [hc, hrun], ?_⟩
      rw [hc, hrun]
      intro hc hrun
      simp [hdone hc hrun]
    · obtain ⟨hl, hf⟩ := hl.destroy_off hrx hr
      exact ⟨p, xs, hl, by rwa [hf.cancelled, hf.running], by rwa [hf.cancelled, hf.running]⟩
  · exact ⟨p, xs, hl, hidle, hdone⟩
  · exact hl.request.loop rfl
  · exact hl.loop (hcancelled hr)

structure WellFormed (s : Cancellation) (xs : List ℕ) : Prop where
  nodup : xs.Nodup
  head : s.registrations = xs.head?
  linked : Linked s.next s.prev none xs
  alive : ∀ r ∈ xs, s.alive r = true

/-- Every registration that is alive at its turn is called once, none that was destroyed, and the
calls come to an end. -/
structure Called (s : Cancellation) : Prop where
  once : (s.calls.map Call.registration).Nodup
  live : ∀ c ∈ s.calls, c.alive = true
  complete : s.cancelled = true → s.running = none →
    ∀ r ∈ s.registered, s.alive r = true → r ∈ s.calls.map Call.registration
  bounded : s.calls.length ≤ s.registered.length
  ends : ∃ n t, machine.run s (List.replicate n .done) = some t ∧ t.running = none

structure Sound (s : Cancellation) : Prop extends Called s where
  memory : s.stray = false
  formed : s.running ≠ none → ∃ xs, WellFormed s xs

/-- The cancellation is requested with at most one registration on the list. -/
def Lone (s : Cancellation) (a : Action) : Prop :=
  a = .request → s.cancelled = false → ∀ r, s.registrations = some r → s.next r = none

lemma Listed.ends (h : Listed s p xs) :
    ∃ n t, machine.run s (List.replicate n .done) = some t ∧ t.running = none := by
  induction xs generalizing s p with
  | nil =>
    cases hr : s.running with
    | none => exact ⟨0, s, rfl, hr⟩
    | some r =>
      refine ⟨1, s.loop, ?_, ?_⟩
      · simp [Machine.run, machine, step, hr]
      · rw [Cancellation.loop_nil h.head]
  | cons x xs ih =>
    cases hr : s.running with
    | none => exact ⟨0, s, rfl, hr⟩
    | some r =>
      obtain ⟨n, t, ht, hrun⟩ := ih h.loop_cons
      refine ⟨n + 1, t, ?_, hrun⟩
      rw [List.replicate_succ, Machine.run_cons_eq_some]
      exact ⟨s.loop, by simp [machine, step, hr], ht⟩

lemma Listed.bounded (h : Listed s p xs) : s.calls.length ≤ s.registered.length := by
  have hsub : s.calls.map Call.registration ⊆ s.registered := fun r hr => (h.gone r hr).1
  simpa using (List.subperm_of_subset h.once hsub).length_le

/-- Whatever the callbacks do, and with any number of registrations on the list. -/
lemma Inv.called (h : Inv s) : Called s := by
  obtain ⟨p, xs, hl, -, hdone⟩ := h
  refine ⟨hl.once, hl.live, ?_, hl.bounded, hl.ends⟩
  intro hc hrun r hr ha
  simpa [hdone hc hrun] using hl.turn r hr ha

/-- Once cancelled, the list is empty as long as no registration stood behind another one. -/
def Tidy (s : Cancellation) : Prop :=
  ∃ xs, Listed s none xs ∧ s.stray = false ∧ (s.cancelled = false → s.running = none) ∧
    (s.cancelled = true → xs = [])

lemma Tidy.inv (h : Tidy s) : Inv s := by
  obtain ⟨xs, hl, -, hidle, hdone⟩ := h
  exact ⟨none, xs, hl, fun hc => ⟨rfl, hidle hc⟩, fun hc _ => hdone hc⟩

lemma Tidy.sound (h : Tidy s) : Sound s := by
  refine { h.inv.called with memory := ?_, formed := ?_ }
  · obtain ⟨xs, -, hstray, -, -⟩ := h
    exact hstray
  · obtain ⟨xs, hl, -, -, -⟩ := h
    exact fun _ => ⟨xs, hl.nodup, hl.head, hl.linked, hl.alive⟩

lemma Tidy.loop_nil (hl : Listed s none []) (hstray : s.stray = false) : Tidy s.loop := by
  refine ⟨[], hl.loop_nil, ?_, ?_, fun _ => rfl⟩
  · rwa [Cancellation.loop_nil hl.head]
  · simp [Cancellation.loop_nil hl.head]

lemma Tidy.loop_singleton (hl : Listed s none [r]) (hstray : s.stray = false)
    (hc : s.cancelled = true) : Tidy s.loop := by
  have heq := Cancellation.loop_cons hl.head (hl.alive r (by simp))
  refine ⟨[], { hl.loop_cons with linked := Linked.nil, cut := by simp }, ?_, ?_, fun _ => rfl⟩
  · rwa [heq]
  · simp [heq, hc]

lemma Tidy.step (a : Action) (h : Tidy s) (ha : Lone s a) (hs : machine.step s a = some t) :
    Tidy t := by
  obtain ⟨xs, hl, hstray, hidle, hdone⟩ := h
  obtain ⟨r, rfl, hr, rfl⟩ | ⟨r, rfl, hr, rfl⟩ | ⟨rfl, -, rfl⟩ | ⟨rfl, hc, rfl⟩ | ⟨rfl, hr, rfl⟩ :=
    step_cases hs
  · cases hc : s.cancelled with
    | true =>
      obtain ⟨hl, hf⟩ := hl.construct_cancelled hr hc
      exact ⟨xs, hl, hf.stray.trans hstray, by rwa [hf.cancelled, hf.running], fun _ => hdone hc⟩
    | false =>
      obtain ⟨hl, hf⟩ := hl.construct_listed hr hc
      exact ⟨r :: xs, hl, hf.stray.trans hstray, by rwa [hf.cancelled, hf.running],
        by simp [hf.cancelled, hc]⟩
  · by_cases hrx : r ∈ xs
    · obtain ⟨hl, hc, hrun, hst⟩ := hl.destroy_listed hrx
      refine ⟨xs.erase r, hl, (hst rfl).trans hstray, by rwa [hc, hrun], ?_⟩
      rw [hc]
      intro hc
      simp [hdone hc]
    · obtain ⟨hl, hf⟩ := hl.destroy_off hrx hr
      exact ⟨xs, hl, hf.stray.trans hstray, by rwa [hf.cancelled, hf.running], by rwa [hf.cancelled]⟩
  · exact ⟨xs, hl, hstray, hidle, hdone⟩
  · cases xs with
    | nil => exact Tidy.loop_nil hl.request hstray
    | cons x xs =>
      have hnext := ha rfl hc x hl.head
      rw [(Linked.cons_iff.mp hl.linked).1, List.head?_eq_none_iff] at hnext
      subst hnext
      exact Tidy.loop_singleton hl.request hstray rfl
  · have hc : s.cancelled = true := by
      by_contra hc
      exact hr (hidle (by simpa using hc))
    obtain rfl := hdone hc
    exact Tidy.loop_nil hl hstray

lemma lone_of_sound (a : Action) (h : Inv s) (hs : machine.step s a = some t) (ht : Sound t) :
    Lone s a := by
  rintro rfl hc r hr
  obtain rfl : { s with cancelled := true }.loop = t := by
    simpa [machine, step, requestCancellation, hc] using hs
  obtain ⟨p, xs, hl, -, -⟩ := h
  cases xs with
  | nil => simp [hl.head] at hr
  | cons x xs =>
    obtain rfl : x = r := by simpa [hl.head] using hr
    obtain ⟨hnext, -, hlinked⟩ := Linked.cons_iff.mp hl.linked
    have heq := Cancellation.loop_cons hl.request.head (hl.request.alive x (by simp))
    obtain ⟨ys, hys⟩ := ht.formed (by simp [heq])
    have hhead := hys.head
    have hback := hys.linked
    rw [heq] at hhead hback
    cases xs with
    | nil => simpa using hnext
    | cons y xs =>
      -- the callback of `x` runs while `y`, now the first, still points back to `x`
      obtain ⟨zs, rfl⟩ : ∃ zs, ys = y :: zs := by
        cases ys with
        | nil => simp [hnext] at hhead
        | cons z zs => exact ⟨zs, by simpa [hnext] using hhead.symm⟩
      have hyx : y ≠ x := fun e => (List.nodup_cons.mp hl.nodup).1 (by simp [e])
      have hnone := (Linked.cons_iff.mp hback).2.1
      simp [Function.update_of_ne hyx, (Linked.cons_iff.mp hlinked).2.1] at hnone

theorem callbacks_sound_iff (as : List Action) :
    machine.Always Sound machine.initial as ↔ machine.Along Lone machine.initial as := by
  constructor
  · exact Machine.along_of_always (fun s a t h hs => step_inv a h hs)
      (fun s a t h _ hs ht => lone_of_sound a h hs ht) inv_initial
  · refine Machine.always_of_along (fun s h => Tidy.sound h) (fun s a t h hc hs => h.step a hc hs) ?_
    exact ⟨[], listed_initial, rfl, fun _ => rfl, fun _ => rfl⟩

/-- The callback that runs first destroys its own registration and then the other one, whose
pointer back still leads to the first. -/
theorem callbacks_stray :
    ¬machine.Always Sound machine.initial
      [.construct 0, .construct 1, .request, .destroy 1, .destroy 0] := by
  intro h
  have hrun : (machine.run machine.initial
      [.construct 0, .construct 1, .request, .destroy 1, .destroy 0]).map stray = some true := by
    decide
  obtain ⟨t, ht, hstray⟩ := Option.map_eq_some_iff.mp hrun
  exact absurd ((h.last ht).memory.symm.trans hstray) (by decide)

end Simple.Coro.Cancellation
