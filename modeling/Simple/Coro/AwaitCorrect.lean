import Simple.Coro.Task

/-! When `co_await child` gives the result of the child's body. -/

namespace Simple.Coro

open Simple.Lib

variable {σ V E : Type}

def Point.Live : Point σ V E → Prop
  | .initial _ | .final => False
  | _ => True

namespace World

structure Inv (w : World σ V E) : Prop where
  fresh : ∀ c f, w.frames c = some f → c < w.size
  pristine : ∀ c f s, w.frames c = some f → f.point = .initial s → f.promise.token = none
  unfinished : ∀ c f, w.frames c = some f → f.point ≠ .final →
    f.outcome = none ∧ f.promise.value = .monostate
  finished : ∀ c f, w.frames c = some f → f.point = .final → f.outcome = some f.promise.result
  continued : ∀ c g p, w.frames c = some g → g.point ≠ .final →
    g.promise.continuation = some p → ∃ f aw, w.frames p = some f ∧ f.point = .awaiting c aw
  owned : ∀ p f c, w.frames p = some f → c ∈ f.tasks → ∃ g, w.frames c = some g ∧
    ((∃ s, g.point = .initial s) ∨ g.point = .final ∨ g.promise.continuation = some p)
  unique : ∀ p q f g c, w.frames p = some f → w.frames q = some g →
    c ∈ f.tasks → c ∈ g.tasks → p = q

lemma Inv.congr {w w' : World σ V E} (h : Inv w) (hf : w'.frames = w.frames)
    (hs : w'.size = w.size) : Inv w' := by
  refine ⟨?_, ?_, ?_, ?_, ?_, ?_, ?_⟩ <;> simp only [hf, hs]
  · exact h.fresh
  · exact h.pristine
  · exact h.unfinished
  · exact h.finished
  · exact h.continued
  · exact h.owned
  · exact h.unique

lemma inv_initial : Inv ({} : World σ V E) := by
  constructor <;> intros <;> simp_all

lemma frames_setFrame {w : World σ V E} {p c : CoroutineHandle} {f g : Frame σ V E} :
    (w.setFrame p f).frames c = some g ↔ (c = p ∧ f = g) ∨ (c ≠ p ∧ w.frames c = some g) := by
  by_cases h : c = p <;> simp [setFrame, h]

lemma tasks_setFrame {w : World σ V E} {p x c : CoroutineHandle} {f f' y : Frame σ V E}
    (hp : w.frames p = some f) (ht : f'.tasks = f.tasks)
    (hx : (w.setFrame p f').frames x = some y) (hc : c ∈ y.tasks) :
    ∃ y₀, w.frames x = some y₀ ∧ c ∈ y₀.tasks := by
  rcases frames_setFrame.mp hx with ⟨rfl, rfl⟩ | ⟨-, hx₀⟩
  · exact ⟨f, hp, ht ▸ hc⟩
  · exact ⟨y, hx₀, hc⟩

lemma forall_setFrame {w : World σ V E} {p : CoroutineHandle} {f : Frame σ V E}
    {P : CoroutineHandle → Frame σ V E → Prop} (h : ∀ c g, w.frames c = some g → P c g)
    (hf : P p f) (c : CoroutineHandle) (g : Frame σ V E)
    (hg : (w.setFrame p f).frames c = some g) : P c g := by
  rcases frames_setFrame.mp hg with ⟨rfl, rfl⟩ | ⟨-, hg₀⟩
  · exact hf
  · exact h c g hg₀

lemma Inv.unique_setFrame {w : World σ V E} {p q r c : CoroutineHandle} {f f' e e' : Frame σ V E}
    (h : Inv w) (hp : w.frames p = some f) (ht : f'.tasks = f.tasks)
    (he : (w.setFrame p f').frames q = some e) (he' : (w.setFrame p f').frames r = some e')
    (hm : c ∈ e.tasks) (hm' : c ∈ e'.tasks) : q = r := by
  obtain ⟨e₀, he₀, hm₀⟩ := tasks_setFrame hp ht he hm
  obtain ⟨e₁, he₁, hm₁⟩ := tasks_setFrame hp ht he' hm'
  exact h.unique _ _ _ _ _ he₀ he₁ hm₀ hm₁

lemma Inv.not_continued {w : World σ V E} {p : CoroutineHandle} {f : Frame σ V E} (h : Inv w)
    (hp : w.frames p = some f) (hn : ∀ c aw, f.point ≠ .awaiting c aw) (c : CoroutineHandle)
    (g : Frame σ V E) (hg : w.frames c = some g) (hf : g.point ≠ .final) :
    g.promise.continuation ≠ some p := by
  intro hc
  obtain ⟨e, aw, he, hpt⟩ := h.continued _ _ _ hg hf hc
  obtain rfl : f = e := Option.some.inj (hp.symm.trans he)
  exact hn _ _ hpt

lemma Inv.update {w : World σ V E} {p : CoroutineHandle} {f f' : Frame σ V E} (h : Inv w)
    (hp : w.frames p = some f) (hl : f.point.Live) (hl' : f'.point.Live)
    (ht : f'.tasks = f.tasks) (ho : f'.outcome = f.outcome)
    (hv : f'.promise.value = f.promise.value)
    (hc : f'.promise.continuation = f.promise.continuation)
    (hfree : ∀ c g, w.frames c = some g → g.point ≠ .final → g.promise.continuation ≠ some p) :
    Inv (w.setFrame p f') := by
  have hnf : f.point ≠ .final := by rintro he; simp [he, Point.Live] at hl
  have hnf' : f'.point ≠ .final := by rintro he; simp [he, Point.Live] at hl'
  have hni : ∀ s, f'.point ≠ .initial s := by rintro s he; simp [he, Point.Live] at hl'
  refine ⟨?_, ?_, ?_, ?_, ?_, ?_, ?_⟩
  · exact forall_setFrame h.fresh (h.fresh p f hp)
  · intro c g s
    exact forall_setFrame (fun c g => h.pristine c g s) (fun hs => (hni s hs).elim) c g
  · apply forall_setFrame h.unfinished
    rw [ho, hv]
    exact fun _ => h.unfinished p f hp hnf
  · exact forall_setFrame h.finished fun hn => (hnf' hn).elim
  · intro c g q hg hn hq
    have key : ∃ g₀, w.frames c = some g₀ ∧ g₀.point ≠ .final ∧
        g₀.promise.continuation = some q := by
      rcases frames_setFrame.mp hg with ⟨rfl, rfl⟩ | ⟨-, hg₀⟩
      · exact ⟨f, hp, hnf, hc ▸ hq⟩
      · exact ⟨g, hg₀, hn, hq⟩
    obtain ⟨g₀, hg₀, hn₀, hq₀⟩ := key
    obtain ⟨e, aw, he, hpt⟩ := h.continued _ _ _ hg₀ hn₀ hq₀
    have hqp : q ≠ p := by
      rintro rfl
      exact hfree _ _ hg₀ hn₀ hq₀
    exact ⟨e, aw, frames_setFrame.mpr (.inr ⟨hqp, he⟩), hpt⟩
  · intro q e c he hm
    obtain ⟨e₀, he₀, hm₀⟩ := tasks_setFrame hp ht he hm
    obtain ⟨g, hg, hcase⟩ := h.owned _ _ _ he₀ hm₀
    by_cases hcp : c = p
    · subst hcp
      obtain rfl : f = g := Option.some.inj (hp.symm.trans hg)
      refine ⟨f', frames_setFrame.mpr (.inl ⟨rfl, rfl⟩), .inr (.inr ?_)⟩
      rcases hcase with ⟨s, hs⟩ | hs | hs
      · simp [hs, Point.Live] at hl
      · exact (hnf hs).elim
      · rw [hc, hs]
    · exact ⟨g, frames_setFrame.mpr (.inr ⟨hcp, hg⟩), hcase⟩
  · exact fun _ _ _ _ _ he he' hm hm' => h.unique_setFrame hp ht he he' hm hm'

lemma Inv.finish {w : World σ V E} {p : CoroutineHandle} {f f' : Frame σ V E} (h : Inv w)
    (hp : w.frames p = some f) (hn : ∀ c aw, f.point ≠ .awaiting c aw)
    (hf : f'.point = .final) (ht : f'.tasks = f.tasks) (ho : f'.outcome = some f'.promise.result) :
    Inv (w.setFrame p f') := by
  refine ⟨?_, ?_, ?_, ?_, ?_, ?_, ?_⟩
  · exact forall_setFrame h.fresh (h.fresh p f hp)
  · intro c g s
    exact forall_setFrame (fun c g => h.pristine c g s) (by simp [hf]) c g
  · exact forall_setFrame h.unfinished fun hn => (hn hf).elim
  · exact forall_setFrame h.finished fun _ => ho
  · intro c g q hg hng hq
    rcases frames_setFrame.mp hg with ⟨rfl, rfl⟩ | ⟨-, hg₀⟩
    · exact (hng hf).elim
    · obtain ⟨e, aw, he, hpt⟩ := h.continued _ _ _ hg₀ hng hq
      have hqp : q ≠ p := by
        rintro rfl
        exact h.not_continued hp hn _ _ hg₀ hng hq
      exact ⟨e, aw, frames_setFrame.mpr (.inr ⟨hqp, he⟩), hpt⟩
  · intro q e c he hm
    obtain ⟨e₀, he₀, hm₀⟩ := tasks_setFrame hp ht he hm
    obtain ⟨g, hg, hcase⟩ := h.owned _ _ _ he₀ hm₀
    by_cases hcp : c = p
    · exact ⟨f', frames_setFrame.mpr (.inl ⟨hcp, rfl⟩), .inr (.inl hf)⟩
    · exact ⟨g, frames_setFrame.mpr (.inr ⟨hcp, hg⟩), hcase⟩
  · exact fun _ _ _ _ _ he he' hm hm' => h.unique_setFrame hp ht he he' hm hm'

lemma Inv.start {w : World σ V E} {p c : CoroutineHandle} {f g g' : Frame σ V E} {s : σ}
    {aw : Awaitable σ V E} (h : Inv w) (hp : w.frames p = some f) (hpt : f.point = .awaiting c aw)
    (hm : c ∈ f.tasks) (hc : w.frames c = some g) (hs : g.point = .initial s)
    (hl : g'.point.Live) (ht : g'.tasks = g.tasks) (ho : g'.outcome = g.outcome)
    (hv : g'.promise.value = g.promise.value) (hk : g'.promise.continuation = some p) :
    Inv (w.setFrame c g') := by
  have hng : g.point ≠ .final := by simp [hs]
  have hng' : g'.point ≠ .final := by rintro he; simp [he, Point.Live] at hl
  have hpc : p ≠ c := by
    rintro rfl
    obtain rfl : f = g := Option.some.inj (hp.symm.trans hc)
    simp [hpt] at hs
  refine ⟨?_, ?_, ?_, ?_, ?_, ?_, ?_⟩
  · exact forall_setFrame h.fresh (h.fresh c g hc)
  · intro d e r
    apply forall_setFrame fun d e => h.pristine d e r
    intro hr
    simp [hr, Point.Live] at hl
  · apply forall_setFrame h.unfinished
    rw [ho, hv]
    exact fun _ => h.unfinished c g hc hng
  · exact forall_setFrame h.finished fun hn => (hng' hn).elim
  · intro d e q he hn hq
    rcases frames_setFrame.mp he with ⟨rfl, rfl⟩ | ⟨-, he₀⟩
    · obtain rfl : p = q := Option.some.inj (hk.symm.trans hq)
      exact ⟨f, aw, frames_setFrame.mpr (.inr ⟨hpc, hp⟩), hpt⟩
    · obtain ⟨e', aw', he', hpt'⟩ := h.continued _ _ _ he₀ hn hq
      have hqc : q ≠ c := by
        rintro rfl
        obtain rfl : g = e' := Option.some.inj (hc.symm.trans he')
        simp [hs] at hpt'
      exact ⟨e', aw', frames_setFrame.mpr (.inr ⟨hqc, he'⟩), hpt'⟩
  · intro q e d he hd
    obtain ⟨e₀, he₀, hd₀⟩ := tasks_setFrame hc ht he hd
    by_cases hdc : d = c
    · subst hdc
      obtain rfl := h.unique _ _ _ _ _ he₀ hp hd₀ hm
      exact ⟨g', frames_setFrame.mpr (.inl ⟨rfl, rfl⟩), .inr (.inr hk)⟩
    · obtain ⟨x, hx, hcase⟩ := h.owned _ _ _ he₀ hd₀
      exact ⟨x, frames_setFrame.mpr (.inr ⟨hdc, hx⟩), hcase⟩
  · exact fun _ _ _ _ _ he he' hm hm' => h.unique_setFrame hc ht he he' hm hm'

lemma Inv.frames_size {w : World σ V E} (h : Inv w) : w.frames w.size = none := by
  cases hs : w.frames w.size with
  | none => rfl
  | some f => exact absurd (h.fresh _ _ hs) (lt_irrefl _)

lemma Inv.create {w : World σ V E} {f : Frame σ V E} (h : Inv w) (hf : f.point ≠ .final)
    (hi : ∀ s, f.point = .initial s → f.promise.token = none) (ht : f.tasks = [])
    (ho : f.outcome = none) (hv : f.promise.value = .monostate)
    (hk : f.promise.continuation = none) : Inv (w.create f) := by
  have hold : ∀ {c g}, w.frames c = some g → (w.create f).frames c = some g := by
    intro c g hg
    refine frames_setFrame.mpr (.inr ⟨?_, hg⟩)
    rintro rfl
    simp [h.frames_size] at hg
  refine ⟨?_, ?_, ?_, ?_, ?_, ?_, ?_⟩
  · exact forall_setFrame (fun c g hg => (h.fresh c g hg).trans (Nat.lt_succ_self _))
      (Nat.lt_succ_self _)
  · intro c g s
    exact forall_setFrame (fun c g => h.pristine c g s) (hi s) c g
  · exact forall_setFrame h.unfinished fun _ => ⟨ho, hv⟩
  · exact forall_setFrame h.finished fun hn => (hf hn).elim
  · intro c g q hg hn hq
    rcases frames_setFrame.mp hg with ⟨rfl, rfl⟩ | ⟨-, hg₀⟩
    · simp [hk] at hq
    · obtain ⟨e, aw, he, hpt⟩ := h.continued _ _ _ hg₀ hn hq
      exact ⟨e, aw, hold he, hpt⟩
  · intro q e c he hm
    rcases frames_setFrame.mp he with ⟨rfl, rfl⟩ | ⟨-, he₀⟩
    · simp [ht] at hm
    · obtain ⟨g, hg, hcase⟩ := h.owned _ _ _ he₀ hm
      exact ⟨g, hold hg, hcase⟩
  · intro q r e e' c he he' hm hm'
    rcases frames_setFrame.mp he with ⟨rfl, rfl⟩ | ⟨-, he₀⟩
    · simp [ht] at hm
    · rcases frames_setFrame.mp he' with ⟨rfl, rfl⟩ | ⟨-, he₁⟩
      · simp [ht] at hm'
      · exact h.unique _ _ _ _ _ he₀ he₁ hm hm'

lemma Inv.adopt {w : World σ V E} {p c : CoroutineHandle} {f g : Frame σ V E} {s : σ} (h : Inv w)
    (hp : w.frames p = some f) (hc : w.frames c = some g) (hs : g.point = .initial s)
    (hn : ∀ q e, w.frames q = some e → c ∉ e.tasks) :
    Inv (w.setFrame p { f with tasks := f.tasks ++ [c] }) := by
  refine ⟨?_, ?_, ?_, ?_, ?_, ?_, ?_⟩
  · exact forall_setFrame h.fresh (h.fresh p f hp)
  · intro d e r
    apply forall_setFrame fun d e => h.pristine d e r
    exact h.pristine p f r hp
  · exact forall_setFrame h.unfinished (h.unfinished p f hp)
  · exact forall_setFrame h.finished (h.finished p f hp)
  · intro d e q he hne hq
    have key : ∃ f' aw, w.frames q = some f' ∧ f'.point = .awaiting d aw := by
      rcases frames_setFrame.mp he with ⟨rfl, rfl⟩ | ⟨-, he₀⟩
      · exact h.continued _ _ _ hp hne hq
      · exact h.continued _ _ _ he₀ hne hq
    obtain ⟨f', aw, hf', hpt⟩ := key
    by_cases hqp : q = p
    · subst hqp
      obtain rfl : f = f' := Option.some.inj (hp.symm.trans hf')
      exact ⟨_, aw, frames_setFrame.mpr (.inl ⟨rfl, rfl⟩), hpt⟩
    · exact ⟨f', aw, frames_setFrame.mpr (.inr ⟨hqp, hf'⟩), hpt⟩
  · intro q e d he hd
    have key : ∃ x, w.frames d = some x ∧
        ((∃ s, x.point = .initial s) ∨ x.point = .final ∨ x.promise.continuation = some q) := by
      rcases frames_setFrame.mp he with ⟨rfl, rfl⟩ | ⟨-, he₀⟩
      · rcases List.mem_append.mp hd with hd | hd
        · exact h.owned _ _ _ hp hd
        · obtain rfl : d = c := by simpa using hd
          exact ⟨g, hc, .inl ⟨s, hs⟩⟩
      · exact h.owned _ _ _ he₀ hd
    obtain ⟨x, hx, hcase⟩ := key
    by_cases hdp : d = p
    · subst hdp
      obtain rfl : f = x := Option.some.inj (hp.symm.trans hx)
      exact ⟨_, frames_setFrame.mpr (.inl ⟨rfl, rfl⟩), hcase⟩
    · exact ⟨x, frames_setFrame.mpr (.inr ⟨hdp, hx⟩), hcase⟩
  · intro q r e e' d he he' hd hd'
    -- `c` has one owner now, every other task has the owner it had
    have key : ∀ {x y}, (w.setFrame p { f with tasks := f.tasks ++ [c] }).frames x = some y →
        d ∈ y.tasks → (x = p ∧ d = c) ∨ (∃ y₀, w.frames x = some y₀ ∧ d ∈ y₀.tasks) := by
      intro x y hx hy
      rcases frames_setFrame.mp hx with ⟨rfl, rfl⟩ | ⟨-, hx₀⟩
      · rcases List.mem_append.mp hy with hy | hy
        · exact .inr ⟨f, hp, hy⟩
        · exact .inl ⟨rfl, by simpa using hy⟩
      · exact .inr ⟨y, hx₀, hy⟩
    rcases key he hd with ⟨rfl, rfl⟩ | ⟨e₀, he₀, hd₀⟩
    · rcases key he' hd' with ⟨rfl, -⟩ | ⟨e₁, he₁, hd₁⟩
      · rfl
      · exact (hn _ _ he₁ hd₁).elim
    · rcases key he' hd' with ⟨rfl, rfl⟩ | ⟨e₁, he₁, hd₁⟩
      · exact (hn _ _ he₀ hd₀).elim
      · exact h.unique _ _ _ _ _ he₀ he₁ hd₀ hd₁

lemma Inv.running {w : World σ V E} {p : CoroutineHandle} {f : Frame σ V E} {s : σ} (h : Inv w)
    (hp : w.frames p = some f) (hr : f.point = .running s) {f' : Frame σ V E} (hl : f'.point.Live)
    (ht : f'.tasks = f.tasks) (ho : f'.outcome = f.outcome)
    (hv : f'.promise.value = f.promise.value)
    (hc : f'.promise.continuation = f.promise.continuation) : Inv (w.setFrame p f') :=
  h.update hp (by simp [hr, Point.Live]) hl ht ho hv hc
    (h.not_continued hp (by simp [hr]))

lemma Inv.call {w : World σ V E} {p : CoroutineHandle} {f : Frame σ V E} {s : σ} (h : Inv w)
    (hp : w.frames p = some f) (hr : f.point = .running s) (kind : Kind) (body next : σ) :
    Inv ((w.create (.initial kind body)).setFrame p
      { f with point := .running next, tasks := f.tasks ++ [w.size] }) := by
  have hps : p ≠ w.size := (h.fresh _ _ hp).ne
  have h₁ : Inv (w.create (.initial kind body)) :=
    h.create (by simp [Frame.initial]) (by simp [Frame.initial]) rfl rfl rfl rfl
  have hp₁ : (w.create (.initial kind body)).frames p = some f := frames_setFrame.mpr (.inr ⟨hps, hp⟩)
  have hunowned : ∀ q e, (w.create (.initial kind body)).frames q = some e → w.size ∉ e.tasks := by
    intro q e he hm
    rcases frames_setFrame.mp he with ⟨-, rfl⟩ | ⟨-, he₀⟩
    · simp [Frame.initial] at hm
    · obtain ⟨g, hg, -⟩ := h.owned _ _ _ he₀ hm
      simp [h.frames_size] at hg
  have h₂ := h₁.adopt hp₁ (frames_setFrame.mpr (.inl ⟨rfl, rfl⟩)) rfl hunowned
  have h₃ : Inv (((w.create (.initial kind body)).setFrame p
      { f with tasks := f.tasks ++ [w.size] }).setFrame p
      { f with point := .running next, tasks := f.tasks ++ [w.size] }) :=
    h₂.running (frames_setFrame.mpr (.inl ⟨rfl, rfl⟩)) hr trivial rfl rfl rfl rfl
  refine h₃.congr ?_ rfl
  simp [setFrame]

lemma pass_inv {w : World σ V E} {p : CoroutineHandle} {f g : Frame σ V E} {early : Bool}
    {aw : Awaitable σ V E} (h : ∀ s, Inv (w.setFrame p { f with point := .running s })) :
    Inv (w.pass p f g early aw) := by
  cases aw with
  | coAwait next => exact (h _).congr rfl rfl
  | whenReady next => exact (h _).congr rfl rfl

lemma Inv.child_initial {w : World σ V E} {p c : CoroutineHandle} {f g : Frame σ V E} {s : σ}
    (h : Inv w) (hp : w.frames p = some f) (hr : f.point = .running s) (hm : c ∈ f.tasks)
    (hc : w.frames c = some g) (hd : g.done = false) : p ≠ c ∧ ∃ r, g.point = .initial r := by
  have hnf : g.point ≠ .final := by
    intro he
    simp [Frame.done, he] at hd
  obtain ⟨g', hg', hcase⟩ := h.owned _ _ _ hp hm
  obtain rfl : g = g' := Option.some.inj (hc.symm.trans hg')
  rcases hcase with ⟨r, hs⟩ | hs | hs
  · refine ⟨?_, r, hs⟩
    rintro rfl
    obtain rfl : f = g := Option.some.inj (hp.symm.trans hc)
    simp [hr] at hs
  · exact (hnf hs).elim
  · exact (h.not_continued hp (by simp [hr]) _ _ hc hnf hs).elim

lemma await_cases {w w' : World σ V E} {p c : CoroutineHandle} {f g : Frame σ V E} {s : σ}
    {aw : Awaitable σ V E} (h : Inv w) (hp : w.frames p = some f) (hr : f.point = .running s)
    (hm : c ∈ f.tasks) (hc : w.frames c = some g) (hw : w.await p f c aw = some w') :
    (g.done = true ∧ w' = w.pass p f g false aw) ∨
    (g.done = false ∧ w.isCancellationRequested f.promise.token = true ∧
      w' = w.pass p f g true aw) ∨
    (g.done = false ∧ w.isCancellationRequested f.promise.token = false ∧
      Inv w' ∧ w'.log = w.log) := by
  cases hd : g.done with
  | true =>
    simp only [await, hc, hd, if_true, Option.some.injEq] at hw
    exact .inl ⟨rfl, hw.symm⟩
  | false =>
    obtain ⟨hpc, r, hs⟩ := h.child_initial hp hr hm hc hd
    -- both ways of setting the continuation start the child
    have started : ∀ token (x : Option (Frame σ V E)), Inv { w with
        frames := Function.update (Function.update (Function.update w.frames c x) p
          (some { f with point := .awaiting c aw })) c (some { g with
            promise := { g.promise with token := token, continuation := some p },
            point := .running r }), current := some c } := by
      intro token x
      have h₁ : Inv (w.setFrame p { f with point := .awaiting c aw }) :=
        h.running hp hr trivial rfl rfl rfl rfl
      have h₂ : Inv ((w.setFrame p { f with point := .awaiting c aw }).setFrame c { g with
          promise := { g.promise with token := token, continuation := some p },
          point := .running r }) := h₁.start
        (frames_setFrame.mpr (.inl ⟨rfl, rfl⟩)) rfl hm
        (frames_setFrame.mpr (.inr ⟨Ne.symm hpc, hc⟩)) hs trivial rfl rfl rfl rfl
      refine h₂.congr ?_ rfl
      funext y
      by_cases hy : y = c <;> simp [setFrame, Function.update_apply, hy]
    cases ht : f.promise.token with
    | none =>
      have ha : w.awaitSuspend p f c g = (w.setFrame c { g with
          promise := { g.promise with continuation := some p } }, c) := by simp [awaitSuspend, ht]
      simp only [await, hc, hd, ha, Ne.symm hpc, if_false, Bool.false_eq_true, setFrame,
        Function.update_of_ne (Ne.symm hpc), Function.update_self, hs, Option.some.injEq] at hw
      subst hw
      exact .inr (.inr ⟨rfl, rfl, started _ _, rfl⟩)
    | some t =>
      cases hcan : w.cancelled t with
      | true =>
        have ha : w.awaitSuspend p f c g = (w, p) := by simp [awaitSuspend, ht, hcan]
        simp only [await, hc, hd, ha, if_true, if_false, Bool.false_eq_true,
          Option.some.injEq] at hw
        exact .inr (.inl ⟨rfl, by simp [isCancellationRequested, hcan], hw.symm⟩)
      | false =>
        have ha : w.awaitSuspend p f c g = (w.setFrame c { g with
            promise := { g.promise with token := some t, continuation := some p } }, c) := by
          simp [awaitSuspend, ht, hcan]
        simp only [await, hc, hd, ha, Ne.symm hpc, if_false, Bool.false_eq_true, setFrame,
          Function.update_of_ne (Ne.symm hpc), Function.update_self, hs, Option.some.injEq] at hw
        subst hw
        exact .inr (.inr ⟨rfl, by simp [isCancellationRequested, hcan], started _ _, rfl⟩)

end World

/-- A `co_await` that throws, or that returns what the child's body produced; it
throws `canceled` when the token was cancelled at `await_suspend`. -/
def Awaited.Ok (ev : Awaited V E) : Prop :=
  (ev.early = true → ev.result = .error .canceled) ∧
    ∀ r, ev.result = .ok r → ev.outcome = some (.ok r)

namespace World

def Allows (w : World σ V E) (f : Frame σ V E) : Instr σ V E → Prop
  | .coAwait i _ => ∀ c g, f.tasks[i]? = some c → w.frames c = some g → g.done = false →
      w.isCancellationRequested f.promise.token = false
  | _ => True

def Logs (w t : World σ V E) (allowed : Prop) : Prop :=
  Inv t ∧ ∃ evs, t.log = w.log ++ evs ∧ ((∀ ev ∈ evs, ev.Ok) ↔ allowed)

lemma Logs.silent {w t : World σ V E} {allowed : Prop} (h : Inv t) (hl : t.log = w.log)
    (ha : allowed) : Logs w t allowed :=
  ⟨h, [], by simp [hl], by simp [ha]⟩

lemma awaitResume_finished {w : World σ V E} {g : Frame σ V E}
    (h : g.outcome = some g.promise.result) :
    Awaited.Ok ⟨false, w.awaitResume g, g.outcome⟩ := by
  refine ⟨by simp, ?_⟩
  intro r hr
  simp only [awaitResume] at hr
  split at hr
  · cases hr
  · rw [h, hr]

/-- A child that has not run yet: `check_token` looks at the child's own token,
which nobody has set, and `result` finds nothing stored. -/
lemma awaitResume_initial {w : World σ V E} {g : Frame σ V E} (ht : g.promise.token = none)
    (hv : g.promise.value = .monostate) :
    ¬ Awaited.Ok ⟨true, w.awaitResume g, g.outcome⟩ := by
  have hc : w.awaitResume g = g.promise.result := by
    simp [awaitResume, checkToken, isCancellationRequested, ht]
  rintro ⟨hcan, -⟩
  have he := hcan rfl
  rw [hc] at he
  cases hk : g.promise.kind with
  | void => simp [TaskPromise.result, hk, hv] at he
  | value => simp [TaskPromise.result, hk, hv] at he

lemma await_logs {w t : World σ V E} {p c : CoroutineHandle} {f : Frame σ V E} {s : σ}
    {next : Result V E → σ} (h : Inv w) (hp : w.frames p = some f) (hr : f.point = .running s)
    (hm : c ∈ f.tasks) (ht : w.await p f c (.coAwait next) = some t) :
    Logs w t (∀ g, w.frames c = some g → g.done = false →
      w.isCancellationRequested f.promise.token = false) := by
  obtain ⟨g, hg, -⟩ := h.owned _ _ _ hp hm
  have hpass : ∀ early, Inv (w.pass p f g early (.coAwait next)) := fun early =>
    pass_inv fun s' => h.running hp hr trivial rfl rfl rfl rfl
  rcases await_cases h hp hr hm hg ht with ⟨hd, rfl⟩ | ⟨hd, hc, rfl⟩ | ⟨hd, hc, hi, hl⟩
  · have hf : g.point = .final := by
      cases hgp : g.point <;> simp [Frame.done, hgp] at hd ⊢
    refine ⟨hpass false, _, rfl, iff_of_true ?_ ?_⟩
    · intro ev hev
      obtain rfl := List.mem_singleton.mp hev
      exact awaitResume_finished (h.finished _ _ hg hf)
    · intro g' hg' hd'
      obtain rfl : g = g' := Option.some.inj (hg.symm.trans hg')
      simp [hd] at hd'
  · obtain ⟨-, r, hs⟩ := h.child_initial hp hr hm hg hd
    have hu := h.unfinished _ _ hg (by simp [hs])
    refine ⟨hpass true, _, rfl, iff_of_false ?_ ?_⟩
    · intro hall
      exact awaitResume_initial (h.pristine _ _ _ hg hs) hu.2
        (hall _ (List.mem_singleton_self _))
    · intro hall
      simp [hall g hg hd] at hc
  · refine Logs.silent hi hl ?_
    intro _ _ _
    exact hc

lemma resumeAwaiter_logs {w t : World σ V E} {p c : CoroutineHandle} {f g : Frame σ V E}
    {aw : Awaitable σ V E} (h : Inv w) (hp : w.frames p = some f) (hpt : f.point = .awaiting c aw)
    (hc : w.frames c = some g) (hf : g.point = .final) (ht : w.resumeAwaiter p = some t) :
    Logs w t True := by
  simp only [resumeAwaiter, hp, hpt, hc, Option.map_some, Option.some.injEq] at ht
  have hfree : ∀ d e, w.frames d = some e → e.point ≠ .final →
      e.promise.continuation ≠ some p := by
    intro d e he hn hk
    obtain ⟨f', aw', hf', hpt'⟩ := h.continued _ _ _ he hn hk
    obtain rfl : f = f' := Option.some.inj (hp.symm.trans hf')
    obtain ⟨rfl, -⟩ : c = d ∧ aw = aw' := by simpa [hpt] using hpt'
    obtain rfl : g = e := Option.some.inj (hc.symm.trans he)
    exact hn hf
  have hpass : Inv t := ht ▸ pass_inv fun s =>
    h.update hp (by simp [hpt, Point.Live]) trivial rfl rfl rfl rfl hfree
  subst ht
  cases aw with
  | coAwait next =>
    refine ⟨hpass, _, rfl, iff_of_true ?_ trivial⟩
    intro ev hev
    obtain rfl := List.mem_singleton.mp hev
    exact awaitResume_finished (h.finished _ _ hc hf)
  | whenReady next => exact Logs.silent hpass rfl trivial

lemma finalSuspend_logs {w t : World σ V E} {p : CoroutineHandle} {f : Frame σ V E} {s : σ}
    {q : TaskPromise V E} {o : Result V E} (h : Inv w) (hp : w.frames p = some f)
    (hr : f.point = .running s) (ho : q.result = o)
    (hk : q.continuation = f.promise.continuation)
    (ht : (w.setFrame p (f.finish q o)).finalSuspend (f.finish q o) = some t) :
    Logs w t True := by
  have hi : Inv (w.setFrame p (f.finish q o)) :=
    h.finish hp (by simp [hr]) rfl rfl (by simp [Frame.finish, ho])
  cases hc : q.continuation with
  | none =>
    simp only [finalSuspend, Frame.finish, hc, Option.some.injEq] at ht
    subst ht
    exact Logs.silent (hi.congr rfl rfl) rfl trivial
  | some r =>
    simp only [finalSuspend, Frame.finish, hc] at ht
    obtain ⟨e, aw, he, hpt⟩ := h.continued _ _ _ hp (by simp [hr]) (hk ▸ hc)
    have hrp : r ≠ p := by
      rintro rfl
      obtain rfl : f = e := Option.some.inj (hp.symm.trans he)
      simp [hr] at hpt
    have hl : Logs (w.setFrame p (f.finish q o)) t True :=
      resumeAwaiter_logs hi (frames_setFrame.mpr (.inr ⟨hrp, he⟩)) hpt
        (frames_setFrame.mpr (.inl ⟨rfl, rfl⟩)) rfl ht
    exact hl

lemma coReturn_result (q : TaskPromise V E) (v : V) (hv : q.value = .monostate) :
    (q.coReturn v).result = .ok (q.produced v) := by
  cases hk : q.kind <;> simp [TaskPromise.coReturn, TaskPromise.result, TaskPromise.produced, hk, hv]

lemma exec_logs {w t : World σ V E} {p : CoroutineHandle} {f : Frame σ V E} {s : σ} (h : Inv w)
    (hp : w.frames p = some f) (hr : f.point = .running s) (i : Instr σ V E)
    (ht : w.exec p f i = some t) : Logs w t (w.Allows f i) := by
  have hu := h.unfinished _ _ hp (by simp [hr])
  cases i with
  | coReturn v =>
    refine finalSuspend_logs h hp hr (coReturn_result _ _ hu.2) ?_ ht
    cases hk : f.promise.kind <;> simp [TaskPromise.coReturn, hk]
  | throw e =>
    have hres : (f.promise.unhandledException e).result = .error e := by
      cases hk : f.promise.kind <;> simp [TaskPromise.unhandledException, TaskPromise.result, hk]
    exact finalSuspend_logs h hp hr hres rfl ht
  | call kind body next =>
    simp only [exec, Option.some.injEq] at ht
    subst ht
    exact Logs.silent (h.call hp hr kind body next) rfl trivial
  | coAwait i next =>
    cases hi : f.tasks[i]? with
    | none =>
      simp only [exec, hi, Option.some.injEq] at ht
      subst ht
      refine ⟨(h.running hp hr trivial rfl rfl rfl rfl : Inv (w.setFrame p { f with
        point := .running (next (.error .brokenPromise)) })).congr rfl rfl, _, rfl, ?_⟩
      simp [Allows, hi, Awaited.Ok]
    | some c =>
      simp only [exec, hi] at ht
      obtain ⟨hv, evs, hl, hok⟩ := await_logs h hp hr (List.mem_of_getElem? hi) ht
      refine ⟨hv, evs, hl, hok.trans ⟨?_, fun hall g hg => hall c g hi hg⟩⟩
      intro hall d g hd
      obtain rfl : c = d := Option.some.inj (hi.symm.trans hd)
      exact hall g
  | whenReady i next =>
    cases hi : f.tasks[i]? with
    | none => simp [exec, hi] at ht
    | some c =>
      simp only [exec, hi] at ht
      have hm := List.mem_of_getElem? hi
      obtain ⟨g, hg, -⟩ := h.owned _ _ _ hp hm
      have hpass : ∀ early, Inv (w.pass p f g early (.whenReady next)) := fun early =>
        pass_inv fun s' => h.running hp hr trivial rfl rfl rfl rfl
      rcases await_cases h hp hr hm hg ht with ⟨-, rfl⟩ | ⟨-, -, rfl⟩ | ⟨-, -, hi', hl⟩
      · exact Logs.silent (hpass false) rfl trivial
      · exact Logs.silent (hpass true) rfl trivial
      · exact Logs.silent hi' hl trivial
  | suspend next =>
    simp only [exec, Option.some.injEq] at ht
    subst ht
    exact Logs.silent ((h.running hp hr trivial rfl rfl rfl rfl :
      Inv (w.setFrame p { f with point := .suspended next })).congr rfl rfl) rfl trivial
  | setCancellationToken token next =>
    simp only [exec, Option.some.injEq] at ht
    subst ht
    exact Logs.silent (h.running hp hr trivial rfl rfl rfl rfl) rfl trivial
  | requestCancellation state next =>
    simp only [exec, Option.some.injEq] at ht
    subst ht
    exact Logs.silent ((h.running hp hr trivial rfl rfl rfl rfl :
      Inv (w.setFrame p { f with point := .running next })).congr rfl rfl) rfl trivial

end World

/-- The condition on a step: a body that reaches `co_await` on a child that is not
done has no token, or one that is not cancelled. -/
def AwaitAllowed (code : σ → Instr σ V E) (w : World σ V E) : Action σ V E → Prop
  | .go => ∀ p f s, w.current = some p → w.frames p = some f → f.point = .running s →
      w.Allows f (code s)
  | _ => True

lemma act_logs {code : σ → Instr σ V E} {w t : World σ V E} {a : Action σ V E} (h : w.Inv)
    (ht : w.act code a = some t) : w.Logs t (AwaitAllowed code w a) := by
  cases a with
  | go =>
    cases hc : w.current with
    | none => simp [World.act, hc] at ht
    | some p =>
      cases hp : w.frames p with
      | none => simp [World.act, hc, hp] at ht
      | some f =>
        cases hr : f.point <;> simp only [World.act, hc, hp, hr, reduceCtorEq] at ht
        next s =>
          obtain ⟨hi, evs, hl, hok⟩ := World.exec_logs h hp hr (code s) ht
          refine ⟨hi, evs, hl, hok.trans ⟨?_, fun hall => hall p f s hc hp hr⟩⟩
          intro hall p' f' s' hc' hp' hr'
          obtain rfl : p = p' := Option.some.inj (hc.symm.trans hc')
          obtain rfl : f = f' := Option.some.inj (hp.symm.trans hp')
          obtain rfl : s = s' := by simpa [hr] using hr'
          exact hall
  | resume c r =>
    cases hc : w.current with
    | some p => simp [World.act, hc] at ht
    | none =>
      cases hp : w.frames c with
      | none => simp [World.act, hc, hp] at ht
      | some f =>
        cases hr : f.point <;> simp only [World.act, hc, hp, hr, reduceCtorEq,
          Option.some.injEq] at ht
        next next =>
          subst ht
          have hi : (w.setFrame c { f with point := .running (next r) }).Inv :=
            h.update hp (by simp [hr, Point.Live]) trivial rfl rfl rfl rfl
              (h.not_continued hp (by simp [hr]))
          exact World.Logs.silent (hi.congr rfl rfl) rfl trivial
  | coStart body token =>
    cases hc : w.current with
    | some p => simp [World.act, hc] at ht
    | none =>
      cases htok : w.isCancellationRequested token with
      | true =>
        simp only [World.act, hc, htok, if_true, Option.some.injEq] at ht
        subst ht
        exact World.Logs.silent h rfl trivial
      | false =>
        simp only [World.act, hc, htok, Bool.false_eq_true, if_false, Option.some.injEq] at ht
        subst ht
        have hi : (w.create (.detached token body)).Inv :=
          h.create (by simp [Frame.detached]) (by simp [Frame.detached]) rfl rfl rfl rfl
        exact World.Logs.silent (hi.congr rfl rfl) rfl trivial
  | requestCancellation state =>
    simp only [World.act, Option.some.injEq] at ht
    subst ht
    exact World.Logs.silent (h.congr rfl rfl) rfl trivial

/-- In every run, all completed `co_await`s are right exactly when no body reaches
`co_await` on an unfinished child with a cancelled token. -/
theorem co_await_right_iff (code : σ → Instr σ V E) (as : List (Action σ V E)) :
    (scheduler code).Always (fun w => ∀ ev ∈ w.log, ev.Ok) {} as ↔
      (scheduler code).Along (AwaitAllowed code) {} as := by
  refine Machine.always_iff_along (I := World.Inv) ?_ ?_ World.inv_initial (by simp)
  · intro w a t hw ht
    exact (act_logs hw ht).1
  · intro w a t hw hok ht
    obtain ⟨-, evs, hl, hiff⟩ := act_logs hw ht
    rw [← hiff, hl]
    simp only [List.mem_append]
    exact ⟨fun hall ev hev => hall ev (.inr hev),
      fun hnew ev hev => hev.elim (hok ev) (hnew ev)⟩

/-- `0` to `2` is what `co_start` launches, `10` to `15` the function it awaits,
`20` the body of the two tasks that function awaits after it has cancelled its own
token. -/
def awaitsTwo : ℕ → Instr ℕ ℕ Unit
  | 0 => .call .void 10 1
  | 1 => .coAwait 0 fun _ => 2
  | 10 => .call .void 20 11
  | 11 => .call .value 20 12
  | 12 => .requestCancellation 0 13
  | 13 => .coAwait 0 fun _ => 14
  | 14 => .coAwait 1 fun _ => 15
  | _ => .coReturn 7

theorem co_await_cancelled_before :
    (∃ w, (scheduler awaitsTwo).run {} [.coStart 0 (some 0), .go, .go, .go, .go, .go, .go,
        .go] = some w ∧ w.log = [⟨true, .ok none, none⟩, ⟨true, .error .badVariantAccess, none⟩]) ∧
      ¬ (scheduler awaitsTwo).Always (fun w => ∀ ev ∈ w.log, ev.Ok) {}
        [.coStart 0 (some 0), .go, .go, .go, .go, .go, .go, .go] := by
  have hrun : ∃ w, (scheduler awaitsTwo).run {} [.coStart 0 (some 0), .go, .go, .go, .go, .go,
      .go, .go] = some w ∧
      w.log = [⟨true, .ok none, none⟩, ⟨true, .error .badVariantAccess, none⟩] := ⟨_, rfl, rfl⟩
  refine ⟨hrun, ?_⟩
  intro hall
  obtain ⟨w, hw, hl⟩ := hrun
  have hok := hall.last hw ⟨true, .ok none, none⟩ (by simp [hl])
  simp [Awaited.Ok] at hok

end Simple.Coro
