import Mathlib.Tactic

/-! A stream that is taken in blocks of one size. -/

namespace Simple.Lib.Blocks

variable {σ α : Type}

def absorb (size : ℕ) [NeZero size] (f : σ → List α → σ) (s : σ) (xs : List α) : σ × List α :=
  if size ≤ xs.length then absorb size f (f s (xs.take size)) (xs.drop size) else (s, xs)
termination_by xs.length
decreasing_by
  have := NeZero.pos size
  rw [List.length_drop]
  omega

variable {size : ℕ} [NeZero size] {f : σ → List α → σ} {s : σ} {xs : List α}

lemma absorb_of_lt (h : xs.length < size) : absorb size f s xs = (s, xs) := by
  rw [absorb, if_neg (Nat.not_le.mpr h)]

lemma absorb_block {ys : List α} (h : xs.length = size) :
    absorb size f s (xs ++ ys) = absorb size f (f s xs) ys := by
  rw [absorb, if_pos (by rw [List.length_append]; omega), List.take_left' h, List.drop_left' h]

lemma absorb_length (s : σ) (xs : List α) :
    (absorb size f s xs).2.length = xs.length % size := by
  induction s, xs using absorb.induct size f with
  | case1 s xs hle ih =>
    rw [absorb, if_pos hle, ih, List.length_drop, ← Nat.mod_eq_sub_mod hle]
  | case2 s xs hlt =>
    rw [absorb, if_neg hlt, Nat.mod_eq_of_lt (Nat.lt_of_not_le hlt)]

lemma absorb_append (s : σ) (xs ys : List α) : absorb size f s (xs ++ ys) =
    absorb size f (absorb size f s xs).1 ((absorb size f s xs).2 ++ ys) := by
  induction s, xs using absorb.induct size f with
  | case1 s xs hle ih =>
    rw [absorb.eq_def size f s xs, if_pos hle, ← ih]
    nth_rewrite 1 [← List.take_append_drop size xs]
    rw [List.append_assoc, absorb_block (List.length_take_of_le hle)]
  | case2 s xs hlt => rw [absorb_of_lt (Nat.lt_of_not_le hlt)]

lemma absorb_map {τ : Type} {f' : τ → List α → τ} (g : σ → τ)
    (hf : ∀ s xs, xs.length = size → f' (g s) xs = g (f s xs)) (s : σ) (xs : List α) :
    absorb size f' (g s) xs = (g (absorb size f s xs).1, (absorb size f s xs).2) := by
  induction s, xs using absorb.induct size f with
  | case1 s xs hle ih =>
    rw [absorb, if_pos hle, hf _ _ (List.length_take_of_le hle), ih, absorb.eq_def size f s xs,
      if_pos hle]
  | case2 s xs hlt =>
    rw [absorb_of_lt (Nat.lt_of_not_le hlt), absorb_of_lt (Nat.lt_of_not_le hlt)]

/-- `src` is written into `dst` at `pos`. -/
def copy (dst : List α) (pos : ℕ) (src : List α) : List α :=
  dst.take pos ++ src ++ dst.drop (pos + src.length)

def feed (size : ℕ) [NeZero size] (f : σ → List α → σ) (s : σ) (used : ℕ) (buff data : List α) :
    σ × List α :=
  let need := size - used
  if data.length < need then (s, copy buff used data)
  else if used = 0 then
    let (s, rest) := absorb size f s data
    (s, copy buff 0 rest)
  else
    let buff := copy buff used (data.take need)
    let (s, rest) := absorb size f (f s buff) (data.drop need)
    (s, copy buff 0 rest)

lemma copy_length {dst src : List α} {pos : ℕ} (h : pos + src.length ≤ dst.length) :
    (copy dst pos src).length = dst.length := by
  simp only [copy, List.length_append, List.length_take, List.length_drop]
  omega

lemma copy_prefix {dst src : List α} (h : xs <+: dst) : xs ++ src <+: copy dst xs.length src := by
  obtain ⟨ys, rfl⟩ := h
  rw [copy, List.take_left]
  exact List.prefix_append _ _

/-- What is kept of a stream: the state after its whole blocks, and the rest in the buffer. -/
structure Fed (size : ℕ) [NeZero size] (f : σ → List α → σ) (s₀ : σ) (stream : List α)
    (r : σ × List α) : Prop where
  state : r.1 = (absorb size f s₀ stream).1
  length : r.2.length = size
  rest : (absorb size f s₀ stream).2 <+: r.2

variable {s₀ : σ} {stream buff data : List α}

lemma Fed.start {used : ℕ} (h : buff.length = size) (hu : used < size) :
    Fed size f s₀ (buff.take used) (s₀, buff) := by
  have hrest : absorb size f s₀ (buff.take used) = (s₀, buff.take used) :=
    absorb_of_lt (by rw [List.length_take]; omega)
  refine ⟨?_, h, ?_⟩
  · rw [hrest]
  · rw [hrest]
    exact List.take_prefix used buff

lemma Fed.nil (h : buff.length = size) : Fed size f s₀ [] (s₀, buff) := by
  have hstart : Fed size f s₀ (buff.take 0) (s₀, buff) := Fed.start h (NeZero.pos size)
  rwa [List.take_zero] at hstart

lemma Fed.state_map {τ : Type} {f' : τ → List α → τ} {g : σ → τ} {r : τ × List α}
    (hf : ∀ s xs, xs.length = size → f' (g s) xs = g (f s xs))
    (h : Fed size f' (g s₀) stream r) : r.1 = g (absorb size f s₀ stream).1 := by
  rw [h.state, absorb_map g hf]

lemma Fed.of_absorb (h : absorb size f s₀ stream = absorb size f s xs) (hbuff : buff.length = size) :
    Fed size f s₀ stream ((absorb size f s xs).1, copy buff 0 (absorb size f s xs).2) := by
  have hlen : (absorb size f s xs).2.length = xs.length % size := absorb_length s xs
  have hlt := Nat.mod_lt xs.length (NeZero.pos size)
  refine ⟨?_, ?_, ?_⟩
  · rw [h]
  · rw [copy_length (by omega)]
    exact hbuff
  · rw [h]
    exact copy_prefix List.nil_prefix

theorem Fed.feed (h : Fed size f s₀ stream (s, buff)) (data : List α) :
    Fed size f s₀ (stream ++ data) (Blocks.feed size f s (stream.length % size) buff data) := by
  have happend : absorb size f s₀ (stream ++ data) = _ := absorb_append s₀ stream data
  have hlen : (absorb size f s₀ stream).2.length = stream.length % size := absorb_length s₀ stream
  have hmod := Nat.mod_lt stream.length (NeZero.pos size)
  obtain ⟨hstate, hbuff, hrest⟩ := h
  generalize absorb size f s₀ stream = r at *
  obtain ⟨s', rest⟩ := r
  simp only at hstate hbuff hrest hlen happend
  subst hstate
  unfold Blocks.feed
  dsimp only
  by_cases hlt : data.length < size - stream.length % size
  · have hshort : absorb size f s (rest ++ data) = (s, rest ++ data) :=
      absorb_of_lt (by rw [List.length_append]; omega)
    rw [hshort] at happend
    rw [if_pos hlt, ← hlen]
    refine ⟨?_, ?_, ?_⟩
    · rw [happend]
    · rw [copy_length (by omega)]
      exact hbuff
    · rw [happend]
      exact copy_prefix hrest
  rw [if_neg hlt]
  by_cases hzero : stream.length % size = 0
  · obtain rfl := List.length_eq_zero_iff.mp (hlen.trans hzero)
    rw [if_pos hzero]
    exact Fed.of_absorb happend hbuff
  · obtain ⟨ys, hys⟩ := hrest
    have hneed : (data.take (size - stream.length % size)).length = size - stream.length % size :=
      List.length_take_of_le (by omega)
    have hblock : (rest ++ data.take (size - stream.length % size)).length = size := by
      rw [List.length_append]
      omega
    have hcopy : copy buff (stream.length % size) (data.take (size - stream.length % size)) =
        rest ++ data.take (size - stream.length % size) := by
      have htake : buff.take (stream.length % size) = rest := by
        rw [← hlen, ← hys, List.take_left]
      rw [copy, htake, List.drop_eq_nil_of_le (by omega), List.append_nil]
    have hfirst : absorb size f s (rest ++ data) =
        absorb size f (f s (rest ++ data.take (size - stream.length % size)))
          (data.drop (size - stream.length % size)) := by
      rw [← absorb_block hblock, List.append_assoc, List.take_append_drop]
    rw [if_neg hzero, hcopy]
    exact Fed.of_absorb (happend.trans hfirst) hblock

lemma feed_length {used : ℕ} (h : buff.length = size) (hu : used < size) :
    (feed size f s used buff data).2.length = size := by
  have hfed : Fed size f s (buff.take used ++ data) _ := (Fed.start h hu).feed data
  have hused : (buff.take used).length % size = used := by
    rw [List.length_take, Nat.min_eq_left (by omega), Nat.mod_eq_of_lt hu]
  rw [hused] at hfed
  exact hfed.length

end Simple.Lib.Blocks
