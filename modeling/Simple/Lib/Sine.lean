import Mathlib.Analysis.SpecialFunctions.Trigonometric.Basic

/-! The sines of whole numbers, as integers that are exact up to a few units of `2 ^ -60`. -/

namespace Simple.Lib.Sine

open Complex

def scale : ℤ := 2 ^ 60

def unit : ℤ × ℤ := (622926147424044489, 970149993887725314)

def point : ℕ → ℤ × ℤ
  | 0 => (scale, 0)
  | n + 1 =>
    let p := point n
    ((p.1 * unit.1 - p.2 * unit.2) / scale, (p.1 * unit.2 + p.2 * unit.1) / scale)

noncomputable def value (p : ℤ × ℤ) : ℂ := p.1 + p.2 * I

lemma series : ∑ m ∈ Finset.range 22, I ^ m / (m.factorial : ℂ) =
    (1314502564969066301 / 2432902008176640000 : ℝ) +
      (42991545423991633141 / 51090942171709440000 : ℝ) * I := by
  simp [Finset.sum_range_succ, Nat.factorial, pow_succ]
  ring

lemma norm_le (x y : ℝ) : ‖(x : ℂ) + y * I‖ ≤ |x| + |y| := by
  simpa using norm_le_abs_re_add_abs_im ((x : ℂ) + y * I)

lemma unit_close : ‖(scale : ℂ) * exp I - value unit‖ ≤ 2 := by
  have htail := exp_bound (x := I) (by simp) (n := 22) (by decide)
  rw [series] at htail
  set s : ℂ := (1314502564969066301 / 2432902008176640000 : ℝ) +
    (42991545423991633141 / 51090942171709440000 : ℝ) * I with hs
  have hsum : ‖(scale : ℂ) * s - value unit‖ ≤ 1 := by
    have heq : (scale : ℂ) * s - value unit =
        ((scale * (1314502564969066301 / 2432902008176640000) - unit.1 : ℝ) : ℂ) +
          ((scale * (42991545423991633141 / 51090942171709440000) - unit.2 : ℝ) : ℂ) * I := by
      rw [hs, value]
      push_cast
      ring
    rw [heq]
    refine (norm_le _ _).trans ?_
    norm_num [scale, unit, abs_le]
  have hrest : ‖(scale : ℂ) * (exp I - s)‖ ≤ 1 := by
    have hscale : ‖(scale : ℂ)‖ = 2 ^ 60 := by norm_num [scale]
    rw [norm_mul, hscale]
    refine (mul_le_mul_of_nonneg_left htail (by positivity)).trans ?_
    norm_num [Nat.factorial]
  calc ‖(scale : ℂ) * exp I - value unit‖
      = ‖(scale : ℂ) * (exp I - s) + (scale * s - value unit)‖ := by congr 1; ring
    _ ≤ ‖(scale : ℂ) * (exp I - s)‖ + ‖(scale : ℂ) * s - value unit‖ := norm_add_le _ _
    _ ≤ 2 := by linarith

lemma rounded_close (x y : ℤ) :
    ‖((x : ℂ) + y * I) / scale - value (x / scale, y / scale)‖ ≤ 2 := by
  have hscale : (0 : ℝ) < scale := by norm_num [scale]
  have hpart (x : ℤ) : |(x : ℝ) / scale - (x / scale : ℤ)| ≤ 1 := by
    have hpos : (0 : ℤ) < scale := by decide
    have hlow : (0 : ℝ) ≤ (x % scale : ℤ) := by exact_mod_cast Int.emod_nonneg x hpos.ne'
    have hhigh : ((x % scale : ℤ) : ℝ) < scale := by exact_mod_cast Int.emod_lt_of_pos x hpos
    have hsplit : (x : ℝ) = (x % scale : ℤ) + scale * (x / scale : ℤ) := by
      exact_mod_cast (Int.emod_add_mul_ediv x scale).symm
    have hrest : (x : ℝ) / scale - (x / scale : ℤ) = (x % scale : ℤ) / scale := by
      rw [hsplit]
      field_simp
      ring
    rw [hrest, abs_of_nonneg (div_nonneg hlow hscale.le), div_le_one hscale]
    exact hhigh.le
  have heq : ((x : ℂ) + y * I) / scale - value (x / scale, y / scale) =
      (((x : ℝ) / scale - (x / scale : ℤ) : ℝ) : ℂ) + (((y : ℝ) / scale - (y / scale : ℤ) : ℝ) : ℂ) * I := by
    rw [value]
    push_cast
    ring
  rw [heq]
  refine (norm_le _ _).trans ?_
  linarith [hpart x, hpart y]

lemma point_close (n : ℕ) (hn : n ≤ 64) : ‖(scale : ℂ) * exp I ^ n - value (point n)‖ ≤ 6 * n := by
  induction n with
  | zero => simp [point, value]
  | succ n ih =>
    specialize ih (by omega)
    have hscale : (scale : ℂ) ≠ 0 := by norm_num [scale]
    have hnorm : ‖(scale : ℂ)‖ = 2 ^ 60 := by norm_num [scale]
    have hturn : ‖exp I‖ = 1 := by simpa using norm_exp_ofReal_mul_I 1
    have hn' : (n : ℝ) ≤ 64 := by exact_mod_cast (Nat.le_of_succ_le hn)
    set p := value (point n) with hp
    have hsize : ‖p / scale‖ ≤ 2 := by
      have hp' : ‖p‖ ≤ 2 ^ 60 + 6 * n := by
        calc ‖p‖ = ‖(scale : ℂ) * exp I ^ n - ((scale : ℂ) * exp I ^ n - p)‖ := by congr 1; ring
          _ ≤ ‖(scale : ℂ) * exp I ^ n‖ + ‖(scale : ℂ) * exp I ^ n - p‖ := norm_sub_le _ _
          _ ≤ 2 ^ 60 + 6 * n := by
            rw [norm_mul, norm_pow, hturn, one_pow, mul_one, hnorm]
            linarith
      rw [norm_div, hnorm, div_le_iff₀ (by positivity)]
      linarith
    have hround : ‖p * value unit / scale - value (point (n + 1))‖ ≤ 2 := by
      have hproduct : p * value unit =
          (((point n).1 * unit.1 - (point n).2 * unit.2 : ℤ) : ℂ) +
            (((point n).1 * unit.2 + (point n).2 * unit.1 : ℤ) : ℂ) * I := by
        rw [hp, value, value]
        push_cast
        linear_combination ((point n).2 * unit.2 : ℂ) * I_mul_I
      rw [hproduct]
      exact rounded_close _ _
    calc ‖(scale : ℂ) * exp I ^ (n + 1) - value (point (n + 1))‖
        = ‖exp I * ((scale : ℂ) * exp I ^ n - p) + p / scale * ((scale : ℂ) * exp I - value unit) +
            (p * value unit / scale - value (point (n + 1)))‖ := by
          congr 1
          field_simp
          ring
      _ ≤ ‖exp I * ((scale : ℂ) * exp I ^ n - p)‖ +
            ‖p / scale * ((scale : ℂ) * exp I - value unit)‖ +
            ‖p * value unit / scale - value (point (n + 1))‖ := norm_add₃_le
      _ ≤ 6 * n + 2 * 2 + 2 := by
        rw [norm_mul, norm_mul, hturn, one_mul]
        have := mul_le_mul hsize unit_close (norm_nonneg _) (by norm_num)
        linarith
      _ = 6 * (n + 1 : ℕ) := by push_cast; ring

lemma sin_close {n : ℕ} (hn : n ≤ 64) : |scale * Real.sin n - (point n).2| ≤ 6 * n := by
  have him : ((scale : ℂ) * exp I ^ n - value (point n)).im = scale * Real.sin n - (point n).2 := by
    have hexp : exp I ^ n = Real.cos n + Real.sin n * I := by
      rw [← exp_nat_mul, exp_mul_I]
      push_cast
      rfl
    have hparts : (scale : ℂ) * exp I ^ n - value (point n) =
        ((scale * Real.cos n - (point n).1 : ℝ) : ℂ) +
          ((scale * Real.sin n - (point n).2 : ℝ) : ℂ) * I := by
      rw [hexp, value]
      push_cast
      ring
    rw [hparts]
    simp only [add_im, ofReal_im, mul_im, ofReal_re, I_im, I_re]
    ring
  rw [← him]
  exact (abs_im_le_norm _).trans (point_close n hn)

/-- A digit that the enclosure leaves no choice. -/
theorem floor_sin {n v : ℕ} (hn : n ≤ 64) (hlow : v * 2 ^ 28 + 6 * n ≤ (point n).2.natAbs)
    (hhigh : (point n).2.natAbs + 6 * n < (v + 1) * 2 ^ 28) :
    ⌊2 ^ 32 * |Real.sin n|⌋₊ = v := by
  have hclose := (abs_abs_sub_abs_le_abs_sub _ _).trans (sin_close hn)
  rw [abs_mul, abs_of_nonneg (show (0 : ℝ) ≤ scale by norm_num [scale]), ← Int.cast_abs,
    Int.abs_eq_natAbs, Int.cast_natCast] at hclose
  obtain ⟨h₁, h₂⟩ := abs_le.mp hclose
  have hlow' : (v : ℝ) * 2 ^ 28 + 6 * n ≤ (point n).2.natAbs := by exact_mod_cast hlow
  have hhigh' : ((point n).2.natAbs : ℝ) + 6 * n < (v + 1) * 2 ^ 28 := by exact_mod_cast hhigh
  have hscale : (scale : ℝ) = 2 ^ 28 * 2 ^ 32 := by norm_num [scale]
  rw [hscale] at h₁ h₂
  rw [Nat.floor_eq_iff (by positivity)]
  constructor
  · nlinarith
  · nlinarith

end Simple.Lib.Sine
