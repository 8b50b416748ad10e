import Mathlib.Tactic.Ring
import ShaderIR.Spirv.Constant

/-!
# Rounding to half precision

Singles and halves are read as whole multiples of `2 ^ -149`, the smallest single above zero.  A
single lies between two neighbouring halves, and **`halfBits` picks the nearer one, or the one
farther from zero if both are as near**; a carry out of the fraction is the step to the next
exponent or to infinity.
-/

namespace ShaderIR.Spirv

/-! ## Values of bits -/

/-- A binary format: below its sign it has exponent bits and fraction bits, and its smallest
    magnitude above zero is `2 ^ (scale - 149)`. -/
structure FloatFormat where
  exponentBits : Nat
  fractionBits : Nat
  scale : Nat

namespace FloatFormat

variable {k x q : Nat}

def single : FloatFormat := ⟨8, 23, 0⟩

def half : FloatFormat := ⟨5, 10, 125⟩

section

variable (f : FloatFormat) (n : Nat)

def sign : Nat := n / 2 ^ (f.exponentBits + f.fractionBits)

def exponent : Nat := n / 2 ^ f.fractionBits % 2 ^ f.exponentBits

def fraction : Nat := n % 2 ^ f.fractionBits

def IsFinite : Prop := f.exponent n ≠ 2 ^ f.exponentBits - 1

def IsInfinite : Prop := f.exponent n = 2 ^ f.exponentBits - 1 ∧ f.fraction n = 0

def IsNaN : Prop := f.exponent n = 2 ^ f.exponentBits - 1 ∧ f.fraction n ≠ 0

/-- The magnitude in units of `2 ^ -149`.  Exponent zero is that of subnormal numbers. -/
def magnitude : Nat :=
  (f.fraction n + if f.exponent n = 0 then 0 else 2 ^ f.fractionBits) * 2 ^ (f.scale + (f.exponent n - 1))

def value : Int := if f.sign n = 0 then f.magnitude n else -f.magnitude n

end

theorem magnitude_half (hk : k < 0x8000) :
    half.magnitude k = (k % 1024 + if k / 1024 = 0 then 0 else 1024) *
      2 ^ (125 + (k / 1024 - 1)) := by
  have hexponent : half.exponent k = k / 1024 := Nat.mod_eq_of_lt (by show k / 1024 < 32; omega)
  rw [magnitude, hexponent]
  rfl

/-- From one magnitude to the next it is one unit in the last place, also across exponents. -/
theorem magnitude_half_succ (hk : k < 0x7FFF) :
    half.magnitude (k + 1) = half.magnitude k + 2 ^ (125 + (k / 1024 - 1)) := by
  rw [magnitude_half (by omega), magnitude_half (by omega)]
  by_cases hcarry : k % 1024 = 1023
  · have hfraction : (k + 1) % 1024 = 0 := by omega
    have hexponent : (k + 1) / 1024 = k / 1024 + 1 := by omega
    rw [hfraction, hexponent, hcarry]
    cases k / 1024 with
    | zero => rfl
    | succ a =>
      show 1024 * 2 ^ (125 + a + 1) = (1023 + 1024) * 2 ^ (125 + a) + 2 ^ (125 + a)
      rw [Nat.pow_succ]
      omega
  · have hfraction : (k + 1) % 1024 = k % 1024 + 1 := by omega
    have hexponent : (k + 1) / 1024 = k / 1024 := by omega
    rw [hfraction, hexponent, Nat.add_right_comm, Nat.succ_mul]

theorem magnitude_half_le {j : Nat} (hjk : j ≤ k) (hk : k < 0x8000) :
    half.magnitude j ≤ half.magnitude k := by
  induction hjk with
  | refl => exact Nat.le_refl _
  | step hjk ih =>
    rw [magnitude_half_succ (by omega)]
    exact Nat.le_add_right_of_le (ih (by omega))

end FloatFormat

open FloatFormat

/-! ## Neighbouring halves -/

/-- The half `picked` is the nearer of `q` and `q + 1`, between which the magnitude `x` lies. -/
structure Picks (x q picked : Nat) : Prop where
  finite : q < 0x7C00
  low : half.magnitude q ≤ x
  high : x < half.magnitude (q + 1)
  picked : picked = if half.magnitude q + half.magnitude (q + 1) ≤ 2 * x then q + 1 else q

/-- What is cut off is less than a unit in the last place, and its first bit says whether it is half
    of it. -/
theorem picks_of_split {w b r : Nat} (hq : q < 0x7C00) (hunit : 2 ^ (125 + (q / 1024 - 1)) = 2 * w)
    (hx : x = half.magnitude q + b % 2 * w + r) (hr : r < w) : Picks x q (q + b % 2) := by
  have hnext := magnitude_half_succ (k := q) (by omega)
  rw [hunit] at hnext
  rcases Nat.mod_two_eq_zero_or_one b with hbit | hbit <;> rw [hbit] at hx ⊢
  · exact ⟨hq, by omega, by omega, (if_neg (by omega)).symm⟩
  · exact ⟨hq, by omega, by omega, (if_pos (by omega)).symm⟩

theorem split_mul (full t u : Nat) : full * u =
    full / 2 ^ (t + 1) * (2 * (2 ^ t * u)) + full / 2 ^ t % 2 * (2 ^ t * u) + full % 2 ^ t * u := by
  have hdiv : full / 2 ^ (t + 1) = full / 2 ^ t / 2 := by rw [Nat.div_div_eq_div_mul, ← Nat.pow_succ]
  rw [hdiv]
  conv_lhs => rw [← Nat.div_add_mod full (2 ^ t), ← Nat.div_add_mod (full / 2 ^ t) 2]
  ring

/-- A single that is too small for a half rounds to zero; the largest such magnitude is below half
    of the smallest half. -/
theorem picks_zero (hx : x < 2 ^ 124) : Picks x 0 0 :=
  picks_of_split (w := 2 ^ 124) (b := 0) (r := x) (by decide) rfl (by simp [magnitude_half]) hx

theorem picks_subnormal {e full : Nat} (he : 102 ≤ e ∧ e ≤ 112) (hfull : full < 0x1000000) :
    Picks (full * 2 ^ (e - 1)) (full / 2 ^ (126 - e)) (full / 2 ^ (126 - e) +
      full / 2 ^ (126 - e - 1) % 2) := by
  obtain ⟨t, ht⟩ : ∃ t, 125 - e = t := ⟨_, rfl⟩
  have hshift : 126 - e = t + 1 := by omega
  have hw : 2 ^ t * 2 ^ (e - 1) = 2 ^ 124 := by
    rw [← Nat.pow_add]
    congr 1
    omega
  have hq : full / 2 ^ (t + 1) < 1024 := by
    have hle : 2 ^ 14 ≤ 2 ^ (t + 1) := Nat.pow_le_pow_right (by decide) (by omega)
    rw [Nat.div_lt_iff_lt_mul (Nat.two_pow_pos _)]
    omega
  rw [hshift, Nat.add_sub_cancel]
  refine picks_of_split (w := 2 ^ 124) (r := full % 2 ^ t * 2 ^ (e - 1)) (by omega) ?_ ?_ ?_
  · rw [Nat.div_eq_of_lt hq]
    rfl
  · rw [split_mul full t, hw, magnitude_half (by omega), Nat.div_eq_of_lt hq, Nat.mod_eq_of_lt hq]
    rfl
  · rw [← hw]
    exact Nat.mul_lt_mul_of_pos_right (Nat.mod_lt _ (Nat.two_pow_pos _)) (Nat.two_pow_pos _)

theorem picks_normal {e m : Nat} (he : 113 ≤ e ∧ e ≤ 142) (hm : m < 0x800000) :
    Picks ((m + 0x800000) * 2 ^ (e - 1)) ((e - 112) * 1024 + m / 8192)
      ((e - 112) * 1024 + m / 8192 + m / 4096 % 2) := by
  have hw : 2 ^ (e + 11) = 2 ^ 12 * 2 ^ (e - 1) := by
    rw [← Nat.pow_add]
    congr 1
    omega
  have hexponent : ((e - 112) * 1024 + m / 8192) / 1024 = e - 112 := by omega
  have hfraction : ((e - 112) * 1024 + m / 8192) % 1024 = m / 8192 := by omega
  have hunit : 2 ^ (125 + (e - 112 - 1)) = 2 * 2 ^ (e + 11) := by
    rw [← Nat.pow_succ']
    congr 1
    omega
  have hbit : m / 4096 % 2 = (m + 0x800000) / 2 ^ 12 % 2 := by omega
  rw [hbit]
  refine picks_of_split (w := 2 ^ (e + 11)) (r := (m + 0x800000) % 2 ^ 12 * 2 ^ (e - 1)) (by omega) ?_ ?_ ?_
  · rw [hexponent, hunit]
  · have hdiv : (m + 0x800000) / 2 ^ (12 + 1) = m / 8192 + 1024 := by omega
    rw [split_mul _ 12, ← hw, magnitude_half (by omega), hexponent, hfraction, if_neg (by omega), hdiv, hunit]
  · rw [hw]
    exact Nat.mul_lt_mul_of_pos_right (Nat.mod_lt _ (by decide)) (Nat.two_pow_pos _)

/-- The half that a single below `2 ^ 16` becomes is picked between two neighbours. -/
theorem exists_picks (n : UInt32) (he : single.exponent n.toNat ≤ 142) :
    ∃ q k, Picks (single.magnitude n.toNat) q k ∧ (halfBits n).toNat = n.toNat / 2 ^ 31 * 0x8000 +
      k := by
  have hm : single.fraction n.toNat < 0x800000 := Nat.mod_lt _ (by decide)
  have hx : single.magnitude n.toNat = (single.fraction n.toNat +
      if single.exponent n.toNat = 0 then 0 else 0x800000) * 2 ^ (0 + (single.exponent n.toNat - 1)) := rfl
  rw [Nat.zero_add] at hx
  obtain ⟨q, k, hpicks, hbits⟩ : ∃ q k, Picks (single.magnitude n.toNat) q k ∧
      halfBits n = (n.toNat / 2 ^ 31 * 0x8000 + k).toUInt32 := by
    have hexponent : n.toNat / 2 ^ 23 % 0x100 = single.exponent n.toNat := rfl
    have hfraction : n.toNat % 0x800000 = single.fraction n.toNat := rfl
    unfold halfBits
    simp only [Nat.shiftRight_eq_div_pow, Nat.shiftLeft_eq, hexponent, hfraction]
    generalize single.exponent n.toNat = e at *
    generalize single.fraction n.toNat = m at *
    rw [if_neg (by omega), if_neg (by omega)]
    by_cases hlow : e ≤ 112
    · rw [if_pos hlow]
      by_cases hzero : e < 102
      · refine ⟨0, 0, picks_zero ?_, by rw [if_pos hzero, Nat.add_zero]⟩
        have hpow : 2 ^ (e - 1) ≤ 2 ^ 100 := Nat.pow_le_pow_right (by decide) (by omega)
        rw [hx]
        calc _ ≤ 0xFFFFFF * 2 ^ 100 := Nat.mul_le_mul (by split <;> omega) hpow
          _ < 2 ^ 124 := by decide
      · rw [if_neg (by omega)] at hx
        rw [if_neg hzero, hx, Nat.add_assoc]
        exact ⟨_, _, picks_subnormal (by omega) (by omega), rfl⟩
    · rw [if_neg (by omega)] at hx
      rw [if_neg hlow, hx, Nat.add_assoc, Nat.add_assoc, ← Nat.add_assoc (_ * 2 ^ 10)]
      exact ⟨_, _, picks_normal (by omega) hm, rfl⟩
  refine ⟨q, k, hpicks, ?_⟩
  have hk : k ≤ q + 1 := by
    rw [hpicks.picked]
    split <;> omega
  have hq := hpicks.finite
  have hn := n.toNat_lt
  rw [hbits]
  exact Nat.mod_eq_of_lt (by show _ < 0x100000000; omega)

/-! ## The nearest half -/

theorem Picks.nearest (h : Picks x q k) {j : Nat} (hj : j < 0x8000) :
    ((x : Int) - half.magnitude k).natAbs ≤ ((x : Int) - half.magnitude j).natAbs ∧
      (((x : Int) - half.magnitude k).natAbs = ((x : Int) - half.magnitude j).natAbs →
        half.magnitude j ≤ half.magnitude k) := by
  obtain ⟨hq, hlow, hhigh, rfl⟩ := h
  rcases Nat.lt_or_ge q j with hqj | hjq
  · have hle : half.magnitude (q + 1) ≤ half.magnitude j := magnitude_half_le hqj hj
    split <;> omega
  · have hle := magnitude_half_le hjq (by omega)
    split <;> omega

theorem value_half (n : Nat) : half.value n =
    if n / 0x8000 =
      0 then (half.magnitude (n % 0x8000) : Int) else -half.magnitude (n % 0x8000) := by
  have hexponent : half.exponent n = half.exponent (n % 0x8000) := by
    show n / 1024 % 32 = n % 0x8000 / 1024 % 32
    omega
  have hfraction : half.fraction n = half.fraction (n % 0x8000) := by
    show n % 1024 = n % 0x8000 % 1024
    omega
  rw [value, magnitude, hexponent, hfraction]
  rfl

/-- The middle between the largest half and the magnitude one step behind it is 65520. -/
theorem Picks.overflows_iff (h : Picks x q k) : k = 0x7C00 ↔ 65520 * 2 ^ 149 ≤ x := by
  have hlast : half.magnitude 0x7BFF = 65504 * 2 ^ 149 := by decide
  have hover : half.magnitude 0x7C00 = 65536 * 2 ^ 149 := by decide
  obtain ⟨hq, hlow, hhigh, rfl⟩ := h
  rcases Nat.lt_or_ge q 0x7BFF with hlt | hge
  · have hle : half.magnitude (q + 1) ≤ half.magnitude 0x7BFF := magnitude_half_le hlt (by decide)
    split <;> omega
  · obtain rfl : q = 0x7BFF := by omega
    rw [hlast, hover]
    split <;> omega

theorem toNat_halfBits_of_large {n : UInt32} (he : 143 ≤ single.exponent n.toNat) :
    (halfBits n).toNat = n.toNat / 2 ^ 31 * 0x8000 + 0x7C00 +
      if single.exponent n.toNat = 0xFF then if single.fraction n.toNat =
        0 then 0 else 0x200 else 0 := by
  have hexponent : n.toNat / 2 ^ 23 % 0x100 = single.exponent n.toNat := rfl
  have hfraction : n.toNat % 0x800000 = single.fraction n.toNat := rfl
  have hn := n.toNat_lt
  have hword : ∀ w < 0x10000, w.toUInt32.toNat = w :=
    fun w hw => Nat.mod_eq_of_lt (Nat.lt_trans hw (by decide))
  unfold halfBits
  simp only [Nat.shiftRight_eq_div_pow, hexponent, hfraction, if_pos he]
  split
  next => exact hword _ (by split <;> omega)
  next =>
    rw [Nat.add_zero]
    exact hword _ (by omega)

/-- The half `h` is the single `n`, rounded to the nearest of all finite halves; of two that are as
    near it is the one farther from zero. -/
structure Rounds (n h : Nat) : Prop where
  word : h < 0x10000
  sign : half.sign h = single.sign n
  nan : single.IsNaN n → half.IsNaN h
  infinite : single.IsInfinite n → half.IsInfinite h
  overflow : single.IsFinite n → 65520 * 2 ^ 149 ≤ single.magnitude n → half.IsInfinite h
  finite : single.IsFinite n → single.magnitude n < 65520 * 2 ^ 149 → half.IsFinite h
  nearest : single.IsFinite n → single.magnitude n < 65520 * 2 ^ 149 → ∀ k < 0x10000, half.IsFinite k →
    (single.value n - half.value h).natAbs ≤ (single.value n - half.value k).natAbs ∧
      ((single.value n - half.value h).natAbs = (single.value n - half.value k).natAbs →
        (half.value k).natAbs ≤ (half.value h).natAbs)

theorem rounds_of_picks {n h : Nat} (hsign : n / 2 ^ 31 < 2) (he : single.exponent n ≤ 142)
    (hpicks : Picks (single.magnitude n) q k) (hbits : h = n / 2 ^ 31 * 0x8000 + k) :
    Rounds n h := by
  have hk : k ≤ q + 1 := by
    rw [hpicks.picked]
    split <;> omega
  have hq := hpicks.finite
  have hover := hpicks.overflows_iff
  have hne : single.exponent n ≠ 0xFF := by omega
  refine ⟨by omega, ?_, fun hnan => absurd hnan.1 hne, fun hinf => absurd hinf.1 hne,
    fun _ hx => ?_, fun _ hx => ?_, fun _ hx j hj _ => ?_⟩
  · show h / 0x8000 = n / 2 ^ 31
    omega
  · have hk := hover.mpr hx
    show h / 1024 % 32 = 31 ∧ h % 1024 = 0
    omega
  · have hk : k ≠ 0x7C00 := fun heq => absurd (hover.mp heq) (Nat.not_le.mpr hx)
    show h / 1024 % 32 ≠ 31
    omega
  · -- A half of the other sign is no nearer than the one mirrored at zero, so magnitudes decide.
    have hnearest := hpicks.nearest (j := j % 0x8000) (by omega)
    have hvalue :
        single.value n = if n / 2 ^ 31 =
          0 then (single.magnitude n : Int) else -single.magnitude n := rfl
    have hlow : h % 0x8000 = k := by omega
    have hhigh : h / 0x8000 = n / 2 ^ 31 := by omega
    rw [hvalue, value_half h, value_half j, hlow, hhigh]
    clear hover hbits hpicks
    split <;> split <;> omega

theorem rounds_of_large {n h : Nat} (hsign : n / 2 ^ 31 < 2) (he : 143 ≤ single.exponent n)
    (hbits : h = n / 2 ^ 31 * 0x8000 + 0x7C00 +
      if single.exponent n = 0xFF then if single.fraction n = 0 then 0 else 0x200 else 0) :
    Rounds n h := by
  have hx : 65520 * 2 ^ 149 ≤ single.magnitude n := by
    rw [magnitude, if_neg (by omega)]
    calc 65520 * 2 ^ 149 ≤ 2 ^ 23 * 2 ^ 142 := by decide
      _ ≤ _ := Nat.mul_le_mul (Nat.le_add_left ..) (Nat.pow_le_pow_right (by decide) (by omega))
  refine ⟨?_, ?_, fun hnan => ?_, fun hinf => ?_, fun hfin _ => ?_,
    fun _ hlt => absurd hx (Nat.not_le.mpr hlt), fun _ hlt => absurd hx (Nat.not_le.mpr hlt)⟩
  · split at hbits <;> [split at hbits; skip] <;> omega
  · show h / 0x8000 = n / 2 ^ 31
    split at hbits <;> [split at hbits; skip] <;> omega
  · rw [if_pos (show _ = 0xFF from hnan.1), if_neg hnan.2] at hbits
    show h / 1024 % 32 = 31 ∧ h % 1024 ≠ 0
    omega
  · rw [if_pos (show _ = 0xFF from hinf.1), if_pos hinf.2] at hbits
    show h / 1024 % 32 = 31 ∧ h % 1024 = 0
    omega
  · rw [if_neg (show ¬ _ = 0xFF from hfin)] at hbits
    show h / 1024 % 32 = 31 ∧ h % 1024 = 0
    omega

/-- **Half-precision constants are correctly rounded**, whatever the bits. -/
theorem halfBits_nearest (bits : UInt32) : Rounds bits.toNat (halfBits bits).toNat := by
  have hsign : bits.toNat / 2 ^ 31 < 2 := by
    have hn := bits.toNat_lt
    omega
  rcases Nat.lt_or_ge (single.exponent bits.toNat) 143 with he | he
  · obtain ⟨q, k, hpicks, hbits⟩ := exists_picks bits (Nat.le_of_lt_succ he)
    exact rounds_of_picks hsign (Nat.le_of_lt_succ he) hpicks hbits
  · exact rounds_of_large hsign he (toNat_halfBits_of_large he)

end ShaderIR.Spirv
