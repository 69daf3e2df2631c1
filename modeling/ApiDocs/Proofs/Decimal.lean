import ApiDocs.Decimal
import Mathlib.Data.Int.Log
import Mathlib.Data.Rat.Floor
import Mathlib.Tactic.Positivity
import Mathlib.Tactic.Ring
/-!
# Decimals that stand for doubles

The decimal that is kept for a number rounds to the same double as the number, so it is kept as
itself. Rounding only depends on the value: zeros after the point change nothing.
-/
namespace ApiDocs

/-! ## Rounding -/

/-- A common factor does not change a rounded quotient. -/
theorem roundDiv_mul (num den : Nat) {c : Nat} (hc : 0 < c) :
    roundDiv (num * c) (den * c) = roundDiv num den := by
  have hlt : ∀ a b : Nat, a * c < b * c ↔ a < b := fun a b => Nat.mul_lt_mul_right hc
  unfold roundDiv
  simp only [Nat.mul_div_mul_right _ _ hc, Nat.mul_mod_mul_right, ← Nat.mul_assoc, hlt]

theorem scaled_pos {n base : Nat} (hb : 0 < base) (e : Int) : 0 < (scaled n base e).2 := by
  unfold scaled
  split
  · exact Nat.one_pos
  · exact Nat.pow_pos hb

/-- What a scaled number is. -/
theorem scaled_value (n base : Nat) (e : Int) :
    ((scaled n base e).1 : ℚ) / (scaled n base e).2 = n * (base : ℚ) ^ e := by
  unfold scaled
  split
  case isTrue h =>
    obtain ⟨k, rfl⟩ := Int.eq_ofNat_of_zero_le h
    simp
  case isFalse h =>
    obtain ⟨k, rfl⟩ : ∃ k : Nat, e = -(k : Int) := ⟨(-e).toNat, by omega⟩
    simp [div_eq_mul_inv]

namespace Binary

/-- The difference of the lengths of two numbers is the whole part of the logarithm of their fraction, or
one too many. -/
theorem log_bounds {num den : Nat} (hn : 0 < num) (hd : 0 < den) :
    (num.log2 : Int) - den.log2 - 1 ≤ Int.log 2 ((num : ℚ) / den) ∧
      Int.log 2 ((num : ℚ) / den) < (num.log2 : Int) - den.log2 + 1 := by
  have hr : (0 : ℚ) < (num : ℚ) / den := by positivity
  have hlog : ∀ n : Nat, 0 < n → (2 : ℚ) ^ n.log2 ≤ n ∧ (n : ℚ) < 2 ^ (n.log2 + 1) := fun n h =>
    ⟨by exact_mod_cast Nat.log2_self_le (Nat.pos_iff_ne_zero.1 h), by exact_mod_cast Nat.lt_log2_self⟩
  obtain ⟨hnum, hnum'⟩ := hlog num hn
  obtain ⟨hden, hden'⟩ := hlog den hd
  have hpow : ∀ e : Int, (0 : ℚ) ≤ 2 ^ e := fun e => zpow_nonneg (by norm_num) e
  let k : Int := (num.log2 : Int) - den.log2
  have hlow : (2 : ℚ) ^ (k - 1) ≤ (num : ℚ) / den := by
    rw [le_div_iff₀ (by positivity)]
    calc (2 : ℚ) ^ (k - 1) * den ≤ 2 ^ (k - 1) * 2 ^ (den.log2 + 1) := mul_le_mul_of_nonneg_left hden'.le (hpow _)
      _ = 2 ^ num.log2 := by
        rw [← zpow_natCast, ← zpow_natCast, ← zpow_add₀ (by norm_num)]
        congr 1
        push_cast
        omega
      _ ≤ num := hnum
  have hhigh : (num : ℚ) / den < (2 : ℚ) ^ (k + 1) := by
    rw [div_lt_iff₀ (by positivity)]
    calc (num : ℚ) < 2 ^ (num.log2 + 1) := hnum'
      _ = 2 ^ (k + 1) * 2 ^ den.log2 := by
        rw [← zpow_natCast, ← zpow_natCast, ← zpow_add₀ (by norm_num)]
        congr 1
        push_cast
        omega
      _ ≤ 2 ^ (k + 1) * den := mul_le_mul_of_nonneg_left hden (hpow _)
  have hge : k - 1 ≤ Int.log 2 ((num : ℚ) / den) :=
    (Int.zpow_le_iff_le_log (by norm_num) hr).1 (by exact_mod_cast hlow)
  have hle : Int.log 2 ((num : ℚ) / den) < k + 1 :=
    (Int.lt_zpow_iff_log_lt (by norm_num) hr).1 (by exact_mod_cast hhigh)
  exact ⟨hge, hle⟩

/-- The magnitude of a fraction is the whole part of its binary logarithm. -/
theorem magnitude_eq {num den : Nat} (hn : 0 < num) (hd : 0 < den) :
    magnitude num den = Int.log 2 ((num : ℚ) / den) := by
  have hr : (0 : ℚ) < (num : ℚ) / den := by positivity
  obtain ⟨hge, hle⟩ := log_bounds hn hd
  let k : Int := (num.log2 : Int) - den.log2
  -- The comparison with the power decides which of the two it is.
  have hone : (0 : ℚ) < (scaled 1 2 k).2 := by exact_mod_cast scaled_pos (by norm_num) k
  have hcmp : num * (scaled 1 2 k).2 < den * (scaled 1 2 k).1 ↔ Int.log 2 ((num : ℚ) / den) < k := by
    rw [← Int.lt_zpow_iff_log_lt (by norm_num) hr]
    have hv := scaled_value 1 2 k
    rw [Nat.cast_one, one_mul] at hv
    rw [← hv, div_lt_div_iff₀ (by positivity) hone, ← Nat.cast_lt (α := ℚ)]
    push_cast
    rw [mul_comm (den : ℚ)]
  have hm : magnitude num den = if num * (scaled 1 2 k).2 < den * (scaled 1 2 k).1 then k - 1 else k := rfl
  rw [hm]
  split
  case isTrue h =>
    have := hcmp.1 h
    omega
  case isFalse h =>
    have := mt hcmp.2 h
    omega

/-- A common factor does not change the nearest double of a fraction. -/
theorem nearestFraction_mul {num den : Nat} (hd : 0 < den) {c : Nat} (hc : 0 < c) :
    nearestFraction (num * c) (den * c) = nearestFraction num den := by
  rcases Nat.eq_zero_or_pos num with rfl | hn
  · simp [nearestFraction]
  · have hm : magnitude (num * c) (den * c) = magnitude num den := by
      rw [magnitude_eq (Nat.mul_pos hn hc) (Nat.mul_pos hd hc), magnitude_eq hn hd]
      push_cast
      rw [mul_div_mul_right _ _ (by positivity)]
    have hn' : num * c ≠ 0 := Nat.pos_iff_ne_zero.1 (Nat.mul_pos hn hc)
    simp only [nearestFraction, hm, hn', Nat.pos_iff_ne_zero.1 hn, if_false, Nat.mul_right_comm _ c,
      roundDiv_mul _ _ hc]

theorem digitCount_mul_ten {d : Nat} (hd : 0 < d) (k : Nat) : digitCount (d * 10 ^ k) = digitCount d + k := by
  induction k with
  | zero => simp
  | succ k ih =>
    have happ := Nat.toDigits_append_toDigits (b := 10) (n := d * 10 ^ k) (d := 0) (by norm_num)
      (by positivity) (by norm_num)
    have hmul : d * 10 ^ (k + 1) = 10 * (d * 10 ^ k) + 0 := by ring
    rw [digitCount, hmul, ← happ, List.length_append, ← digitCount, ih]
    rfl

/-- Zeros, one of them behind the point, do not change the nearest double of a whole number. -/
theorem nearest_mul_ten {d : Nat} (hd : 0 < d) (k : Nat) : nearest (d * 10 ^ (k + 1)) (-1) = nearest d k := by
  have hne : d * 10 ^ (k + 1) ≠ 0 := Nat.pos_iff_ne_zero.1 (by positivity)
  have htop : (-1 : Int) + digitCount (d * 10 ^ (k + 1)) = (k : Int) + digitCount d := by
    rw [digitCount_mul_ten hd]
    push_cast
    omega
  have hleft : scaled (d * 10 ^ (k + 1)) 10 (-1) = (d * 10 ^ k * 10, 1 * 10) :=
    Prod.ext (by simp [scaled, pow_succ, Nat.mul_assoc]) (by simp [scaled])
  have hright : scaled d 10 k = (d * 10 ^ k, 1) := by simp [scaled]
  unfold nearest
  rw [if_neg hne, if_neg (Nat.pos_iff_ne_zero.1 hd), htop, hleft, hright]
  simp only [nearestFraction_mul Nat.one_pos (show 0 < 10 by norm_num)]

/-! ## Shortest decimals -/

theorem nearest_of_onGrid {b : Binary} {e : Int} {d : Nat} (h : onGrid? b e = some d) :
    d ≠ 0 ∧ nearest d e = some b := by
  have hmem : ∀ d ∈ readingBack b e, d ≠ 0 ∧ nearest d e = some b := fun d hd => by
    simpa using (List.mem_filter.1 hd).2
  refine hmem d ?_
  unfold onGrid? at h
  split at h
  case h_1 d₁ d₂ hr =>
    rw [hr]
    simp only [Option.some.injEq] at h
    -- Whichever neighbour is taken, it is one of the two.
    split_ifs at h <;> simp [h]
  case h_2 d₁ hr =>
    cases h
    simp [hr]
  case h_3 => cases h

theorem nearest_of_searchGrids {b : Binary} {d : Nat} {e' : Int} :
    ∀ {steps : Nat} {e : Int}, searchGrids b e steps = some (d, e') → d ≠ 0 ∧ nearest d e' = some b := by
  intro steps
  induction steps with
  | zero => intro e h; cases h
  | succ steps ih =>
    intro e h
    unfold searchGrids at h
    cases hg : onGrid? b e with
    | some d₁ =>
      simp only [hg, Option.some.injEq, Prod.mk.injEq] at h
      obtain ⟨rfl, rfl⟩ := h
      exact nearest_of_onGrid hg
    | none =>
      rw [hg] at h
      exact ih h

/-- The shortest decimal of a double is zero, or rounds to it. -/
theorem shortest_cases (b : Binary) :
    b.shortest = (0, 0) ∨ b.shortest.1 ≠ 0 ∧ nearest b.shortest.1 b.shortest.2 = some b := by
  unfold shortest
  split
  · exact .inl rfl
  · cases h : searchGrids b (topGrid b) 20 with
    | none => exact .inl rfl
    | some p =>
      obtain ⟨d, e'⟩ := p
      exact .inr (nearest_of_searchGrids h)

end Binary

namespace Decimal

/-- Whether some number is kept as the decimal. -/
def IsKept (x : Decimal) : Prop :=
  ∃ digits exponent, ofParts? x.negative digits exponent = some x

theorem isKept_of_ofParts? {negative : Bool} {digits : Nat} {exponent : Int} {x : Decimal}
    (h : ofParts? negative digits exponent = some x) : x.IsKept := by
  obtain ⟨b, -, rfl⟩ := Option.map_eq_some_iff.1 h
  exact ⟨digits, exponent, h⟩

theorem ofParts?_zero (negative : Bool) (exponent : Int) :
    ofParts? negative 0 exponent = some ⟨negative, 0, 0⟩ := by
  simp [ofParts?, Binary.nearest, Binary.shortest]

variable {x : Decimal}

theorem IsKept.shortest (h : x.IsKept) : ∃ b : Binary, b.shortest = (x.digits, x.exponent) := by
  obtain ⟨digits, exponent, h⟩ := h
  obtain ⟨b, -, hx⟩ := Option.map_eq_some_iff.1 h
  exact ⟨b, by rw [← hx]⟩

/-- A kept zero has no exponent. -/
theorem IsKept.exponent_eq_zero (h : x.IsKept) (hz : x.digits = 0) : x.exponent = 0 := by
  obtain ⟨b, hb⟩ := h.shortest
  rcases b.shortest_cases with he | ⟨hne, -⟩
  · rw [hb] at he
    exact congrArg Prod.snd he
  · rw [hb] at hne
    exact absurd hz hne

/-- A kept decimal is kept as itself. -/
theorem IsKept.ofParts?_self (h : x.IsKept) : ofParts? x.negative x.digits x.exponent = some x := by
  obtain ⟨b, hb⟩ := h.shortest
  obtain ⟨negative, digits, exponent⟩ := x
  rcases b.shortest_cases with he | ⟨-, hn⟩
  · rw [hb, Prod.mk.injEq] at he
    obtain ⟨rfl, rfl⟩ := he
    exact ofParts?_zero _ _
  · rw [hb] at hn
    simp only [ofParts?, hn, hb, Option.map_some]

/-- So it is with zeros behind it, up to one behind the point. -/
theorem IsKept.ofParts?_mul_ten (h : x.IsKept) (hp : 0 < x.digits) {k : Nat} (hk : x.exponent = k) :
    ofParts? x.negative (x.digits * 10 ^ (k + 1)) (-1) = some x := by
  rw [ofParts?, Binary.nearest_mul_ten hp, ← hk]
  exact h.ofParts?_self

end Decimal

end ApiDocs
