import NoteShell.Proofs.Values.Integers
import NoteShell.Proofs.Values.Ranges

/-!
# Rounding integers

An integer that is rounded to a negative number of places becomes a multiple of a power of ten: the
nearest one, and of two that are equally near the even one. A multiple that has 64 bits is given
exactly. No overflow is reported for the others. They become the last integer on their side, or zero
where the power itself has not 64 bits.

## Main definitions

* `IsNearestMultiple` : the nearest multiple of an integer, a half going to the even multiple.

## Main results

* `IsNearestMultiple.unique` : there is only one.
* `isNearestMultiple_rounded` : it is made from a quotient that is rounded to the floor.
* `round_to_powers_of_ten` : what the builtin function gives.
-/

namespace NoteShell.Script

open NoteShell.Grammar NoteShell.Decimal

variable {scale v m m' k j : Int}

/-- `m` is the multiple of `scale` that is nearest to `v`. Where another one is as near, `m` is an
even multiple. -/
structure IsNearestMultiple (scale v m : Int) : Prop where
  multiple : ∃ k, m = k * scale
  nearest : ∀ k, |v - m| ≤ |v - k * scale|
  even : ∀ k, m = k * scale → ∀ j ≠ k, |v - j * scale| = |v - m| → Even k

/-! ### The nearest multiple -/

theorem scale_le_of_lt (hscale : 0 < scale) (h : j < k) : j * scale + scale ≤ k * scale := by
  have hle := mul_le_mul_of_nonneg_right (Int.add_one_le_of_lt h) hscale.le
  rwa [add_mul, one_mul] at hle

/-- A multiple is the nearest one if it is at most half the scale away, and even at exactly the
half. -/
theorem isNearestMultiple_of_half (hscale : 0 < scale) (hhalf : 2 * |v - k * scale| ≤ scale)
    (heven : 2 * |v - k * scale| = scale → Even k) : IsNearestMultiple scale v (k * scale) := by
  -- Any other multiple is at least the scale away from this one, on either side.
  have hother (j : Int) (hj : j ≠ k) : scale ≤ |v - k * scale| + |v - j * scale| := by
    simp only [Int.abs_eq_natAbs]
    rcases lt_or_gt_of_ne hj with hlt | hgt
    · have := scale_le_of_lt hscale hlt
      omega
    · have := scale_le_of_lt hscale hgt
      omega
  refine ⟨⟨k, rfl⟩, fun j => ?_, fun i hi j hj hsame => ?_⟩
  · by_cases hj : j = k
    · rw [hj]
    · have := hother j hj
      omega
  · obtain rfl : k = i := mul_right_cancel₀ hscale.ne' hi
    have := hother j hj
    exact heven (by omega)

/-- There is only one nearest multiple: of two, both would be even, and the one between them
nearer. -/
theorem IsNearestMultiple.unique (hscale : 0 < scale) (h : IsNearestMultiple scale v m)
    (h' : IsNearestMultiple scale v m') : m = m' := by
  have hbetween {i j : Int} (hi : IsNearestMultiple scale v (i * scale))
      (hj : IsNearestMultiple scale v (j * scale)) : ¬ i < j := by
    intro hlt
    have hsame : |v - i * scale| = |v - j * scale| := le_antisymm (hi.nearest j) (hj.nearest i)
    have hi_even := hi.even i rfl j hlt.ne' hsame.symm
    have hj_even := hj.even j rfl i hlt.ne hsame
    have hgap : i + 1 < j := by
      rw [Int.even_iff] at hi_even hj_even
      omega
    have hbelow := scale_le_of_lt hscale hgap
    have hnext : (i + 1) * scale = i * scale + scale := by rw [add_mul, one_mul]
    have hnearer := hi.nearest (i + 1)
    simp only [Int.abs_eq_natAbs] at hsame hnearer
    omega
  obtain ⟨i, rfl⟩ := h.multiple
  obtain ⟨j, rfl⟩ := h'.multiple
  rcases lt_trichotomy i j with hlt | rfl | hgt
  · exact absurd hlt (hbetween h h')
  · rfl
  · exact absurd hgt (hbetween h' h)

/-- The nearest multiple, from the quotient that is rounded to the floor and what it leaves. -/
theorem isNearestMultiple_rounded (hscale : 0 < scale) (v : Int) :
    IsNearestMultiple scale v
      ((if scale < 2 * (v % scale) then v / scale + 1
        else if 2 * (v % scale) = scale ∧ v / scale % 2 ≠ 0 then v / scale + 1
        else v / scale) * scale) := by
  have hdivision : v / scale * scale + v % scale = v := Int.ediv_mul_add_emod v scale
  have hlow := Int.emod_nonneg v hscale.ne'
  have hhigh := Int.emod_lt_of_pos v hscale
  have hnext : (v / scale + 1) * scale = v / scale * scale + scale := by rw [add_mul, one_mul]
  split_ifs with habove htie
  · refine isNearestMultiple_of_half hscale ?_ fun hhalf => ?_
    · rw [Int.abs_eq_natAbs]
      omega
    · rw [Int.abs_eq_natAbs] at hhalf
      omega
  · refine isNearestMultiple_of_half hscale ?_ fun _ => ?_
    · rw [Int.abs_eq_natAbs]
      omega
    · rw [Int.even_iff]
      omega
  · refine isNearestMultiple_of_half hscale ?_ fun hhalf => ?_
    · rw [Int.abs_eq_natAbs]
      omega
    · rw [Int.abs_eq_natAbs] at hhalf
      rw [Int.even_iff]
      omega

/-! ### The builtin function -/

/-- Up to a scale of 10^18 the nearest multiple is taken, or the last integer on its side. -/
theorem toInt_roundInt (x : Int64) {digits : Nat} (hdigits : digits ≤ 18) :
    ∃ m, IsNearestMultiple (10 ^ digits) x.toInt m ∧
      (roundInt x digits).toInt = max leastInt64 (min m greatestInt64) := by
  have hscale : ((Nat.pow 10 digits : Nat) : Int) = 10 ^ digits := by
    change ((10 ^ digits : Nat) : Int) = _
    push_cast
    rfl
  refine ⟨_, isNearestMultiple_rounded (by positivity) x.toInt, ?_⟩
  rw [roundInt, if_neg (by omega), Range.toInt_nearestInt64, hscale]

theorem callBuiltin_round (env : Env) (x n : Int64) (hn : 1 ≤ n.toInt) (w : World) :
    callBuiltin env .round ⟨[.int x, .int (-n)], []⟩ w =
      (.ok (.int (roundInt x n.toInt.toNat)), w) := by
  have hneg : (-n).toInt = -n.toInt := by
    have := n.toInt_lt
    rw [Int64.toInt_neg, Int.bmod_eq_of_le (by omega) (by omega)]
  have hround : roundNumber (.int x) (some (-n)) = .ok (.int (roundInt x n.toInt.toNat)) := by
    have hplaces : (-n.toInt).natAbs = n.toInt.toNat := by omega
    change (if (-n).toInt < 0 then _ else _) = _
    rw [hneg, if_pos (by omega), hplaces]
  have hcall : callPureBuiltin env.sorter .round ⟨[.int x, .int (-n)], []⟩ w.heap =
      ((roundNumber (.int x) (some (-n))).mapError .error, w.heap) :=
    HeapM.result_apply _ w.heap
  rw [hround] at hcall
  exact Work.onHeap_of_eq hcall

/-- An integer that is rounded to tens, hundreds and so on becomes the nearest multiple, the even
one of two, whenever that has 64 bits. Otherwise it becomes the last integer on the side of the
multiple, or zero where the power of ten has not 64 bits. An overflow is never reported. -/
theorem round_to_powers_of_ten (env : Env) (x n : Int64) (hn : 1 ≤ n.toInt) :
    ∃ m, IsNearestMultiple (10 ^ n.toInt.toNat) x.toInt m ∧
      (∀ m', IsNearestMultiple (10 ^ n.toInt.toNat) x.toInt m' → m' = m) ∧
      ∃ z : Int64, (∀ w, callBuiltin env .round ⟨[.int x, .int (-n)], []⟩ w = (.ok (.int z), w)) ∧
        (IsWord m → z.toInt = m) ∧
        (¬ IsWord m → z.toInt = if n.toInt ≤ 18 then max leastInt64 (min m greatestInt64) else 0) := by
  have hscale : (0 : Int) < 10 ^ n.toInt.toNat := by positivity
  obtain ⟨m, hm, hbelow⟩ : ∃ m, IsNearestMultiple (10 ^ n.toInt.toNat) x.toInt m ∧
      (n.toInt ≤ 18 → (roundInt x n.toInt.toNat).toInt = max leastInt64 (min m greatestInt64)) := by
    by_cases hdigits : n.toInt ≤ 18
    · obtain ⟨m, hm, hround⟩ := toInt_roundInt x (show n.toInt.toNat ≤ 18 by omega)
      exact ⟨m, hm, fun _ => hround⟩
    · exact ⟨_, isNearestMultiple_rounded hscale x.toInt, fun h => absurd h hdigits⟩
  have habove (hdigits : ¬ n.toInt ≤ 18) : (roundInt x n.toInt.toNat).toInt = 0 := by
    rw [roundInt, if_pos (by omega)]
    rfl
  refine ⟨m, hm, fun m' hm' => hm'.unique hscale hm, roundInt x n.toInt.toNat,
    callBuiltin_round env x n hn, fun hword => ?_, fun _ => ?_⟩
  · by_cases hdigits : n.toInt ≤ 18
    · rw [hbelow hdigits, min_eq_left hword.2, max_eq_right hword.1]
    · -- Zero is the only multiple of such a power that has 64 bits.
      rw [habove hdigits]
      obtain ⟨k, rfl⟩ := hm.multiple
      have hpower : (10 : Int) ^ 19 ≤ 10 ^ n.toInt.toNat :=
        pow_le_pow_right₀ (by decide) (by omega)
      have habs := natAbs_le_of_isWord hword
      rw [Int.natAbs_mul] at habs
      have hk : k.natAbs = 0 := by
        by_contra hne
        have hfactor := Nat.le_mul_of_pos_left (10 ^ n.toInt.toNat : Int).natAbs
            (Nat.pos_of_ne_zero hne)
        omega
      rw [Int.natAbs_eq_zero.mp hk, zero_mul]
  · split_ifs with hdigits
    · exact hbelow hdigits
    · exact habove hdigits

/-- A half below zero goes to the even multiple, which is nearer to zero here. The greatest integer
is rounded to the largest power of ten that a word holds. -/
theorem round_to_powers_of_ten_half :
    let env : Env := ⟨.empty [], .empty, 0, .merging⟩
    let w : World := ⟨.empty, .ofFiles .empty⟩
    (1 ≤ (1 : Int64).toInt ∧ callBuiltin env .round ⟨[.int (-25), .int (-1)], []⟩ w =
      (.ok (.int (-20)), w)) ∧
      1 ≤ (18 : Int64).toInt ∧
      callBuiltin env .round ⟨[.int 9223372036854775807, .int (-18)], []⟩ w =
        (.ok (.int 9000000000000000000), w) := by
  intro env w
  obtain ⟨m, -, hm, z, hround, hword, -⟩ := round_to_powers_of_ten env (-25) 1 (by decide)
  obtain ⟨m', -, hm', z', hround', hword', -⟩ :=
    round_to_powers_of_ten env 9223372036854775807 18 (by decide)
  have hm : -20 = m := hm _
      (isNearestMultiple_of_half (k := -2) (by decide) (by decide) fun _ => by decide)
  have hm' : 9000000000000000000 = m' :=
    hm' _ (isNearestMultiple_of_half (k := 9) (by decide) (by decide) fun h => absurd h (by decide))
  subst hm hm'
  refine ⟨⟨by decide, ?_⟩, by decide, ?_⟩
  · have hz : z = -20 := Int64.toInt_inj.mp ((hword (by decide)).trans (by decide))
    rw [← hz]
    exact hround w
  · have hz : z' = 9000000000000000000 :=
      Int64.toInt_inj.mp ((hword' (by decide)).trans (by decide))
    rw [← hz]
    exact hround' w

/-- Multiples that have not 64 bits are not reported: the greatest integer is left as it is when it
is rounded to tens, and rounded to a power of ten that is too large it is zero, which is not the
nearest multiple. -/
theorem round_past_the_end :
    let env : Env := ⟨.empty [], .empty, 0, .merging⟩
    let w : World := ⟨.empty, .ofFiles .empty⟩
    (IsNearestMultiple (10 ^ 1) 9223372036854775807 9223372036854775810 ∧
      ¬ IsWord 9223372036854775810 ∧
      callBuiltin env .round ⟨[.int 9223372036854775807, .int (-1)], []⟩ w =
        (.ok (.int 9223372036854775807), w)) ∧
    IsNearestMultiple (10 ^ 19) 9223372036854775807 10000000000000000000 ∧
      ¬ IsWord 10000000000000000000 ∧
      callBuiltin env .round ⟨[.int 9223372036854775807, .int (-19)], []⟩ w =
        (.ok (.int 0), w) := by
  intro env w
  refine ⟨⟨?tens, by decide, ?last⟩, ?power, by decide, ?zero⟩
  case tens =>
    exact isNearestMultiple_of_half (k := 922337203685477581) (by decide) (by decide)
      fun h => absurd h (by decide)
  case last => exact callBuiltin_round env 9223372036854775807 1 (by decide) w
  case power =>
    exact isNearestMultiple_of_half (k := 1) (by decide) (by decide) fun h => absurd h (by decide)
  case zero => exact callBuiltin_round env 9223372036854775807 19 (by decide) w

end NoteShell.Script
