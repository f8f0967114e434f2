import Mathlib.Data.Rat.Floor
import Mathlib.Tactic.Linarith
import NoteShell.Proofs.Execution.Run
import NoteShell.Script.Builtins

/-!
# Exact arithmetic on integers

An operation on integers gives the integer of mathematics where that has 64 bits, and reports an
overflow where it does not. Quotients and remainders are made from those that round towards zero, by
a correction that never overflows itself. A power is a product of repeated squares, each of which
has to have 64 bits: a square that is computed is a factor of the power, so one that is too large
makes the power too large.

## Main definitions

* `IsWord` : an integer has 64 bits.
* `GivesExactly` : an action gives an integer exactly, or reports that it overflows.

## Main results

* `floorQuotient_eq`, `toInt_floorRemainder` : quotients are rounded to the floor.
* `intPower_eq` : a power overflows just where the power of mathematics does.
* `arithmetic_exact` : all operators on integers.
-/

namespace NoteShell.Script

open NoteShell.Grammar NoteShell.Decimal

variable {a b : Value} {x y acc base : Int64} {i j q r : Int} {n : Nat} {w : World}

/-- An integer has 64 bits. -/
def IsWord (i : Int) : Prop := leastInt64 ≤ i ∧ i ≤ greatestInt64

/-- An action gives an integer, or reports an overflow if the integer has not 64 bits. It leaves the
world alone. -/
structure GivesExactly (action : Work Value) (i : Int) : Prop where
  ok : IsWord i → ∀ w, ∃ z : Int64, z.toInt = i ∧ action w = (.ok (.int z), w)
  overflow : ¬ IsWord i → ∀ w, action w = (.error (.error (.overflow .integer)), w)

instance (i : Int) : Decidable (IsWord i) := inferInstanceAs (Decidable (_ ∧ _))

/-! ### Integers of 64 bits -/

theorem isWord_iff : IsWord i ↔ -9223372036854775808 ≤ i ∧ i ≤ 9223372036854775807 := Iff.rfl

theorem isWord_toInt (x : Int64) : IsWord x.toInt := by
  have hlow := x.le_toInt
  have hhigh := x.toInt_lt
  rw [isWord_iff]
  omega

theorem toInt_ofInt_of_isWord (hi : IsWord i) : (Int64.ofInt i).toInt = i := by
  rw [isWord_iff] at hi
  exact Int64.toInt_ofInt_of_le (by omega) (by omega)

theorem natAbs_le_of_isWord (hi : IsWord i) : i.natAbs ≤ 9223372036854775808 := by
  rw [isWord_iff] at hi
  omega

theorem le_natAbs_of_not_isWord (hi : ¬ IsWord i) : 9223372036854775808 ≤ i.natAbs := by
  rw [isWord_iff] at hi
  omega

theorem checkedInt_of_isWord (hi : IsWord i) : checkedInt i = .ok (Int64.ofInt i) := by
  have hword : int64? i = some (Int64.ofInt i) := if_pos hi
  rw [checkedInt, hword]

theorem checkedInt_of_not_isWord (hi : ¬ IsWord i) :
    checkedInt i = .error (.overflow .integer) := by
  have hword : int64? i = none := if_neg hi
  rw [checkedInt, hword]

@[simp] theorem checkedInt_toInt (x : Int64) : checkedInt x.toInt = .ok x := by
  rw [checkedInt_of_isWord (isWord_toInt x), Int64.ofInt_toInt]

/-! ### Quotients and remainders -/

/-- A quotient is rounded to the floor if its remainder lies between zero and the divisor. -/
theorem floor_div_eq (hi : j * q + r = i) (hr : 0 ≤ r ∧ r < j ∨ j < r ∧ r ≤ 0) :
    ⌊(i : ℚ) / j⌋ = q := by
  have hj : (j : ℚ) ≠ 0 := by
    rw [Int.cast_ne_zero]
    omega
  have hquotient : (i : ℚ) / j = q + r / j := by
    rw [← hi]
    push_cast
    field_simp
  rw [hquotient, Int.floor_eq_iff]
  suffices h : 0 ≤ (r : ℚ) / j ∧ (r : ℚ) / j < 1 from ⟨by linarith, by linarith⟩
  rcases hr with ⟨hr0, hrj⟩ | ⟨hjr, hr0⟩
  · have hpos : (0 : ℚ) < j := Int.cast_pos.mpr (by omega)
    exact ⟨div_nonneg (Int.cast_nonneg hr0) hpos.le, (div_lt_one hpos).mpr (Int.cast_lt.mpr hrj)⟩
  · have hneg : (j : ℚ) < 0 := Int.cast_lt_zero.mpr (by omega)
    exact ⟨div_nonneg_of_nonpos (Int.cast_nonpos.mpr hr0) hneg.le,
      (div_lt_one_of_neg hneg).mpr (Int.cast_lt.mpr hjr)⟩

/-- The remainder of a quotient rounded towards zero is smaller than the divisor, and it is not on
the other side of zero than the dividend. -/
theorem tmod_bounds (i : Int) (hj : j ≠ 0) :
    (i.tmod j).natAbs < j.natAbs ∧ (0 ≤ i → 0 ≤ i.tmod j) ∧ (i ≤ 0 → i.tmod j ≤ 0) := by
  refine ⟨?_, fun hi => Int.tmod_nonneg j hi, fun hi => ?_⟩
  · rw [Int.natAbs_tmod]
    exact Nat.mod_lt _ (Int.natAbs_pos.mpr hj)
  · have hneg := Int.tmod_nonneg j (Int.neg_nonneg_of_nonpos hi)
    rw [Int.neg_tmod] at hneg
    omega

/-- A quotient that is rounded towards zero is the floor, or one greater if its remainder and the
divisor have different signs. -/
theorem floor_div_eq_tdiv (i : Int) (hj : j ≠ 0) :
    ⌊(i : ℚ) / j⌋ =
      if i.tmod j ≠ 0 ∧ ¬ (i.tmod j < 0 ↔ j < 0) then i.tdiv j - 1 else i.tdiv j := by
  have hdivision := Int.mul_tdiv_add_tmod i j
  have hbounds := (tmod_bounds i hj).1
  split_ifs with h
  · refine floor_div_eq (r := i.tmod j + j) ?_ (by omega)
    rw [Int.mul_sub]
    omega
  · exact floor_div_eq hdivision (by omega)

theorem signs_differ_iff (x y : Int64) :
    decide (x < 0) ≠ decide (y < 0) ↔ ¬ (x.toInt < 0 ↔ y.toInt < 0) := by
  rw [Ne, decide_eq_decide, Int64.lt_iff_toInt_lt, Int64.lt_iff_toInt_lt]
  rfl

theorem mod_ne_zero_iff (x y : Int64) : x % y ≠ 0 ↔ x.toInt.tmod y.toInt ≠ 0 := by
  rw [Ne, ← Int64.toInt_inj, Int64.toInt_mod]
  rfl

/-- Where a quotient is corrected it is not near the ends of the 64 bits. -/
theorem isWord_tdiv_sub_one (x : Int64) (hj : j ≠ 0) (hr : x.toInt.tmod j ≠ 0) :
    IsWord (x.toInt.tdiv j) ∧ IsWord (x.toInt.tdiv j - 1) := by
  have hj : 2 ≤ j.natAbs := by
    have := (tmod_bounds x.toInt hj).1
    omega
  have hhalf : (x.toInt.tdiv j).natAbs ≤ x.toInt.natAbs / 2 := by
    rw [Int.natAbs_tdiv]
    exact Nat.div_le_div_left hj (by decide)
  have hx := natAbs_le_of_isWord (isWord_toInt x)
  simp only [isWord_iff]
  omega

/-- The corrected quotient is the floor. The correction does not overflow. -/
theorem floorQuotient_eq (x : Int64) (hy : y.toInt ≠ 0) :
    floorQuotient x y = checkedInt ⌊(x.toInt : ℚ) / y.toInt⌋ := by
  obtain ⟨-, hnonneg, hnonpos⟩ := tmod_bounds x.toInt hy
  -- A remainder that is not zero has the sign of the dividend.
  have hcorrects : (x % y ≠ 0 ∧ decide (x < 0) ≠ decide (y < 0)) ↔
      x.toInt.tmod y.toInt ≠ 0 ∧ ¬ (x.toInt.tmod y.toInt < 0 ↔ y.toInt < 0) := by
    rw [mod_ne_zero_iff, signs_differ_iff]
    omega
  rw [floor_div_eq_tdiv x.toInt hy]
  simp only [floorQuotient, hcorrects]
  split_ifs with h
  · obtain ⟨hquotient, hcorrected⟩ := isWord_tdiv_sub_one x hy h.1
    rw [checkedInt_of_isWord hquotient, checkedInt_of_isWord hcorrected, Int64.ofInt_sub]
    rfl
  · exact bind_pure _

/-- The corrected remainder is what the floor leaves. It is smaller than the divisor and has its
sign. -/
theorem toInt_floorRemainder (x : Int64) (hy : y.toInt ≠ 0) :
    (floorRemainder x y).toInt = x.toInt - y.toInt * ⌊(x.toInt : ℚ) / y.toInt⌋ ∧
      (0 ≤ (floorRemainder x y).toInt ∧ (floorRemainder x y).toInt < y.toInt ∨
        y.toInt < (floorRemainder x y).toInt ∧ (floorRemainder x y).toInt ≤ 0) := by
  have hdivision := Int.mul_tdiv_add_tmod x.toInt y.toInt
  have hbounds := (tmod_bounds x.toInt hy).1
  have hlow := y.le_toInt
  have hhigh := y.toInt_lt
  rw [floor_div_eq_tdiv x.toInt hy]
  simp only [floorRemainder, mod_ne_zero_iff, signs_differ_iff, Int64.toInt_mod]
  split_ifs with h
  · rw [Int64.toInt_add, Int64.toInt_mod, Int.bmod_eq_of_le (by omega) (by omega), Int.mul_sub]
    omega
  · rw [Int64.toInt_mod]
    omega

/-! ### Powers -/

/-- An integer that overflows still does after a multiplication by a power of a number other than 0,
1 and -1. -/
theorem not_isWord_mul_pow (hi : ¬ IsWord i) (hj : 2 ≤ j.natAbs) (n : Nat) :
    ¬ IsWord (i * j ^ n) := by
  cases n with
  | zero => rwa [pow_zero, mul_one]
  | succ n =>
    intro hword
    have hpower : 2 ≤ (j ^ (n + 1)).natAbs := by
      rw [Int.natAbs_pow]
      exact hj.trans (Nat.le_self_pow n.succ_ne_zero _)
    have hproduct := Nat.mul_le_mul (le_natAbs_of_not_isWord hi) hpower
    rw [← Int.natAbs_mul] at hproduct
    have := natAbs_le_of_isWord hword
    omega

/-- A square that overflows is beyond both ends of the 64 bits, since neither is one away from a
square. -/
theorem lt_natAbs_square (hi : ¬ IsWord (i * i)) : 9223372036854775808 < (i * i).natAbs := by
  refine lt_of_le_of_ne (le_natAbs_of_not_isWord hi) fun heq => ?_
  rw [Int.natAbs_mul] at heq
  rcases Nat.lt_or_ge i.natAbs 3037000500 with hlt | hge
  · have := Nat.mul_le_mul (Nat.le_of_lt_succ hlt) (Nat.le_of_lt_succ hlt)
    omega
  · have := Nat.mul_le_mul hge hge
    omega

/-- A product with a square that overflows does so, too. -/
theorem not_isWord_mul_square (hi : i ≠ 0) (hj : ¬ IsWord (j * j)) : ¬ IsWord (i * (j * j)) := by
  intro hword
  have hproduct := Nat.le_mul_of_pos_left (j * j).natAbs (Int.natAbs_pos.mpr hi)
  rw [← Int.natAbs_mul] at hproduct
  have := natAbs_le_of_isWord hword
  have := lt_natAbs_square hj
  omega

/-- One step of the squaring: the product takes up the base if the exponent is odd. -/
theorem checkedPower_step (acc base : Int64) (n : Nat) :
    checkedPower acc base n =
      checkedInt (acc.toInt * base.toInt ^ (n % 2)) >>= fun acc =>
        if n ≤ 1 then .ok acc
        else checkedInt (base.toInt * base.toInt) >>= fun square =>
          checkedPower acc square (n / 2) := by
  rw [checkedPower]
  by_cases hodd : n % 2 = 1
  · rw [if_pos hodd, hodd, pow_one]
    rfl
  · rw [if_neg hodd, Nat.mod_two_ne_one.mp hodd, pow_zero, mul_one, checkedInt_toInt]
    rfl

/-- Repeated squaring overflows just where the product does, since all that is computed on the way
are factors of the product. -/
theorem checkedPower_eq (hacc : acc.toInt ≠ 0) (hbase : 2 ≤ base.toInt.natAbs) :
    checkedPower acc base n = checkedInt (acc.toInt * base.toInt ^ n) := by
  induction n using Nat.strong_induction_on generalizing acc base with
  | _ n ih =>
    have hsplit : acc.toInt * base.toInt ^ n =
        acc.toInt * base.toInt ^ (n % 2) * (base.toInt * base.toInt) ^ (n / 2) := by
      rw [← sq, ← pow_mul, mul_assoc, ← pow_add, Nat.mod_add_div]
    have hsquare : 2 ≤ (base.toInt * base.toInt).natAbs := by
      rw [Int.natAbs_mul]
      exact hbase.trans (Nat.le_mul_of_pos_left _ (by omega))
    have hfactor : acc.toInt * base.toInt ^ (n % 2) ≠ 0 :=
      mul_ne_zero hacc (pow_ne_zero _ (by omega))
    rw [checkedPower_step, hsplit]
    by_cases hword : IsWord (acc.toInt * base.toInt ^ (n % 2))
    · rw [checkedInt_of_isWord hword]
      change (if n ≤ 1 then _ else _) = _
      split_ifs with hn
      · rw [Nat.div_eq_of_lt (by omega), pow_zero, mul_one, checkedInt_of_isWord hword]
      · by_cases hword' : IsWord (base.toInt * base.toInt)
        · rw [checkedInt_of_isWord hword']
          change checkedPower _ _ _ = _
          rw [ih (n / 2) (by omega), toInt_ofInt_of_isWord hword, toInt_ofInt_of_isWord hword']
          · rwa [toInt_ofInt_of_isWord hword]
          · rwa [toInt_ofInt_of_isWord hword']
        · obtain ⟨k, hk⟩ : ∃ k, n / 2 = k + 1 := ⟨n / 2 - 1, by omega⟩
          have hoverflow := not_isWord_mul_pow (not_isWord_mul_square hfactor hword') hsquare k
          rw [mul_assoc, ← pow_succ'] at hoverflow
          rw [hk, checkedInt_of_not_isWord hword', checkedInt_of_not_isWord hoverflow]
          rfl
    · rw [checkedInt_of_not_isWord hword,
        checkedInt_of_not_isWord (not_isWord_mul_pow hword hsquare _)]
      rfl

/-- A power overflows just where the power of mathematics does, whatever the size of the
exponent. -/
theorem intPower_eq (x : Int64) (n : Nat) : intPower x n = checkedInt (x.toInt ^ n) := by
  have hzero : x = 0 ↔ x.toInt = 0 := Int64.toInt_inj.symm
  have hone : x = 1 ↔ x.toInt = 1 := Int64.toInt_inj.symm
  have hneg : x = -1 ↔ x.toInt = -1 := Int64.toInt_inj.symm
  have hbase (hsmall : ¬ (x = 0 ∨ x = 1)) (hminus : ¬ x = -1) : 2 ≤ x.toInt.natAbs := by
    rw [hzero, hone] at hsmall
    rw [hneg] at hminus
    omega
  unfold intPower
  split_ifs with hsmall hn hminus heven hexponent
  · rw [hn, pow_zero]
    rfl
  · rcases hsmall with rfl | rfl
    · rw [Int64.toInt_zero, zero_pow hn]
      rfl
    · rw [Int64.toInt_one, one_pow]
      rfl
  · rw [hneg.mp hminus, Even.neg_one_pow (Nat.even_iff.mpr heven)]
    rfl
  · rw [hneg.mp hminus, Odd.neg_one_pow (Nat.odd_iff.mpr (Nat.mod_two_ne_zero.mp heven))]
    rfl
  · rw [checkedPower_eq (by decide) (hbase hsmall hminus), Int64.toInt_one, one_mul]
  · rw [checkedInt_of_not_isWord]
    intro hword
    have hpower : 2 ^ 64 ≤ x.toInt.natAbs ^ n :=
      (Nat.pow_le_pow_right (by decide) (by omega)).trans
        (Nat.pow_le_pow_left (hbase hsmall hminus) n)
    rw [← Int.natAbs_pow] at hpower
    have := natAbs_le_of_isWord hword
    omega

/-! ### Operators -/

theorem givesExactly_of_eq {action : Work Value}
    (haction : ∀ w, action w = (((checkedInt i).map Value.int).mapError .error, w)) :
    GivesExactly action i where
  ok hi w := ⟨Int64.ofInt i, toInt_ofInt_of_isWord hi,
    by rw [haction, checkedInt_of_isWord hi]; rfl⟩
  overflow hi w := by rw [haction, checkedInt_of_not_isWord hi]; rfl

/-- Operators on two integers, which may be truth values, compute with the integers that these
are. -/
theorem onHeap_binary (op : BinaryOp) (ha : a.asInt? = some x)
    (hb : b.asInt? = some y) (w : World) :
    Work.onHeap (binary op a b) w = ((intBinary op x y).mapError .error, w) := by
  have hnumbers : numberBinary? op a b = some (intBinary op x y) := by
    rw [numberBinary?, ha, hb]
  rw [binary, hnumbers]
  exact Work.onHeap_of_eq (HeapM.result_apply _ w.heap)

theorem readHeap_negate (ha : a.asInt? = some x) (w : World) :
    Work.readHeap (unary .negate a) w =
      (((checkedInt (-x.toInt)).map Value.int).mapError .error, w) := by
  have hunary : unary .negate a w.heap = (checkedInt (-x.toInt)).map Value.int := by
    cases a with
    | bool | int =>
      cases ha
      rfl
    | _ => cases ha
  rw [Work.readHeap_apply, hunary]

theorem callBuiltin_abs (env : Env) (ha : a.asInt? = some x) (w : World) :
    callBuiltin env .abs ⟨[a], []⟩ w =
      (((checkedInt |x.toInt|).map Value.int).mapError .error, w) := by
  have hmagnitude : magnitude a = (checkedInt |x.toInt|).map Value.int := by
    rw [Int.abs_eq_natAbs]
    cases a with
    | bool | int =>
      cases ha
      rfl
    | _ => cases ha
  rw [← hmagnitude]
  exact Work.onHeap_of_eq (HeapM.result_apply _ w.heap)

/-- Arithmetic on integers is exact, or what is wrong is reported. Sums, differences, products,
negatives and magnitudes are those of mathematics, and an overflow is reported if they have not 64
bits. So are quotients, which are rounded to the floor, and powers with exponents that are not
negative. A remainder is what such a quotient leaves, always has 64 bits, is smaller than the
divisor and has its sign. There are neither quotients nor remainders of divisions by zero. -/
theorem arithmetic_exact (env : Env) (ha : a.asInt? = some x) (hb : b.asInt? = some y) :
    GivesExactly (Work.onHeap (binary .add a b)) (x.toInt + y.toInt) ∧
    GivesExactly (Work.onHeap (binary .sub a b)) (x.toInt - y.toInt) ∧
    GivesExactly (Work.onHeap (binary .mul a b)) (x.toInt * y.toInt) ∧
    (y.toInt ≠ 0 →
      GivesExactly (Work.onHeap (binary .floorDiv a b)) ⌊(x.toInt : ℚ) / y.toInt⌋ ∧
      ∃ z : Int64, z.toInt = x.toInt - y.toInt * ⌊(x.toInt : ℚ) / y.toInt⌋ ∧
        (0 ≤ z.toInt ∧ z.toInt < y.toInt ∨ y.toInt < z.toInt ∧ z.toInt ≤ 0) ∧
        ∀ w, Work.onHeap (binary .mod a b) w = (.ok (.int z), w)) ∧
    (y.toInt = 0 → ∀ w,
      Work.onHeap (binary .floorDiv a b) w = (.error (.error (.zeroDivision .intQuotient)), w) ∧
      Work.onHeap (binary .mod a b) w = (.error (.error (.zeroDivision .intQuotient)), w)) ∧
    (0 ≤ y.toInt → GivesExactly (Work.onHeap (binary .pow a b)) (x.toInt ^ y.toInt.toNat)) ∧
    GivesExactly (Work.readHeap (unary .negate a)) (-x.toInt) ∧
    GivesExactly (callBuiltin env .abs ⟨[a], []⟩) |x.toInt| := by
  have hzero : y = 0 ↔ y.toInt = 0 := Int64.toInt_inj.symm
  refine ⟨givesExactly_of_eq (onHeap_binary .add ha hb),
    givesExactly_of_eq (onHeap_binary .sub ha hb), givesExactly_of_eq (onHeap_binary .mul ha hb),
    fun hy => ⟨?quotient, ?remainder⟩, fun hy w => ?zero, fun hy => ?power,
    givesExactly_of_eq (readHeap_negate ha), givesExactly_of_eq (callBuiltin_abs env ha)⟩
  case quotient =>
    refine givesExactly_of_eq fun w => ?_
    rw [onHeap_binary .floorDiv ha hb, intBinary, if_neg (mt hzero.mp hy), floorQuotient_eq x hy]
    rfl
  case remainder =>
    obtain ⟨hvalue, hbounds⟩ := toInt_floorRemainder x hy
    refine ⟨floorRemainder x y, hvalue, hbounds, fun w => ?_⟩
    rw [onHeap_binary .mod ha hb, intBinary, if_neg (mt hzero.mp hy)]
    rfl
  case zero =>
    rw [onHeap_binary .floorDiv ha hb, onHeap_binary .mod ha hb, intBinary, intBinary,
      if_pos (hzero.mpr hy), if_pos (hzero.mpr hy)]
    exact ⟨rfl, rfl⟩
  case power =>
    refine givesExactly_of_eq fun w => ?_
    rw [onHeap_binary .pow ha hb, intBinary, if_neg (by omega), intPower_eq]
    rfl

/-- At the least integer: its quotient by -1 and its magnitude overflow, its remainder by -1 is
zero, and it is an exact power, by an exponent for which the squares on the way are small. Truth
values are numbers. -/
theorem arithmetic_exact_least :
    let env : Env := ⟨.empty [], .empty, 0, .merging⟩
    let w : World := ⟨.empty, .ofFiles .empty⟩
    let least : Value := .int (-9223372036854775808)
    Work.onHeap (binary .floorDiv least (.int (-1))) w = (.error (.error (.overflow .integer)), w) ∧
      Work.onHeap (binary .mod least (.int (-1))) w = (.ok (.int 0), w) ∧
      callBuiltin env .abs ⟨[least], []⟩ w = (.error (.error (.overflow .integer)), w) ∧
      Work.onHeap (binary .pow (.int (-2)) (.int 63)) w = (.ok least, w) ∧
      Work.onHeap (binary .mod least (.bool false)) w =
        (.error (.error (.zeroDivision .intQuotient)), w) := by
  intro env w least
  obtain ⟨-, -, -, hquotient, -, -, -, habs⟩ :=
    arithmetic_exact (a := least) (b := .int (-1)) env rfl rfl
  obtain ⟨hdiv, z, hz, -, hmod⟩ := hquotient (by decide)
  obtain ⟨-, -, -, -, -, hpow, -, -⟩ :=
    arithmetic_exact (a := .int (-2)) (b := .int 63) env rfl rfl
  obtain ⟨-, -, -, -, hzero, -, -, -⟩ :=
    arithmetic_exact (a := least) (b := .bool false) env rfl rfl
  have hfloor : ⌊((-9223372036854775808 : Int64).toInt : ℚ) / (-1 : Int64).toInt⌋ =
      9223372036854775808 :=
    floor_div_eq (r := 0) (by decide) (by decide)
  rw [hfloor] at hdiv hz
  refine ⟨hdiv.overflow (by decide) w, ?_, habs.overflow (by decide) w, ?_, (hzero rfl w).2⟩
  · have hz : z = 0 := Int64.toInt_inj.mp (hz.trans (by decide))
    rw [hmod, hz]
  · obtain ⟨z, hz, hpow⟩ := (hpow (by decide)).ok (by decide) w
    have hz : z = -9223372036854775808 := Int64.toInt_inj.mp (hz.trans (by decide))
    rw [hpow, hz]

end NoteShell.Script
