import Mathlib.Data.Bool.AllAny
import Mathlib.Data.Nat.Digits.Defs
import NoteShell.Proofs.Lexing.Literal
import NoteShell.Proofs.Text.Trimming
import NoteShell.Proofs.Values.Display
import NoteShell.Proofs.Values.Integers

/-!
# Integers from texts

A text is an integer in a base if it is an optional sign and digits, blanks around it and
underscores anywhere in it not counted. The integer is then given exactly if it has 64 bits, and it
is an overflow if it has not. Only digits beyond 127 bits are not taken for a number at all, like
every text that is not an integer.

## Main definitions

* `IsDigit` : a character is a digit of a base.
* `IsIntegerText` : a text is an integer in a base.

## Main results

* `digitOf?_eq_some_iff`, `natOfDigits?_eq_some_iff` : digits are read by their places.
* `intOfText_eq` : what is read from a text that is an integer.
* `int_of_text` : the conversion of texts to integers.
-/

namespace NoteShell.Script

open NoteShell.Decimal NoteShell.Grammar NoteShell.Text

variable {base d n : Nat} {c : Char} {cs : List Char} {i : Int} {text : String}

/-- The digits in the order of their values. -/
def digitsInOrder : List Char := "0123456789abcdefghijklmnopqrstuvwxyz".toList

/-- A character is the digit of a base with the value `d`. A letter may be in either case. -/
def IsDigit (base : Nat) (c : Char) (d : Nat) : Prop := d < base ∧ digitsInOrder[d]? = some c.toLower

/-- Digits of a base stand for a number. -/
def AreDigits (base : Nat) (cs : List Char) (n : Nat) : Prop :=
  ∃ ds, List.Forall₂ (IsDigit base) cs ds ∧ n = Nat.ofDigits base ds.reverse

/-- An optional sign and at least one digit stand for an integer. -/
inductive IsNumeral (base : Nat) : List Char → Int → Prop
  | unsigned {cs : List Char} {n : Nat} (hcs : cs ≠ []) (h : AreDigits base cs n) : IsNumeral base cs n
  | plus {cs : List Char} {n : Nat} (hcs : cs ≠ []) (h : AreDigits base cs n) : IsNumeral base ('+' :: cs) n
  | minus {cs : List Char} {n : Nat} (hcs : cs ≠ []) (h : AreDigits base cs n) : IsNumeral base ('-' :: cs) (-n)

/-- A text is an integer in a base: a numeral, where blanks around the text and underscores do not
count. -/
def IsIntegerText (base : Nat) (text : String) (i : Int) : Prop :=
  ∃ before core after, text.toList = before ++ core ++ after ∧
    (∀ c ∈ before, isBlank c = true) ∧ (∀ c ∈ after, isBlank c = true) ∧
    (∀ c ∈ core.head?, isBlank c = false) ∧ (∀ c ∈ core.getLast?, isBlank c = false) ∧
    IsNumeral base (core.filter (· ≠ '_')) i

/-! ### Digits -/

/-- Each of the digits, and each of them as a capital, is read by its place. -/
theorem digitValue?_iff : digitValue? c = some d ↔ digitsInOrder[d]? = some c.toLower := by
  by_cases hascii : c.toNat < 128
  · have hbelow : ∀ n < 128, ∀ d < 36, digitValue? (Char.ofNat n) = some d ↔
        digitsInOrder[d]? = some (Char.ofNat n).toLower := by decide +kernel
    have hlength : ∀ n < 128, ∀ d ∈ digitValue? (Char.ofNat n), d < 36 := by decide +kernel
    rw [← Char.ofNat_toNat c]
    refine ⟨fun h => (hbelow _ hascii d (hlength _ hascii d h)).mp h, fun h => ?_⟩
    refine (hbelow _ hascii d ?_).mpr h
    exact (List.getElem?_eq_some_iff.mp h).1
  · -- Beyond these characters there are neither digits nor capitals.
    have hbeyond (e : Char) (he : e.toNat < 128) : ¬ c ≤ e := fun hle =>
      hascii (Nat.lt_of_le_of_lt (show c.toNat ≤ e.toNat from hle) he)
    have hlower : c.toLower = c := dif_neg fun h => hbeyond 'Z' (by decide) h.2
    have hdigits : ∀ e ∈ digitsInOrder, e.toNat < 128 := List.all_iff_forall_prop.mp (by decide)
    refine iff_of_false ?_ fun h => hascii (hdigits c ?_)
    · simp [digitValue?, hbeyond '9' (by decide), hbeyond 'z' (by decide), hbeyond 'Z' (by decide)]
    · rw [hlower] at h
      exact List.mem_of_getElem? h

theorem digitOf?_eq_some_iff : digitOf? base c = some d ↔ IsDigit base c d := by
  rw [digitOf?, Option.filter_eq_some_iff, digitValue?_iff, decide_eq_true_iff, IsDigit, and_comm]

/-- Digits that are read on from a value. -/
theorem readDigits_eq_some_iff (base : Nat) (cs : List Char) (value n : Nat) :
    readDigits base value cs = some n ↔
      ∃ ds, List.Forall₂ (IsDigit base) cs ds ∧
        n = base ^ ds.length * value + Nat.ofDigits base ds.reverse := by
  induction cs generalizing value with
  | nil => simp [readDigits, eq_comm]
  | cons c cs ih =>
    have hstep (d : Nat) (ds : List Nat) :
        base ^ ds.length * (base * value + d) + Nat.ofDigits base ds.reverse =
          base ^ (d :: ds).length * value + Nat.ofDigits base (d :: ds).reverse := by
      rw [List.length_cons, List.reverse_cons, Nat.ofDigits_append, List.length_reverse,
        Nat.ofDigits_singleton]
      ring
    rw [readDigits]
    cases hdigit : digitOf? base c with
    | none =>
      refine iff_of_false (by simp) ?_
      rintro ⟨ds, hds, -⟩
      obtain ⟨d, ds', hd, -, rfl⟩ := List.forall₂_cons_left_iff.mp hds
      rw [← digitOf?_eq_some_iff, hdigit] at hd
      cases hd
    | some d =>
      rw [ih]
      constructor
      · rintro ⟨ds, hds, hn⟩
        exact ⟨d :: ds, .cons (digitOf?_eq_some_iff.mp hdigit) hds, hn.trans (hstep d ds)⟩
      · rintro ⟨ds, hds, hn⟩
        obtain ⟨d', ds', hd', hds', rfl⟩ := List.forall₂_cons_left_iff.mp hds
        rw [← digitOf?_eq_some_iff, hdigit] at hd'
        cases hd'
        exact ⟨ds', hds', hn.trans (hstep d ds').symm⟩

theorem natOfDigits?_eq_some_iff :
    natOfDigits? base cs = some n ↔ cs ≠ [] ∧ AreDigits base cs n := by
  cases cs with
  | nil => simp [natOfDigits?]
  | cons c cs =>
    rw [natOfDigits?, readDigits_eq_some_iff]
    · simp [AreDigits]
    · exact List.cons_ne_nil c cs

/-! ### Texts -/

theorem isIntegerText_iff : IsIntegerText base text i ↔ IsNumeral base (numeralChars text) i := by
  constructor
  · rintro ⟨before, core, after, htext, hbefore, hafter, hhead, hlast, hnumeral⟩
    rwa [numeralChars, htext, trimChars_append_blanks hbefore hafter, trimChars_eq_self hhead hlast]
  · intro hnumeral
    obtain ⟨before, after, htext, hbefore, hafter, hhead, hlast⟩ := exists_blanks text.toList
    exact ⟨before, trimChars text.toList, after, htext, hbefore, hafter, hhead, hlast, hnumeral⟩

theorem map_cast_eq_some_iff {n? : Option Nat} {f : Int → Int} :
    (n? >>= fun n => pure (n : Int)).map f = some i ↔ ∃ n, n? = some n ∧ f n = i := by
  cases n? <;> simp

theorem intOfDigits?_eq_some_iff : intOfDigits? base cs = some i ↔ IsNumeral base cs i := by
  have hsign {c : Char} (hc : digitValue? c = none) (rest : List Char) :
      natOfDigits? base (c :: rest) = none := by
    rw [natOfDigits?, readDigits, digitOf?, hc]
    · rfl
    · exact List.cons_ne_nil c rest
  constructor
  · intro h
    rw [intOfDigits?.eq_def] at h
    split at h
    · obtain ⟨n, hn, rfl⟩ := map_cast_eq_some_iff.mp h
      obtain ⟨hcs, hdigits⟩ := natOfDigits?_eq_some_iff.mp hn
      exact .minus hcs hdigits
    · obtain ⟨n, hn, rfl⟩ := map_cast_eq_some_iff.mp h
      obtain ⟨hcs, hdigits⟩ := natOfDigits?_eq_some_iff.mp hn
      exact .plus hcs hdigits
    · obtain ⟨n, hn, rfl⟩ := map_cast_eq_some_iff.mp h
      obtain ⟨hcs, hdigits⟩ := natOfDigits?_eq_some_iff.mp hn
      exact .unsigned hcs hdigits
  · rintro (⟨hcs, hdigits⟩ | ⟨hcs, hdigits⟩ | ⟨hcs, hdigits⟩)
    · have hn := natOfDigits?_eq_some_iff.mpr ⟨hcs, hdigits⟩
      rw [intOfDigits?, hn]
      · rfl
      · rintro rest rfl
        rw [hsign rfl] at hn
        cases hn
      · rintro rest rfl
        rw [hsign rfl] at hn
        cases hn
    · rw [intOfDigits?, natOfDigits?_eq_some_iff.mpr ⟨hcs, hdigits⟩]
      rfl
    · rw [intOfDigits?, natOfDigits?_eq_some_iff.mpr ⟨hcs, hdigits⟩]
      rfl

/-- What is read from a text, from the integer that it is. -/
theorem intOfText_eq (text : String) {base : Int} (hlow : 2 ≤ base) (hhigh : base ≤ 36) :
    intOfText text base =
      match intOfDigits? base.toNat (numeralChars text) with
      | some i =>
        if i.natAbs < 2 ^ 127 then checkedInt i else .error
          (.value (.invalidInt base (quoted text)))
      | none => .error (.value (.invalidInt base (quoted text))) := by
  rw [intOfText, if_neg (by omega)]
  generalize numeralChars text = cs
  split
  next negative digits hsplit =>
    have hread : intOfDigits? base.toNat cs =
        (natOfDigits? base.toNat digits).map fun n => if negative then -(n : Int) else n := by
      split at hsplit
      · cases hsplit
        rw [intOfDigits?]
        cases natOfDigits? base.toNat digits <;> rfl
      · cases hsplit
        rw [intOfDigits?]
        cases natOfDigits? base.toNat digits <;> rfl
      · next hminus hplus =>
        cases hsplit
        rw [intOfDigits?]
        · cases natOfDigits? base.toNat cs <;> rfl
        · exact hminus
        · exact hplus
    rw [hread]
    cases natOfDigits? base.toNat digits with
    | none => rfl
    | some n =>
      have habs : (if negative then -(n : Int) else n).natAbs = n := by
        split_ifs
        · rw [Int.natAbs_neg, Int.natAbs_natCast]
        · exact Int.natAbs_natCast n
      have hfits : fits127 n = true ↔ n < 2 ^ 127 := by
        rw [fits127, decide_eq_true_iff, Nat.shiftLeft_eq, one_mul]
      change (if fits127 n = true then checkedInt _ else _) = if _ then _ else _
      rw [habs]
      simp only [hfits]

theorem intOfText_of_isIntegerText {base : Int} (hlow : 2 ≤ base) (hhigh : base ≤ 36)
    (hi : IsIntegerText base.toNat text i) :
    intOfText text base =
      if i.natAbs < 2 ^ 127 then checkedInt i
      else .error (.value (.invalidInt base (quoted text))) := by
  rw [intOfText_eq text hlow hhigh, intOfDigits?_eq_some_iff.mpr (isIntegerText_iff.mp hi)]

theorem intOfText_of_not {base : Int} (hlow : 2 ≤ base) (hhigh : base ≤ 36)
    (h : ∀ i, ¬ IsIntegerText base.toNat text i) :
    intOfText text base = .error (.value (.invalidInt base (quoted text))) := by
  rw [intOfText_eq text hlow hhigh]
  cases hread : intOfDigits? base.toNat (numeralChars text) with
  | none => rfl
  | some i => exact absurd (isIntegerText_iff.mpr (intOfDigits?_eq_some_iff.mp hread)) (h i)

/-! ### The text of an integer -/

theorem numeralChars_intText (i : Int) : numeralChars (intText i) = (intText i).toList := by
  have hall : ∀ c ∈ (intText i).toList, isBlank c = false ∧ c ≠ '_' := by
    intro c hc
    have hdigit (n : Nat) (h : c ∈ (natText n).toList) : isBlank c = false ∧ c ≠ '_' := by
      rw [natText, String.toList_ofList] at h
      have hc := isDigit_of_mem_toDigits h
      exact ⟨isBlank_of_isDigit hc, by rintro rfl; exact absurd hc (by decide)⟩
    rw [intText] at hc
    split_ifs at hc
    · rw [String.toList_append, List.mem_append] at hc
      rcases hc with hsign | hc
      · rw [List.mem_singleton.mp hsign]
        decide
      · exact hdigit _ hc
    · exact hdigit _ hc
  rw [numeralChars, trimChars_eq_self (fun c hc => (hall c (List.mem_of_mem_head? hc)).1)
    fun c hc => (hall c (List.mem_of_mem_getLast? hc)).1]
  exact List.filter_eq_self.mpr fun c hc => decide_eq_true (hall c hc).2

theorem intOfDigits?_intText (i : Int) : intOfDigits? 10 (intText i).toList = some i := by
  rw [intText]
  split_ifs with hi
  · have hread : natOfDigits? 10 (Nat.toDigits 10 i.natAbs) = some i.natAbs := by
      rw [natOfDigits?, readDigits_toDigits]
      exact Nat.toDigits_ne_nil
    have htext : ("-" ++ natText i.natAbs).toList = '-' :: Nat.toDigits 10 i.natAbs := by
      simp [natText]
    rw [htext, intOfDigits?, hread]
    change some (-(i.natAbs : Int)) = some i
    rw [Option.some_inj]
    omega
  · rw [natText, String.toList_ofList, intOfDigits?_toDigits, Option.some_inj]
    omega

/-- The text of an integer is read back, that of the least integer too. -/
theorem intOfText_intText (x : Int64) : intOfText (intText x.toInt) 10 = .ok x := by
  have habs := natAbs_le_of_isWord (isWord_toInt x)
  rw [intOfText_eq _ (by decide) (by decide), numeralChars_intText]
  change (match intOfDigits? 10 (intText x.toInt).toList with | some i => _ | none => _) = _
  rw [intOfDigits?_intText]
  change (if _ then _ else _) = _
  rw [if_pos (by omega), checkedInt_toInt]

/-! ### The builtin functions -/

theorem callBuiltin_int_text (env : Env) (text : String) (b : Int64) (w : World) :
    callBuiltin env .int ⟨[.str text, .int b], []⟩ w =
      (((intOfText text b.toInt).map Value.int).mapError .error, w) :=
  Work.onHeap_of_eq (HeapM.result_apply _ w.heap)

theorem callBuiltin_int_decimal (env : Env) (text : String) (w : World) :
    callBuiltin env .int ⟨[.str text], []⟩ w =
      (((intOfText text 10).map Value.int).mapError .error, w) :=
  Work.onHeap_of_eq (HeapM.result_apply _ w.heap)

theorem callBuiltin_str_int (env : Env) (x : Int64) (w : World) :
    callBuiltin env .str ⟨[.int x], []⟩ w = (.ok (.str (intText x.toInt)), w) := by
  have hcall : callPureBuiltin env.sorter .str ⟨[.int x], []⟩ w.heap =
      (.ok (.str (reprValue w.heap (.int x))), w.heap) := rfl
  rw [reprValue, reprWithin_scalar (by simp) (by simp)] at hcall
  exact Work.onHeap_of_eq hcall

/-- Every text is an integer in a base or it is not. If it is and has 64 bits it is given exactly.
If it has more bits an overflow is reported, as long as its digits have not more than 127 bits. All
other texts are refused as no literals. The text of an integer is read back as that integer. -/
theorem int_of_text (env : Env) (text : String) {b : Int64} (hlow : 2 ≤ b.toInt) (hhigh : b.toInt ≤ 36)
    (w : World) :
    (∀ i, IsIntegerText b.toInt.toNat text i →
      (IsWord i → ∃ z : Int64, z.toInt = i ∧
        callBuiltin env .int ⟨[.str text, .int b], []⟩ w = (.ok (.int z), w)) ∧
      (¬ IsWord i → i.natAbs < 2 ^ 127 →
        callBuiltin env .int ⟨[.str text, .int b], []⟩ w = (.error (.error (.overflow .integer)), w)) ∧
      (2 ^ 127 ≤ i.natAbs → callBuiltin env .int ⟨[.str text, .int b], []⟩ w =
        (.error (.error (.value (.invalidInt b.toInt (quoted text)))), w))) ∧
    ((∀ i, ¬ IsIntegerText b.toInt.toNat text i) →
      callBuiltin env .int ⟨[.str text, .int b], []⟩ w =
        (.error (.error (.value (.invalidInt b.toInt (quoted text)))), w)) ∧
    ∀ x : Int64, ∃ s, callBuiltin env .str ⟨[.int x], []⟩ w = (.ok (.str s), w) ∧
      callBuiltin env .int ⟨[.str s], []⟩ w = (.ok (.int x), w) ∧
      callBuiltin env .int ⟨[.str s, .int 10], []⟩ w = (.ok (.int x), w) := by
  refine ⟨fun i hi => ⟨fun hword => ?exact, fun hword hfits => ?overflow, fun hlong => ?long⟩,
    fun hnone => ?other, fun x => ?back⟩
  case exact =>
    have habs := natAbs_le_of_isWord hword
    refine ⟨Int64.ofInt i, toInt_ofInt_of_isWord hword, ?_⟩
    rw [callBuiltin_int_text, intOfText_of_isIntegerText hlow hhigh hi, if_pos (by omega),
      checkedInt_of_isWord hword]
    rfl
  case overflow =>
    rw [callBuiltin_int_text, intOfText_of_isIntegerText hlow hhigh hi, if_pos hfits,
      checkedInt_of_not_isWord hword]
    rfl
  case long =>
    rw [callBuiltin_int_text, intOfText_of_isIntegerText hlow hhigh hi, if_neg (by omega)]
    rfl
  case other =>
    rw [callBuiltin_int_text, intOfText_of_not hlow hhigh hnone]
    rfl
  case back =>
    refine ⟨intText x.toInt, callBuiltin_str_int env x w, ?_, ?_⟩
    · rw [callBuiltin_int_decimal, intOfText_intText]
      rfl
    · have hten : (10 : Int64).toInt = 10 := rfl
      rw [callBuiltin_int_text, hten, intOfText_intText]
      rfl

/-- A hexadecimal number in capitals, with a sign, blanks and underscores. A number with more than
64 bits. A text with two signs is no integer. -/
theorem int_of_text_signed :
    let env : Env := ⟨.empty [], .empty, 0, .merging⟩
    let w : World := ⟨.empty, .ofFiles .empty⟩
    2 ≤ (16 : Int64).toInt ∧ (16 : Int64).toInt ≤ 36 ∧
      callBuiltin env .int ⟨[.str " -_F_f\n", .int 16], []⟩ w = (.ok (.int (-255)), w) ∧
      callBuiltin env .int ⟨[.str "8000000000000000", .int 16], []⟩ w =
        (.error (.error (.overflow .integer)), w) ∧
      callBuiltin env .int ⟨[.str "-+1", .int 16], []⟩ w =
        (.error (.error (.value (.invalidInt 16 (quoted "-+1")))), w) := by
  intro env w
  have hlow : 2 ≤ (16 : Int64).toInt := by decide
  have hhigh : (16 : Int64).toInt ≤ 36 := by decide
  have hread {text : String} {i : Int} (h : intOfDigits? 16 (numeralChars text) = some i) :
      IsIntegerText (16 : Int64).toInt.toNat text i :=
    isIntegerText_iff.mpr (intOfDigits?_eq_some_iff.mp h)
  obtain ⟨hsigned, -⟩ := int_of_text env " -_F_f\n" hlow hhigh w
  obtain ⟨hlarge, -⟩ := int_of_text env "8000000000000000" hlow hhigh w
  obtain ⟨-, hother, -⟩ := int_of_text env "-+1" hlow hhigh w
  refine ⟨hlow, hhigh, ?signed, ?large, ?other⟩
  case signed =>
    obtain ⟨z, hz, hcall⟩ := (hsigned (-255) (hread (by decide +kernel))).1 (by decide)
    have hz : z = -255 := Int64.toInt_inj.mp (hz.trans (by decide))
    rw [hcall, hz]
  case large =>
    exact (hlarge 9223372036854775808 (hread (by decide +kernel))).2.1 (by decide) (by decide)
  case other =>
    refine hother fun i hi => ?_
    have hnone : intOfDigits? 16 (numeralChars "-+1") = none := by decide +kernel
    have hsome := intOfDigits?_eq_some_iff.mpr (isIntegerText_iff.mp hi)
    rw [show (16 : Int64).toInt.toNat = 16 from rfl, hnone] at hsome
    cases hsome

/-- Forty nines are an integer, but they are refused as if they were none. -/
theorem long_integer_refused :
    let env : Env := ⟨.empty [], .empty, 0, .merging⟩
    let w : World := ⟨.empty, .ofFiles .empty⟩
    let text := "9999999999999999999999999999999999999999"
    IsIntegerText 10 text (10 ^ 40 - 1) ∧ ¬ IsWord (10 ^ 40 - 1) ∧
      callBuiltin env .int ⟨[.str text, .int 10], []⟩ w =
        (.error (.error (.value (.invalidInt 10 (quoted text)))), w) := by
  intro env w text
  have htext : IsIntegerText (10 : Int).toNat text (10 ^ 40 - 1) :=
    isIntegerText_iff.mpr (intOfDigits?_eq_some_iff.mp (by decide +kernel))
  have hread := intOfText_of_isIntegerText (by decide) (by decide) htext
  refine ⟨htext, by decide, ?_⟩
  rw [callBuiltin_int_text, show (10 : Int64).toInt = 10 from rfl, hread, if_neg (by decide)]
  rfl

end NoteShell.Script
