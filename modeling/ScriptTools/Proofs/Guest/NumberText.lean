import ScriptTools.Capability.Parameter
import ScriptTools.Guest.Bridge
import ScriptTools.Guest.Library
import ScriptTools.Proofs.Decimal.Fourteen
import ScriptTools.Proofs.Source.ReadBack

/-!
The texts of numbers on both sides. The host writes the shortest digits and no point for a whole number, a script at most
fourteen digits and a point or an exponent for each double.
-/

namespace ScriptTools

namespace Decimal

variable {ds cs : List Char} {e : ℤ}

/-! Digits -/

theorem dropTrailingZeros_append_zeros (ds : List Char) (k : ℕ) :
    dropTrailingZeros (ds ++ List.replicate k '0') = dropTrailingZeros ds := by
  rw [dropTrailingZeros, List.reverse_append, List.reverse_replicate, List.dropWhile_append_of_pos (by simp), dropTrailingZeros]

theorem dropTrailingZeros_cons (d : Char) (ds : List Char) :
    dropTrailingZeros (d :: ds) = if dropTrailingZeros ds = [] ∧ d = '0' then [] else d :: dropTrailingZeros ds := by
  simp only [dropTrailingZeros, List.reverse_cons, List.dropWhile_append, List.isEmpty_iff, List.reverse_eq_nil_iff]
  by_cases none : ds.reverse.dropWhile (· == '0') = []
  · by_cases zero : d = '0'
    · simp [none, zero]
    · simp [none, zero]
  · simp [none]

/-- What stands behind some of the digits loses the same zeros as the whole does. -/
theorem dropTrailingZeros_drop (ds : List Char) (k : ℕ) : dropTrailingZeros (ds.drop k) = (dropTrailingZeros ds).drop k := by
  induction k generalizing ds with
  | zero => rfl
  | succ k ih =>
    cases ds with
    | nil => rfl
    | cons d ds =>
      rw [List.drop_succ_cons, ih, dropTrailingZeros_cons]
      split
      · rename_i none
        rw [none.1, List.drop_nil, List.drop_nil]
      · rw [List.drop_succ_cons]

/-! Positional texts -/

/-- The number that a text of digits with at most one point writes. -/
def pointValue (cs : List Char) : ℚ :=
  let fraction := (cs.dropWhile (· ≠ '.')).drop 1
  natOfDigits (cs.takeWhile (· ≠ '.') ++ fraction) / 10 ^ fraction.length

theorem ne_point_of_isDigit {d : Char} (digit : d.isDigit = true) : decide (d ≠ '.') = true :=
  of_isDigit (p := fun d => decide (d ≠ '.')) (by decide) digit

theorem pointValue_point {whole fraction : List Char} (digits : ∀ d ∈ whole, d.isDigit = true) :
    pointValue (whole ++ '.' :: fraction) = natOfDigits (whole ++ fraction) / 10 ^ fraction.length := by
  have others : ∀ d ∈ whole, decide (d ≠ '.') = true := fun d member => ne_point_of_isDigit (digits d member)
  rw [pointValue, List.takeWhile_append_of_pos others, List.dropWhile_append_of_pos others]
  simp

theorem pointValue_whole (digits : ∀ d ∈ ds, d.isDigit = true) : pointValue ds = natOfDigits ds := by
  have others : ∀ d ∈ ds, decide (d ≠ '.') = true := fun d member => ne_point_of_isDigit (digits d member)
  rw [pointValue, List.takeWhile_eq_self_iff.mpr others, List.dropWhile_eq_nil_iff.mpr others]
  simp

theorem pointValue_placePoint (digits : ∀ d ∈ ds, d.isDigit = true) (some : e ≠ 0 → ds ≠ []) :
    pointValue (placePoint ds e false) = natOfDigits ds * 10 ^ (e + 1 - ds.length) := by
  obtain ⟨whole, fraction, before, after, _, value, text⟩ := placePoint_parts digits some
  rw [text, ← value]
  split
  · rename_i none
    rw [if_neg nofun, pointValue_whole before, none]
    simp
  · rw [pointValue_point before, zpow_neg, zpow_natCast, div_eq_mul_inv]

theorem pointValue_point_zero (digits : ∀ d ∈ ds, d.isDigit = true) : pointValue (ds ++ ['.', '0']) = pointValue ds := by
  have zero : natOfDigits (ds ++ ['0']) = 10 ^ 1 * natOfDigits ds := natOfDigits_append_zeros ds 1
  rw [pointValue_point digits, pointValue_whole digits, zero]
  push_cast
  simp

/-- The positional text of `n * 10 ^ k`. -/
def shown (n : ℕ) (k : ℤ) : List Char :=
  placePoint (dropTrailingZeros (digitChars n)) ((digitChars n).length - 1 + k) false

variable {n : ℕ} {k : ℤ}

theorem pointValue_shown (some : n ≠ 0) : pointValue (shown n k) = n * 10 ^ k := by
  rw [shown, pointValue_placePoint (dropTrailingZeros_digits fun _ => isDigit_of_mem_digitChars)
    fun _ => dropTrailingZeros_ne_nil some, natOfDigits_dropTrailingZeros, natOfDigits_digitChars]

theorem isDigit_of_mem_shown (some : n ≠ 0) {c : Char} (member : c ∈ shown n k) : c.isDigit = true ∨ c = '.' := by
  obtain ⟨whole, fraction, before, after, _, _, text⟩ :=
    placePoint_parts (dropTrailingZeros_digits fun _ => isDigit_of_mem_digitChars)
      fun (_ : ((digitChars n).length : ℤ) - 1 + k ≠ 0) => dropTrailingZeros_ne_nil some
  rw [shown, text] at member
  split at member
  · exact .inl (before c (by simpa using member))
  · rcases List.mem_append.mp member with front | behind
    · exact .inl (before c front)
    · exact (List.mem_cons.mp behind).symm.imp_left (after c)

theorem isDigit_of_all_shown (some : n ≠ 0) (all : (shown n k).all (fun c => c.isDigit || c == '-') = true) :
    ∀ c ∈ shown n k, c.isDigit = true := by
  intro c member
  rcases isDigit_of_mem_shown some member with digit | rfl
  · exact digit
  · exact absurd (List.all_eq_true.mp all _ member) (by decide)

theorem shown_of_le {a c : ℕ} {i l : ℤ} (some : c ≠ 0) (le : i ≤ l) (same : (a * 10 ^ i : ℚ) = c * 10 ^ l) :
    shown a i = shown c l := by
  obtain ⟨k, rfl⟩ := Int.le.dest le
  have product : a = c * 10 ^ k := by
    have scaled : (a : ℚ) * 10 ^ i = (c * 10 ^ k : ℕ) * 10 ^ i := by
      rw [same, zpow_add₀ (by norm_num), zpow_natCast]
      push_cast
      ring
    exact_mod_cast mul_right_cancel₀ (by positivity) scaled
  rw [shown, product, digitChars_mul_pow some, dropTrailingZeros_append_zeros, List.length_append, List.length_replicate, shown]
  congr 1
  push_cast
  ring

/-- A number has one positional text. -/
theorem shown_eq {a c : ℕ} {i l : ℤ} (some : a ≠ 0) (some' : c ≠ 0) (same : (a * 10 ^ i : ℚ) = c * 10 ^ l) :
    shown a i = shown c l := by
  rcases Int.le_total i l with le | le
  · exact shown_of_le some' le same
  · exact (shown_of_le some le same.symm).symm

/-! Fourteen digits -/

/-- A text of fourteen digits without a mark is positional. -/
theorem generalText_eq {b : Binary} (rounded : roundedDigits 13 b = (digitChars n, e)) (low : 10 ^ 13 ≤ n)
    (high : n < 10 ^ 14) : generalText 14 false b =
      if e < -4 ∨ 14 ≤ e then joinExponent (dropTrailingZeros (digitChars n)) false e else shown n (e - 13) := by
  have length : (digitChars n).length = 14 := length_digitChars low high
  have nonempty : dropTrailingZeros (digitChars n) ≠ [] := dropTrailingZeros_ne_nil (by omega)
  obtain ⟨j, whole⟩ := exists_eq_dropTrailingZeros_append (digitChars n)
  have behind := dropTrailingZeros_drop (digitChars n)
  have count := congrArg List.length whole
  have exponent : ((digitChars n).length : ℤ) - 1 + (e - 13) = e := by omega
  rw [length, List.length_append, List.length_replicate] at count
  rw [generalText, shown, exponent]
  simp only [show max 14 1 - 1 = 13 from rfl, rounded, behind, Bool.false_eq_true, if_false, Bool.not_false, Bool.and_true]
  generalize dropTrailingZeros (digitChars n) = ts at nonempty whole count
  have kept : (digitChars n).take 1 ++ ts.drop 1 = ts := by
    rw [whole, List.take_append_of_le_length (List.length_pos_iff.mpr nonempty), List.take_append_drop]
  rw [kept]
  by_cases marked : e < -4 ∨ 14 ≤ e
  · rw [if_pos marked]
    exact if_pos marked
  · rw [if_neg marked]
    refine (if_neg marked).trans ?_
    rw [placePoint]
    by_cases negative : e < 0
    · rw [if_pos negative, if_pos negative]
    · have inside : e.toNat + 1 ≤ 14 := by omega
      rw [if_neg negative, if_neg negative]
      generalize e.toNat + 1 = k at inside
      have front : (digitChars n).take k = ts.take k ++ List.replicate (k - (ts.take k).length) '0' := by
        rw [whole, List.take_append, List.take_replicate, List.length_take]
        congr 2
        omega
      rw [front]
      rfl

/-- Whether a double is the nearest one to a decimal of at most fourteen digits that is not below a ten-thousandth. -/
def IsFourteen (x : Float) : Prop := ∃ d k : ℕ, d < 10 ^ 14 ∧ 10 ^ k ≤ 10 ^ 4 * d ∧ (Binary.ofFloat x).Near (d / 10 ^ k)

variable {x : Float}

/-- The size of a double as a double. -/
theorem exists_abs (finite : x.isFinite = true) :
    ∃ y : Float, y.isFinite = true ∧ isNegative y = false ∧ Binary.ofFloat y = Binary.ofFloat x := by
  cases sign : isNegative x with
  | false => exact ⟨x, finite, sign, rfl⟩
  | true => exact ⟨-x, isFinite_neg finite, by rw [isNegative_neg finite, sign]; rfl, ofFloat_neg finite⟩

theorem value_eq_number (x : Float) : value x = (if isNegative x then -1 else 1) * (Binary.ofFloat x).number := by
  rw [value, num_div_den]

theorem significand_ne_zero_of_whole? (finite : x.isFinite = true) (broken : whole? x = none) :
    (Binary.ofFloat x).significand ≠ 0 := by
  intro zero
  have whole : whole? x = some 0 := by
    rw [whole?_eq_some_iff, value_eq_number, Binary.number, zero]
    simp [finite]
  rw [broken] at whole
  cases whole

end Decimal

namespace Guest

open Decimal

namespace Number

variable {x : Float}

/-- What is written of a double: a point and a zero are put behind digits alone. -/
theorem floatText_toList (finite : x.isFinite = true) : (floatText x).toList =
    (if isNegative x then ['-'] else []) ++
      if (generalText 14 false (.ofFloat x)).all (fun c => c.isDigit || c == '-') then
        generalText 14 false (.ofFloat x) ++ ['.', '0'] else generalText 14 false (.ofFloat x) := by
  have number : x.isNaN = false := isNaN_of_isFinite finite
  obtain ⟨sign, minus⟩ : ∃ sign, sign = if isNegative x then ['-'] else [] := ⟨_, rfl⟩
  have front : sign.all (fun c => c.isDigit || c == '-') = true := by
    rw [minus]
    cases isNegative x <;> rfl
  have text : general 14 x = String.ofList (sign ++ generalText 14 false (.ofFloat x)) := by
    rw [general, number, isInf_of_isFinite finite, minus]
    rfl
  rw [floatText, number, text, ← minus]
  dsimp only
  rw [if_neg nofun, String.all_bool_eq, String.toList_ofList, List.all_append, front, Bool.true_and]
  split
  · simp
  · rw [String.toList_ofList]

/-- The text of a double is no text of an integer. -/
theorem exists_mem_floatText (x : Float) : ∃ c ∈ (floatText x).toList, (c.isDigit || c == '-') = false := by
  rw [floatText]
  split
  · exact ⟨'n', by decide, rfl⟩
  · dsimp only
    split
    · exact ⟨'.', by simp, rfl⟩
    · rename_i other
      simpa [String.all_bool_eq] using other

/-- A whole double is written without a point by the host only. -/
theorem numberText_ne_of_whole? {i : Int64} (whole : whole? x = some i) : HostValue.numberText x ≠ floatText x := by
  intro same
  obtain ⟨c, member, other⟩ := exists_mem_floatText x
  rw [← same, HostValue.numberText, whole] at member
  dsimp only at member
  rw [toString_int_toList] at member
  rcases List.mem_append.mp member with minus | digit
  · split at minus
    · rw [List.mem_singleton.mp minus] at other
      exact absurd other (by decide)
    · exact List.not_mem_nil minus
  · rw [isDigit_of_mem_digitChars digit] at other
    cases other

/-- A double with fourteen digits that is no integer is not rounded to a whole number. -/
theorem not_digits_of_isFourteen {n d k : ℕ} {e : ℤ} (finite : x.isFinite = true) (broken : whole? x = none)
    (some : n ≠ 0) (few : d < 10 ^ 14) (near : (Binary.ofFloat x).Near (d / 10 ^ k))
    (same : (n * 10 ^ e : ℚ) = d / 10 ^ k) : (shown n e).all (fun c => c.isDigit || c == '-') = false := by
  rw [← Bool.not_eq_true]
  intro all
  have digits := isDigit_of_all_shown some all
  obtain ⟨y, finite', positive, size⟩ := exists_abs finite
  have whole : (natOfDigits (shown n e) : ℚ) = d / 10 ^ k := by rw [← pointValue_whole digits, pointValue_shown some, same]
  generalize natOfDigits (shown n e) = w at whole
  have small : w < 10 ^ 14 := by
    have below : (w : ℚ) ≤ d := whole ▸ div_le_self (Nat.cast_nonneg d) (one_le_pow₀ (by norm_num))
    exact lt_of_le_of_lt (by exact_mod_cast below) few
  have value : value y = w := IsNearest.value_nat ⟨finite', positive, by rwa [size, whole]⟩ (by omega)
  rw [value_of_positive positive, size] at value
  have integer : whole? x = .some (Int64.ofInt (if isNegative x then -w else w)) := by
    rw [whole?_eq_some_iff, value_eq_number, value, Int64.toInt_ofInt_of_le (by split <;> omega) (by split <;> omega)]
    refine ⟨finite, ?_⟩
    split <;> simp
  rw [broken] at integer
  cases integer

/-- What the host writes of a double that is no integer is its text where it has fourteen digits and is not small. -/
theorem plain_eq_floatText_iff (finite : x.isFinite = true) (broken : whole? x = none) :
    Layout.plain.text x = floatText x ↔ IsFourteen x := by
  obtain ⟨y, finite', positive, size⟩ := exists_abs finite
  have some := significand_ne_zero_of_whole? finite broken
  have canonical : (Binary.ofFloat x).IsCanonical := Binary.isCanonical_ofBits x.toBits
  obtain ⟨bits, below⟩ := bits_ofFloat finite' positive
  rw [← bits, size] at below
  have found := shortest_near canonical some below .up
  have digits : (shortest .up (Binary.ofFloat x)).digits ≠ 0 := by
    intro zero
    have half := found.half_le some
    rw [zero, Nat.cast_zero, zero_mul, zero_div] at half
    norm_num at half
  rw [← String.toList_inj, floatText_toList finite, Layout.text_toList _ finite, if_neg some, List.append_cancel_left_eq]
  change shown (shortest .up (Binary.ofFloat x)).digits (shortest .up (Binary.ofFloat x)).exponent = _ ↔ _
  constructor
  · obtain ⟨n, e, rounded, low, high, _⟩ := exists_roundedDigits canonical some below
    rw [generalText_eq rounded low high]
    intro same
    by_cases marked : e < -4 ∨ 14 ≤ e
    · rw [if_pos marked] at same
      have mark : 'e' ∈ shown (shortest .up (Binary.ofFloat x)).digits (shortest .up (Binary.ofFloat x)).exponent := by
        rw [same]
        split <;> simp [joinExponent]
      rcases isDigit_of_mem_shown digits mark with digit | point
      · exact absurd digit (by decide)
      · exact absurd point (by decide)
    · rw [if_neg marked] at same
      have value : pointValue (shown (shortest .up (Binary.ofFloat x)).digits (shortest .up (Binary.ofFloat x)).exponent) =
          pointValue (shown n (e - 13)) := by
        rw [same]
        split
        · rename_i whole
          exact pointValue_point_zero (isDigit_of_all_shown (by omega) whole)
        · rfl
      obtain ⟨k, places⟩ : ∃ k : ℕ, e - 13 = -k := ⟨(13 - e).toNat, by omega⟩
      rw [pointValue_shown digits, pointValue_shown (by omega), places, zpow_neg, zpow_natCast, ← div_eq_mul_inv] at value
      refine ⟨n, k, high, ?_, value ▸ found⟩
      calc 10 ^ k ≤ 10 ^ 17 := Nat.pow_le_pow_right (by decide) (by omega)
        _ = 10 ^ 4 * 10 ^ 13 := by decide
        _ ≤ 10 ^ 4 * n := Nat.mul_le_mul_left _ low
  · rintro ⟨d, k, few, least, near⟩
    have near' : IsNearest y (d / 10 ^ k) := ⟨finite', positive, by rwa [size]⟩
    obtain ⟨short, n, e, rounded, low, high, same⟩ := fourteen_digits near' few least .up
    rw [size] at short rounded
    have point := not_digits_of_isFourteen finite broken (by omega) few near same
    obtain ⟨above, below⟩ := exponent_bounds low high few least same
    have unmarked : ¬ (e < -4 ∨ 14 ≤ e) := by omega
    rw [generalText_eq rounded low high, if_neg unmarked, point, if_neg nofun]
    exact shown_eq digits (by omega) (short.trans same.symm)

theorem kinds (x : Float) : x.isFinite = true ∨ x.isFinite = false ∧ x.isInf = true ∧ x.isNaN = false ∨
    x.isFinite = false ∧ x.isInf = false ∧ x.isNaN = true := by
  rw [Float.isFinite, Float.isInf, Float.isNaN, Float.Model.isFinite, Float.Model.isInf, Float.Model.isNaN]
  cases x.toModel.unpack <;>
    simp [Float.Model.UnpackedFloat.isFinite, Float.Model.UnpackedFloat.isInf, Float.Model.UnpackedFloat.isNaN]

/-- Where the host's text of a double is that of a script. -/
theorem numberText_eq_floatText_iff (x : Float) : HostValue.numberText x = floatText x ↔
    x.isInf = true ∨ x.isFinite = true ∧ whole? x = none ∧ IsFourteen x := by
  rcases kinds x with finite | ⟨infinite, isInf, number⟩ | ⟨infinite, isInf, number⟩
  · rw [isInf_of_isFinite finite]
    cases broken : whole? x with
    | some i => simpa using numberText_ne_of_whole? broken
    | none =>
      rw [HostValue.numberText, broken]
      simpa [finite] using plain_eq_floatText_iff finite broken
  · have broken : whole? x = none := by simp [whole?, infinite]
    rw [HostValue.numberText, broken, floatText, number, general, number, isInf, Layout.text, number, isInf]
    cases isNegative x <;> simp
  · have broken : whole? x = none := by simp [whole?, infinite]
    rw [HostValue.numberText, broken, floatText, number, Layout.text, number, isInf, infinite]
    simp

/-- The numbers of which both sides write the same text: all integers, and of the doubles the infinite ones and those that
are no integers, not below a ten-thousandth and have at most fourteen digits. -/
def PrintsAlike : Number → Prop
  | .int _ => True
  | .float x => x.isInf = true ∨ x.isFinite = true ∧ whole? x = none ∧ IsFourteen x

end Number

open Capability (textArg)

/-- A number that crosses to the host is taken for a text there, and which numbers have the text that `tostring` gives
their script. -/
theorem textArg_number {World : Type} {tables : Nat → Table} {levels : Nat} {n : Number} {v : HostValue}
    (crosses : Bridge.toHost tables levels (.number n) = .ok v) {args : List HostValue} {i : Nat} (given : args[i]? = some v)
    (call : String) (s : State World) :
    Eval.run (Eval.textOf (.number n)) s = some (.ok n.text.toUTF8, s) ∧
      ∃ text, textArg call args i = .ok text ∧ (text = n.text ↔ n.PrintsAlike) := by
  obtain ⟨x, rfl, alike⟩ : ∃ x, v = .number x ∧ (HostValue.numberText x = n.text ↔ n.PrintsAlike) := by
    cases n with
    | int i =>
      rw [Bridge.toHost] at crosses
      split at crosses
      · rename_i exact
        cases crosses
        refine ⟨_, rfl, iff_of_true ?_ trivial⟩
        rw [HostValue.numberText, whole?_ofInt exact, Int64.ofInt_toInt]
        rfl
      · cases crosses
    | float x =>
      rw [Bridge.toHost] at crosses
      cases crosses
      exact ⟨x, rfl, Number.numberText_eq_floatText_iff x⟩
  refine ⟨rfl, HostValue.numberText x, ?_, alike⟩
  rw [textArg, given]
  simp [HostValue.text, HostValue.writeText]

theorem textArg_number_largest :
    Bridge.toHost (fun _ => {}) 0 (.number (.int 9007199254740992)) = .ok (.number (ofInt 9007199254740992)) ∧
      textArg "fs.write" [.str "a.txt", .number (ofInt 9007199254740992)] 1 = .ok "9007199254740992" ∧
      Eval.run (Eval.textOf (.number (.int 9007199254740992))) (State.initial ()) =
        some (.ok "9007199254740992".toUTF8, State.initial ()) := by
  have crosses : Bridge.toHost (fun _ => {}) 0 (.number (.int 9007199254740992)) = .ok (.number (ofInt 9007199254740992)) := rfl
  have given : [HostValue.str "a.txt", .number (ofInt 9007199254740992)][1]? = some (.number (ofInt 9007199254740992)) := rfl
  obtain ⟨told, text, taken, alike⟩ := textArg_number crosses given "fs.write" (State.initial ())
  obtain rfl := alike.mpr trivial
  exact ⟨crosses, taken, told⟩

/-- A third has fourteen digits for a script and sixteen for the host. -/
theorem textArg_third :
    Bridge.toHost (fun _ => {}) 0 (.number (.float (Float.ofBits 0x3FD5555555555555))) =
        .ok (.number (Float.ofBits 0x3FD5555555555555)) ∧
      textArg "fs.write" [.str "a.txt", .number (Float.ofBits 0x3FD5555555555555)] 1 = .ok "0.3333333333333333" ∧
      Eval.run (Eval.textOf (.number (.float (Float.ofBits 0x3FD5555555555555)))) (State.initial ()) =
        some (.ok "0.33333333333333".toUTF8, State.initial ()) ∧
      "0.3333333333333333" ≠ "0.33333333333333" := by
  have taken : HostValue.numberText (Float.ofBits 0x3FD5555555555555) = "0.3333333333333333" := by decide +kernel
  have finite : (Float.ofBits 0x3FD5555555555555).isFinite = true := by decide +kernel
  have told : Number.floatText (Float.ofBits 0x3FD5555555555555) = "0.33333333333333" :=
    String.toList_inj.mp ((Number.floatText_toList finite).trans (by decide +kernel))
  refine ⟨rfl, ?_, ?_, by decide⟩
  · rw [← taken]
    simp [textArg, HostValue.text, HostValue.writeText]
  · rw [← told]
    rfl

end Guest

end ScriptTools
