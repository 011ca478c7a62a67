import ScriptTools.Json.Printer
import ScriptTools.Json.Token
import ScriptTools.Proofs.Decimal.Notation

/-!
Numbers in JSON text: what is written for an integer or a finite double is read as one number.
-/

namespace ScriptTools.Json

namespace Token

/-- Whether a text cannot go on a number. -/
def EndsNumber (rest : List Char) : Prop :=
  ∀ c ∈ rest.head?, c.isDigit = false ∧ c ≠ '.' ∧ c ≠ 'e' ∧ c ≠ 'E'

def fractionChars (ds : List Char) : List Char := if ds.isEmpty then [] else '.' :: ds

/-- An exponent is written with its sign. -/
def exponentChars : Option (Bool × List Char) → List Char
  | none => []
  | some (negative, ds) => 'e' :: (if negative then '-' else '+') :: ds

/-- The characters of a number. -/
def numberChars (n : NumberToken) : List Char :=
  (if n.negative then ['-'] else []) ++ (n.whole ++ (fractionChars n.fraction ++ exponentChars n.exponent))

/-- Numbers that can be written: no leading zeros, and digits where there must be some. -/
structure IsNumber (n : NumberToken) : Prop where
  whole : ∀ d ∈ n.whole, d.isDigit = true
  nonempty : n.whole ≠ []
  lead : n.whole.head? = some '0' → n.whole.length = 1
  fraction : ∀ d ∈ n.fraction, d.isDigit = true
  exponent : ∀ negative ds, n.exponent = some (negative, ds) → ds ≠ [] ∧ ∀ d ∈ ds, d.isDigit = true

theorem span_digits {ds rest : List Char} (digits : ∀ d ∈ ds, d.isDigit = true)
    (stop : ∀ c ∈ rest.head?, c.isDigit = false) : (ds ++ rest).span Char.isDigit = (ds, rest) := by
  cases rest with
  | nil =>
    rw [List.append_nil]
    exact Decimal.spanDigits_all digits
  | cons c rest => exact Decimal.spanDigits_append digits (stop c rfl)

theorem scanExponent_chars {exponent : Option (Bool × List Char)} {rest : List Char}
    (digits : ∀ negative ds, exponent = some (negative, ds) → ds ≠ [] ∧ ∀ d ∈ ds, d.isDigit = true)
    (stop : EndsNumber rest) : scanExponent (exponentChars exponent ++ rest) = some (exponent, rest) := by
  cases exponent with
  | none =>
    cases rest with
    | nil => rfl
    | cons c rest =>
      obtain ⟨_, _, lower, upper⟩ := stop c rfl
      simp [exponentChars, scanExponent, lower, upper]
  | some e =>
    obtain ⟨negative, ds⟩ := e
    obtain ⟨more, digits⟩ := digits negative ds rfl
    have spanned := span_digits digits fun c first => (stop c first).1
    cases negative <;> simp_all [exponentChars, scanExponent]

/-- What follows the digits before the point does not go on with digits. -/
theorem head?_tail (fraction : List Char) {exponent : Option (Bool × List Char)} {rest : List Char}
    (stop : EndsNumber rest) :
    ∀ c ∈ (fractionChars fraction ++ (exponentChars exponent ++ rest)).head?, c.isDigit = false := by
  intro c first
  cases fraction with
  | nil =>
    cases exponent with
    | none => exact (stop c first).1
    | some e =>
      cases first
      rfl
  | cons d ds =>
    cases first
    rfl

theorem scanNumber_chars {n : NumberToken} {rest : List Char} (number : IsNumber n) (stop : EndsNumber rest) :
    scanNumber n.negative (n.whole ++ (fractionChars n.fraction ++ (exponentChars n.exponent ++ rest))) =
      some (n, rest) := by
  have scanned := scanExponent_chars number.exponent stop
  have noLead : (n.whole.isEmpty || (n.whole.head? == some '0' && n.whole.length != 1)) = false := by
    simpa [number.nonempty] using number.lead
  rw [scanNumber, span_digits number.whole (head?_tail _ stop)]
  obtain ⟨negative, whole, fraction, exponent⟩ := n
  simp only [noLead, Bool.false_eq_true, if_false]
  cases fraction with
  | nil =>
    have noPoint (more : List Char) : exponentChars exponent ++ rest ≠ '.' :: more := by
      intro point
      cases exponent with
      | none => exact (stop '.' (by rw [show rest = '.' :: more from point]; rfl)).2.1 rfl
      | some e => cases point
    split
    · rename_i more point
      exact absurd point (noPoint more)
    · simp [fractionChars, scanned]
  | cons d ds =>
    have spanned : (d :: ds ++ (exponentChars exponent ++ rest)).span Char.isDigit =
        (d :: ds, exponentChars exponent ++ rest) :=
      span_digits number.fraction (head?_tail [] stop)
    have point : fractionChars (d :: ds) ++ (exponentChars exponent ++ rest) =
        '.' :: (d :: ds ++ (exponentChars exponent ++ rest)) := rfl
    rw [point]
    simp only [spanned]
    simp [scanned]

theorem scan_digit {c : Char} (digit : c.isDigit = true) (rest : List Char) :
    scan c rest = (scanNumber false (c :: rest)).map fun (n, rest) => (.number n, rest) := by
  have ne (d : Char) (other : d.isDigit = false) : c ≠ d := by
    rintro rfl
    rw [digit] at other
    cases other
  unfold scan
  split <;> first | exact absurd rfl (ne _ rfl) | rw [if_pos digit]

/-- The text of a number is one token. -/
theorem scan_number {n : NumberToken} {rest : List Char} (number : IsNumber n) (stop : EndsNumber rest) :
    ∃ c cs, numberChars n ++ rest = c :: cs ∧ scan c cs = some (.number n, rest) := by
  have scanned := scanNumber_chars number stop
  have whole := number.whole
  have nonempty := number.nonempty
  obtain ⟨negative, whole', fraction, exponent⟩ := n
  cases negative with
  | true => exact ⟨'-', _, by simp [numberChars]; rfl, by rw [scan, scanned]; rfl⟩
  | false =>
    obtain ⟨d, ds, rfl⟩ := List.exists_cons_of_ne_nil nonempty
    refine ⟨d, ds ++ (fractionChars fraction ++ (exponentChars exponent ++ rest)), by simp [numberChars], ?_⟩
    rw [scan_digit (whole d (by simp)), ← List.cons_append, scanned]
    rfl

/-! What is written -/

/-- The text of a number without sign. -/
def IsMagnitude (cs : List Char) : Prop := ∃ n, IsNumber n ∧ n.negative = false ∧ numberChars n = cs

/-- The text of a number. -/
def IsNumberText (cs : List Char) : Prop := ∃ n, IsNumber n ∧ numberChars n = cs

theorem IsMagnitude.signed {cs : List Char} (magnitude : IsMagnitude cs) (negative : Bool) :
    IsNumberText ((if negative then ['-'] else []) ++ cs) := by
  obtain ⟨n, number, positive, rfl⟩ := magnitude
  refine ⟨{ n with negative }, ⟨number.whole, number.nonempty, number.lead, number.fraction, number.exponent⟩, ?_⟩
  simp [numberChars, positive]

theorem isMagnitude_digitChars (n : Nat) : IsMagnitude (Decimal.digitChars n) := by
  refine ⟨⟨false, Decimal.digitChars n, [], none⟩, ⟨fun _ => Decimal.isDigit_of_mem_digitChars,
    Decimal.digitChars_ne_nil n, fun lead => ?_, by simp, nofun⟩, rfl, by simp [numberChars, fractionChars, exponentChars]⟩
  rw [Decimal.eq_zero_of_head? lead]
  rfl

/-- The first digits of a number, with zeros where there are none. -/
def filled (count : Nat) (ds : List Char) : List Char :=
  ds.take count ++ List.replicate (count - (ds.take count).length) '0'

theorem filled_length (count : Nat) (ds : List Char) : (filled count ds).length = count := by
  have taken := List.length_take_le count ds
  rw [filled, List.length_append, List.length_replicate]
  omega

theorem filled_digits {ds : List Char} (digits : ∀ d ∈ ds, d.isDigit = true) (count : Nat) :
    ∀ d ∈ filled count ds, d.isDigit = true := by
  intro d member
  rcases List.mem_append.mp member with left | right
  · exact digits d (List.mem_of_mem_take left)
  · exact Decimal.isDigit_of_mem_zeros d right

theorem filled_lead (count : Nat) {ds : List Char} (lead : ds.head? ≠ some '0') (some : count ≠ 1 → ds ≠ []) :
    (filled count ds).head? = .some '0' → (filled count ds).length = 1 := by
  intro first
  rw [filled_length]
  by_contra more
  obtain ⟨d, rest, rfl⟩ := List.exists_cons_of_ne_nil (some more)
  cases count with
  | zero => cases first
  | succ count => exact lead first

theorem isMagnitude_placePoint {ds : List Char} {e : Int} (digits : ∀ d ∈ ds, d.isDigit = true)
    (lead : ds.head? ≠ some '0') (some : e ≠ 0 → ds ≠ []) : IsMagnitude (Decimal.placePoint ds e true) := by
  rw [Decimal.placePoint]
  split
  · rename_i below
    have nonempty := some (by omega)
    refine ⟨⟨false, ['0'], List.replicate ((-e).toNat - 1) '0' ++ ds, none⟩,
      ⟨by simp, by simp, by simp, ?_, nofun⟩, rfl, by simp [numberChars, fractionChars, exponentChars, nonempty]⟩
    intro d member
    rcases List.mem_append.mp member with left | right
    · exact Decimal.isDigit_of_mem_zeros d left
    · exact digits d right
  · rename_i above
    have whole := filled_digits digits (e.toNat + 1)
    have nonempty : filled (e.toNat + 1) ds ≠ [] :=
      List.ne_nil_of_length_pos (by rw [filled_length]; exact Nat.succ_pos _)
    have leads := filled_lead (e.toNat + 1) lead fun more => some (by omega)
    dsimp only
    split
    · exact ⟨⟨false, filled (e.toNat + 1) ds, ['0'], none⟩, ⟨whole, nonempty, leads, by simp, nofun⟩, rfl,
        by simp [numberChars, fractionChars, exponentChars, filled]⟩
    · rename_i more
      refine ⟨⟨false, filled (e.toNat + 1) ds, ds.drop (e.toNat + 1), none⟩,
        ⟨whole, nonempty, leads, fun d member => digits d (List.mem_of_mem_drop member), nofun⟩, rfl, ?_⟩
      simp [numberChars, fractionChars, exponentChars, filled, more]

theorem isMagnitude_placeExponent {ds : List Char} {e : Int} (digits : ∀ d ∈ ds, d.isDigit = true)
    (lead : ds.head? ≠ some '0') (some : ds ≠ []) : IsMagnitude (Decimal.placeExponent ds e true) := by
  obtain ⟨d, more, rfl⟩ := List.exists_cons_of_ne_nil some
  refine ⟨⟨false, [d], more, .some (decide (e < 0), Decimal.digitChars e.natAbs)⟩, ⟨?_, by simp, by simp, ?_, ?_⟩, rfl, ?_⟩
  · intro c member
    exact digits c (by simp_all)
  · exact fun c member => digits c (List.mem_cons_of_mem _ member)
  · intro negative ds same
    cases same
    exact ⟨Decimal.digitChars_ne_nil _, fun _ => Decimal.isDigit_of_mem_digitChars⟩
  · cases more <;> by_cases below : e < 0 <;> simp [Decimal.placeExponent, numberChars, fractionChars, exponentChars, below]

theorem isMagnitude_placed {ds : List Char} {e : Int} (digits : ∀ d ∈ ds, d.isDigit = true)
    (lead : ds.head? ≠ some '0') (some : e ≠ 0 → ds ≠ []) :
    IsMagnitude (if -5 ≤ e ∧ e ≤ 15 then Decimal.placePoint ds e true else Decimal.placeExponent ds e true) := by
  split
  · exact isMagnitude_placePoint digits lead some
  · exact isMagnitude_placeExponent digits lead (some (by omega))

theorem isNumberText_int (i : Int) : IsNumberText (toString i).toList := by
  rw [Decimal.toString_int_toList]
  simpa using (isMagnitude_digitChars i.natAbs).signed (decide (i < 0))

theorem isNumberText_float {x : Float} (finite : x.isFinite = true) : IsNumberText (floatText x).toList := by
  rw [floatText, if_pos finite, Decimal.Layout.text_toList _ finite]
  refine IsMagnitude.signed ?_ _
  split
  · exact ⟨⟨false, ['0'], ['0'], none⟩, ⟨by simp, by simp, by simp, by simp, nofun⟩, rfl, rfl⟩
  · rename_i positive
    exact isMagnitude_placed (Decimal.dropTrailingZeros_digits fun _ => Decimal.isDigit_of_mem_digitChars)
      (Decimal.dropTrailingZeros_lead _) (Decimal.digits_ne_nil_of_exponent positive)

end Token

end ScriptTools.Json
