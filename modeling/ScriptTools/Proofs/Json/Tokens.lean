import ScriptTools.Proofs.Json.Scalars

/-!
The numbers of a document are tokens of its text, so each of them has digits where there must be some.
-/

namespace ScriptTools.Json

namespace Document

/-- Whether a number stands somewhere in a document. -/
inductive Has (n : NumberToken) : Document → Prop where
  | number : Has n (.number n)
  | item {d : Document} {items : List Document} : d ∈ items → Has n d → Has n (.array items)
  | member {f : Option String × Document} {fields : List (Option String × Document)} :
      f ∈ fields → Has n f.2 → Has n (.object fields)

variable {n m : NumberToken} {d : Document} {items : List Document} {fields : List (Option String × Document)}

@[simp]
theorem has_number : Has n (.number m) ↔ m = n :=
  ⟨by rintro ⟨⟩; rfl, by rintro rfl; exact .number⟩

@[simp]
theorem has_array : Has n (.array items) ↔ ∃ d ∈ items, Has n d :=
  ⟨by rintro ⟨⟩; exact ⟨_, ‹_›, ‹_›⟩, by rintro ⟨d, member, has⟩; exact .item member has⟩

@[simp]
theorem has_object : Has n (.object fields) ↔ ∃ f ∈ fields, Has n f.2 :=
  ⟨by rintro ⟨⟩; exact ⟨_, ‹_›, ‹_›⟩, by rintro ⟨f, member, has⟩; exact .member member has⟩

@[simp]
theorem not_has_null : ¬ Has n .null := nofun

@[simp]
theorem not_has_boolean {b : Bool} : ¬ Has n (.boolean b) := nofun

@[simp]
theorem not_has_string {s : Option String} : ¬ Has n (.string s) := nofun

/-- The part of a document that an open bracket holds. -/
def Open.closed : Open → Document
  | .array done => .array done
  | .object done _ => .object done

/-- The part of a document that has just been read. -/
def Expects.read? : Expects → Option Document
  | .afterValue d => some d
  | _ => none

/-- What stands in a document has been read before or is still to come. -/
theorem has_of_build {expects : Expects} {fields : List (Option String × Document)} {stack : List Open} {ts : List Token}
    {d : Document} (built : build expects fields stack ts = some d) (has : d.Has n) :
    (∃ d ∈ expects.read?, Has n d) ∨ (∃ f ∈ fields, Has n f.2) ∨ (∃ o ∈ stack, Has n o.closed) ∨ .number n ∈ ts := by
  induction ts generalizing expects fields stack with
  | nil =>
    rw [build.eq_def] at built
    dsimp only at built
    split at built
    · cases built
      exact .inl ⟨_, rfl, has⟩
    · cases built
  | cons t ts ih =>
    -- A token moves what has been read to another of the places, and adds a number only if it is that number.
    rw [build.eq_def] at built
    dsimp only at built
    repeat' split at built
    all_goals first
      | cases built
      | have before := ih built
        simp only [Expects.read?, Open.closed, has_number, has_array, has_object, not_has_null, not_has_boolean,
          not_has_string, Token.number.injEq, Option.mem_def, Option.some.injEq, reduceCtorEq, exists_eq_left',
          exists_eq_or_imp, exists_or_eq_imp, exists_const, List.reverse_cons, List.mem_reverse, List.mem_append,
          List.mem_cons, List.not_mem_nil, Prod.exists, false_and, false_or, or_false] at before ⊢
        grind

end Document

theorem Token.Spaced.isNumber {cs : List Char} {ts : List Token} (spaced : Spaced cs ts) {n : NumberToken}
    (member : .number n ∈ ts) : IsNumber n := by
  induction spaced with
  | nil => cases member
  | blank _ _ ih => exact ih member
  | token scanned _ ih =>
    rcases List.mem_cons.mp member with rfl | later
    · exact (scan_eq_number scanned).1
    · exact ih later

/-- The numbers of a document are written with digits. -/
theorem isNumber_of_read? {text : String} {d : Document} {n : NumberToken} (read : Document.read? text = some d)
    (has : d.Has n) : Token.IsNumber n := by
  obtain ⟨ts, tokens, built⟩ := Option.bind_eq_some_iff.mp read
  obtain ⟨us, rfl, spaced⟩ := Token.spaced_of_readFrom tokens
  have origin := Document.has_of_build built has
  simp only [Document.Expects.read?, Option.not_mem_none, List.not_mem_nil, false_and,
    exists_false, false_or] at origin
  exact spaced.isNumber origin

end ScriptTools.Json
