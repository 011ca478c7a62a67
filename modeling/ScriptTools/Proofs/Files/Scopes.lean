import ScriptTools.Proofs.Files.Confinement
import ScriptTools.Proofs.Text.Parts

/-!
The texts that a policy is asked about. A path is named by its normal form: the names that are left of it with slashes
between them, or a dot when none are left.
-/

namespace ScriptTools.Files

open Disk

/-- What may stand between the slashes of a normal form. -/
structure IsName (name : String) : Prop where
  nonempty : name ≠ ""
  notDot : name ≠ "."
  notUp : name ≠ ".."
  single : '/' ∉ name.toList

instance decidableIsName (name : String) : Decidable (IsName name) :=
  decidable_of_iff (name ≠ "" ∧ name ≠ "." ∧ name ≠ ".." ∧ '/' ∉ name.toList)
    ⟨fun ⟨nonempty, notDot, notUp, single⟩ => ⟨nonempty, notDot, notUp, single⟩,
      fun ⟨nonempty, notDot, notUp, single⟩ => ⟨nonempty, notDot, notUp, single⟩⟩

/-- A dot, or names with slashes between them. -/
def IsScope (scope : String) : Prop := ∃ parts, (∀ name ∈ parts, IsName name) ∧ scopeText parts = scope

variable {parts : List String}

theorem mem_of_normalize {done rest : List String} (run : normalize done rest = some parts) {name : String}
    (member : name ∈ parts) : name ∈ done ∨ name ∈ rest ∧ name ≠ "" := by
  fun_induction normalize done rest with
  | case1 =>
    cases run
    exact .inl (List.mem_reverse.mp member)
  | case2 done part rest skip ih => exact (ih run).imp_right fun inside => ⟨List.mem_cons_of_mem _ inside.1, inside.2⟩
  | case3 => cases run
  | case4 rest _ _ done ih =>
    exact (ih run).imp (List.mem_cons_of_mem _) fun inside => ⟨List.mem_cons_of_mem _ inside.1, inside.2⟩
  | case5 done part rest skip _ ih =>
    rcases ih run with inside | inside
    · rcases List.mem_cons.mp inside with rfl | inside
      · exact .inr ⟨List.mem_cons_self .., fun none => skip (by simp [none])⟩
      · exact .inl inside
    · exact .inr ⟨List.mem_cons_of_mem _ inside.1, inside.2⟩

theorem single_of_mem_parts {text part : String} (member : part ∈ Text.parts '/' text) : '/' ∉ part.toList := by
  obtain ⟨cs, among, rfl⟩ := List.mem_map.mp member
  rw [String.toList_ofList]
  exact Text.not_mem_of_mem_splitOn among

theorem isName_of_normalParts? {text : String} (run : normalParts? text = some parts) : ∀ name ∈ parts, IsName name := by
  intro name member
  obtain ⟨notDot, notUp⟩ := normalParts?_plain run name member
  rw [normalParts?, Option.ite_none_left_eq_some] at run
  obtain ⟨inside, nonempty⟩ := (mem_of_normalize run.2 member).resolve_left List.not_mem_nil
  exact ⟨nonempty, notDot, notUp, single_of_mem_parts inside⟩

theorem normalize_names {done rest : List String} (names : ∀ name ∈ rest, IsName name) :
    normalize done rest = some (done.reverse ++ rest) := by
  induction rest generalizing done with
  | nil => rw [normalize, List.append_nil]
  | cons name rest ih =>
    have first := names name (List.mem_cons_self ..)
    have others : normalize (name :: done) rest = some ((name :: done).reverse ++ rest) :=
      ih fun other member => names other (List.mem_cons_of_mem _ member)
    rw [normalize.eq_def]
    simpa [first.nonempty, first.notDot, first.notUp] using others

theorem parts_scopeText (names : ∀ name ∈ parts, IsName name) (some : parts ≠ []) :
    Text.parts '/' (scopeText parts) = parts := by
  rw [scopeText, if_neg (by simpa using some)]
  exact Text.parts_intercalate (fun name member => (names name member).single) some

theorem isAbsolute_scopeText (names : ∀ name ∈ parts, IsName name) (some : parts ≠ []) :
    isAbsolute (scopeText parts) = false := by
  have whole := parts_scopeText names some
  rw [isAbsolute, beq_eq_false_iff_ne]
  intro slash
  obtain ⟨rest, text⟩ := List.head?_eq_some_iff.mp slash
  rw [Text.parts, text, List.splitOn_cons_eq_if_modifyHead, if_pos (by simp)] at whole
  exact (names "" (by simp [← whole])).nonempty rfl

/-- Names with slashes between them ask for a step for each name. -/
theorem steps_scopeText (names : ∀ name ∈ parts, IsName name) (some : parts ≠ []) : steps (scopeText parts) = parts := by
  have whole := parts_scopeText names some
  have noSlash : (scopeText parts).toList.getLast? ≠ .some '/' := by
    refine Text.getLast?_ne_of_splitOn fun last => ?_
    have among := List.mem_of_getLast? last
    rw [← Text.map_toList_parts, whole, List.mem_map] at among
    obtain ⟨name, member, none⟩ := among
    exact (names name member).nonempty (String.toList_eq_nil_iff.mp none)
  rw [steps, components, whole, if_neg (by simpa using noSlash), List.append_nil, List.filter_eq_self]
  exact fun name member => by simpa using (names name member).nonempty

/-- A normal form is the normal form of its text. -/
theorem normalParts?_scopeText (names : ∀ name ∈ parts, IsName name) : normalParts? (scopeText parts) = some parts := by
  by_cases none : parts = []
  · rw [none]
    decide +kernel
  · have relative := isAbsolute_scopeText names none
    rw [normalParts?, if_neg (by simp [relative]), parts_scopeText names none, normalize_names names]
    rfl

/-- On an empty disk no name is there. -/
theorem named?_empty (names : ∀ name ∈ parts, IsName name) (some : parts ≠ []) : (⟨[]⟩ : Disk).named? parts = none := by
  rw [Option.eq_none_iff_forall_ne_some]
  intro n found
  obtain ⟨place, found⟩ := named?_eq_some.mp found
  obtain ⟨_, leads, there⟩ := locate_eq_ok.mp found
  have absent (name : String) : (⟨[]⟩ : Disk).get? ([] ++ [name]) = none := rfl
  cases leads with
  | here => exact some rfl
  | dot => exact (names "." (by simp)).notDot rfl
  | up => exact (names ".." (by simp)).notUp rfl
  | node _ _ here => cases (absent _).symm.trans here
  | link _ _ here => cases (absent _).symm.trans here
  | stop _ _ here => cases (absent _).symm.trans here
  | fresh => cases (absent _).symm.trans there

theorem staysInside_empty (policy : Policy) (names : ∀ name ∈ parts, IsName name) :
    (⟨[], policy⟩ : Access).staysInside ⟨[]⟩ parts = true := by
  induction parts with
  | nil => rfl
  | cons name above ih =>
    have absent : (⟨[]⟩ : Disk).named? (name :: above).reverse = none :=
      named?_empty (fun n member => names n (List.mem_reverse.mp member)) (by simp)
    rw [Access.staysInside, absent]
    exact ih fun other member => names other (List.mem_cons_of_mem _ member)

/-- The texts that the policy can be asked about are the dot and the names with slashes between them. -/
theorem isScope_iff_resolve {scope : String} :
    IsScope scope ↔ ∃ (a : Access) (d : Disk) (text : String) (full : Path) (parts : List String),
      a.resolve d text = .ok (full, parts) ∧ scopeText parts = scope := by
  constructor
  · rintro ⟨parts, names, rfl⟩
    refine ⟨⟨[], Policy.restrictive⟩, ⟨[]⟩, scopeText parts, parts, parts, ?_, rfl⟩
    rw [Access.resolve, normalParts?_scopeText names]
    exact if_pos (staysInside_empty _ (by simpa using names))
  · rintro ⟨a, d, text, full, parts, run, rfl⟩
    exact ⟨parts, isName_of_normalParts? (Access.resolve_eq_ok run).2.1, rfl⟩

end ScriptTools.Files
