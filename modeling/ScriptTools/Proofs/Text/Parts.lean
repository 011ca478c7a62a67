import Mathlib.Data.List.Basic
import ScriptTools.Text.Basic

/-!
Parts of a text and pieces of it: a text starts or ends with another at a separator when its parts start or end with
those of the other.
-/

namespace ScriptTools.Text

section List

variable {α : Type} [DecidableEq α] {sep : α} {xs ys : List α}

theorem splitOn_inj : xs.splitOn sep = ys.splitOn sep ↔ xs = ys := by
  constructor
  · intro same
    have back (zs : List α) : [sep].intercalate (zs.splitOn sep) = zs := List.intercalate_splitOn sep
    rw [← back xs, same, back]
  · rintro rfl
    rfl

omit [DecidableEq α] in
theorem intercalate_append {front back : List (List α)} (some : front ≠ []) (more : back ≠ []) :
    [sep].intercalate (front ++ back) = [sep].intercalate front ++ sep :: [sep].intercalate back := by
  induction front with
  | nil => exact absurd rfl some
  | cons part front ih =>
    by_cases last : front = []
    · rw [last, List.singleton_append, List.intercalate_cons_of_ne_nil more, List.intercalate_singleton, List.append_assoc,
        List.singleton_append]
    · rw [List.cons_append, List.intercalate_cons_of_ne_nil (by simp [last]), ih last, List.intercalate_cons_of_ne_nil last]
      simp

theorem splitOn_append_single (single : sep ∉ ys) : (xs ++ sep :: ys).splitOn sep = xs.splitOn sep ++ [ys] := by
  rw [List.splitOn_append_cons_self, List.splitOn_eq_singleton single]

/-- Where the parts are taken in two a separator stands between what they make up. -/
theorem eq_of_splitOn {front back : List (List α)} (split : xs.splitOn sep = front ++ back) (some : front ≠ [])
    (more : back ≠ []) : xs = [sep].intercalate front ++ sep :: [sep].intercalate back := by
  rw [← intercalate_append some more, ← split, List.intercalate_splitOn]

/-- A list has the parts of another at its front when it is the other or goes on there after a separator. -/
theorem splitOn_prefix_iff : ys.splitOn sep <+: xs.splitOn sep ↔ xs = ys ∨ ys ++ [sep] <+: xs := by
  constructor
  · rintro ⟨more, whole⟩
    by_cases last : more = []
    · rw [last, List.append_nil] at whole
      exact .inl (splitOn_inj.mp whole).symm
    · refine .inr ⟨[sep].intercalate more, ?_⟩
      rw [eq_of_splitOn whole.symm (List.splitOn_ne_nil _ _) last, List.intercalate_splitOn, List.append_assoc,
        List.singleton_append]
  · rintro (rfl | ⟨rest, rfl⟩)
    · exact List.prefix_rfl
    · rw [List.append_assoc, List.singleton_append, List.splitOn_append_cons_self]
      exact List.prefix_append ..

theorem splitOn_suffix_iff : ys.splitOn sep <:+ xs.splitOn sep ↔ xs = ys ∨ sep :: ys <:+ xs := by
  constructor
  · rintro ⟨more, whole⟩
    by_cases first : more = []
    · rw [first, List.nil_append] at whole
      exact .inl (splitOn_inj.mp whole).symm
    · refine .inr ⟨[sep].intercalate more, ?_⟩
      rw [eq_of_splitOn whole.symm first (List.splitOn_ne_nil _ _), List.intercalate_splitOn]
  · rintro (rfl | ⟨rest, rfl⟩)
    · exact List.suffix_rfl
    · rw [List.splitOn_append_cons_self]
      exact List.suffix_append ..

theorem not_mem_of_mem_splitOn {part : List α} (member : part ∈ xs.splitOn sep) : sep ∉ part := by
  induction xs generalizing part with
  | nil =>
    rw [List.splitOn_nil, List.mem_singleton] at member
    simp [member]
  | cons x xs ih =>
    rw [List.splitOn_cons_eq_if_modifyHead] at member
    split at member
    · rcases List.mem_cons.mp member with rfl | member
      · exact List.not_mem_nil
      · exact ih member
    · rename_i other
      obtain ⟨first, rest, split⟩ := List.exists_cons_of_ne_nil (List.splitOn_ne_nil sep xs)
      rw [split, List.modifyHead_cons] at member
      rcases List.mem_cons.mp member with rfl | member
      · rw [List.mem_cons, not_or]
        exact ⟨fun same => other (by simp [same]), ih (by simp [split])⟩
      · exact ih (by simp [split, member])

/-- A list that does not end in an empty part does not end in the separator. -/
theorem getLast?_ne_of_splitOn (last : [] ∉ (xs.splitOn sep).getLast?) : xs.getLast? ≠ some sep := by
  intro ends
  obtain ⟨front, rfl⟩ := List.getLast?_eq_some_iff.mp ends
  rw [List.splitOn_append_cons_self] at last
  exact last (by simp)

/-- Parts are taken before or after a change that makes nothing else the separator. -/
theorem splitOn_map {β : Type} [DecidableEq β] {f : α → β} (same : ∀ a, f a = f sep ↔ a = sep) :
    (xs.map f).splitOn (f sep) = (xs.splitOn sep).map (List.map f) := by
  induction xs with
  | nil => simp
  | cons x xs ih =>
    obtain ⟨first, rest, split⟩ := List.exists_cons_of_ne_nil (List.splitOn_ne_nil sep xs)
    rw [List.map_cons, List.splitOn_cons_eq_if_modifyHead, List.splitOn_cons_eq_if_modifyHead, ih, split]
    by_cases this : x = sep <;> simp [this, same]

end List

/-! Texts -/

variable {sep : Char}

theorem map_toList_parts (text : String) : (parts sep text).map String.toList = text.toList.splitOn sep := by
  simp [parts, Function.comp_def]

theorem parts_intercalate {texts : List String} (single : ∀ t ∈ texts, sep ∉ t.toList) (some : texts ≠ []) :
    parts sep ((String.singleton sep).intercalate texts) = texts := by
  rw [parts, String.toList_intercalate, String.toList_singleton, List.splitOn_intercalate sep (by simpa using single)
    (by simpa using some), List.map_map]
  simp [Function.comp_def]

end ScriptTools.Text
