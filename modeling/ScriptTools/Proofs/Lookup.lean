import Mathlib.Data.List.Nodup

/-!
Lists of entries with distinct keys.
-/

namespace ScriptTools

variable {α β : Type}

section Pairs

variable [BEq α] [LawfulBEq α] {entries : List (α × β)} {k : α} {v : β}

/-- With distinct keys, what is found at a key is what stands there. -/
theorem lookup_eq_some_iff (distinct : (entries.map Prod.fst).Nodup) : entries.lookup k = some v ↔ (k, v) ∈ entries := by
  induction entries with
  | nil => simp
  | cons entry entries ih =>
    obtain ⟨j, u⟩ := entry
    obtain ⟨fresh, distinct⟩ := List.nodup_cons.mp distinct
    by_cases same : k = j
    · subst same
      have none : (k, v) ∉ entries := fun member => fresh (List.mem_map.mpr ⟨_, member, rfl⟩)
      simp [none, eq_comm]
    · have other : (k == j) = false := beq_eq_false_iff_ne.mpr same
      simp [List.lookup_cons, other, ih distinct, same]

theorem lookup_eq_none_iff : entries.lookup k = none ↔ k ∉ entries.map Prod.fst := by
  rw [List.lookup_eq_none_iff, List.mem_map]
  constructor
  · rintro none ⟨entry, member, rfl⟩
    simpa using none entry member
  · intro absent entry member
    exact bne_iff_ne.mpr fun same => absent ⟨entry, member, same.symm⟩

end Pairs

/-- With distinct keys, an entry is what is found by its key. -/
theorem find?_of_mem [DecidableEq α] {key : β → α} {entries : List β} (distinct : (entries.map key).Nodup) {b : β}
    (member : b ∈ entries) : (entries.find? fun c => key c = key b) = some b := by
  induction entries with
  | nil => cases member
  | cons c entries ih =>
    rw [List.map_cons, List.nodup_cons] at distinct
    rcases List.mem_cons.mp member with rfl | member
    · rw [List.find?_cons_of_pos (by simp)]
    · have other : key c ≠ key b := fun same => distinct.1 (same ▸ List.mem_map_of_mem member)
      rw [List.find?_cons_of_neg (by simpa using other), ih distinct.2 member]

end ScriptTools
