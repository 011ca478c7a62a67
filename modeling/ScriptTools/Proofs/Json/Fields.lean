import Mathlib.Data.List.Nodup
import Mathlib.Data.List.Perm.Subperm
import Mathlib.Data.String.Basic
import ScriptTools.Json.Basic
import ScriptTools.Proofs.Lookup

/-!
The fields of objects: their names ascend strictly, and under each name stands what was written last for it.
-/

namespace ScriptTools.Json

variable {α : Type} {fields : List (String × α)} {name : String}

theorem lookup_eq_head? (fields : List (String × α)) (name : String) :
    fields.lookup name = ((fields.filter fun f => name == f.1).head?).map Prod.snd := by
  induction fields with
  | nil => rfl
  | cons field fields ih =>
    rw [List.lookup_cons, List.filter_cons, ih]
    cases name == field.1 <;> rfl

theorem lookup_singleton (field : String × α) (name : String) :
    [field].lookup name = if name = field.1 then some field.2 else none := by
  by_cases same : name = field.1
  · subst same
    rw [if_pos rfl]
    exact List.lookup_cons_self
  · have other : (name == field.1) = false := beq_false_of_ne same
    rw [if_neg same, List.lookup_cons, other]
    rfl

/-- Sorting keeps the order of fields with one name. -/
theorem filter_mergeSort (fields : List (String × α)) (name : String) :
    (fields.mergeSort fun a b => a.1 ≤ b.1).filter (fun f => name == f.1) = fields.filter fun f => name == f.1 := by
  have alike : (fields.filter fun f => name == f.1).Pairwise fun a b => decide (a.1 ≤ b.1) = true := by
    refine List.pairwise_of_forall_mem_list fun a first b second => decide_eq_true ?_
    rw [← beq_iff_eq.mp (List.mem_filter.mp first).2, ← beq_iff_eq.mp (List.mem_filter.mp second).2]
  have kept := (List.sublist_mergeSort (fun a b c => by simpa using le_trans)
    (fun a b => by simpa using le_total a.1 b.1) alike List.filter_sublist).filter fun f => name == f.1
  rw [List.filter_filter, funext fun f => Bool.and_self _] at kept
  exact (kept.eq_of_length ((List.mergeSort_perm fields _).filter _).length_eq.symm).symm

theorem lookup_keepLast (ordered : fields.Pairwise fun a b => a.1 ≤ b.1) :
    (keepLast fields).lookup name = fields.reverse.lookup name := by
  fun_induction keepLast fields with
  | case1 => rfl
  | case2 => rfl
  | case3 field next rest same ih =>
    rw [ih (List.pairwise_cons.mp ordered).2, List.reverse_cons (a := field), List.lookup_append]
    by_cases here : name = next.1
    · have found : ((next :: rest).reverse.lookup name).isSome = true :=
        List.lookup_isSome_iff.mpr ⟨next, by simp, by simp [here]⟩
      rw [Option.or_of_isSome found]
    · rw [lookup_singleton, if_neg (same ▸ here), Option.or_none]
  | case4 field next rest other ih =>
    obtain ⟨first, later⟩ := List.pairwise_cons.mp ordered
    rw [List.lookup_cons, ih later, List.reverse_cons (a := field), List.lookup_append]
    by_cases here : name = field.1
    · have after : (next :: rest).reverse.lookup name = none := by
        rw [List.lookup_eq_none_iff]
        intro f member
        have low : next.1 ≤ f.1 := by
          rcases List.mem_cons.mp (List.mem_reverse.mp member) with rfl | inside
          · exact le_rfl
          · exact (List.pairwise_cons.mp later).1 f inside
        have less : field.1 < f.1 := lt_of_lt_of_le (lt_of_le_of_ne (first next (by simp)) other) low
        exact bne_iff_ne.mpr (here ▸ less.ne)
      rw [after, lookup_singleton, if_pos here, beq_iff_eq.mpr here]
      rfl
    · rw [lookup_singleton, if_neg here, Option.or_none, beq_false_of_ne here]

theorem ordered_mergeSort {β : Type} [LinearOrder β] (f : α → β) (as : List α) :
    (as.mergeSort fun a b => f a ≤ f b).Pairwise fun a b => f a ≤ f b :=
  (List.pairwise_mergeSort (fun a b c => by simpa using le_trans) (fun a b => by simpa using le_total (f a) (f b))
    as).imp of_decide_eq_true

/-- Under a name stands what was written last for it. -/
theorem lookup_sortFields (fields : List (String × α)) (name : String) :
    (sortFields fields).lookup name = fields.reverse.lookup name := by
  rw [sortFields, lookup_keepLast (ordered_mergeSort Prod.fst fields), lookup_eq_head?, lookup_eq_head?, List.filter_reverse,
    List.filter_reverse, filter_mergeSort]

theorem lookup_sortFields_iff {v : α} (distinct : (fields.map Prod.fst).Nodup) :
    (sortFields fields).lookup name = some v ↔ (name, v) ∈ fields := by
  have reversed : (fields.reverse.map Prod.fst).Nodup := by rwa [List.map_reverse, List.nodup_reverse]
  rw [lookup_sortFields, ScriptTools.lookup_eq_some_iff reversed, List.mem_reverse]

theorem mem_names_sortFields : name ∈ (sortFields fields).map Prod.fst ↔ name ∈ fields.map Prod.fst := by
  rw [← not_iff_not, ← lookup_eq_none_iff, ← lookup_eq_none_iff, lookup_sortFields, lookup_eq_none_iff,
    lookup_eq_none_iff, List.map_reverse, List.mem_reverse]

theorem lookup_sortFields_append (fields later : List (String × α)) (name : String) :
    (sortFields (fields ++ later)).lookup name = (later.reverse.lookup name).or (fields.reverse.lookup name) := by
  rw [lookup_sortFields, List.reverse_append, List.lookup_append]

theorem mem_keepLast {field : String × α} (member : field ∈ keepLast fields) : field ∈ fields := by
  fun_induction keepLast fields with
  | case1 => exact member
  | case2 => exact member
  | case3 _ _ _ _ ih => exact .tail _ (ih member)
  | case4 field next rest _ ih =>
    rcases List.mem_cons.mp member with rfl | later
    · exact .head _
    · exact .tail _ (ih later)

/-- The names in an object ascend strictly, so that each is there once. -/
theorem ascending_sortFields (fields : List (String × α)) :
    (sortFields fields).Pairwise fun a b => a.1 < b.1 := by
  have kept {fields : List (String × α)} (ordered : fields.Pairwise fun a b => a.1 ≤ b.1) :
      (keepLast fields).Pairwise fun a b => a.1 < b.1 := by
    fun_induction keepLast fields with
    | case1 => exact .nil
    | case2 => simp
    | case3 _ _ _ _ ih => exact ih (List.pairwise_cons.mp ordered).2
    | case4 field next rest other ih =>
      obtain ⟨first, later⟩ := List.pairwise_cons.mp ordered
      refine List.pairwise_cons.mpr ⟨fun f member => ?_, ih later⟩
      have less : field.1 < next.1 := lt_of_le_of_ne (first next (by simp)) other
      rcases List.mem_cons.mp (mem_keepLast member) with rfl | inside
      · exact less
      · exact lt_of_lt_of_le less ((List.pairwise_cons.mp later).1 f inside)
  exact kept (ordered_mergeSort Prod.fst fields)

/-- What names an object has does not depend on the values. -/
theorem names_sortFields_congr {β : Type} {others : List (String × β)}
    (same : fields.map Prod.fst = others.map Prod.fst) :
    (sortFields fields).map Prod.fst = (sortFields others).map Prod.fst := by
  have ascending {γ : Type} (fields : List (String × γ)) : ((sortFields fields).map Prod.fst).Pairwise (· < ·) :=
    List.pairwise_map.mpr (ascending_sortFields fields)
  have together : ((sortFields fields).map Prod.fst).Perm ((sortFields others).map Prod.fst) := by
    refine (List.perm_ext_iff_of_nodup ((ascending _).imp ne_of_lt) ((ascending _).imp ne_of_lt)).mpr fun name => ?_
    rw [mem_names_sortFields, mem_names_sortFields, same]
  exact together.eq_of_pairwise (fun _ _ _ _ less more => absurd (less.trans more) (lt_irrefl _)) (ascending _)
    (ascending _)

/-- A list that ascends strictly is what any of its permutations is sorted to. -/
theorem mergeSort_eq_of_perm {β : Type} [LinearOrder β] {f : α → β} {as sorted : List α} (perm : as.Perm sorted)
    (ascending : sorted.Pairwise fun a b => f a < f b) : (as.mergeSort fun a b => f a ≤ f b) = sorted := by
  have together : (as.mergeSort fun a b => f a ≤ f b).Perm sorted := (List.mergeSort_perm _ _).trans perm
  refine together.eq_of_pairwise ?_ (ordered_mergeSort f as) (ascending.imp le_of_lt)
  intro a b first second low high
  have distinct : (sorted.map f).Nodup := List.pairwise_map.mpr (ascending.imp ne_of_lt)
  exact List.inj_on_of_nodup_map distinct (together.subset first) second (le_antisymm low high)

/-- Distinct keys are sorted to strictly ascending ones. -/
theorem ascending_mergeSort {β : Type} [LinearOrder β] {f : α → β} {as : List α} (distinct : (as.map f).Nodup) :
    (as.mergeSort fun a b => f a ≤ f b).Pairwise fun a b => f a < f b := by
  have apart : (as.mergeSort fun a b => f a ≤ f b).Pairwise fun a b => f a ≠ f b :=
    List.pairwise_map.mp (((List.mergeSort_perm as _).map f).nodup_iff.mpr distinct)
  exact ((ordered_mergeSort f as).and apart).imp fun both => lt_of_le_of_ne both.1 both.2

theorem keepLast_of_ascending (ascending : fields.Pairwise fun a b => a.1 < b.1) :
    keepLast fields = fields := by
  fun_induction keepLast fields with
  | case1 => rfl
  | case2 => rfl
  | case3 field next rest same ih =>
    have less := (List.pairwise_cons.mp ascending).1 next (by simp)
    exact absurd same less.ne
  | case4 field next rest other ih => rw [ih (List.pairwise_cons.mp ascending).2]

theorem sortFields_eq_of_perm {sorted : List (String × α)} (perm : fields.Perm sorted)
    (ascending : sorted.Pairwise fun a b => a.1 < b.1) : sortFields fields = sorted := by
  rw [sortFields, mergeSort_eq_of_perm perm ascending, keepLast_of_ascending ascending]

theorem length_sortFields_le (fields : List (String × α)) : (sortFields fields).length ≤ fields.length := by
  have kept (fields : List (String × α)) : (keepLast fields).length ≤ fields.length := by
    fun_induction keepLast fields with
    | case1 => exact Nat.le_refl _
    | case2 => exact Nat.le_refl _
    | case3 field next rest same ih => exact ih.trans (Nat.le_succ _)
    | case4 field next rest other ih => exact Nat.succ_le_succ ih
  simpa [sortFields] using kept (fields.mergeSort fun a b => a.1 ≤ b.1)

theorem sortFields_perm (distinct : (fields.map Prod.fst).Nodup) :
    (sortFields fields).Perm fields := by
  rw [sortFields, keepLast_of_ascending (ascending_mergeSort distinct)]
  exact List.mergeSort_perm fields _

/-- Sorting loses no field exactly if the names are distinct. -/
theorem length_sortFields_iff :
    (sortFields fields).length = fields.length ↔ (fields.map Prod.fst).Nodup := by
  constructor
  · intro full
    have distinct : ((sortFields fields).map Prod.fst).Nodup :=
      List.pairwise_map.mpr ((ascending_sortFields fields).imp ne_of_lt)
    have inside : (sortFields fields).map Prod.fst ⊆ fields.map Prod.fst := fun _ member =>
      mem_names_sortFields.mp member
    have perm := (distinct.subperm inside).perm_of_length_le (by simp [full])
    exact perm.nodup_iff.mp distinct
  · exact fun distinct => (sortFields_perm distinct).length_eq

end ScriptTools.Json
