import ScriptTools.Guest.Table
import ScriptTools.Proofs.Lookup

/-!
Slots as lists of entries with distinct keys, whether they are searched one by one or by an index.
-/

namespace ScriptTools.Guest.Slots

variable {s : Slots} {k j : Key} {v : Value} {i : Nat}

def keys (s : Slots) : List Key := s.entries.toList.map Prod.fst

theorem keys_length (s : Slots) : s.keys.length = s.entries.size := by simp [keys]

/-- No key stands in two slots, and when there are many slots the index knows the place of each key. -/
structure IsIndexed (s : Slots) : Prop where
  distinct : s.keys.Nodup
  index : searchLimit < s.entries.size → ∀ (k : Key) (i : Nat), s.index[k]? = some i ↔ s.keys[i]? = some k

theorem isIndexed_empty : IsIndexed {} := ⟨List.nodup_nil, fun many => absurd many (by decide)⟩

theorem IsIndexed.position?_eq_some (indexed : s.IsIndexed) : s.position? k = some i ↔ s.keys[i]? = some k := by
  unfold position?
  split
  next few =>
    rw [Array.findIdx?_eq_some_iff_getElem, keys, List.getElem?_map, Option.map_eq_some_iff]
    constructor
    · rintro ⟨bound, here, _⟩
      exact ⟨s.entries[i], by simp [bound], eq_of_beq here⟩
    · rintro ⟨entry, here, rfl⟩
      obtain ⟨bound, rfl⟩ := Array.getElem?_eq_some_iff.mp (Array.getElem?_toList ▸ here)
      refine ⟨bound, beq_self_eq_true _, fun before earlier same => ?_⟩
      have inKeys : i < s.keys.length := by rwa [keys_length]
      have both : s.keys[before] = s.keys[i] := by simpa [keys] using same
      have := indexed.distinct.getElem_inj_iff.mp both
      omega
  next many => exact indexed.index (Nat.not_le.mp many) k i

theorem IsIndexed.position?_eq_none (indexed : s.IsIndexed) : s.position? k = none ↔ k ∉ s.keys := by
  rw [Option.eq_none_iff_forall_not_mem, List.mem_iff_getElem?]
  simp [indexed.position?_eq_some]

theorem IsIndexed.get_eq (indexed : s.IsIndexed) (k : Key) : s.get k = (s.entries.toList.lookup k).getD .nil := by
  unfold get
  cases found : s.position? k with
  | none =>
    have absent := indexed.position?_eq_none.mp found
    simp [lookup_eq_none_iff.mpr absent]
  | some i =>
    have here := indexed.position?_eq_some.mp found
    rw [keys, List.getElem?_map, Option.map_eq_some_iff] at here
    obtain ⟨⟨_, v⟩, here, rfl⟩ := here
    have found : s.entries.toList.lookup _ = some v := (lookup_eq_some_iff indexed.distinct).mpr (List.mem_of_getElem? here)
    rw [Array.getElem?_toList] at here
    simp [here, found]

theorem IsIndexed.get_of_not_mem (indexed : s.IsIndexed) (absent : k ∉ s.keys) : s.get k = .nil := by
  rw [indexed.get_eq, lookup_eq_none_iff.mpr absent, Option.getD_none]

/-- The entries that are there are those that a search finds. -/
theorem IsIndexed.mem_live_iff (indexed : s.IsIndexed) : (k, v) ∈ s.live ↔ v.isNil = false ∧ s.get k = v := by
  rw [live, List.mem_filter, ← lookup_eq_some_iff indexed.distinct, indexed.get_eq]
  cases s.entries.toList.lookup k with
  | none => cases v <;> simp [Value.isNil]
  | some u => simp [and_comm]

theorem IsIndexed.keys_live_nodup (indexed : s.IsIndexed) : (s.live.map Prod.fst).Nodup :=
  indexed.distinct.sublist (List.filter_sublist.map _)

theorem keys_push (s : Slots) (k : Key) (v : Value) : (s.push k v).keys = s.keys ++ [k] := by
  unfold push
  dsimp only
  split
  · simp [keys]
  · split <;> simp [keys]

theorem entries_push (s : Slots) (k : Key) (v : Value) : (s.push k v).entries = s.entries.push (k, v) := by
  unfold push
  dsimp only
  split
  · rfl
  · split <;> rfl

/-- An index of entries with distinct keys knows their places, counted from where it starts. -/
theorem indexFrom_getElem? {entries : List (Key × Value)} (distinct : (entries.map Prod.fst).Nodup)
    (index : Std.HashMap Key Nat) (start : Nat) (k : Key) :
    (indexFrom index start entries)[k]? =
      if k ∈ entries.map Prod.fst then some (start + (entries.map Prod.fst).idxOf k) else index[k]? := by
  induction entries generalizing index start with
  | nil => simp [indexFrom]
  | cons entry entries ih =>
    obtain ⟨fresh, distinct⟩ := List.nodup_cons.mp distinct
    rw [indexFrom, ih distinct, List.map_cons]
    by_cases same : entry.1 = k
    · subst same
      simp [fresh]
    · have other : (entry.1 == k) = false := beq_eq_false_iff_ne.mpr same
      simp only [List.mem_cons, Ne.symm same, false_or, Std.HashMap.getElem?_insert, other, Bool.false_eq_true, if_false,
        List.idxOf_cons, cond_false]
      congr 2
      omega

theorem IsIndexed.push (indexed : s.IsIndexed) (fresh : k ∉ s.keys) : (s.push k v).IsIndexed := by
  have distinct : (s.keys ++ [k]).Nodup := by
    simpa [List.nodup_append] using ⟨indexed.distinct, fun j member same => fresh (same ▸ member)⟩
  refine ⟨keys_push s k v ▸ distinct, ?_⟩
  rw [entries_push, Array.size_push, keys_push]
  intro many j i
  have size := s.keys_length
  unfold Slots.push
  dsimp only
  split
  next few => omega
  next =>
    split
    next full =>
      have mapped : ((s.entries.push (k, v)).toList.map Prod.fst) = s.keys ++ [k] := by simp [keys]
      rw [indexFrom_getElem? (mapped ▸ distinct), mapped, Nat.zero_add, Std.HashMap.getElem?_empty]
      split
      next member =>
        rw [Option.some_inj, List.getElem?_eq_some_iff]
        constructor
        · rintro rfl
          exact ⟨List.idxOf_lt_length_of_mem member, List.getElem_idxOf _⟩
        · rintro ⟨bound, rfl⟩
          exact distinct.idxOf_getElem i bound
      next absent => simpa using fun here => absent (List.mem_of_getElem? here)
    next many =>
      rw [Std.HashMap.getElem?_insert]
      split
      next same =>
        obtain rfl := eq_of_beq same
        rw [Option.some_inj, ← size]
        constructor
        · rintro rfl
          simp
        · intro here
          obtain ⟨bound, here⟩ := List.getElem?_eq_some_iff.mp here
          have beyond : s.keys.length < (s.keys ++ [k]).length := by simp
          have last : (s.keys ++ [k])[s.keys.length] = k := by simp
          exact distinct.getElem_inj_iff.mp (last.trans here.symm)
      next other =>
        rw [indexed.index (by omega), List.getElem?_append]
        split
        next => rfl
        next beyond =>
          have none : s.keys[i]? = none := List.getElem?_eq_none (Nat.not_lt.mp beyond)
          have other : k ≠ j := by simpa using other
          simp [none, List.getElem?_singleton, other]

theorem IsIndexed.get_push (indexed : s.IsIndexed) (fresh : k ∉ s.keys) :
    (s.push k v).get j = if j = k then v else s.get j := by
  rw [(indexed.push fresh).get_eq, indexed.get_eq, entries_push, Array.toList_push, List.lookup_append]
  split
  next same =>
    subst same
    simp [lookup_eq_none_iff.mpr fresh]
  next other =>
    have other : (j == k) = false := beq_eq_false_iff_ne.mpr other
    simp [List.lookup_cons, other]

theorem keys_setAt (s : Slots) (i : Nat) (v : Value) : (s.setAt i v).keys = s.keys := by
  refine List.ext_getElem? fun n => ?_
  simp only [setAt, keys, Array.toList_modify, List.getElem?_map, List.getElem?_modify]
  split <;> cases s.entries.toList[n]? <;> rfl

theorem IsIndexed.setAt (indexed : s.IsIndexed) : (s.setAt i v).IsIndexed := by
  refine ⟨keys_setAt s i v ▸ indexed.distinct, ?_⟩
  rw [keys_setAt]
  simpa [Slots.setAt] using indexed.index

theorem IsIndexed.get_setAt (indexed : s.IsIndexed) (here : s.position? k = some i) :
    (s.setAt i v).get j = if j = k then v else s.get j := by
  have positions (j : Key) : (s.setAt i v).position? j = s.position? j := by
    refine Option.ext fun n => ?_
    rw [indexed.setAt.position?_eq_some, keys_setAt, indexed.position?_eq_some]
  unfold get
  rw [positions]
  by_cases same : j = k
  · subst same
    have bound : i < s.entries.size := by
      obtain ⟨bound, _⟩ := List.getElem?_eq_some_iff.mp (indexed.position?_eq_some.mp here)
      simpa [keys_length] using bound
    simp [here, Slots.setAt, Array.getElem_modify, bound]
  · cases found : s.position? j with
    | none => simp [same]
    | some n =>
      have apart : i ≠ n := by
        rintro rfl
        have both := (indexed.position?_eq_some.mp found).symm.trans (indexed.position?_eq_some.mp here)
        exact same (Option.some.inj both)
      simp [same, Slots.setAt, Array.getElem?_modify, apart]

end ScriptTools.Guest.Slots
