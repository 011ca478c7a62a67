import Mathlib.Algebra.Group.Nat.Defs
import ScriptTools.Proofs.Guest.Table.Slots

/-!
What a table has at each key, through all that its list of items and its slots go through.
-/

namespace ScriptTools.Guest

theorem Value.isNil_iff {v : Value} : v.isNil = true ↔ v = .nil := by cases v <;> simp [isNil]

namespace Table

variable {t : Table} {k j : Key} {v : Value} {i n : Nat} {entries : List (Key × Value)}

/-- No key of the list of items stands in a slot as well, and the list is short enough for its keys. -/
structure IsArranged (t : Table) : Prop where
  slots : t.slots.IsIndexed
  apart : ∀ k ∈ t.slots.keys, t.itemIndex? k = none
  small : t.items.size < 2 ^ 63

theorem isArranged_empty : IsArranged {} := ⟨Slots.isIndexed_empty, nofun, by decide⟩

theorem itemIndex?_congr {u : Table} (same : t.items.size = u.items.size) (k : Key) : t.itemIndex? k = u.itemIndex? k := by
  cases k <;> simp [itemIndex?, same]

theorem itemIndex?_eq_some (small : t.items.size < 2 ^ 63) :
    t.itemIndex? k = some i ↔ i < t.items.size ∧ k = .int (Int64.ofNat (i + 1)) := by
  unfold itemIndex?
  split
  next key =>
    rw [Key.int.injEq, ← Int64.toInt_inj, Option.ite_none_right_eq_some, Option.some_inj, Bool.and_eq_true,
      decide_eq_true_iff, decide_eq_true_iff]
    constructor
    · rintro ⟨range, rfl⟩
      refine ⟨by omega, ?_⟩
      rw [Int64.toInt_ofNat_of_lt (by omega)]
      omega
    · rintro ⟨bound, value⟩
      rw [Int64.toInt_ofNat_of_lt (by omega)] at value
      omega
  next other => simpa using fun _ => other _

theorem IsArranged.itemIndex?_eq_some (arranged : t.IsArranged) :
    t.itemIndex? k = some i ↔ i < t.items.size ∧ k = .int (Int64.ofNat (i + 1)) :=
  Table.itemIndex?_eq_some arranged.small

theorem get_of_item (item : t.itemIndex? k = some i) : t.get k = t.items[i]?.getD .nil := by simp [get, item]

theorem get_of_slot (slot : t.itemIndex? k = none) : t.get k = t.slots.get k := by simp [get, slot]

theorem IsArranged.not_mem_keys (arranged : t.IsArranged) (item : t.itemIndex? k = some i) : k ∉ t.slots.keys :=
  fun member => by simp [arranged.apart k member] at item

/-! An item changes -/

theorem IsArranged.setItem (arranged : t.IsArranged) :
    IsArranged { t with items := t.items.setIfInBounds i v } where
  slots := arranged.slots
  apart k member := (itemIndex?_congr (by simp) k).trans (arranged.apart k member)
  small := by simpa using arranged.small

theorem IsArranged.get_setItem (arranged : t.IsArranged) (item : t.itemIndex? k = some i) :
    Table.get { t with items := t.items.setIfInBounds i v } j = if j = k then v else t.get j := by
  obtain ⟨bound, key⟩ := arranged.itemIndex?_eq_some.mp item
  have place := itemIndex?_congr (t := { t with items := t.items.setIfInBounds i v }) (u := t) (by simp) j
  cases found : t.itemIndex? j with
  | some n =>
    obtain ⟨within, spot⟩ := arranged.itemIndex?_eq_some.mp found
    rw [get_of_item (place.trans found), get_of_item found, Array.getElem?_setIfInBounds]
    by_cases same : i = n
    · subst same
      simp [bound, key, spot]
    · have other : j ≠ k := fun both => same (Option.some.inj (item.symm.trans (both ▸ found)))
      simp [same, other]
  | none =>
    have other : j ≠ k := by
      rintro rfl
      simp [item] at found
    rw [get_of_slot (place.trans found), get_of_slot found, if_neg other]

/-! A slot is added or changes -/

theorem IsArranged.pushSlot (arranged : t.IsArranged) (slot : t.itemIndex? k = none) (fresh : k ∉ t.slots.keys) :
    IsArranged { t with slots := t.slots.push k v } where
  slots := arranged.slots.push fresh
  apart j member := by
    rw [Slots.keys_push, List.mem_append, List.mem_singleton] at member
    rcases member with old | rfl
    · exact arranged.apart j old
    · exact slot
  small := arranged.small

theorem IsArranged.get_pushSlot (arranged : t.IsArranged) (slot : t.itemIndex? k = none) (fresh : k ∉ t.slots.keys) :
    Table.get { t with slots := t.slots.push k v } j = if j = k then v else t.get j := by
  cases found : t.itemIndex? j with
  | some n =>
    have other : j ≠ k := by
      rintro rfl
      simp [slot] at found
    rw [if_neg other, get_of_item found]
    exact get_of_item found
  | none =>
    rw [get_of_slot found, ← arranged.slots.get_push fresh]
    exact get_of_slot found

theorem IsArranged.setSlot (arranged : t.IsArranged) : IsArranged { t with slots := t.slots.setAt i v } where
  slots := arranged.slots.setAt
  apart j member := arranged.apart j (Slots.keys_setAt t.slots i v ▸ member)
  small := arranged.small

theorem IsArranged.get_setSlot (arranged : t.IsArranged) (slot : t.itemIndex? k = none)
    (found : t.slots.position? k = some i) :
    Table.get { t with slots := t.slots.setAt i v } j = if j = k then v else t.get j := by
  cases item : t.itemIndex? j with
  | some n =>
    have other : j ≠ k := by
      rintro rfl
      simp [slot] at item
    rw [if_neg other, get_of_item item]
    exact get_of_item item
  | none =>
    rw [get_of_slot item, ← arranged.slots.get_setAt found]
    exact get_of_slot item

/-! An entry is placed -/

theorem keys_place_subset (t : Table) (entry : Key × Value) : (t.place entry).slots.keys ⊆ t.slots.keys ++ [entry.1] := by
  unfold place
  split
  · exact List.subset_append_left ..
  · rw [Slots.keys_push]
    exact List.Subset.refl _

theorem IsArranged.place (arranged : t.IsArranged) (fresh : k ∉ t.slots.keys) : (t.place (k, v)).IsArranged := by
  unfold Table.place
  split
  next => exact arranged.setItem
  next slot => exact arranged.pushSlot slot fresh

theorem IsArranged.get_place (arranged : t.IsArranged) (fresh : k ∉ t.slots.keys) :
    (t.place (k, v)).get j = if j = k then v else t.get j := by
  unfold Table.place
  split
  next item => exact arranged.get_setItem item
  next slot => exact arranged.get_pushSlot slot fresh

/-- Entries with new keys are placed one after the other. -/
theorem IsArranged.places (arranged : t.IsArranged) (distinct : (entries.map Prod.fst).Nodup)
    (fresh : ∀ k ∈ entries.map Prod.fst, k ∉ t.slots.keys) :
    (entries.foldl Table.place t).IsArranged ∧
      ∀ j, (entries.foldl Table.place t).get j = (entries.lookup j).getD (t.get j) := by
  induction entries generalizing t with
  | nil => exact ⟨arranged, fun _ => rfl⟩
  | cons entry entries ih =>
    obtain ⟨k, v⟩ := entry
    obtain ⟨apart, distinct⟩ := List.nodup_cons.mp distinct
    obtain ⟨new, fresh⟩ := List.forall_mem_cons.mp fresh
    have still : ∀ j ∈ entries.map Prod.fst, j ∉ (t.place (k, v)).slots.keys := fun j later member => by
      rcases List.mem_append.mp (keys_place_subset t (k, v) member) with old | same
      · exact fresh j later old
      · exact apart (List.mem_singleton.mp same ▸ later)
    obtain ⟨done, contents⟩ := ih (arranged.place new) distinct still
    refine ⟨done, fun j => ?_⟩
    rw [List.foldl_cons, contents, arranged.get_place new, List.lookup_cons]
    by_cases same : j = k
    · subst same
      simp [lookup_eq_none_iff.mpr apart]
    · have other : (j == k) = false := beq_eq_false_iff_ne.mpr same
      simp [other, same]

theorem keys_places_subset (t : Table) (entries : List (Key × Value)) :
    (entries.foldl Table.place t).slots.keys ⊆ t.slots.keys ++ entries.map Prod.fst := by
  induction entries generalizing t with
  | nil => simp
  | cons entry entries ih =>
    intro k member
    rcases List.mem_append.mp (ih _ member) with early | late
    · have := keys_place_subset t entry early
      simp only [List.mem_append, List.map_cons, List.mem_cons] at this ⊢
      tauto
    · simp [late]

/-! Entries are listed -/

/-- The entries that are there, without the first items. -/
def entriesFrom (t : Table) (size : Nat) : List (Key × Value) :=
  ((List.range (t.items.size - size)).filterMap fun i =>
    let v := t.items[size + i]?.getD .nil
    if v.isNil then none else some (Key.int (Int64.ofNat (size + i + 1)), v)) ++ t.slots.live

theorem entriesFrom_zero (t : Table) : t.entriesFrom 0 = t.entries := by
  have items : t.items.toList.zipIdx = (List.range t.items.size).map fun i => (t.items[i]?.getD .nil, i) := by
    refine List.ext_getElem (by simp) fun i bound _ => ?_
    have bound : i < t.items.size := by simpa using bound
    simp [bound]
  rw [entriesFrom, entries, items, List.filterMap_map]
  simp

theorem IsArranged.mem_entriesFrom_iff (arranged : t.IsArranged) :
    (k, v) ∈ t.entriesFrom n ↔ v.isNil = false ∧ t.get k = v ∧ ∀ i, t.itemIndex? k = some i → n ≤ i := by
  rw [entriesFrom, List.mem_append, arranged.slots.mem_live_iff, List.mem_filterMap]
  dsimp only
  cases item : t.itemIndex? k with
  | some i =>
    obtain ⟨bound, key⟩ := arranged.itemIndex?_eq_some.mp item
    have absent := arranged.slots.get_of_not_mem (arranged.not_mem_keys item)
    rw [get_of_item item]
    constructor
    · rintro (⟨m, range, entry⟩ | ⟨there, rfl⟩)
      · rw [Option.ite_none_left_eq_some, Option.some_inj, Prod.mk.injEq] at entry
        obtain ⟨there, same, rfl⟩ := entry
        have place : t.itemIndex? k = some (n + m) :=
          arranged.itemIndex?_eq_some.mpr ⟨by simp at range; omega, same.symm⟩
        obtain rfl := Option.some.inj (item.symm.trans place)
        exact ⟨by simpa using there, rfl, fun i here => by simp at here; omega⟩
      · simp [absent, Value.isNil] at there
    · rintro ⟨there, rfl, later⟩
      have later := later i rfl
      refine .inl ⟨i - n, by simp; omega, ?_⟩
      rw [show n + (i - n) = i by omega, key, there]
      rfl
  | none =>
    rw [get_of_slot item]
    constructor
    · rintro (⟨m, range, entry⟩ | ⟨there, here⟩)
      · rw [Option.ite_none_left_eq_some, Option.some_inj, Prod.mk.injEq] at entry
        have place : t.itemIndex? k = some (n + m) :=
          arranged.itemIndex?_eq_some.mpr ⟨by simp at range; omega, entry.2.1.symm⟩
        simp [item] at place
      · exact ⟨there, here, by simp⟩
    · rintro ⟨there, here, _⟩
      exact .inr ⟨there, here⟩

theorem IsArranged.keys_entriesFrom_nodup (arranged : t.IsArranged) (n : Nat) : ((t.entriesFrom n).map Prod.fst).Nodup := by
  rw [entriesFrom, List.map_append, List.nodup_append']
  refine ⟨?_, arranged.slots.keys_live_nodup, ?_⟩
  · rw [List.Nodup, List.pairwise_map, List.pairwise_filterMap]
    refine List.Pairwise.imp_of_mem ?_ List.pairwise_lt_range
    intro i j first second less a here b there same
    simp only [Option.ite_none_left_eq_some, Option.some_inj] at here there
    obtain ⟨_, rfl⟩ := here
    obtain ⟨_, rfl⟩ := there
    rw [Key.int.injEq, ← Int64.toInt_inj] at same
    simp only [List.mem_range] at first second
    have small := arranged.small
    rw [Int64.toInt_ofNat_of_lt (by omega), Int64.toInt_ofNat_of_lt (by omega)] at same
    omega
  · intro k item slot
    obtain ⟨entry, listed, rfl⟩ := List.mem_map.mp item
    obtain ⟨m, range, here⟩ := List.mem_filterMap.mp listed
    simp only [Option.ite_none_left_eq_some, Option.some_inj] at here
    obtain ⟨_, rfl⟩ := here
    have place : t.itemIndex? (.int (Int64.ofNat (n + m + 1))) = some (n + m) :=
      arranged.itemIndex?_eq_some.mpr ⟨by simp at range; omega, rfl⟩
    exact arranged.not_mem_keys place (List.filter_sublist.map _ |>.subset slot)

/-- What a traversal comes to is what is there, each entry once. -/
theorem IsArranged.mem_entries_iff (arranged : t.IsArranged) : (k, v) ∈ t.entries ↔ v.isNil = false ∧ t.get k = v := by
  rw [← entriesFrom_zero, arranged.mem_entriesFrom_iff]
  simp

theorem IsArranged.keys_entries_nodup (arranged : t.IsArranged) : (t.entries.map Prod.fst).Nodup :=
  entriesFrom_zero t ▸ arranged.keys_entriesFrom_nodup 0

/-! The table is arranged anew -/

theorem listSize_go_lt (counts : Array Nat) (total i seen : Nat) (best : Nat × Nat) (n : Nat)
    (bound : best.1 < 2 ^ (i + n)) :
    (listSize.go counts total i seen best n).1 < 2 ^ (i + n) := by
  induction n generalizing i seen best with
  | zero => exact bound
  | succ n ih =>
    unfold listSize.go
    dsimp only
    split
    · exact bound
    · have power : 2 ^ i < 2 ^ (i + 1 + n) := Nat.pow_lt_pow_right (by omega) (by omega)
      rw [show i + (n + 1) = i + 1 + n by omega] at bound ⊢
      apply ih
      split
      · exact power
      · exact bound

theorem listSize_lt (counts : Array Nat) (total : Nat) : (listSize counts total).1 < 2 ^ 63 :=
  listSize_go_lt counts total 0 0 (0, 0) 63 (by decide)

/-- The first items with places for more, and no slots yet. -/
def cut (t : Table) (size room : Nat) : Table where
  items := t.items.extract 0 size ++ Array.replicate (size - (t.items.extract 0 size).size) .nil
  room := room
  metatable := t.metatable

theorem exists_rearrange_eq (t : Table) (extra : Key) :
    ∃ size room, size < 2 ^ 63 ∧ t.rearrange extra = (t.entriesFrom size).foldl Table.place (t.cut size room) := by
  refine ⟨_, _, ?_, rfl⟩
  exact listSize_lt ..

theorem items_size_cut (t : Table) (size room : Nat) : (t.cut size room).items.size = size := by
  rw [cut, Array.size_append, Array.size_extract, Array.size_replicate]
  omega

theorem isArranged_cut {size room : Nat} (bound : size < 2 ^ 63) : (t.cut size room).IsArranged where
  slots := Slots.isIndexed_empty
  apart := nofun
  small := by rwa [items_size_cut]

theorem get_cut_of_item {size room : Nat} (item : (t.cut size room).itemIndex? k = some i) (bound : i < size) :
    (t.cut size room).get k = t.items[i]?.getD .nil := by
  rw [get_of_item item]
  simp only [cut, Array.getElem?_append, Array.size_extract, Nat.sub_zero]
  split
  next within => rw [Array.getElem?_extract, Nat.sub_zero, if_pos within, Nat.zero_add]
  next =>
    have beyond : t.items[i]? = none := Array.getElem?_eq_none (by omega)
    rw [beyond, Array.getElem?_replicate]
    split <;> rfl

theorem get_cut_of_slot {size room : Nat} (slot : (t.cut size room).itemIndex? k = none) :
    (t.cut size room).get k = .nil := by
  rw [get_of_slot slot]
  exact Slots.isIndexed_empty.get_of_not_mem List.not_mem_nil

/-- Arranging a table anew changes nothing of what it has. -/
theorem IsArranged.rearrange (arranged : t.IsArranged) (extra : Key) :
    (t.rearrange extra).IsArranged ∧ ∀ j, (t.rearrange extra).get j = t.get j := by
  obtain ⟨size, room, bound, same⟩ := t.exists_rearrange_eq extra
  have cutArranged : (t.cut size room).IsArranged := isArranged_cut bound
  have distinct := arranged.keys_entriesFrom_nodup size
  obtain ⟨done, contents⟩ := cutArranged.places distinct fun _ _ => List.not_mem_nil
  rw [same]
  refine ⟨done, fun j => ?_⟩
  rw [contents]
  cases found : (t.entriesFrom size).lookup j with
  | some v => exact (arranged.mem_entriesFrom_iff.mp ((lookup_eq_some_iff distinct).mp found)).2.1.symm
  | none =>
    rw [Option.getD_none]
    -- What is not listed is an early item or not there.
    have absent (outside : ∀ i, t.itemIndex? j = some i → size ≤ i) : t.get j = .nil := by
      cases nil : (t.get j).isNil with
      | true => exact Value.isNil_iff.mp nil
      | false =>
        have member := arranged.mem_entriesFrom_iff.mpr ⟨nil, rfl, outside⟩
        exact absurd (List.mem_map.mpr ⟨_, member, rfl⟩) (lookup_eq_none_iff.mp found)
    have moved (i : Nat) (old : t.itemIndex? j = some i) (early : i < size) : (t.cut size room).itemIndex? j = some i :=
      cutArranged.itemIndex?_eq_some.mpr ⟨by rwa [items_size_cut], (arranged.itemIndex?_eq_some.mp old).2⟩
    cases item : (t.cut size room).itemIndex? j with
    | some i =>
      obtain ⟨within, key⟩ := cutArranged.itemIndex?_eq_some.mp item
      rw [items_size_cut] at within
      rw [get_cut_of_item item within]
      by_cases old : i < t.items.size
      · rw [get_of_item (arranged.itemIndex?_eq_some.mpr ⟨old, key⟩)]
      · rw [Array.getElem?_eq_none (by omega), absent, Option.getD_none]
        intro n place
        by_contra early
        obtain rfl := Option.some.inj (item.symm.trans (moved n place (by omega)))
        exact old (arranged.itemIndex?_eq_some.mp place).1
    | none =>
      rw [get_cut_of_slot item, absent]
      intro n place
      by_contra early
      simp [item] at moved
      exact early (moved n place)

theorem IsArranged.get_ne_nil_of_mem_rearrange (arranged : t.IsArranged) {extra : Key}
    (member : k ∈ (t.rearrange extra).slots.keys) : t.get k ≠ .nil := by
  obtain ⟨size, room, _, same⟩ := t.exists_rearrange_eq extra
  rw [same] at member
  rcases List.mem_append.mp (keys_places_subset _ _ member) with early | listed
  · exact absurd early List.not_mem_nil
  · obtain ⟨⟨k, v⟩, entry, rfl⟩ := List.mem_map.mp listed
    obtain ⟨there, rfl, _⟩ := arranged.mem_entriesFrom_iff.mp entry
    intro nil
    simp [nil, Value.isNil] at there

/-! A value is set -/

theorem IsArranged.insertNew (arranged : t.IsArranged) (slot : t.itemIndex? k = none) (fresh : k ∉ t.slots.keys) :
    (t.insertNew k v).IsArranged ∧ ∀ j, (t.insertNew k v).get j = if j = k then v else t.get j := by
  unfold Table.insertNew
  split
  · exact ⟨arranged.pushSlot slot fresh, fun j => arranged.get_pushSlot slot fresh⟩
  · obtain ⟨anew, contents⟩ := arranged.rearrange k
    have new : k ∉ (t.rearrange k).slots.keys := fun member => by
      refine arranged.get_ne_nil_of_mem_rearrange member ?_
      rw [get_of_slot slot, arranged.slots.get_of_not_mem fresh]
    refine ⟨anew.place new, fun j => ?_⟩
    rw [anew.get_place new, contents]

/-- Setting a value changes what the table has at that key and at no other. -/
theorem IsArranged.set (arranged : t.IsArranged) (k : Key) (v : Value) :
    (t.set k v).IsArranged ∧ ∀ j, (t.set k v).get j = if j = k then v else t.get j := by
  unfold Table.set
  cases item : t.itemIndex? k with
  | some i => exact ⟨arranged.setItem, fun j => arranged.get_setItem item⟩
  | none =>
    cases found : t.slots.position? k with
    | some i => exact ⟨arranged.setSlot, fun j => arranged.get_setSlot item found⟩
    | none =>
      have fresh := arranged.slots.position?_eq_none.mp found
      dsimp only
      split
      next nil =>
        refine ⟨arranged, fun j => ?_⟩
        split
        next same => rw [same, get_of_slot item, arranged.slots.get_of_not_mem fresh, Value.isNil_iff.mp nil]
        next => rfl
      next => exact arranged.insertNew item fresh

/-- A table has what stands in a list of entries and nothing else. -/
structure Holds (t : Table) (entries : List (Key × Value)) : Prop where
  arranged : t.IsArranged
  distinct : (entries.map Prod.fst).Nodup
  contents : ∀ k, t.get k = (entries.lookup k).getD .nil

theorem holds_empty : Holds {} [] where
  arranged := isArranged_empty
  distinct := .nil
  contents k := by
    have slot : itemIndex? {} k = none := by
      refine Option.eq_none_iff_forall_ne_some.mpr fun i item => ?_
      exact absurd (isArranged_empty.itemIndex?_eq_some.mp item).1 (Nat.not_lt_zero i)
    rw [get_of_slot slot]
    exact Slots.isIndexed_empty.get_of_not_mem List.not_mem_nil

theorem Holds.set (holds : t.Holds entries) (fresh : k ∉ entries.map Prod.fst) (v : Value) :
    (t.set k v).Holds (entries ++ [(k, v)]) := by
  obtain ⟨arranged, contents⟩ := holds.arranged.set k v
  refine ⟨arranged, ?_, fun j => ?_⟩
  · rw [List.map_append, List.nodup_append]
    refine ⟨holds.distinct, List.nodup_singleton _, fun j member i here same => fresh ?_⟩
    obtain rfl : i = k := by simpa using here
    exact same ▸ member
  · rw [contents, holds.contents, List.lookup_append]
    by_cases same : j = k
    · subst same
      simp [lookup_eq_none_iff.mpr fresh]
    · have other : (j == k) = false := beq_eq_false_iff_ne.mpr same
      simp [same, List.lookup_cons, other]

/-- A traversal of the table comes to the entries that are not `nil`. -/
theorem Holds.entries_perm (holds : t.Holds entries) : t.entries.Perm (entries.filter fun e => !e.2.isNil) := by
  have distinct := holds.distinct
  refine (List.perm_ext_iff_of_nodup (holds.arranged.keys_entries_nodup.of_map _) (distinct.of_map.filter _)).mpr ?_
  rintro ⟨k, v⟩
  rw [holds.arranged.mem_entries_iff, List.mem_filter, holds.contents, ← lookup_eq_some_iff distinct]
  cases entries.lookup k with
  | none => cases v <;> simp [Value.isNil]
  | some u => simp [and_comm]

theorem Holds.perm_of_filled (holds : t.Holds entries) (filled : ∀ e ∈ entries, e.2.isNil = false) :
    t.entries.Perm entries := by
  have all : entries.filter (fun e => !e.2.isNil) = entries :=
    List.filter_eq_self.mpr fun e member => by simp [filled e member]
  exact all ▸ holds.entries_perm

/-- Where a traversal comes to as many entries, none of them is `nil`. -/
theorem Holds.filled_of_length (holds : t.Holds entries) (full : entries.length ≤ t.entries.length) :
    ∀ e ∈ entries, e.2.isNil = false := by
  have all := List.length_filter_eq_length_iff.mp
    (Nat.le_antisymm (List.length_filter_le _ _) (Nat.le_trans full (Nat.le_of_eq holds.entries_perm.length_eq)))
  exact fun e member => by simpa using all e member

end Table

end ScriptTools.Guest
