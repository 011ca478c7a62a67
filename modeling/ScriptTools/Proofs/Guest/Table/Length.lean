import ScriptTools.Proofs.Guest.Table.Contents

/-!
The length of a table is a border of its keys, whichever way it is searched. Where the keys are exactly those from `1` to
some number, that number is the only border.
-/

namespace ScriptTools.Guest.Table

/-- A number of keys after which the next one is missing. Keys with holes between them have several. -/
structure IsBorder (there : Nat → Prop) (n : Nat) : Prop where
  le : n ≤ lastKey
  last : n = 0 ∨ there n
  next : n = lastKey ∨ ¬ there (n + 1)

theorem lastKey_eq : lastKey = 2 ^ 63 - 1 := rfl

theorem IsBorder.congr {there there' : Nat → Prop} {n : Nat} (border : IsBorder there n)
    (same : ∀ m, m ≤ lastKey → (there m ↔ there' m)) : IsBorder there' n where
  le := border.le
  last := border.last.imp_right (same n border.le).mp
  next := by
    rcases border.next with last | missing
    · exact .inl last
    · by_cases last : n = lastKey
      · exact .inl last
      · have room := border.le
        exact .inr fun here => missing ((same (n + 1) (by omega)).mpr here)

/-- Keys without holes have one border. -/
theorem IsBorder.eq_of_dense {there : Nat → Prop} {m n : Nat} (border : IsBorder there m) (small : n ≤ lastKey)
    (dense : ∀ i, 1 ≤ i → i ≤ lastKey → (there i ↔ i ≤ n)) : m = n := by
  have room := border.le
  have low : m ≤ n := by
    rcases border.last with zero | there
    · omega
    · rcases Nat.eq_zero_or_pos m with zero | positive
      · omega
      · exact (dense m positive room).mp there
  have high : n < m + 1 := by
    rcases border.next with last | missing
    · omega
    · by_contra more
      exact missing ((dense (m + 1) (by omega) (by omega)).mpr (by omega))
  omega

variable {isThere : Nat → Bool} {present absent : Nat}

theorem isBorder_bisect (low : present = 0 ∨ isThere present = true) (high : isThere absent = false) (before : present < absent)
    (small : absent ≤ lastKey) : IsBorder (isThere · = true) (bisect isThere present absent) := by
  fun_induction bisect isThere present absent with
  | case1 present absent gap middle there ih => exact ih (.inr there) high (by omega) small
  | case2 present absent gap middle missing ih => exact ih low (by simpa using missing) (by omega) (by omega)
  | case3 present absent close =>
    obtain rfl : absent = present + 1 := by omega
    exact ⟨by omega, low, .inr (by simp [high])⟩

/-- Doubling comes to an absent place, or past the largest key. -/
theorem isBorder_gallop (there : isThere present = true) (small : present ≤ lastKey) {count : Nat}
    (enough : lastKey < present * 2 ^ count) : IsBorder (isThere · = true) (gallop isThere present count) := by
  induction count generalizing present with
  | zero => omega
  | succ count ih =>
    rw [gallop]
    split
    next past =>
      split
      next last => exact ⟨Nat.le_refl _, .inr last, .inl rfl⟩
      next missing =>
        have missing : isThere lastKey = false := by simpa using missing
        have other : present ≠ lastKey := by
          rintro rfl
          simp [there] at missing
        exact isBorder_bisect (.inr there) missing (by omega) (Nat.le_refl _)
    next within =>
      split
      next more => exact ih more (by omega) (by rwa [Nat.mul_comm 2, Nat.mul_assoc, ← Nat.pow_succ'])
      next missing =>
        have positive : 0 < present := by
          by_contra zero
          simp [show present = 0 by omega] at enough
        exact isBorder_bisect (.inr there) (by simpa using missing) (by omega) (by omega)

variable {t : Table} {n : Nat}

theorem IsArranged.isThere_of_slots_empty (arranged : t.IsArranged) (empty : t.slots.entries.isEmpty) (m : Nat)
    (beyond : t.items.size < m) (small : m < 2 ^ 63) : t.isThere m = false := by
  have slot : t.itemIndex? (.int (Int64.ofNat m)) = none := by
    refine Option.eq_none_iff_forall_ne_some.mpr fun i item => ?_
    obtain ⟨bound, key⟩ := arranged.itemIndex?_eq_some.mp item
    rw [Key.int.injEq, ← Int64.toInt_inj, Int64.toInt_ofNat_of_lt small, Int64.toInt_ofNat_of_lt (by omega)] at key
    omega
  have absent : Key.int (Int64.ofNat m) ∉ t.slots.keys := by simp [Slots.keys, Array.isEmpty_iff.mp empty]
  rw [isThere, getInt, get_of_slot slot, arranged.slots.get_of_not_mem absent]
  rfl

/-- The length is a border, whatever the holes between the keys. -/
theorem IsArranged.isBorder_length (arranged : t.IsArranged) : IsBorder (t.isThere · = true) t.length := by
  have small := arranged.small
  have limit := lastKey_eq
  unfold length
  dsimp only
  split
  next last =>
    rw [Bool.or_eq_true, decide_eq_true_iff] at last
    split
    next ends =>
      refine ⟨by omega, last, ?_⟩
      rw [Bool.or_eq_true, Bool.not_eq_true'] at ends
      rcases ends with empty | missing
      · by_cases full : t.items.size = lastKey
        · exact .inl full
        · exact .inr (by simp [arranged.isThere_of_slots_empty empty _ (Nat.lt_succ_self _) (by omega)])
      · exact .inr (by simp [missing])
    next more =>
      rw [Bool.not_eq_true, Bool.or_eq_false_iff, Bool.not_eq_false'] at more
      have there : t.isThere (max t.items.size 1) = true := by
        rcases Nat.eq_zero_or_pos t.items.size with none | some
        · rw [none] at more ⊢
          exact more.2
        · rw [Nat.max_eq_left some]
          exact last.resolve_left (by omega)
      have enough := Nat.le_mul_of_pos_left (2 ^ 64) (show 0 < max t.items.size 1 by omega)
      exact isBorder_gallop there (by omega) (by omega)
  next absent =>
    rw [Bool.or_eq_true, decide_eq_true_iff, not_or, Bool.not_eq_true] at absent
    obtain ⟨some, absent⟩ := absent
    split
    next before =>
      refine ⟨by omega, .inr before, .inr ?_⟩
      rw [Nat.sub_add_cancel (by omega)]
      simp [absent]
    next => exact isBorder_bisect (.inl rfl) absent (by omega) (by omega)

theorem IsArranged.length_eq (arranged : t.IsArranged) (small : n < 2 ^ 63)
    (dense : ∀ m, 1 ≤ m → m < 2 ^ 63 → (t.isThere m = true ↔ m ≤ n)) : t.length = n := by
  have limit := lastKey_eq
  exact arranged.isBorder_length.eq_of_dense (by omega) fun m low high => dense m low (by omega)

end ScriptTools.Guest.Table
