import ScriptTools.Guest.Script
import ScriptTools.Proofs.Guest.Bridge.Entering

/-!
Which values of the host come back from a script as they entered it: exactly those without holes, without
empty maps, without integers that a double cannot tell from their neighbours, and not nested too deep.
-/

namespace ScriptTools.Guest

open List (Forall₂)

section Sequences

variable {α β γ : Type} {R : α → β → Prop} {S : β → γ → Prop} {as : List α} {cs : List γ}

theorem exists_forall₂_of_forall_mem (each : ∀ a ∈ as, ∃ b, R a b) : ∃ bs, Forall₂ R as bs := by
  induction as with
  | nil => exact ⟨[], .nil⟩
  | cons a as ih =>
    obtain ⟨⟨b, here⟩, each⟩ := List.forall_mem_cons.mp each
    obtain ⟨bs, rest⟩ := ih each
    exact ⟨b :: bs, .cons here rest⟩

theorem forall₂_of_comp (each : Forall₂ (fun a c => ∃ b, R a b ∧ S b c) as cs) :
    ∃ bs, Forall₂ R as bs ∧ Forall₂ S bs cs := by
  induction each with
  | nil => exact ⟨[], .nil, .nil⟩
  | cons here _ ih =>
    obtain ⟨b, first, second⟩ := here
    obtain ⟨bs, firsts, seconds⟩ := ih
    exact ⟨b :: bs, .cons first firsts, .cons second seconds⟩

theorem forall₂_comp {bs : List β} (first : Forall₂ R as bs) (second : Forall₂ S bs cs) :
    Forall₂ (fun a c => ∃ b, R a b ∧ S b c) as cs := by
  induction first generalizing cs with
  | nil =>
    cases second
    exact .nil
  | cons here _ ih =>
    cases second with
    | cons there rest => exact .cons ⟨_, here, there⟩ (ih rest)

/-- What relates the members of two lists in pairs is a property of the members of the one alone. -/
theorem forall₂_iff_forall_mem {bs : List β} {P : α → Prop} {S : β → α → Prop} (pairs : Forall₂ R as bs)
    (each : ∀ a ∈ as, ∀ b, R a b → (S b a ↔ P a)) : Forall₂ S bs as ↔ ∀ a ∈ as, P a := by
  induction pairs with
  | nil => simp
  | cons here _ ih =>
    obtain ⟨first, each⟩ := List.forall_mem_cons.mp each
    rw [List.forall₂_cons, List.forall_mem_cons, first _ here, ih each]

end Sequences

namespace Bridge

variable {convert : Value → Except Defect HostValue} {t : Table} {values : List Value} {pairs : List (String × Value)}
  {items : List HostValue} {entries : List (String × HostValue)}

/-! Lists -/

theorem length_of_holds (holds : t.Holds (listEntries 1 values)) (filled : ∀ v ∈ values, v.isNil = false)
    (small : values.length < 2 ^ 62) : t.length = values.length := by
  refine holds.arranged.length_eq (Nat.lt_trans small (by decide)) fun m low high => ?_
  rw [Table.isThere, Table.getInt, holds.contents]
  have inside : Key.int (Int64.ofNat m) ∈ (listEntries 1 values).map Prod.fst ↔ m ≤ values.length := by
    rw [mem_keys_listEntries]
    constructor
    · rintro ⟨n, _, bound, same⟩
      rw [Key.int.injEq, ← Int64.toInt_inj, Int64.toInt_ofNat_of_lt high, Int64.toInt_ofNat_of_lt (by omega)] at same
      omega
    · exact fun bound => ⟨m, low, by omega, rfl⟩
  rw [← inside]
  cases found : (listEntries 1 values).lookup (.int (Int64.ofNat m)) with
  | none =>
    have absent := lookup_eq_none_iff.mp found
    simp [absent, Value.isNil]
  | some v =>
    have member := (lookup_eq_some_iff holds.distinct).mp found
    have there := filled v (map_snd_listEntries 1 values ▸ List.mem_map.mpr ⟨_, member, rfl⟩)
    simpa [there] using ⟨v, member⟩

theorem comes_back_list_iff (holds : t.Holds (listEntries 1 values)) (small : values.length < 2 ^ 62)
    (size : items.length = values.length) :
    (∃ u, tableValue convert t.entries t.length = .ok u ∧ u.same (.list items) = true) ↔
      Forall₂ (fun v item => v.isNil = false ∧ ∃ u, convert v = .ok u ∧ u.same item = true) values items := by
  constructor
  · rintro ⟨u, ok, same⟩
    obtain ⟨converts, ⟨us, rfl, full⟩ | ⟨fields, rfl, _⟩⟩ := of_tableValue_eq_ok ok
    · have together := HostValue.sameItems_iff.mp same
      have filled := holds.filled_of_length (by rw [length_listEntries, ← size, ← together.length_eq, full])
      have perm := holds.perm_of_filled filled
      have filled (v : Value) (member : v ∈ values) : v.isNil = false := by
        rw [← map_snd_listEntries 1 values] at member
        obtain ⟨e, entry, rfl⟩ := List.mem_map.mp member
        exact filled e entry
      have converts (v : Value) (member : v ∈ values) : ∃ u, convert v = .ok u := by
        rw [← map_snd_listEntries 1 values] at member
        obtain ⟨e, entry, rfl⟩ := List.mem_map.mp member
        exact converts e (perm.mem_iff.mpr entry)
      obtain ⟨ws, each⟩ := exists_forall₂_of_forall_mem converts
      rw [length_of_holds holds filled small, tableValue_of_list (by omega) perm each] at ok
      cases ok
      exact (List.forall₂_and_left _ _).mpr ⟨filled, forall₂_comp each together⟩
    · cases same
  · intro each
    obtain ⟨filled, each⟩ := (List.forall₂_and_left _ _).mp each
    obtain ⟨us, each, together⟩ := forall₂_of_comp each
    have perm := holds.perm_of_filled fun e member =>
      filled e.2 (map_snd_listEntries 1 values ▸ List.mem_map.mpr ⟨e, member, rfl⟩)
    rw [length_of_holds holds filled small, tableValue_of_list (by omega) perm each]
    exact ⟨_, rfl, HostValue.sameItems_iff.mpr together⟩

/-! Maps -/

theorem comes_back_map_iff (holds : t.Holds (mapEntries pairs)) (names : entries.map Prod.fst = pairs.map Prod.fst)
    (ascending : entries.Pairwise fun e f => e.1 < f.1) :
    (∃ u, tableValue convert t.entries t.length = .ok u ∧ u.same (.map entries) = true) ↔
      entries ≠ [] ∧
        Forall₂ (fun p e => p.2.isNil = false ∧ ∃ u, convert p.2 = .ok u ∧ u.same e.2 = true) pairs entries := by
  have size : entries.length = pairs.length := by simpa using congrArg List.length names
  have nonempty : entries ≠ [] ↔ pairs ≠ [] := by simp [← List.length_eq_zero_iff, size]
  have ascending : pairs.Pairwise fun e f => e.1 < f.1 := by
    rw [← List.pairwise_map (f := Prod.fst)] at ascending ⊢
    exact names ▸ ascending
  have named : Forall₂ (fun (p : String × Value) (e : String × HostValue) => p.1 = e.1) pairs entries := by
    rw [← List.forall₂_eq_eq_eq, List.forall₂_map_left_iff, List.forall₂_map_right_iff] at names
    exact names.flip.imp fun _ _ same => same.symm
  constructor
  · rintro ⟨u, ok, same⟩
    obtain ⟨converts, ⟨us, rfl, full⟩ | ⟨fields, rfl, full, unplaced⟩⟩ := of_tableValue_eq_ok ok
    · cases same
    · have together := HostValue.sameEntries_iff.mp same
      have full : (mapEntries pairs).length ≤ t.entries.length := by
        rw [mapEntries, List.length_map, ← size, ← together.length_eq]
        exact full
      have filled := holds.filled_of_length full
      have perm := holds.perm_of_filled filled
      have some : pairs ≠ [] := by
        rintro rfl
        have none : t.length = ([] : List Value).length := length_of_holds holds (by simp) (by decide)
        rw [perm.eq_nil, none] at unplaced
        cases unplaced
      have converts (p : String × Value) (member : p ∈ pairs) :
          ∃ f : String × HostValue, p.1 = f.1 ∧ convert p.2 = .ok f.2 := by
        obtain ⟨u, ok⟩ := converts (.text p.1, p.2) (perm.mem_iff.mpr (List.mem_map.mpr ⟨p, member, rfl⟩))
        exact ⟨(p.1, u), rfl, ok⟩
      obtain ⟨fs, each⟩ := exists_forall₂_of_forall_mem converts
      rw [tableValue_of_map some ascending perm each] at ok
      cases ok
      refine ⟨nonempty.mpr some, (List.forall₂_and_left _ _).mpr ⟨fun p member => ?_, ?_⟩⟩
      · exact filled (.text p.1, p.2) (List.mem_map.mpr ⟨p, member, rfl⟩)
      · refine (forall₂_comp each together).imp ?_
        rintro p e ⟨f, first, second⟩
        exact ⟨f.2, first.2, second.2⟩
  · rintro ⟨some, each⟩
    obtain ⟨filled, each⟩ := (List.forall₂_and_left _ _).mp each
    have each : Forall₂ (fun (p : String × Value) (e : String × HostValue) => ∃ f : String × HostValue,
        (p.1 = f.1 ∧ convert p.2 = .ok f.2) ∧ f.1 = e.1 ∧ f.2.same e.2 = true) pairs entries := by
      refine named.mp ?_ each
      rintro p e name ⟨u, ok, same⟩
      exact ⟨(p.1, u), ⟨rfl, ok⟩, name, same⟩
    obtain ⟨fields, each, together⟩ := forall₂_of_comp each
    have perm := holds.perm_of_filled fun e member => by
      obtain ⟨p, pair, rfl⟩ := List.mem_map.mp member
      exact filled p pair
    rw [tableValue_of_map (nonempty.mp some) ascending perm each]
    exact ⟨_, rfl, HostValue.sameEntries_iff.mpr together⟩

/-! Numbers -/

theorem comes_back_number_iff (tables : Nat → Table) (levels : Nat) (x : Float) :
    (∃ u, toHost tables levels (ofHostNumber x) = .ok u ∧ u.same (.number x) = true) ↔ ¬ HostValue.IsInexact x := by
  rw [HostValue.isInexact_iff, ofHostNumber]
  cases whole : Decimal.whole? x with
  | none =>
    have here : (x == x || x.isNaN && x.isNaN) = true := by
      cases number : x.isNaN with
      | false => rw [Decimal.beq_self number, Bool.true_or]
      | true => simp
    simpa [Value.float, toHost, HostValue.same] using here
  | some i =>
    dsimp only
    rw [Value.int, toHost]
    have limit : exactLimit = 2 ^ 53 := rfl
    split
    next exact =>
      refine iff_of_true ⟨_, rfl, ?_⟩ ?_
      · rw [HostValue.same, Decimal.ofInt_beq whole (limit ▸ exact), Bool.true_or]
      · rintro ⟨j, same, large⟩
        cases same
        omega
    next large => exact iff_of_false (fun ⟨u, ok, _⟩ => by cases ok) (fun exact => exact ⟨i, rfl, by omega⟩)

end Bridge

variable {World : Type} {tables : Array Table} {low : Nat} {v : HostValue} {value : Value}

theorem Stands.isNil_eq_false_iff (stands : Stands tables low v value) : value.isNil = false ↔ v ≠ .nil := by
  cases stands with
  | number x =>
    rw [Bridge.ofHostNumber]
    split <;> simp [Value.int, Value.float, Value.isNil]
  | _ => simp [Value.text, Value.table, Value.isNil]

/-- What stands for a value comes back as it if and only if the value can pass. -/
theorem Stands.comes_back_iff (stands : Stands tables low v value) (proper : v.IsProper) (levels : Nat) :
    (∃ u, Bridge.toHost (fun id => tables[id]?.getD {}) levels value = .ok u ∧ u.same v = true) ↔ v.Passes levels := by
  induction v using HostValue.induct generalizing low value levels with
  | nil =>
    cases stands
    exact iff_of_true ⟨.nil, by rw [Bridge.toHost], rfl⟩ (HostValue.IsLeaf.passes trivial nofun)
  | bool b =>
    cases stands
    exact iff_of_true ⟨.bool b, by rw [Bridge.toHost], by simp [HostValue.same]⟩ (HostValue.IsLeaf.passes trivial nofun)
  | number x =>
    cases stands
    rw [HostValue.passes_number_iff]
    exact Bridge.comes_back_number_iff _ levels x
  | str s =>
    cases stands
    exact iff_of_true ⟨.str s, by rw [Value.text, Bridge.toHost, Text.ofBytesRepaired_toUTF8], by simp [HostValue.same]⟩
      (HostValue.IsLeaf.passes trivial nofun)
  | list items ih =>
    cases stands with
    | @list _ id t _ values above here holds size each =>
    cases levels with
    | zero => exact iff_of_false (fun ⟨u, ok, _⟩ => by cases ok) HostValue.not_passes_list
    | succ levels =>
      have small := proper.lists items .self
      rw [Value.table, Bridge.toHost, here, Option.getD_some, Bridge.comes_back_list_iff holds (by omega) size,
        HostValue.passes_list_iff]
      have pairs : Forall₂ (Stands tables (id + 1)) items values :=
        List.forall₂_iff_zip.mpr ⟨size, fun member => each _ member⟩
      refine forall₂_iff_forall_mem pairs fun item member value stands => ?_
      rw [ih item member stands (proper.item member), stands.isNil_eq_false_iff]
  | map entries ih =>
    cases stands with
    | @map _ id t _ pairs above here holds names each =>
    cases levels with
    | zero => exact iff_of_false (fun ⟨u, ok, _⟩ => by cases ok) HostValue.not_passes_map
    | succ levels =>
      rw [Value.table, Bridge.toHost, here, Option.getD_some, Bridge.comes_back_map_iff holds names (proper.maps entries .self),
        HostValue.passes_map_iff]
      have size : entries.length = pairs.length := by simpa using congrArg List.length names
      have pairs : Forall₂ (fun e p => Stands tables (id + 1) e.2 p.2) entries pairs :=
        List.forall₂_iff_zip.mpr ⟨size, fun member => each _ member⟩
      refine and_congr_right fun _ => forall₂_iff_forall_mem pairs fun e member p stands => ?_
      rw [ih e member stands (proper.entry member), stands.isNil_eq_false_iff]

/-- A value of the host goes into a script and comes back the same if and only if it can pass. On the way in the
memory of the script can run out. -/
theorem comes_back_iff_passes (proper : v.IsProper) (s : State World) :
    (∃ s', ofHost v s = .raise .memory s' ∧ s.memory.limit ≠ none) ∨
      ∃ value s', ofHost v s = .done value s' ∧
        ((∃ u, toHost value s' = .done (.ok u) s' ∧ u.same v = true) ↔ v.Passes Bridge.depthLimit) := by
  rcases makes_ofHost proper s with fails | ⟨value, s', run, _, entered⟩
  · exact .inl fails
  · refine .inr ⟨value, s', run, ?_⟩
    rw [← entered.stands.comes_back_iff proper Bridge.depthLimit]
    refine exists_congr fun u => and_congr_left fun _ => ?_
    change Progress.done (Bridge.toHost _ _ _) s' = _ ↔ _
    rw [Progress.done.injEq, and_iff_left rfl]

/-- A list in a map whose keys are digits. -/
def numbered : HostValue := .map [("1", .list [.bool true, .str "a"]), ("2", .str "")]

theorem comes_back_numbered : ∃ value s' u, ofHost numbered (State.initial ()) = .done value s' ∧
    toHost value s' = .done (.ok u) s' ∧ u.same numbered = true := by
  have inner : (HostValue.list [.bool true, .str "a"]).IsProper :=
    HostValue.isProper_list (by decide) (by simpa using ⟨HostValue.IsLeaf.isProper trivial, HostValue.IsLeaf.isProper trivial⟩)
  have proper : numbered.IsProper :=
    HostValue.isProper_map (by decide) (by simpa using ⟨inner, HostValue.IsLeaf.isProper trivial⟩)
  have filled : (HostValue.list [.bool true, .str "a"]).Passes 63 :=
    HostValue.passes_list_iff.mpr (by simpa using ⟨HostValue.IsLeaf.passes trivial nofun, HostValue.IsLeaf.passes trivial nofun⟩)
  have passes : numbered.Passes Bridge.depthLimit :=
    HostValue.passes_map_iff.mpr ⟨nofun, by simpa using ⟨filled, HostValue.IsLeaf.passes trivial nofun⟩⟩
  rcases comes_back_iff_passes proper (State.initial ()) with ⟨_, _, limited⟩ | ⟨value, s', run, back⟩
  · exact absurd rfl limited
  · obtain ⟨u, ok, same⟩ := back.mpr passes
    exact ⟨value, s', u, run, ok, same⟩

end ScriptTools.Guest
