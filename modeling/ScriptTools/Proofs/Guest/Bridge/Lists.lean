import ScriptTools.Proofs.Guest.Bridge.Heap
import ScriptTools.Proofs.Guest.Table.Length

/-!
Which tables become lists. A table with holes has several borders, and any of them may be its length; its entries come in
any order. All the same a table becomes a list exactly when its keys are the integers from `1` to some number.
-/

namespace ScriptTools.Guest.Bridge

open List (Forall₂)
open Table (IsBorder lastKey lastKey_eq)

variable {tables : Nat → Table} {order : Nat → List (Key × Value)} {convert : Value → Except Defect HostValue}
  {entries : List (Key × Value)} {length levels id : Nat} {items : List HostValue} {k : Key} {w : HostValue}

/-- Whether a number can be the length of a table with some entries. -/
def IsLength (entries : List (Key × Value)) (length : Nat) : Prop :=
  IsBorder (fun i => .int (Int64.ofNat i) ∈ entries.map Prod.fst) length

theorem place?_eq_some_iff {i : Nat} : place? length k = some i ↔
    1 ≤ i ∧ i ≤ length ∧ ∃ n : Int64, k = .int n ∧ n.toInt = i := by
  constructor
  · intro place
    obtain ⟨n, rfl, value⟩ := key_of_place? place
    rw [place?, Option.ite_none_right_eq_some, Bool.and_eq_true, decide_eq_true_iff, decide_eq_true_iff] at place
    obtain ⟨⟨low, high⟩, _⟩ := place
    exact ⟨by omega, by omega, n, rfl, value⟩
  · rintro ⟨low, high, n, rfl, value⟩
    rw [place?, value, if_pos, Int.toNat_natCast]
    rw [Bool.and_eq_true, decide_eq_true_iff, decide_eq_true_iff]
    omega

theorem exists_place?_iff :
    (∃ i, place? length k = some i) ↔ ∃ n : Int64, k = .int n ∧ 1 ≤ n.toInt ∧ n.toInt ≤ length := by
  simp only [place?_eq_some_iff]
  constructor
  · rintro ⟨i, low, high, n, rfl, value⟩
    exact ⟨n, rfl, by omega, by omega⟩
  · rintro ⟨n, rfl, low, high⟩
    exact ⟨n.toInt.toNat, by omega, by omega, n, rfl, by omega⟩

/-- The keys of a sequence go up to its length, which leaves no choice. -/
theorem isSequence_iff (border : IsLength entries length) :
    IsSequence entries ↔ ∀ k, k ∈ entries.map Prod.fst ↔ ∃ i, place? length k = some i := by
  simp only [exists_place?_iff]
  refine ⟨fun sequence => ?_, fun keys => ⟨length, keys⟩⟩
  obtain ⟨n, keys⟩ := sequence
  have limit := lastKey_eq
  have last : length = min n lastKey := by
    refine border.eq_of_dense (Nat.min_le_right n lastKey) fun i low high => ?_
    have value : (Int64.ofNat i).toInt = i := Int64.toInt_ofNat_of_lt (by omega)
    rw [keys]
    constructor
    · rintro ⟨m, same, _, bound⟩
      rw [← Key.int.inj same, value] at bound
      omega
    · intro bound
      exact ⟨_, rfl, by omega, by omega⟩
  intro k
  rw [keys]
  refine exists_congr fun i => and_congr_right fun _ => and_congr_right fun _ => ?_
  have small := i.toInt_lt
  omega

/-- As many different places as a list has are all of its places. -/
theorem places_perm {placed : List (Nat × HostValue)} (distinct : (entries.map Prod.fst).Nodup)
    (full : entries.length = length) (each : Forall₂ (fun e p => place? length e.1 = some p.1) entries placed) :
    (placed.map Prod.fst).Perm (List.range' 1 length) := by
  have within : placed.map Prod.fst ⊆ List.range' 1 length := by
    intro i member
    obtain ⟨p, inside, rfl⟩ := List.mem_map.mp member
    obtain ⟨e, _, place⟩ := exists_mem_of_forall₂ each p inside
    obtain ⟨low, high, _⟩ := place?_eq_some_iff.mp place
    rw [List.mem_range'_1]
    omega
  refine (List.subperm_of_subset (places_nodup distinct each) within).perm_of_length_le ?_
  rw [List.length_range', List.length_map, ← each.length_eq, full]

/-- Every place of a list is the place of a key. -/
theorem exists_of_place {placed : List (Nat × HostValue)} (distinct : (entries.map Prod.fst).Nodup)
    (full : entries.length = length) (each : Forall₂ (fun e p => place? length e.1 = some p.1) entries placed)
    (place : ∃ i, place? length k = some i) : k ∈ entries.map Prod.fst := by
  obtain ⟨i, place⟩ := place
  obtain ⟨low, high, _⟩ := place?_eq_some_iff.mp place
  have member : i ∈ placed.map Prod.fst := (places_perm distinct full each).mem_iff.mpr (List.mem_range'_1.mpr (by omega))
  obtain ⟨p, inside, rfl⟩ := List.mem_map.mp member
  obtain ⟨e, here, other⟩ := exists_mem_of_forall₂ each p inside
  exact List.mem_map.mpr ⟨e, here, place?_inj other place⟩

/-- A list has as many elements as the table has entries. -/
theorem length_of_isSequence (distinct : (entries.map Prod.fst).Nodup) (small : length ≤ lastKey)
    (keys : ∀ k, k ∈ entries.map Prod.fst ↔ ∃ i, place? length k = some i) : entries.length = length := by
  have limit := lastKey_eq
  have value (i : Nat) (member : i ∈ List.range' 1 length) : (Int64.ofNat i).toInt = i := by
    rw [List.mem_range'_1] at member
    exact Int64.toInt_ofNat_of_lt (by omega)
  have listed : ((List.range' 1 length).map fun i => Key.int (Int64.ofNat i)).Nodup := by
    refine List.Nodup.map_on (fun i first j second same => ?_) List.nodup_range'
    have same := congrArg Int64.toInt (Key.int.inj same)
    rw [value i first, value j second] at same
    omega
  have perm : (entries.map Prod.fst).Perm ((List.range' 1 length).map fun i => Key.int (Int64.ofNat i)) := by
    refine (List.perm_ext_iff_of_nodup distinct listed).mpr fun k => ?_
    rw [keys, List.mem_map]
    refine exists_congr fun i => ?_
    rw [place?_eq_some_iff]
    constructor
    · rintro ⟨low, high, n, rfl, same⟩
      have member : i ∈ List.range' 1 length := List.mem_range'_1.mpr (by omega)
      exact ⟨member, congrArg Key.int (Int64.toInt_inj.mp ((value i member).trans same.symm))⟩
    · rintro ⟨member, rfl⟩
      have bounds := List.mem_range'_1.mp member
      exact ⟨by omega, by omega, _, rfl, value i member⟩
  simpa using perm.length_eq

/-- A table whose values have values for the host becomes a list exactly if every key has a place, and the places are
full. -/
theorem exists_tableValue_eq_list_iff (converts : ∀ e ∈ entries, ∃ x, convert e.2 = .ok x) :
    (∃ items, tableValue convert entries length = .ok (.list items)) ↔ places? entries length ≠ none := by
  constructor
  · rintro ⟨items, ok⟩ unplaced
    obtain ⟨placed, full, each, _⟩ | ⟨_, fields, _, same⟩ := tableValue_eq_ok_iff.mp ok
    · refine places?_ne_none_iff.mpr ⟨full, fun e member => ?_⟩ unplaced
      obtain ⟨p, place, _⟩ := exists_of_forall₂ each e member
      exact ⟨p.1, place⟩
    · cases same
  · intro somewhere
    obtain ⟨full, places⟩ := places?_ne_none_iff.mp somewhere
    have placed (e : Key × Value) (member : e ∈ entries) :
        ∃ p : Nat × HostValue, place? length e.1 = some p.1 ∧ convert e.2 = .ok p.2 := by
      obtain ⟨i, place⟩ := places e member
      obtain ⟨x, ok⟩ := converts e member
      exact ⟨(i, x), place, ok⟩
    obtain ⟨placed, each⟩ := exists_forall₂_of_forall_mem placed
    exact ⟨_, tableValue_of_places full each⟩

theorem places?_ne_none_iff_isSequence (distinct : (entries.map Prod.fst).Nodup) (border : IsLength entries length) :
    places? entries length ≠ none ↔ IsSequence entries := by
  rw [isSequence_iff border]
  constructor
  · intro somewhere k
    obtain ⟨places, found⟩ := Option.ne_none_iff_exists'.mp somewhere
    obtain ⟨full, each⟩ := places?_eq_some_iff.mp found
    have each : Forall₂ (fun e p => place? length e.1 = some p.1) entries (places.map fun i => (i, HostValue.nil)) :=
      List.forall₂_map_right_iff.mpr each
    refine ⟨fun member => ?_, exists_of_place distinct full each⟩
    obtain ⟨e, here, rfl⟩ := List.mem_map.mp member
    obtain ⟨p, place⟩ := exists_of_forall₂ each e here
    exact ⟨p.1, place⟩
  · intro keys
    refine places?_ne_none_iff.mpr ⟨length_of_isSequence distinct border.le keys, fun e member => ?_⟩
    exact (keys e.1).mp (List.mem_map_of_mem member)

/-- The elements of a list stand in the order of their keys. -/
theorem exists_of_tableValue_eq_list (distinct : (entries.map Prod.fst).Nodup)
    (ok : tableValue convert entries length = .ok (.list items)) {i : Nat} {x : HostValue} (here : items[i]? = some x) :
    ∃ v, (.int (Int64.ofNat (i + 1)), v) ∈ entries ∧ convert v = .ok x := by
  obtain ⟨placed, full, each, same⟩ | ⟨_, _, _, same⟩ := tableValue_eq_ok_iff.mp ok
  swap
  · cases same
  cases same
  have places := places_perm distinct full (each.imp fun _ _ both => both.1)
  have perm : (placed.mergeSort fun a b => a.1 ≤ b.1).Perm placed := List.mergeSort_perm placed _
  have ascending : (placed.mergeSort fun a b => a.1 ≤ b.1).Pairwise fun a b => a.1 < b.1 :=
    Json.ascending_mergeSort (places.nodup_iff.mpr List.nodup_range')
  generalize placed.mergeSort (fun a b => a.1 ≤ b.1) = ordered at perm ascending here
  -- Both are the places in ascending order.
  have numbered : ordered.map Prod.fst = List.range' 1 length :=
    ((perm.map Prod.fst).trans places).eq_of_pairwise (fun a b _ _ low high => absurd low (Nat.lt_asymm high))
      (List.pairwise_map.mpr ascending) List.pairwise_lt_range'
  rw [List.getElem?_map, Option.map_eq_some_iff] at here
  obtain ⟨p, spot, rfl⟩ := here
  have number := congrArg (·[i]?) numbered
  simp only [List.getElem?_map, spot, Option.map_some] at number
  obtain ⟨_, number⟩ := List.getElem?_eq_some_iff.mp number.symm
  rw [List.getElem_range'] at number
  obtain ⟨e, member, place, converted⟩ := exists_mem_of_forall₂ each p (perm.subset (List.mem_of_getElem? spot))
  obtain ⟨_, _, n, key, value⟩ := place?_eq_some_iff.mp place
  have small := n.toInt_lt
  have same : Int64.ofNat (i + 1) = n := by
    rw [← Int64.toInt_inj, Int64.toInt_ofNat_of_lt (by omega)]
    omega
  exact ⟨e.2, by rwa [same, ← key], converted⟩

/-- A table whose values have values for the host becomes a list exactly when its keys are the integers from `1` to some
number, whichever of its borders is taken for its length and in whatever order its entries come. The element at a place is
then what the value of that key has become. -/
theorem becomes_list_iff (distinct : (entries.map Prod.fst).Nodup) (border : IsLength entries length)
    (converts : ∀ e ∈ entries, ∃ x, convert e.2 = .ok x) :
    ((∃ items, tableValue convert entries length = .ok (.list items)) ↔ IsSequence entries) ∧
    ∀ items, tableValue convert entries length = .ok (.list items) → items.length = entries.length ∧
      ∀ i x, items[i]? = some x → ∃ v, (.int (Int64.ofNat (i + 1)), v) ∈ entries ∧ convert v = .ok x := by
  refine ⟨?_, fun items ok => ⟨?_, fun i x => exists_of_tableValue_eq_list distinct ok⟩⟩
  · rw [exists_tableValue_eq_list_iff converts, places?_ne_none_iff_isSequence distinct border]
  · rcases (of_tableValue_eq_ok ok).2 with ⟨_, same, size⟩ | ⟨_, same, _⟩
    · cases same
      exact size
    · cases same

/-- The entries of `{[3] = "c", [1] = "a"}`, which have the borders `1` and `3`. -/
def holed : List (Key × Value) := [(.int 3, .text "c"), (.int 1, .text "a")]

/-- Entries with a hole between their keys are no list with either border. Those of `{[2] = "b", [1] = "a"}` are one, and
the element of the key that comes last stands first. -/
theorem becomes_list_iff_holed :
    IsLength holed 1 ∧ (¬ ∃ items, tableValue (toHost (fun _ => {}) 0) holed 1 = .ok (.list items)) ∧
    IsLength holed 3 ∧ (¬ ∃ items, tableValue (toHost (fun _ => {}) 0) holed 3 = .ok (.list items)) ∧
    ∃ items, tableValue (toHost (fun _ => {}) 0) [(.int 2, .text "b"), (.int 1, .text "a")] 2 = .ok (.list items) ∧
      items.length = 2 ∧ ∀ x, items[0]? = some x → toHost (fun _ => {}) 0 (.text "a") = .ok x := by
  have first : IsLength holed 1 := ⟨by decide, .inr (by decide), .inr (by decide)⟩
  have last : IsLength holed 3 := ⟨by decide, .inr (by decide), .inr (by decide)⟩
  have hole : ¬ IsSequence holed := by
    rintro ⟨n, keys⟩
    obtain ⟨i, key, _, bound⟩ := (keys (.int 3)).mp (by decide)
    cases key
    exact absurd ((keys (.int 2)).mpr ⟨2, rfl, by decide, le_trans (by decide) bound⟩) (by decide)
  have converts : ∀ e ∈ holed, ∃ x, toHost (fun _ => {}) 0 e.2 = .ok x := by simp [holed, Value.text, toHost]
  have distinct : (holed.map Prod.fst).Nodup := by decide
  refine ⟨first, mt (becomes_list_iff distinct first converts).1.mp hole, last,
    mt (becomes_list_iff distinct last converts).1.mp hole, ?_⟩
  have border : IsLength [(.int 2, .text "b"), (.int 1, .text "a")] 2 := ⟨by decide, .inr (by decide), .inr (by decide)⟩
  have sequence : IsSequence [(.int 2, .text "b"), (.int 1, .text "a")] := by
    refine ⟨2, fun k => ?_⟩
    simp only [List.map_cons, List.map_nil, List.mem_cons, List.not_mem_nil, or_false]
    constructor
    · rintro (rfl | rfl)
      · exact ⟨2, rfl, by decide, by decide⟩
      · exact ⟨1, rfl, by decide, by decide⟩
    · rintro ⟨i, rfl, low, high⟩
      have value : i.toInt = 2 ∨ i.toInt = 1 := by omega
      exact value.imp (fun two => congrArg Key.int (Int64.toInt_inj.mp two)) fun one => congrArg Key.int (Int64.toInt_inj.mp one)
  have converts : ∀ e ∈ [(Key.int 2, Value.text "b"), (.int 1, .text "a")], ∃ x, toHost (fun _ => {}) 0 e.2 = .ok x := by
    simp [Value.text, toHost]
  obtain ⟨lists, elements⟩ := becomes_list_iff (by decide) border converts
  obtain ⟨items, ok⟩ := lists.mpr sequence
  obtain ⟨size, each⟩ := elements items ok
  refine ⟨items, ok, size, fun x here => ?_⟩
  obtain ⟨v, member, converted⟩ := each 0 x here
  obtain rfl : v = .text "a" := by simpa using member
  exact converted

/-- The length of a table of the heap is one of its borders, so what the table becomes is settled by its keys. -/
theorem toHostIn_table_eq_list_iff (arranged : (tables id).IsArranged) (enumerates : (order id).Perm (tables id).entries)
    (ok : toHostIn tables order (levels + 1) (.table id) = .ok w) :
    (∃ items, w = .list items) ↔ IsSequence (tables id).entries := by
  have distinct := (enumerates.map Prod.fst).nodup_iff.mpr arranged.keys_entries_nodup
  have border : IsLength (order id) (tables id).length := by
    refine arranged.isBorder_length.congr fun i _ => ?_
    rw [(enumerates.map Prod.fst).mem_iff, Table.isThere, Table.getInt, List.mem_map]
    simp [arranged.mem_entries_iff]
  have keys : IsSequence (order id) ↔ IsSequence (tables id).entries := by
    simp only [IsSequence, (enumerates.map Prod.fst).mem_iff]
  rw [Value.table, toHostIn] at ok
  rw [← keys, ← places?_ne_none_iff_isSequence distinct border, ← exists_tableValue_eq_list_iff (of_tableValue_eq_ok ok).1]
  simp [ok]

end ScriptTools.Guest.Bridge
