import Mathlib.Data.List.Nodup
import Mathlib.Data.List.Perm.Basic
import Mathlib.Data.String.Basic
import ScriptTools.Guest.Bridge
import ScriptTools.Proofs.Json.Fields
import ScriptTools.Proofs.Result
import ScriptTools.Proofs.Text.Bytes

/-!
What a table becomes on the side of the host, in whatever order its entries come.
-/

namespace ScriptTools.Guest

open List (Forall₂)

namespace Bridge

variable {convert : Value → Except Defect HostValue} {entries : List (Key × Value)} {length : Nat} {w : HostValue}

/-- The entries of a table with values from a place on. -/
def listEntries (i : Nat) : List Value → List (Key × Value)
  | [] => []
  | v :: rest => (.int (Int64.ofNat i), v) :: listEntries (i + 1) rest

/-- The entries of a table with named values. -/
def mapEntries (pairs : List (String × Value)) : List (Key × Value) := pairs.map fun e => (.text e.1, e.2)

theorem place?_int {i n : Nat} (low : 1 ≤ i) (high : i ≤ n) (small : n < 2 ^ 63) :
    place? n (.int (Int64.ofNat i)) = some i := by
  have positive : (1 : Int) ≤ i := by omega
  rw [place?, Int64.toInt_ofNat_of_lt (by omega)]
  simp [positive, high]

/-- Entries whose keys are the places of a list become that list. -/
theorem tableValue_of_places {placed : List (Nat × HostValue)} (full : entries.length = length)
    (each : Forall₂ (fun e p => place? length e.1 = some p.1 ∧ convert e.2 = .ok p.2) entries placed) :
    tableValue convert entries length = .ok (.list ((placed.mergeSort fun a b => a.1 ≤ b.1).map Prod.snd)) := by
  have places : places? entries length = some (placed.map Prod.fst) := by
    rw [places?, if_pos full, mapM_eq_some_iff, List.forall₂_map_right_iff]
    exact each.imp fun _ _ both => both.1
  have values : entries.mapM (fun e => convert e.2) = .ok (placed.map Prod.snd) := by
    rw [mapM_eq_ok_iff, List.forall₂_map_right_iff]
    exact each.imp fun _ _ both => both.2
  have together : (placed.map Prod.fst).zip (placed.map Prod.snd) = placed := by
    rw [List.zip_map']
    exact List.map_id _
  rw [tableValue, places]
  dsimp only
  rw [values]
  change Except.ok (HostValue.list _) = _
  rw [together]

/-- Entries with keys of other kinds become a map. -/
theorem tableValue_of_texts {fields : List (String × HostValue)} (unplaced : places? entries length = none)
    (each : Forall₂ (fun e f => keyText e.1 = .ok f.1 ∧ convert e.2 = .ok f.2) entries fields) :
    tableValue convert entries length = .ok (.ofEntries fields) := by
  have pairs : entries.mapM (fun e => do
      let k ← keyText e.1
      let v ← convert e.2
      pure (k, v)) = .ok fields := by
    rw [mapM_eq_ok_iff]
    refine each.imp fun e f both => ?_
    rw [both.1, both.2]
    rfl
  rw [tableValue, unplaced]
  dsimp only
  rw [pairs]
  rfl

/-- What a table with a value for the host has become. -/
theorem of_tableValue_eq_ok (ok : tableValue convert entries length = .ok w) :
    (∀ e ∈ entries, ∃ x, convert e.2 = .ok x) ∧
      ((∃ items, w = .list items ∧ items.length = entries.length) ∨
        ∃ fields, w = .map fields ∧ fields.length ≤ entries.length ∧ places? entries length = none) := by
  rw [tableValue] at ok
  split at ok
  next places found =>
    obtain ⟨values, converted, same⟩ := bind_eq_ok.mp ok
    cases same
    refine ⟨exists_of_forall₂ (mapM_eq_ok_iff.mp converted), .inl ⟨_, rfl, ?_⟩⟩
    rw [places?, Option.ite_none_right_eq_some, mapM_eq_some_iff] at found
    simp [← found.2.length_eq, ← (mapM_eq_ok_iff.mp converted).length_eq]
  next unplaced =>
    obtain ⟨fields, converted, same⟩ := bind_eq_ok.mp ok
    cases same
    refine ⟨fun e member => ?_, .inr ⟨_, rfl, ?_, unplaced⟩⟩
    · obtain ⟨f, found⟩ := exists_of_forall₂ (mapM_eq_ok_iff.mp converted) e member
      obtain ⟨k, _, found⟩ := bind_eq_ok.mp found
      obtain ⟨x, found, _⟩ := bind_eq_ok.mp found
      exact ⟨x, found⟩
    · rw [(mapM_eq_ok_iff.mp converted).length_eq]
      exact Json.length_sortFields_le fields

theorem length_listEntries (i : Nat) (values : List Value) : (listEntries i values).length = values.length := by
  induction values generalizing i with
  | nil => rfl
  | cons v values ih => rw [listEntries, List.length_cons, ih, List.length_cons]

theorem listEntries_append (i : Nat) (values : List Value) (v : Value) :
    listEntries i (values ++ [v]) = listEntries i values ++ [(.int (Int64.ofNat (values.length + i)), v)] := by
  induction values generalizing i with
  | nil => simp [listEntries]
  | cons w values ih =>
    rw [List.cons_append, listEntries, ih, List.length_cons, Nat.add_right_comm]
    rfl

theorem map_snd_listEntries (i : Nat) (values : List Value) : (listEntries i values).map Prod.snd = values := by
  induction values generalizing i with
  | nil => rfl
  | cons v values ih => rw [listEntries, List.map_cons, ih]

theorem mem_keys_listEntries {i : Nat} {values : List Value} {k : Key} :
    k ∈ (listEntries i values).map Prod.fst ↔ ∃ m, i ≤ m ∧ m < i + values.length ∧ k = .int (Int64.ofNat m) := by
  induction values generalizing i with
  | nil => simpa [listEntries] using fun m low high => absurd high (Nat.not_lt.mpr low)
  | cons v values ih =>
    rw [listEntries, List.map_cons, List.mem_cons, ih, List.length_cons]
    constructor
    · rintro (rfl | ⟨m, low, high, rfl⟩)
      · exact ⟨i, le_rfl, by omega, rfl⟩
      · exact ⟨m, by omega, by omega, rfl⟩
    · rintro ⟨m, low, high, rfl⟩
      rcases Nat.eq_or_lt_of_le low with rfl | more
      · exact .inl rfl
      · exact .inr ⟨m, more, by omega, rfl⟩

theorem text_inj {s t : String} (same : Key.text s = Key.text t) : s = t := by
  rw [Key.text, Key.text, Key.string.injEq] at same
  rw [← Text.ofBytesRepaired_toUTF8 s, same, Text.ofBytesRepaired_toUTF8]

theorem keys_mapEntries (pairs : List (String × Value)) :
    (mapEntries pairs).map Prod.fst = pairs.map fun e => .text e.1 := by
  rw [mapEntries, List.map_map]
  rfl

theorem places_listEntries {values : List Value} {items : List HostValue} {i n : Nat} (low : 1 ≤ i) (high : i + values.length ≤ n + 1)
    (small : n < 2 ^ 63) (each : Forall₂ (fun v w => convert v = .ok w) values items) :
    Forall₂ (fun e p => place? n e.1 = some p.1 ∧ convert e.2 = .ok p.2) (listEntries i values)
      ((List.range' i items.length).zip items) := by
  induction each generalizing i with
  | nil => exact .nil
  | cons here _ ih =>
    rw [List.length_cons] at high
    exact .cons ⟨place?_int low (by omega) small, here⟩ (ih (by omega) (by omega))

/-- The entries of a list, in any order, become the list of what its values become. -/
theorem tableValue_of_list {values : List Value} {items : List HostValue} (small : values.length < 2 ^ 63)
    (perm : entries.Perm (listEntries 1 values)) (each : Forall₂ (fun v w => convert v = .ok w) values items) :
    tableValue convert entries values.length = .ok (.list items) := by
  have size : (List.range' 1 items.length).length ≤ items.length := by simp
  obtain ⟨placed, converted, order⟩ := List.perm_comp_forall₂ perm (places_listEntries le_rfl (by omega) small each)
  have ascending : ((List.range' 1 items.length).zip items).Pairwise fun a b => a.1 < b.1 := by
    rw [← List.pairwise_map (f := Prod.fst), List.map_fst_zip size]
    exact List.pairwise_lt_range'
  rw [tableValue_of_places (perm.length_eq.trans (length_listEntries 1 values)) converted,
    Json.mergeSort_eq_of_perm order ascending, List.map_snd_zip (by simp)]

theorem places?_of_text {pairs : List (String × Value)} (some : pairs ≠ [])
    (perm : entries.Perm (mapEntries pairs)) : places? entries length = none := by
  obtain ⟨e, pairs, rfl⟩ := List.exists_cons_of_ne_nil some
  have member : (Key.text e.1, e.2) ∈ entries := perm.mem_iff.mpr (by simp [mapEntries])
  rw [places?]
  split
  · refine Option.eq_none_iff_forall_ne_some.mpr fun places found => ?_
    obtain ⟨place, here⟩ := exists_of_forall₂ (mapM_eq_some_iff.mp found) _ member
    cases here
  · rfl

/-- The entries of a map, in any order, become the map of what its values become. -/
theorem tableValue_of_map {pairs : List (String × Value)} {fields : List (String × HostValue)} (some : pairs ≠ [])
    (ascending : pairs.Pairwise fun e f => e.1 < f.1) (perm : entries.Perm (mapEntries pairs))
    (each : Forall₂ (fun e f => e.1 = f.1 ∧ convert e.2 = .ok f.2) pairs fields) :
    tableValue convert entries length = .ok (.map fields) := by
  have texts : Forall₂ (fun e f => keyText e.1 = .ok f.1 ∧ convert e.2 = .ok f.2) (mapEntries pairs) fields := by
    rw [mapEntries, List.forall₂_map_left_iff]
    exact each.imp fun e f both => ⟨by rw [Key.text, keyText, Text.ofBytesRepaired_toUTF8, both.1], both.2⟩
  obtain ⟨found, converted, order⟩ := List.perm_comp_forall₂ perm texts
  have names : pairs.map Prod.fst = fields.map Prod.fst := by
    rw [← List.forall₂_eq_eq_eq, List.forall₂_map_left_iff, List.forall₂_map_right_iff]
    exact each.imp fun _ _ both => both.1
  have ascending : fields.Pairwise fun e f => e.1 < f.1 := by
    rw [← List.pairwise_map (f := Prod.fst)] at ascending ⊢
    exact names ▸ ascending
  rw [tableValue_of_texts (places?_of_text some perm) converted, HostValue.ofEntries, Json.sortFields_eq_of_perm order ascending]

end Bridge

end ScriptTools.Guest
