import ScriptTools.HostValue
import ScriptTools.Proofs.Decimal.Value

/-!
Values of the host: what occurs in them, how deep they nest, when two of them are the same, and which of
them can pass through a script and back.
-/

namespace ScriptTools.HostValue

variable {v w : HostValue} {items : List HostValue} {entries : List (String × HostValue)} {levels : Nat}

/-- Induction over the values that stand in a list or a map. -/
@[elab_as_elim]
theorem induct {P : HostValue → Prop} (nil : P .nil) (bool : ∀ b, P (.bool b)) (number : ∀ x, P (.number x))
    (str : ∀ s, P (.str s)) (list : ∀ items, (∀ v ∈ items, P v) → P (.list items))
    (map : ∀ entries, (∀ e ∈ entries, P e.2) → P (.map entries)) (v : HostValue) : P v :=
  HostValue.rec nil bool number str list map (fun _ => nofun)
    (fun _ _ first rest => List.forall_mem_cons.mpr ⟨first, rest⟩)
    (fun _ => nofun) (fun _ _ first rest => List.forall_mem_cons.mpr ⟨first, rest⟩) (fun _ _ second => second) v

/-- The value itself, or one that stands in it at any depth. -/
inductive Within (w : HostValue) : HostValue → Prop
  | self : Within w w
  | item {items : List HostValue} {v : HostValue} (member : v ∈ items) (within : Within w v) : Within w (.list items)
  | entry {entries : List (String × HostValue)} {e : String × HostValue} (member : e ∈ entries) (within : Within w e.2) :
      Within w (.map entries)

mutual

/-- How many lists and maps stand in each other. -/
def depth : HostValue → Nat
  | .list items => depthItems items + 1
  | .map entries => depthEntries entries + 1
  | _ => 0

def depthItems : List HostValue → Nat
  | [] => 0
  | v :: rest => max v.depth (depthItems rest)

def depthEntries : List (String × HostValue) → Nat
  | [] => 0
  | (_, v) :: rest => max v.depth (depthEntries rest)

end

mutual

/-- Whether two values are equal. Numbers are compared as such, but NaN is the same as NaN. -/
def same : HostValue → HostValue → Bool
  | .nil, .nil => true
  | .bool a, .bool b => a == b
  | .number x, .number y => x == y || x.isNaN && y.isNaN
  | .str s, .str t => s == t
  | .list vs, .list ws => sameItems vs ws
  | .map es, .map fs => sameEntries es fs
  | _, _ => false

def sameItems : List HostValue → List HostValue → Bool
  | [], [] => true
  | v :: vs, w :: ws => v.same w && sameItems vs ws
  | _, _ => false

def sameEntries : List (String × HostValue) → List (String × HostValue) → Bool
  | [], [] => true
  | (k, v) :: es, (j, w) :: fs => k == j && v.same w && sameEntries es fs
  | _, _ => false

end

/-- A number that is an integer of 64 bits but too large for a double to hold all of its neighbours. -/
def IsInexact (x : Float) : Prop :=
  ∃ n : Int, x.isFinite = true ∧ Decimal.value x = n ∧ 2 ^ 53 < |n| ∧ -2 ^ 63 ≤ n ∧ n < 2 ^ 63

/-- What can pass through a script and back when tables may be nested a number of levels deep. -/
structure Passes (levels : Nat) (v : HostValue) : Prop where
  items : ∀ items, Within (.list items) v → .nil ∉ items
  entries : ∀ entries, Within (.map entries) v → entries ≠ [] ∧ .nil ∉ entries.map Prod.snd
  shallow : v.depth ≤ levels
  numbers : ∀ x, Within (.number x) v → ¬ IsInexact x

/-- What the types of the host guarantee: the keys of a map ascend, and lists fit into memory. -/
structure IsProper (v : HostValue) : Prop where
  lists : ∀ items, Within (.list items) v → items.length < 2 ^ 62
  maps : ∀ entries, Within (.map entries) v → entries.Pairwise fun e f => e.1 < f.1

theorem isInexact_iff {x : Float} : IsInexact x ↔ ∃ i, Decimal.whole? x = some i ∧ 2 ^ 53 < i.toInt.natAbs := by
  constructor
  · rintro ⟨n, finite, value, large, low, high⟩
    have fits : (Int64.ofInt n).toInt = n := Int64.toInt_ofInt_of_le (by omega) (by omega)
    refine ⟨Int64.ofInt n, Decimal.whole?_eq_some_iff.mpr ⟨finite, by rw [fits, value]⟩, ?_⟩
    rw [fits]
    rw [lt_abs] at large
    omega
  · rintro ⟨i, whole, large⟩
    obtain ⟨finite, value⟩ := Decimal.whole?_eq_some_iff.mp whole
    have low := i.le_toInt
    have high := i.toInt_lt
    exact ⟨i.toInt, finite, value, lt_abs.mpr (by omega), low, high⟩

theorem depthItems_le : depthItems items ≤ levels ↔ ∀ v ∈ items, v.depth ≤ levels := by
  induction items with
  | nil => simp [depthItems]
  | cons v items ih => simp [depthItems, ih]

theorem depthEntries_le : depthEntries entries ≤ levels ↔ ∀ e ∈ entries, e.2.depth ≤ levels := by
  induction entries with
  | nil => simp [depthEntries]
  | cons e entries ih => simp [depthEntries, ih]

theorem sameItems_iff {ws : List HostValue} :
    sameItems items ws = true ↔ List.Forall₂ (fun v w => v.same w = true) items ws := by
  induction items generalizing ws with
  | nil => cases ws <;> simp [sameItems]
  | cons v items ih => cases ws <;> simp [sameItems, ih]

theorem sameEntries_iff {fs : List (String × HostValue)} :
    sameEntries entries fs = true ↔ List.Forall₂ (fun e f => e.1 = f.1 ∧ e.2.same f.2 = true) entries fs := by
  induction entries generalizing fs with
  | nil => cases fs <;> simp [sameEntries]
  | cons e entries ih => cases fs <;> simp [sameEntries, ih]

theorem within_list_iff : Within w (.list items) ↔ w = .list items ∨ ∃ v ∈ items, Within w v := by
  constructor
  · rintro (_ | ⟨member, within⟩)
    · exact .inl rfl
    · exact .inr ⟨_, member, within⟩
  · rintro (rfl | ⟨v, member, within⟩)
    · exact .self
    · exact .item member within

theorem within_map_iff : Within w (.map entries) ↔ w = .map entries ∨ ∃ e ∈ entries, Within w e.2 := by
  constructor
  · rintro (_ | _ | ⟨member, within⟩)
    · exact .inl rfl
    · exact .inr ⟨_, member, within⟩
  · rintro (rfl | ⟨v, member, within⟩)
    · exact .self
    · exact .entry member within

/-- A value that holds no others. -/
def IsLeaf : HostValue → Prop
  | .list _ => False
  | .map _ => False
  | _ => True

theorem IsLeaf.eq_of_within (leaf : v.IsLeaf) (within : Within w v) : w = v := by
  cases within with
  | self => rfl
  | item => exact leaf.elim
  | entry => exact leaf.elim

theorem IsLeaf.isProper (leaf : v.IsLeaf) : v.IsProper where
  lists _ within := by
    cases leaf.eq_of_within within
    exact leaf.elim
  maps _ within := by
    cases leaf.eq_of_within within
    exact leaf.elim

theorem IsProper.item (proper : (list items).IsProper) (member : v ∈ items) : v.IsProper where
  lists _ within := proper.lists _ (.item member within)
  maps _ within := proper.maps _ (.item member within)

theorem IsProper.entry (proper : (map entries).IsProper) {e : String × HostValue} (member : e ∈ entries) :
    e.2.IsProper where
  lists _ within := proper.lists _ (.entry member within)
  maps _ within := proper.maps _ (.entry member within)

theorem isProper_list (short : items.length < 2 ^ 62) (each : ∀ v ∈ items, v.IsProper) : (list items).IsProper where
  lists inner within := by
    rcases within_list_iff.mp within with here | ⟨v, member, within⟩
    · cases here
      exact short
    · exact (each v member).lists inner within
  maps inner within := by
    rcases within_list_iff.mp within with here | ⟨v, member, within⟩
    · cases here
    · exact (each v member).maps inner within

theorem isProper_map (ascending : entries.Pairwise fun e f => e.1 < f.1) (each : ∀ e ∈ entries, e.2.IsProper) :
    (map entries).IsProper where
  lists inner within := by
    rcases within_map_iff.mp within with here | ⟨e, member, within⟩
    · cases here
    · exact (each e member).lists inner within
  maps inner within := by
    rcases within_map_iff.mp within with here | ⟨e, member, within⟩
    · cases here
      exact ascending
    · exact (each e member).maps inner within

theorem Passes.item (passes : (list items).Passes (levels + 1)) (member : v ∈ items) : v.Passes levels where
  items _ within := passes.items _ (.item member within)
  entries _ within := passes.entries _ (.item member within)
  shallow := depthItems_le.mp (Nat.le_of_succ_le_succ passes.shallow) v member
  numbers _ within := passes.numbers _ (.item member within)

theorem Passes.entry (passes : (map entries).Passes (levels + 1)) {e : String × HostValue} (member : e ∈ entries) :
    e.2.Passes levels where
  items _ within := passes.items _ (.entry member within)
  entries _ within := passes.entries _ (.entry member within)
  shallow := depthEntries_le.mp (Nat.le_of_succ_le_succ passes.shallow) e member
  numbers _ within := passes.numbers _ (.entry member within)

/-- A list passes when what stands in it passes one level deeper. -/
theorem passes_list_iff : (list items).Passes (levels + 1) ↔ ∀ v ∈ items, v ≠ .nil ∧ v.Passes levels := by
  constructor
  · exact fun passes v member => ⟨fun none => passes.items items .self (none ▸ member), passes.item member⟩
  · intro each
    refine ⟨?_, ?_, Nat.succ_le_succ (depthItems_le.mpr fun v member => (each v member).2.shallow), ?_⟩
    · intro inner within
      rcases within_list_iff.mp within with here | ⟨v, member, within⟩
      · cases here
        exact fun none => (each _ none).1 rfl
      · exact (each v member).2.items inner within
    · intro inner within
      rcases within_list_iff.mp within with here | ⟨v, member, within⟩
      · cases here
      · exact (each v member).2.entries inner within
    · intro x within
      rcases within_list_iff.mp within with here | ⟨v, member, within⟩
      · cases here
      · exact (each v member).2.numbers x within

/-- A map passes when it has an entry and what stands in it passes one level deeper. -/
theorem passes_map_iff :
    (map entries).Passes (levels + 1) ↔ entries ≠ [] ∧ ∀ e ∈ entries, e.2 ≠ .nil ∧ e.2.Passes levels := by
  constructor
  · intro passes
    obtain ⟨some, filled⟩ := passes.entries entries .self
    exact ⟨some, fun e member => ⟨fun none => filled (List.mem_map.mpr ⟨e, member, none⟩), passes.entry member⟩⟩
  · rintro ⟨some, each⟩
    refine ⟨?_, ?_, Nat.succ_le_succ (depthEntries_le.mpr fun e member => (each e member).2.shallow), ?_⟩
    · intro inner within
      rcases within_map_iff.mp within with here | ⟨e, member, within⟩
      · cases here
      · exact (each e member).2.items inner within
    · intro inner within
      rcases within_map_iff.mp within with here | ⟨e, member, within⟩
      · cases here
        refine ⟨some, fun none => ?_⟩
        obtain ⟨e, member, none⟩ := List.mem_map.mp none
        exact (each e member).1 none
      · exact (each e member).2.entries inner within
    · intro x within
      rcases within_map_iff.mp within with here | ⟨e, member, within⟩
      · cases here
      · exact (each e member).2.numbers x within

theorem not_passes_list : ¬ (list items).Passes 0 := fun passes => absurd passes.shallow (Nat.not_succ_le_zero _)

theorem not_passes_map : ¬ (map entries).Passes 0 := fun passes => absurd passes.shallow (Nat.not_succ_le_zero _)

theorem passes_number_iff {x : Float} : (number x).Passes levels ↔ ¬ IsInexact x := by
  constructor
  · exact fun passes => passes.numbers x .self
  · intro exact
    refine ⟨fun _ within => (nomatch within), fun _ within => (nomatch within), Nat.zero_le _, fun y within => ?_⟩
    cases within
    exact exact

theorem IsLeaf.passes (leaf : v.IsLeaf) (number : ∀ x, v ≠ .number x) : v.Passes levels where
  items inner within := by
    cases leaf.eq_of_within within
    exact leaf.elim
  entries inner within := by
    cases leaf.eq_of_within within
    exact leaf.elim
  shallow := by
    cases v with
    | list => exact leaf.elim
    | map => exact leaf.elim
    | _ => exact Nat.zero_le _
  numbers x within := absurd (leaf.eq_of_within within).symm (number x)

end ScriptTools.HostValue
