import ScriptTools.Proofs.Guest.Bridge.RoundTrip
import ScriptTools.Proofs.Guest.Table.Contents

/-!
What the order in which the entries of tables are enumerated has to do with the values that the tables become.
The keys of a map are texts, and keys of several kinds can have one text: `1` and `"1"`, or two strings that are
no texts. Then one entry takes the place of another, and the order tells which. In all other tables each entry
has its own place.
-/

namespace ScriptTools.Guest

open List (Forall₂)

namespace Bridge

variable {tables : Nat → Table} {order order' : Nat → List (Key × Value)} {convert convert' : Value → Except Defect HostValue}
  {entries entries' : List (Key × Value)} {length levels : Nat} {v : Value} {w : HostValue}

/-- An order in which the entries of each table are enumerated. -/
def Enumerates (tables : Nat → Table) (order : Nat → List (Key × Value)) : Prop :=
  ∀ id, (order id).Perm (tables id).entries

/-- A value for the host, with the entries of tables in a given order. -/
def toHostIn (tables : Nat → Table) (order : Nat → List (Key × Value)) : Nat → Value → Except Defect HostValue
  | levels + 1, .ref (.table id) => tableValue (toHostIn tables order levels) (order id) (tables id).length
  | levels, v => toHost tables levels v

/-- A list or a map with exactly one element for each entry, which holds what the value of the entry has become. -/
def OnePerEntry (became : Value → HostValue → Prop) (entries : List (Key × Value)) : HostValue → Prop
  | .list items => ∃ paired, paired.Perm entries ∧ Forall₂ (fun e x => became e.2 x) paired items
  | .map fields => ∃ paired, paired.Perm entries ∧ Forall₂ (fun e f => became e.2 f.2) paired fields
  | _ => False

/-- No entry of a table has been lost, nor one of the tables in it. -/
def Faithful (tables : Nat → Table) (order : Nat → List (Key × Value)) : Nat → Value → HostValue → Prop
  | levels + 1, .ref (.table id), w =>
    OnePerEntry (fun v x => toHostIn tables order levels v = .ok x ∧ Faithful tables order levels v x) (order id) w
  | _, _, _ => True

/-- The entries are those of a list, or no two of them have keys with one text. -/
def Separate (entries : List (Key × Value)) (length : Nat) : Prop :=
  places? entries length ≠ none ∨ (entries.map fun e => keyText e.1).Nodup

/-- The entries of a table, and of the tables in it, are separate. -/
def Clear (tables : Nat → Table) : Nat → Value → Prop
  | levels + 1, .ref (.table id) =>
    Separate (tables id).entries (tables id).length ∧ ∀ e ∈ (tables id).entries, Clear tables levels e.2
  | _, _ => True

theorem toHostIn_of_forall_ne (noTable : ∀ id, v ≠ .table id) : toHostIn tables order levels v = toHost tables levels v := by
  rw [toHostIn]
  exact fun _ id _ table => noTable id table

theorem toHostIn_entries (tables : Nat → Table) (levels : Nat) (v : Value) :
    toHostIn tables (fun id => (tables id).entries) levels v = toHost tables levels v := by
  induction levels generalizing v with
  | zero => rw [toHostIn]; nofun
  | succ levels ih =>
    by_cases table : ∃ id, v = .table id
    · obtain ⟨id, rfl⟩ := table
      rw [Value.table, toHostIn, toHost, funext ih]
    · exact toHostIn_of_forall_ne (not_exists.mp table)

/-! One table -/

theorem places?_eq_some_iff {places : List Nat} : places? entries length = some places ↔
    entries.length = length ∧ Forall₂ (fun e i => place? length e.1 = some i) entries places := by
  rw [places?, Option.ite_none_right_eq_some, mapM_eq_some_iff]

/-- What a table with a value for the host has become, entry by entry. -/
theorem tableValue_eq_ok_iff : tableValue convert entries length = .ok w ↔
    (∃ placed, entries.length = length ∧
      Forall₂ (fun e p => place? length e.1 = some p.1 ∧ convert e.2 = .ok p.2) entries placed ∧
      w = .list ((placed.mergeSort fun a b => a.1 ≤ b.1).map Prod.snd)) ∨
    places? entries length = none ∧
      ∃ fields, Forall₂ (fun e f => keyText e.1 = .ok f.1 ∧ convert e.2 = .ok f.2) entries fields ∧ w = .ofEntries fields := by
  constructor
  · intro ok
    rw [tableValue] at ok
    split at ok
    next places found =>
      obtain ⟨values, converted, same⟩ := bind_eq_ok.mp ok
      cases same
      obtain ⟨full, placed⟩ := places?_eq_some_iff.mp found
      exact .inl ⟨places.zip values, full, forall₂_zip placed (mapM_eq_ok_iff.mp converted), rfl⟩
    next unplaced =>
      obtain ⟨fields, converted, same⟩ := bind_eq_ok.mp ok
      cases same
      refine .inr ⟨unplaced, fields, (mapM_eq_ok_iff.mp converted).imp fun e f here => ?_, rfl⟩
      obtain ⟨k, text, here⟩ := bind_eq_ok.mp here
      obtain ⟨x, value, here⟩ := bind_eq_ok.mp here
      cases here
      exact ⟨text, value⟩
  · rintro (⟨placed, full, each, rfl⟩ | ⟨unplaced, fields, each, rfl⟩)
    · exact tableValue_of_places full each
    · exact tableValue_of_texts unplaced each

theorem places?_ne_none_iff : places? entries length ≠ none ↔
    entries.length = length ∧ ∀ e ∈ entries, ∃ i, place? length e.1 = some i := by
  rw [Option.ne_none_iff_exists']
  simp only [places?_eq_some_iff]
  constructor
  · rintro ⟨places, full, each⟩
    exact ⟨full, exists_of_forall₂ each⟩
  · rintro ⟨full, each⟩
    obtain ⟨places, each⟩ := exists_forall₂_of_forall_mem each
    exact ⟨places, full, each⟩

theorem places?_perm (perm : entries'.Perm entries) : places? entries' length = none ↔ places? entries length = none := by
  rw [← not_iff_not, ← ne_eq, ← ne_eq, places?_ne_none_iff, places?_ne_none_iff, perm.length_eq]
  simp only [perm.mem_iff]

theorem separate_perm (perm : entries'.Perm entries) : Separate entries' length ↔ Separate entries length :=
  or_congr (not_congr (places?_perm perm)) (perm.map _).nodup_iff

theorem key_of_place? {k : Key} {i : Nat} (place : place? length k = some i) : ∃ n : Int64, k = .int n ∧ n.toInt = i := by
  unfold place? at place
  split at place
  next n =>
    rw [Option.ite_none_right_eq_some, Bool.and_eq_true, decide_eq_true_iff, decide_eq_true_iff] at place
    obtain ⟨⟨low, _⟩, same⟩ := place
    cases same
    exact ⟨n, rfl, by omega⟩
  next => cases place

theorem place?_inj {j k : Key} {i : Nat} (first : place? length j = some i) (second : place? length k = some i) : j = k := by
  obtain ⟨m, rfl, left⟩ := key_of_place? first
  obtain ⟨n, rfl, right⟩ := key_of_place? second
  exact congrArg Key.int (Int64.toInt_inj.mp (left.trans right.symm))

/-- Different keys of a list have different places. -/
theorem places_nodup {placed : List (Nat × HostValue)} (distinct : (entries.map Prod.fst).Nodup)
    (each : Forall₂ (fun e p => place? length e.1 = some p.1) entries placed) : (placed.map Prod.fst).Nodup := by
  induction each with
  | nil => exact .nil
  | @cons e p entries placed here rest ih =>
    obtain ⟨fresh, distinct⟩ := List.nodup_cons.mp distinct
    refine List.nodup_cons.mpr ⟨fun member => fresh ?_, ih distinct⟩
    obtain ⟨q, inside, same⟩ := List.mem_map.mp member
    obtain ⟨f, there, place⟩ := exists_mem_of_forall₂ rest q inside
    exact List.mem_map.mpr ⟨f, there, place?_inj place (here.trans (congrArg some same.symm))⟩

/-- The texts of the keys are the names of the fields. -/
theorem names_nodup_iff {fields : List (String × HostValue)}
    (each : Forall₂ (fun e f => keyText e.1 = .ok f.1) entries fields) :
    (fields.map Prod.fst).Nodup ↔ (entries.map fun e => keyText e.1).Nodup := by
  have same : entries.map (fun e => keyText e.1) = (fields.map Prod.fst).map .ok := by
    rw [← List.forall₂_eq_eq_eq, List.map_map, List.forall₂_map_left_iff, List.forall₂_map_right_iff]
    exact each
  rw [same, List.nodup_map_iff fun a b => Except.ok.inj]

/-- The entries of a table that are separate become the same in any order. -/
theorem tableValue_reorder (distinct : (entries.map Prod.fst).Nodup) (separate : Separate entries length)
    (ok : tableValue convert entries length = .ok w) (perm : entries'.Perm entries)
    (same : ∀ e ∈ entries, ∀ x, convert e.2 = .ok x → convert' e.2 = .ok x) :
    tableValue convert' entries' length = .ok w := by
  rw [tableValue_eq_ok_iff] at ok ⊢
  rcases ok with ⟨placed, full, each, rfl⟩ | ⟨unplaced, fields, each, rfl⟩
  · have places := places_nodup distinct (each.imp fun _ _ both => both.1)
    have each := ((List.forall₂_and_left entries placed).mpr ⟨fun _ member => member, each⟩).imp fun e p both =>
      And.intro both.2.1 (same e both.1 p.2 both.2.2)
    obtain ⟨placed', each', reordered⟩ := List.perm_comp_forall₂ perm each
    refine .inl ⟨placed', perm.length_eq.trans full, each', ?_⟩
    have back : placed'.Perm (placed.mergeSort fun a b => a.1 ≤ b.1) := reordered.trans (List.mergeSort_perm placed _).symm
    rw [Json.mergeSort_eq_of_perm back (Json.ascending_mergeSort places)]
  · have names := (names_nodup_iff (each.imp fun _ _ both => both.1)).mpr (separate.resolve_left (not_not.mpr unplaced))
    have each := ((List.forall₂_and_left entries fields).mpr ⟨fun _ member => member, each⟩).imp fun e f both =>
      And.intro both.2.1 (same e both.1 f.2 both.2.2)
    obtain ⟨fields', each', reordered⟩ := List.perm_comp_forall₂ perm each
    refine .inr ⟨(places?_perm perm).mpr unplaced, fields', each', ?_⟩
    have back : fields'.Perm (Json.sortFields fields) := reordered.trans (Json.sortFields_perm names).symm
    rw [HostValue.ofEntries, HostValue.ofEntries, Json.sortFields_eq_of_perm back (Json.ascending_sortFields fields)]

/-- A table keeps each of its entries exactly if they are separate. -/
theorem onePerEntry_iff (ok : tableValue convert entries length = .ok w) :
    OnePerEntry (fun v x => convert v = .ok x) entries w ↔ Separate entries length := by
  rcases tableValue_eq_ok_iff.mp ok with ⟨placed, full, each, rfl⟩ | ⟨unplaced, fields, each, rfl⟩
  · refine iff_of_true ?_ (.inl ?_)
    · obtain ⟨paired, perm, each⟩ := forall₂_perm each (List.mergeSort_perm placed fun a b => a.1 ≤ b.1)
      exact ⟨paired, perm, List.forall₂_map_right_iff.mpr (each.imp fun _ _ both => both.2)⟩
    · refine places?_ne_none_iff.mpr ⟨full, fun e member => ?_⟩
      obtain ⟨p, place, _⟩ := exists_of_forall₂ each e member
      exact ⟨p.1, place⟩
  · rw [Separate, or_iff_right (not_not.mpr unplaced), ← names_nodup_iff (each.imp fun _ _ both => both.1),
      ← Json.length_sortFields_iff]
    constructor
    · rintro ⟨paired, perm, each'⟩
      exact each'.length_eq.symm.trans (perm.length_eq.trans each.length_eq)
    · intro full
      obtain ⟨paired, perm, each⟩ := forall₂_perm each (Json.sortFields_perm (Json.length_sortFields_iff.mp full))
      exact ⟨paired, perm, each.imp fun _ _ both => both.2⟩

/-- What holds of each converted value holds of the elements. -/
theorem OnePerEntry.imp {became became' : Value → HostValue → Prop} (keeps : OnePerEntry became entries w)
    (weaker : ∀ e ∈ entries, ∀ x, became e.2 x → became' e.2 x) : OnePerEntry became' entries w := by
  cases w with
  | list items =>
    obtain ⟨paired, perm, each⟩ := keeps
    refine ⟨paired, perm, ?_⟩
    exact ((List.forall₂_and_left paired items).mpr ⟨fun _ member => perm.subset member, each⟩).imp fun e x both =>
      weaker e both.1 x both.2
  | map fields =>
    obtain ⟨paired, perm, each⟩ := keeps
    refine ⟨paired, perm, ?_⟩
    exact ((List.forall₂_and_left paired fields).mpr ⟨fun _ member => perm.subset member, each⟩).imp fun e f both =>
      weaker e both.1 f.2 both.2
  | _ => exact keeps

theorem OnePerEntry.exists {became : Value → HostValue → Prop} (keeps : OnePerEntry became entries w)
    (e : Key × Value) (member : e ∈ entries) : ∃ x, became e.2 x := by
  cases w with
  | list items =>
    obtain ⟨paired, perm, each⟩ := keeps
    exact exists_of_forall₂ each e (perm.symm.subset member)
  | map fields =>
    obtain ⟨paired, perm, each⟩ := keeps
    obtain ⟨f, found⟩ := exists_of_forall₂ each e (perm.symm.subset member)
    exact ⟨f.2, found⟩
  | _ => cases keeps

/-! Tables in tables -/

theorem toHostIn_reorder (arranged : ∀ id, (tables id).IsArranged) (enumerates : Enumerates tables order)
    (enumerates' : Enumerates tables order')
    (clear : Clear tables levels v) (ok : toHostIn tables order levels v = .ok w) :
    toHostIn tables order' levels v = .ok w := by
  induction levels generalizing v w with
  | zero =>
    rw [toHostIn] at ok ⊢
    · exact ok
    all_goals nofun
  | succ levels ih =>
    by_cases table : ∃ id, v = .table id
    · obtain ⟨id, rfl⟩ := table
      obtain ⟨separate, inner⟩ := clear
      have keys := ((enumerates id).map Prod.fst).nodup_iff.mpr (arranged id).keys_entries_nodup
      have perm := (enumerates' id).trans (enumerates id).symm
      rw [Value.table, toHostIn] at ok ⊢
      refine tableValue_reorder keys ((separate_perm (enumerates id)).mpr separate) ok perm fun e member x here => ?_
      exact ih (inner e ((enumerates id).subset member)) here
    · rw [toHostIn_of_forall_ne (not_exists.mp table)] at ok ⊢
      exact ok

/-- Nothing is lost exactly if the entries of every table are separate. -/
theorem faithful_iff_clear (enumerates : Enumerates tables order) (ok : toHostIn tables order levels v = .ok w) :
    Faithful tables order levels v w ↔ Clear tables levels v := by
  induction levels generalizing v w with
  | zero =>
    rw [Faithful, Clear]
    all_goals nofun
  | succ levels ih =>
    by_cases table : ∃ id, v = .table id
    · obtain ⟨id, rfl⟩ := table
      have one := onePerEntry_iff ok
      rw [separate_perm (enumerates id)] at one
      constructor
      · intro faithful
        refine ⟨one.mp (faithful.imp fun e _ x both => both.1), fun e member => ?_⟩
        obtain ⟨x, here, inner⟩ := faithful.exists e ((enumerates id).symm.subset member)
        exact (ih here).mp inner
      · rintro ⟨separate, inner⟩
        refine (one.mpr separate).imp fun e member x here => ⟨here, ?_⟩
        exact (ih here).mpr (inner e ((enumerates id).subset member))
    · rw [Faithful, Clear]
      · exact fun _ id _ table' => table ⟨id, table'⟩
      · exact fun _ id _ table' => table ⟨id, table'⟩

/-- A value for the host has one element for each entry of every table, whatever the order of the entries, if and
only if no two entries of a map have keys with one text. -/
theorem toHostIn_faithful_iff (arranged : ∀ id, (tables id).IsArranged) (enumerates : Enumerates tables order)
    (ok : toHostIn tables order levels v = .ok w) :
    (Faithful tables order levels v w ∧
      ∀ order', Enumerates tables order' → toHostIn tables order' levels v = .ok w) ↔ Clear tables levels v := by
  rw [faithful_iff_clear enumerates ok]
  exact and_iff_left_of_imp fun clear _ enumerates' => toHostIn_reorder arranged enumerates enumerates' clear ok

/-- The table `{[1] = "a", [name] = "b"}`. -/
def pair (name : String) : Table := (Table.set {} (.int 1) (.text "a")).set (.text name) (.text "b")

def pairEntries (name : String) : List (Key × Value) := [(.int 1, .text "a"), (.text name, .text "b")]

theorem holds_pair (name : String) : (pair name).Holds (pairEntries name) := by
  have one : (Table.set {} (.int 1) (.text "a")).Holds [(.int 1, .text "a")] := Table.holds_empty.set (by simp) _
  exact one.set (by simp [Key.text]) _

theorem entries_pair (name : String) : (pair name).entries.Perm (pairEntries name) :=
  (holds_pair name).perm_of_filled (by simp [pairEntries, Value.text, Value.isNil])

theorem enumerates_pair {name : String} {order : List (Key × Value)} (perm : order.Perm (pairEntries name)) :
    Enumerates (fun _ => pair name) fun _ => order := by
  exact fun _ => perm.trans (entries_pair name).symm

theorem toHostIn_text (text : String) : toHostIn tables order levels (.text text) = .ok (.str text) := by
  have noTable (id : Nat) : Value.text text ≠ .table id := nofun
  rw [toHostIn_of_forall_ne noTable, Value.text, toHost, Text.ofBytesRepaired_toUTF8]

theorem keyText_text (text : String) : keyText (.text text) = .ok text := by
  rw [Key.text, keyText, Text.ofBytesRepaired_toUTF8]

theorem toHostIn_pair {name : String} {entries : List (Key × Value)} {fields : List (String × HostValue)}
    (perm : entries.Perm (pairEntries name))
    (each : Forall₂ (fun e f => keyText e.1 = .ok f.1 ∧ ∃ text, e.2 = .text text ∧ f.2 = .str text) entries fields) :
    toHostIn tables (fun _ => entries) (levels + 1) (.table 0) = .ok (.ofEntries fields) := by
  rw [Value.table, toHostIn, tableValue_eq_ok_iff]
  refine .inr ⟨?_, fields, each.imp ?_, rfl⟩
  · rw [places?_perm perm, ← not_not (a := places? _ _ = none), ← ne_eq, places?_ne_none_iff]
    rintro ⟨_, each⟩
    obtain ⟨i, place⟩ := each (.text name, .text "b") (by simp [pairEntries])
    cases place
  · rintro e f ⟨key, text, value, same⟩
    exact ⟨key, by rw [value, same, toHostIn_text]⟩

theorem fields_pair (name : String) :
    Forall₂ (fun e f => keyText e.1 = .ok f.1 ∧ ∃ text, e.2 = Value.text text ∧ f.2 = HostValue.str text) (pairEntries name)
      [("1", .str "a"), (name, .str "b")] := by
  exact .cons ⟨rfl, "a", rfl, rfl⟩ (.cons ⟨keyText_text name, "b", rfl, rfl⟩ .nil)

theorem clear_pair {name : String} (other : name ≠ "1") : Clear (fun _ => pair name) (levels + 1) (.table 0) := by
  refine ⟨(separate_perm (entries_pair name)).mpr (.inr ?_), fun e member => ?_⟩
  · have one : keyText (.int 1) = .ok "1" := rfl
    simpa [pairEntries, one, keyText_text] using other.symm
  · rcases List.mem_pair.mp ((entries_pair name).subset member) with rfl | rfl
    · cases levels <;> trivial
    · cases levels <;> trivial

/-- An entry with the key `1` and one with the key `"x"` both stay, whichever comes first. -/
theorem toHostIn_faithful_iff_pair :
    Faithful (fun _ => pair "x") (fun _ => pairEntries "x") depthLimit (.table 0) (.map [("1", .str "a"), ("x", .str "b")]) ∧
      toHostIn (fun _ => pair "x") (fun _ => (pairEntries "x").reverse) depthLimit (.table 0) =
        .ok (.map [("1", .str "a"), ("x", .str "b")]) := by
  have sorted : Json.sortFields [("1", HostValue.str "a"), ("x", .str "b")] = [("1", .str "a"), ("x", .str "b")] := by
    simp [Json.sortFields, List.mergeSort, List.MergeSort.Internal.splitInTwo, Json.keepLast]
  have ok : toHostIn (fun _ => pair "x") (fun _ => pairEntries "x") depthLimit (.table 0) =
      .ok (.ofEntries [("1", .str "a"), ("x", .str "b")]) := toHostIn_pair (.refl _) (fields_pair "x")
  rw [HostValue.ofEntries, sorted] at ok
  obtain ⟨faithful, orders⟩ :=
    (toHostIn_faithful_iff (fun _ => (holds_pair "x").arranged) (enumerates_pair (.refl _)) ok).mpr
      (clear_pair (by decide))
  exact ⟨faithful, orders _ (enumerates_pair (List.reverse_perm _))⟩

/-- Of entries with the keys `1` and `"1"` only the one that comes last stays. -/
theorem toHostIn_not_faithful_pair :
    Enumerates (fun _ => pair "1") (fun _ => pairEntries "1") ∧ Enumerates (fun _ => pair "1") (fun _ => (pairEntries "1").reverse) ∧
    toHostIn (fun _ => pair "1") (fun _ => pairEntries "1") depthLimit (.table 0) = .ok (.map [("1", .str "b")]) ∧
    toHostIn (fun _ => pair "1") (fun _ => (pairEntries "1").reverse) depthLimit (.table 0) = .ok (.map [("1", .str "a")]) ∧
    ¬ Faithful (fun _ => pair "1") (fun _ => pairEntries "1") depthLimit (.table 0) (.map [("1", .str "b")]) := by
  have last (x y : HostValue) : Json.sortFields [("1", x), ("1", y)] = [("1", y)] := by
    simp [Json.sortFields, List.mergeSort, List.MergeSort.Internal.splitInTwo, Json.keepLast]
  refine ⟨enumerates_pair (.refl _), enumerates_pair (List.reverse_perm _), ?_, ?_, ?_⟩
  · rw [← last (.str "a") (.str "b")]
    exact toHostIn_pair (.refl _) (fields_pair "1")
  · rw [← last (.str "b") (.str "a")]
    exact toHostIn_pair (List.reverse_perm _) (List.forall₂_reverse_iff.mpr (fields_pair "1"))
  · rintro ⟨paired, perm, each⟩
    have size := each.length_eq.symm.trans perm.length_eq
    simp [pairEntries] at size

end Bridge

end ScriptTools.Guest
