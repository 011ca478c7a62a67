import ScriptTools.Proofs.Guest.Bridge.Domain
import ScriptTools.Proofs.Guest.Bridge.Tables
import ScriptTools.Proofs.Guest.Table.Length

/-!
What a value of the host becomes in a script. Its lists and maps become new tables, and nothing that was
there before changes; only the memory can run out.
-/

namespace ScriptTools.Guest

variable {World α β : Type}

/-! Computations that end with a value unless the memory runs out -/

namespace Eval

/-- The computation ends in a state with a value, or fails because the memory has a limit. -/
def Makes (m : Eval World α) (s : State World) (P : α → State World → Prop) : Prop :=
  (∃ s', m s = .raise .memory s' ∧ s.memory.limit ≠ none) ∨
    ∃ a s', m s = .done a s' ∧ s'.memory.limit = s.memory.limit ∧ P a s'

variable {m : Eval World α} {f : α → Eval World β} {s : State World} {P Q : α → State World → Prop}
  {R : β → State World → Prop}

theorem Makes.pure {a : α} (holds : P a s) : Makes (Pure.pure a) s P := .inr ⟨a, s, rfl, rfl, holds⟩

theorem Makes.bind (first : Makes m s P) (next : ∀ a s', P a s' → Makes (f a) s' R) : Makes (m >>= f) s R := by
  rcases first with ⟨s', run, limited⟩ | ⟨a, s', run, limit, holds⟩
  · refine .inl ⟨s', ?_, limited⟩
    change Eval.bind m f s = _
    rw [Eval.bind, run]
    rfl
  · have run : (m >>= f) s = f a s' := by
      change Eval.bind m f s = _
      rw [Eval.bind, run]
    rcases next a s' holds with ⟨s'', fails, limited⟩ | ⟨b, s'', ends, limit', holds⟩
    · exact .inl ⟨s'', run.trans fails, limit ▸ limited⟩
    · exact .inr ⟨b, s'', run.trans ends, limit'.trans limit, holds⟩

theorem Makes.weaken (makes : Makes m s P) (weaker : ∀ a s', P a s' → Q a s') : Makes m s Q :=
  makes.imp_right fun ⟨a, s', run, limit, holds⟩ => ⟨a, s', run, limit, weaker a s' holds⟩

theorem makes_allocate (bytes : Nat) (s : State World) : Makes (allocate bytes) s fun _ s' => s'.tables = s.tables := by
  unfold Makes allocate
  split
  next free => exact .inr ⟨(), s, rfl, rfl, rfl⟩
  next limit limited =>
    have some : s.memory.limit ≠ none := by simp [limited]
    dsimp only
    split
    · exact .inr ⟨_, _, rfl, rfl, rfl⟩
    · split
      · exact .inl ⟨s, rfl, some⟩
      · split
        · exact .inr ⟨_, _, rfl, rfl, rfl⟩
        · exact .inl ⟨s, rfl, some⟩

theorem makes_newText (text : String) (s : State World) :
    Makes (newText text) s fun v s' => v = .text text ∧ s'.tables = s.tables :=
  (makes_allocate _ s).bind fun _ _ same => .pure ⟨rfl, same⟩

theorem makes_newTable (t : Table) (s : State World) :
    Makes (newTable t) s fun v s' => v = .table s.tables.size ∧ s'.tables = s.tables.push t :=
  (makes_allocate _ s).bind fun _ s' same => .inr ⟨_, _, rfl, rfl, by rw [same], by rw [same]⟩

theorem makes_rawSet (id : Nat) (k : Key) (v : Value) (s : State World) :
    Makes (rawSet id k v) s fun _ s' => s'.tables = s.tables.modify id fun t => t.set k v := by
  unfold Makes rawSet
  dsimp only
  split
  · exact makes_allocate _ { s with tables := s.tables.modify id fun t => t.set k v }
  · exact .inr ⟨(), _, rfl, rfl, rfl⟩

end Eval

/-! What a value stands for -/

/-- A value of a script stands for one of the host: its tables, which have numbers from `low` on, have what
the lists and maps have. -/
inductive Stands (tables : Array Table) : Nat → HostValue → Value → Prop
  | nil {low : Nat} : Stands tables low .nil .nil
  | bool {low : Nat} (b : Bool) : Stands tables low (.bool b) (.bool b)
  | number {low : Nat} (x : Float) : Stands tables low (.number x) (Bridge.ofHostNumber x)
  | str {low : Nat} (s : String) : Stands tables low (.str s) (.text s)
  | list {low id : Nat} {t : Table} {items : List HostValue} {values : List Value} (above : low ≤ id)
      (here : tables[id]? = some t) (holds : t.Holds (Bridge.listEntries 1 values)) (size : items.length = values.length)
      (each : ∀ p ∈ items.zip values, Stands tables (id + 1) p.1 p.2) : Stands tables low (.list items) (.table id)
  | map {low id : Nat} {t : Table} {entries : List (String × HostValue)} {pairs : List (String × Value)}
      (above : low ≤ id) (here : tables[id]? = some t) (holds : t.Holds (Bridge.mapEntries pairs))
      (names : entries.map Prod.fst = pairs.map Prod.fst)
      (each : ∀ p ∈ entries.zip pairs, Stands tables (id + 1) p.1.2 p.2.2) : Stands tables low (.map entries) (.table id)

variable {before after tables : Array Table} {low id : Nat} {v : HostValue} {value : Value} {s : State World}

theorem Stands.mono (stands : Stands tables low v value) (least : id ≤ low) : Stands tables id v value := by
  cases stands with
  | nil => exact .nil
  | bool b => exact .bool b
  | number x => exact .number x
  | str s => exact .str s
  | list above here holds size each => exact .list (least.trans above) here holds size each
  | map above here holds names each => exact .map (least.trans above) here holds names each

/-- A value goes on to stand for what it stood for while its tables stay. -/
theorem Stands.keep (stands : Stands before low v value)
    (kept : ∀ (i : Nat) (t : Table), low ≤ i → before[i]? = some t → after[i]? = some t) :
    Stands after low v value := by
  induction stands with
  | nil => exact .nil
  | bool b => exact .bool b
  | number x => exact .number x
  | str s => exact .str s
  | list above here holds size _ ih =>
    exact .list above (kept _ _ above here) holds size fun p member => ih p member fun i t later => kept i t (by omega)
  | map above here holds names _ ih =>
    exact .map above (kept _ _ above here) holds names fun p member => ih p member fun i t later => kept i t (by omega)

/-! Values enter -/

/-- A value has entered: the tables that were there are as before, and those that it needs are new. -/
structure Entered (v : HostValue) (s : State World) (value : Value) (s' : State World) : Prop where
  kept : ∀ (i : Nat) (t : Table), s.tables[i]? = some t → s'.tables[i]? = some t
  stands : Stands s'.tables s.tables.size v value

/-- All tables but one stay. -/
def KeptBut (id : Nat) (before after : Array Table) : Prop :=
  ∀ (i : Nat) (t : Table), i ≠ id → before[i]? = some t → after[i]? = some t

variable {t : Table} {k : Key} {rest : Eval World β} {R : β → State World → Prop}

/-- A value enters and becomes an entry of a table. -/
theorem makes_entry (enters : ∀ s : State World, Eval.Makes (ofHost v) s (Entered v s)) (here : s.tables[id]? = some t)
    (next : ∀ value s', s'.tables[id]? = some (t.set k value) → Stands s'.tables (id + 1) v value →
      KeptBut id s.tables s'.tables → Eval.Makes rest s' R) :
    Eval.Makes (do
      let value ← ofHost v
      Eval.rawSet id k value
      rest) s R := by
  refine (enters s).bind fun value s₁ entered => (Eval.makes_rawSet id k value s₁).bind fun _ s₂ set => ?_
  have bound : id < s.tables.size := by
    by_contra beyond
    simp [Array.getElem?_eq_none (Nat.not_lt.mp beyond)] at here
  have kept (i : Nat) (other : i ≠ id) : s₂.tables[i]? = s₁.tables[i]? := by
    rw [set, Array.getElem?_modify, if_neg (Ne.symm other)]
  refine next value s₂ ?_ ?_ ?_
  · rw [set, Array.getElem?_modify, if_pos rfl, entered.kept id t here]
    rfl
  · exact (entered.stands.keep fun i u later there => (kept i (by omega)).trans there).mono bound
  · exact fun i u other there => (kept i other).trans (entered.kept i u there)

theorem Stands.keepBut (stands : Stands before (id + 1) v value) (kept : KeptBut id before after) :
    Stands after (id + 1) v value :=
  stands.keep fun i t later => kept i t (by omega)

theorem makes_ofHostItems {items : List HostValue}
    (enters : ∀ v ∈ items, ∀ s : State World, Eval.Makes (ofHost v) s (Entered v s))
    {done : List Value} (here : s.tables[id]? = some t) (holds : t.Holds (Bridge.listEntries 1 done))
    (small : done.length + items.length < 2 ^ 62) :
    Eval.Makes (ofHostItems id (done.length + 1) items) s fun _ s' => KeptBut id s.tables s'.tables ∧
      ∃ values t', s'.tables[id]? = some t' ∧ t'.Holds (Bridge.listEntries 1 (done ++ values)) ∧
        items.length = values.length ∧
        ∀ p ∈ items.zip values, Stands s'.tables (id + 1) p.1 p.2 := by
  induction items generalizing s done t with
  | nil => exact .pure ⟨fun _ _ _ there => there, [], t, here, by rwa [List.append_nil], rfl, nofun⟩
  | cons v items ih =>
    obtain ⟨first, enters⟩ := List.forall_mem_cons.mp enters
    rw [List.length_cons] at small
    refine makes_entry first here fun value s' here' stands kept => ?_
    have grown : (t.set (.int (Int64.ofNat (done.length + 1))) value).Holds (Bridge.listEntries 1 (done ++ [value])) := by
      rw [Bridge.listEntries_append]
      refine holds.set (fun member => ?_) value
      obtain ⟨m, low, high, same⟩ := Bridge.mem_keys_listEntries.mp member
      rw [Key.int.injEq, ← Int64.toInt_inj, Int64.toInt_ofNat_of_lt (by omega), Int64.toInt_ofNat_of_lt (by omega)] at same
      omega
    have later := ih enters here' grown (by simpa using by omega)
    rw [List.length_append, List.length_singleton] at later
    refine later.weaken fun _ s'' ⟨kept', values, t', there, holds', size, each⟩ => ?_
    rw [List.append_assoc] at holds'
    refine ⟨fun i u other old => kept' i u other (kept i u other old), value :: values, t', there, holds',
      by simp [size], ?_⟩
    exact List.forall_mem_cons.mpr ⟨stands.keepBut kept', each⟩

theorem makes_ofHostEntries {entries : List (String × HostValue)}
    (enters : ∀ e ∈ entries, ∀ s : State World, Eval.Makes (ofHost e.2) s (Entered e.2 s))
    {done : List (String × Value)} (here : s.tables[id]? = some t) (holds : t.Holds (Bridge.mapEntries done))
    (distinct : (done.map Prod.fst ++ entries.map Prod.fst).Nodup) :
    Eval.Makes (ofHostEntries id entries) s fun _ s' => KeptBut id s.tables s'.tables ∧
      ∃ pairs t', s'.tables[id]? = some t' ∧ t'.Holds (Bridge.mapEntries (done ++ pairs)) ∧
        entries.map Prod.fst = pairs.map Prod.fst ∧
        ∀ p ∈ entries.zip pairs, Stands s'.tables (id + 1) p.1.2 p.2.2 := by
  induction entries generalizing s done t with
  | nil => exact .pure ⟨fun _ _ _ there => there, [], t, here, by rwa [List.append_nil], rfl, nofun⟩
  | cons e entries ih =>
    obtain ⟨first, enters⟩ := List.forall_mem_cons.mp enters
    refine makes_entry first here fun value s' here' stands kept => ?_
    have grown : (t.set (.text e.1) value).Holds (Bridge.mapEntries (done ++ [(e.1, value)])) := by
      rw [Bridge.mapEntries, List.map_append]
      refine holds.set (fun member => ?_) value
      obtain ⟨e', member, same⟩ := List.mem_map.mp (Bridge.keys_mapEntries done ▸ member)
      have fresh := (List.nodup_append.mp distinct).2.2 e'.1 (List.mem_map.mpr ⟨e', member, rfl⟩) e.1 (by simp)
      exact fresh (Bridge.text_inj same)
    have later := ih enters here' grown (by simpa using distinct)
    refine later.weaken ?_
    rintro _ s'' ⟨kept', pairs, t', there, holds', names, each⟩
    rw [List.append_assoc] at holds'
    refine ⟨fun i u other old => kept' i u other (kept i u other old), (e.1, value) :: pairs, t', there, holds',
      by simp [names], ?_⟩
    exact List.forall_mem_cons.mpr ⟨stands.keepBut kept', each⟩

/-- A value enters, unless there is no memory left for it. -/
theorem makes_ofHost (proper : v.IsProper) (s : State World) : Eval.Makes (ofHost v) s (Entered v s) := by
  induction v using HostValue.induct generalizing s with
  | nil => exact .pure ⟨fun _ _ there => there, .nil⟩
  | bool b => exact .pure ⟨fun _ _ there => there, .bool b⟩
  | number x => exact .pure ⟨fun _ _ there => there, .number x⟩
  | str text =>
    refine (Eval.makes_newText text s).weaken ?_
    rintro _ s' ⟨rfl, same⟩
    exact ⟨fun _ _ there => same ▸ there, .str text⟩
  | list items ih =>
    refine (Eval.makes_newTable {} s).bind ?_
    rintro _ s₁ ⟨rfl, made⟩
    have here : s₁.tables[s.tables.size]? = some {} := by simp [made]
    have none : Table.Holds {} (Bridge.listEntries 1 []) := Table.holds_empty
    have enters := makes_ofHostItems (fun v member => ih v member (proper.item member)) here none
      (by simpa using proper.lists items .self)
    refine Eval.Makes.bind enters fun _ s₂ ⟨kept, values, t, there, holds, size, each⟩ =>
      .pure ⟨fun i u old => ?_, ?_⟩
    · have bound := (Array.getElem?_eq_some_iff.mp old).1
      exact kept i u bound.ne (by rwa [made, Array.getElem?_push, if_neg bound.ne])
    · exact .list le_rfl there holds size each
  | map entries ih =>
    refine (Eval.makes_newTable {} s).bind ?_
    rintro _ s₁ ⟨rfl, made⟩
    have here : s₁.tables[s.tables.size]? = some {} := by simp [made]
    have distinct : (entries.map Prod.fst).Nodup := List.pairwise_map.mpr ((proper.maps entries .self).imp ne_of_lt)
    have none : Table.Holds {} (Bridge.mapEntries []) := Table.holds_empty
    have enters := makes_ofHostEntries (fun e member => ih e member (proper.entry member)) here none distinct
    refine Eval.Makes.bind enters fun _ s₂ ⟨kept, pairs, t, there, holds, names, each⟩ =>
      .pure ⟨fun i u old => ?_, ?_⟩
    · have bound := (Array.getElem?_eq_some_iff.mp old).1
      exact kept i u bound.ne (by rwa [made, Array.getElem?_push, if_neg bound.ne])
    · exact .map le_rfl there holds names each

end ScriptTools.Guest
