import Mathlib.Data.List.Nodup
import ScriptTools.Proofs.Json.Reading
import ScriptTools.Proofs.Text.Basic
import ScriptTools.Proofs.Timestamp.Text
import ScriptTools.Tool.Codec

/-!
The stored text of a tool is read back as that tool.
-/

namespace ScriptTools

/-! The written form of an identifier is read back, so no two identifiers are written alike. -/

namespace ToolId

theorem digits?_groups {a b c d e : List Char} (first : a.length = 8) (second : b.length = 4) (third : c.length = 4)
    (fourth : d.length = 4) (fifth : e.length = 12) :
    digits? (a ++ '-' :: b ++ '-' :: c ++ '-' :: d ++ '-' :: e) = some (a ++ b ++ c ++ d ++ e) := by
  have length : (a ++ '-' :: b ++ '-' :: c ++ '-' :: d ++ '-' :: e).length = 36 := by
    simp [first, second, third, fourth, fifth]
  have hyphens : [8, 13, 18, 23].all
      (fun i => (a ++ '-' :: b ++ '-' :: c ++ '-' :: d ++ '-' :: e)[i]? == some '-') = true := by
    simp [List.getElem?_append, first, second, third, fourth]
  simp only [digits?, dropHyphens?, length, hyphens]
  simp [List.drop_append, List.drop_of_length_le, first, second, third, fourth]

/-- The groups of the written form make up the digits. -/
theorem groups_append (ds : List Char) :
    ds.take 8 ++ (ds.drop 8).take 4 ++ (ds.drop 12).take 4 ++ (ds.drop 16).take 4 ++ ds.drop 20 = ds := by
  have join (i j : Nat) : ds.take i ++ (ds.drop i).take j = ds.take (i + j) := List.take_add.symm
  rw [join, join, join, List.take_append_drop]

theorem read?_text (id : ToolId) : read? id.text = some id := by
  have length := Text.hexDigits_length 32 id.value.toNat
  have value : Text.natOfHex? (Text.hexDigits 32 id.value.toNat) = some id.value.toNat :=
    Text.natOfHex?_hexDigits id.value.isLt
  unfold read? text
  generalize Text.hexDigits 32 id.value.toNat = ds at length value
  have digits := digits?_groups (a := ds.take 8) (b := (ds.drop 8).take 4) (c := (ds.drop 12).take 4)
    (d := (ds.drop 16).take 4) (e := ds.drop 20) (by simp [length]) (by simp [length]) (by simp [length])
    (by simp [length]) (by simp [length])
  rw [groups_append] at digits
  simp only [String.toList_ofList, digits, value, Option.bind_eq_bind, Option.bind_some, Option.pure_def,
    BitVec.ofNat_toNat, BitVec.setWidth_eq]

theorem text_injective : Function.Injective text := by
  intro a b same
  have read := read?_text a
  rw [same, read?_text] at read
  exact (Option.some.inj read).symm

end ToolId

/-! Records -/

namespace Json.Document

theorem namedDocuments_eq (fields : List (String × Json)) :
    namedDocuments fields = fields.map fun f => (some f.1, document f.2) := by
  induction fields with
  | nil => rfl
  | cons field fields ih => exact congrArg _ ih

theorem documents_eq (items : List Json) : documents items = items.map document := by
  induction items with
  | nil => rfl
  | cons v items ih => exact congrArg _ ih

/-- With distinct names, a member is what stands at its name. -/
theorem member?_namedDocuments {fields : List (String × Json)} (distinct : (fields.map Prod.fst).Nodup) (name : String) :
    member? (namedDocuments fields) name = some ((fields.lookup name).map document) := by
  induction fields with
  | nil => rfl
  | cons field fields ih =>
    obtain ⟨other, v⟩ := field
    obtain ⟨fresh, distinct⟩ := List.nodup_cons.mp distinct
    have later := ih distinct
    by_cases same : name = other
    · subst same
      have none : (namedDocuments fields).filter (fun f => f.1 == some name) = [] := by
        rw [namedDocuments_eq, List.filter_map, List.map_eq_nil_iff, List.filter_eq_nil_iff]
        intro f member equal
        exact fresh (List.mem_map.mpr ⟨f, member, by simpa using equal⟩)
      simp [member?, namedDocuments, none]
    · have lookup : ((other, v) :: fields).lookup name = fields.lookup name := by
        rw [List.lookup_cons, beq_eq_false_iff_ne.mpr same]
      have skipped : (some other == some name) = false := by simpa using Ne.symm same
      rw [lookup, ← later, member?, namedDocuments, List.filter_cons, skipped]
      rfl

/-- The members of a record that was written with distinct names. -/
theorem members?_obj {fields : List (String × Json)} (distinct : (fields.map Prod.fst).Nodup) (names : List String) :
    members? names (document (.obj fields)) = some (names.map fun name => (fields.lookup name).map document) := by
  have named : (namedDocuments fields).all (fun f => f.1.isSome) = true := by
    rw [namedDocuments_eq]
    simp
  rw [document, members?, if_pos named, funext (member?_namedDocuments distinct)]
  exact List.mapM_pure

end Json.Document

open Json (Document document documents)

theorem Argument.ofDocument?_toJson (a : Argument) : ofDocument? (document a.toJson) = some a := by
  obtain ⟨name, type, description, required, default⟩ := a
  rw [ofDocument?, toJson]
  cases default with
  | none =>
    rw [Document.members?_obj (by simp)]
    simp [memberNames, List.lookup_cons, document, Document.string?, Document.choice?, Document.boolean?,
      ScalarType.ofName?_name]
  | some default =>
    rw [Document.members?_obj (by simp)]
    simp [memberNames, List.lookup_cons, document, Document.string?, Document.choice?, Document.boolean?,
      ScalarType.ofName?_name, readDefault?]

namespace Tool

theorem readArgs?_toJson (args : List Argument) :
    readArgs? (document (.arr (args.map Argument.toJson))) = some args := by
  rw [document, Document.documents_eq, List.map_map, readArgs?]
  induction args with
  | nil => rfl
  | cons a args ih =>
    simp only [List.map_cons, List.mapM_cons, Function.comp_apply, Argument.ofDocument?_toJson, ih, Option.bind_eq_bind,
      Option.bind_some, Option.pure_def]

/-- The times of a tool are moments of the calendar. -/
structure IsTimed (t : Tool) : Prop where
  createdAt : t.createdAt.IsMoment
  updatedAt : t.updatedAt.IsMoment

/-- The members of the record of a tool. -/
theorem members?_toJson (t : Tool) :
    (document t.toJson).members? memberNames = some [some (.string t.id.text), some (.string t.name),
      some (.string t.description), some (.string t.code), some (document (.arr (t.args.map Argument.toJson))),
      some (.string t.returnType.name), some (.string t.createdAt.text), some (.string t.updatedAt.text)] := by
  rw [toJson, Document.members?_obj (by simp)]
  simp [memberNames, List.lookup_cons, document]

/-- A step of a reader that succeeds, and the steps after it. -/
theorem read_step {α β : Type} {x : Option α} {f : α → Option β} {a : α} {r : Option β} (read : x = some a)
    (rest : f a = r) : x >>= f = r := by
  rw [read]
  exact rest

theorem ofDocument?_toJson {t : Tool} (timed : t.IsTimed) : ofDocument? (document t.toJson) = some t := by
  refine read_step (members?_toJson t) ?_
  refine read_step rfl (read_step rfl (read_step (ToolId.read?_text t.id) ?_))
  refine read_step rfl (read_step rfl ?_)
  refine read_step rfl ?_
  refine read_step rfl (read_step rfl ?_)
  refine read_step (readArgs?_toJson t.args) ?_
  refine read_step rfl (read_step rfl (read_step (ScalarType.ofName?_name t.returnType) ?_))
  refine read_step rfl (read_step rfl (read_step (Timestamp.read?_text timed.createdAt) ?_))
  exact read_step rfl (read_step rfl (read_step (Timestamp.read?_text timed.updatedAt) rfl))

/-- The times of every record that is read are moments of the calendar. -/
theorem isTimed_of_ofDocument? {d : Document} {t : Tool} (read : ofDocument? d = some t) : t.IsTimed := by
  obtain ⟨members, _, read⟩ := Option.bind_eq_some_iff.mp read
  split at read
  next =>
    -- the steps for the members before the times, of which nothing is needed
    iterate 14 obtain ⟨_, _, read⟩ := Option.bind_eq_some_iff.mp read
    obtain ⟨_, createdAt, read⟩ := Option.bind_eq_some_iff.mp read
    iterate 2 obtain ⟨_, _, read⟩ := Option.bind_eq_some_iff.mp read
    obtain ⟨_, updatedAt, read⟩ := Option.bind_eq_some_iff.mp read
    cases read
    exact ⟨Timestamp.isMoment_of_read? createdAt, Timestamp.isMoment_of_read? updatedAt⟩
  next => cases read

theorem isTimed_of_decode? {text : String} {t : Tool} (read : decode? text = some t) : t.IsTimed := by
  obtain ⟨_, _, read⟩ := Option.bind_eq_some_iff.mp read
  exact isTimed_of_ofDocument? read

theorem decode?_encode {t : Tool} (timed : t.IsTimed) : decode? t.encode = some t := by
  rw [decode?, encode, Document.read?_compact, Option.bind_some, ofDocument?_toJson timed]

end Tool

end ScriptTools
