import ScriptTools.Proofs.Json.Reading
import ScriptTools.Proofs.Rpc.Requests

/-!
Which lines are not answered: blank ones and notifications. A notification is an object without a member for
the identifier, but a request in an array that has `null` in its place is taken for one as well.
-/

namespace ScriptTools.Rpc

/-- A notification in an object: a request of version 2.0 without a member for the identifier. -/
def IsNotification (v : Json) : Prop :=
  ∃ fields method, v = .obj fields ∧ fields.lookup "id" = none ∧ fields.lookup "jsonrpc" = some (.str "2.0") ∧
    fields.lookup "method" = some (.str method)

/-- A request of version 2.0 in an array, with `null` in the place of the identifier. -/
def IsNullArray (v : Json) : Prop :=
  ∃ method params, v = .arr (.str "2.0" :: .null :: .str method :: params) ∧ params.length ≤ 1

theorem IsNotification.not_isNullArray {v : Json} (object : IsNotification v) : ¬ IsNullArray v := by
  obtain ⟨_, _, rfl, _⟩ := object
  rintro ⟨_, _, ⟨⟩, _⟩

theorem isNotification_of_ofFields {fields : List (String × Json)} {r : RpcRequest}
    (accepted : RpcRequest.checkId (.obj fields) = .ok ()) (read : RpcRequest.ofFields fields = .ok r)
    (version : r.jsonrpc = "2.0") (silent : r.id = none) : IsNotification (.obj fields) := by
  obtain ⟨id, atVersion, atMethod, _⟩ := RpcRequest.ofFields_eq_ok.mp read
  rw [silent, readId_eq_none] at id
  rcases id with absent | null
  · exact ⟨fields, r.method, rfl, absent, version ▸ atVersion, atMethod⟩
  · simp [RpcRequest.checkId, Json.get?, null] at accepted

theorem isNullArray_of_ofItems {items : List Json} {r : RpcRequest} (read : RpcRequest.ofItems items = .ok r)
    (version : r.jsonrpc = "2.0") (silent : r.id = none) : IsNullArray (.arr items) := by
  obtain ⟨atVersion, id, atMethod, _, short⟩ := RpcRequest.ofItems_eq_ok.mp read
  rw [silent, readId_eq_none] at id
  match items with
  | [] => cases atVersion
  | [_] => cases atMethod
  | [_, _] => cases atMethod
  | first :: second :: third :: params =>
    simp only [List.getElem?_cons_zero, List.getElem?_cons_succ, Option.some.injEq, reduceCtorEq, false_or,
      version] at atVersion id atMethod
    subst atVersion id atMethod
    simp only [List.length_cons] at short
    exact ⟨r.method, params, rfl, by omega⟩

/-- The values that are accepted as requests without an identifier. -/
theorem exists_ofJson_iff {v : Json} :
    (∃ r, RpcRequest.ofJson v = .ok r ∧ r.id = none) ↔ IsNotification v ∨ IsNullArray v := by
  simp only [RpcRequest.ofJson_eq_ok]
  constructor
  · rintro ⟨r, ⟨accepted, shape, version⟩, silent⟩
    cases v with
    | obj fields => exact .inl (isNotification_of_ofFields accepted shape version silent)
    | arr items => exact .inr (isNullArray_of_ofItems shape version silent)
    | _ => cases shape
  · rintro (⟨fields, method, rfl, absent, version, atMethod⟩ | ⟨method, params, rfl, short⟩)
    · refine ⟨⟨"2.0", none, method, paramsOf (fields.lookup "params")⟩, ⟨?_, ?_, rfl⟩, rfl⟩
      · simp [RpcRequest.checkId, Json.get?, absent]
      · exact RpcRequest.ofFields_eq_ok.mpr ⟨readId_eq_none.mpr (.inl absent), version, atMethod, rfl⟩
    · refine ⟨⟨"2.0", none, method, paramsOf params[0]?⟩, ⟨rfl, ?_, rfl⟩, rfl⟩
      exact RpcRequest.ofItems_eq_ok.mpr ⟨rfl, rfl, rfl, by simp, by simp only [List.length_cons]; omega⟩

/-- A line without text. -/
def IsBlank (line : String) : Prop := Text.trimChars line.toList = []

/-- A line that writes a value. -/
def Writes (line : String) (v : Json) : Prop :=
  ¬ IsBlank line ∧ Json.parse? (String.ofList (Text.trimChars line.toList)) = some v

theorem Writes.unique {line : String} {v u : Json} (first : Writes line v) (second : Writes line u) : v = u :=
  Option.some.inj (first.2.symm.trans second.2)

/-- A line with a document in it is not blank. -/
theorem not_isBlank_of_read? {line : String} {d : Json.Document}
    (read : Json.Document.read? (String.ofList (Text.trimChars line.toList)) = some d) : ¬ IsBlank line := by
  intro blank
  rw [IsBlank] at blank
  rw [blank] at read
  have empty : Json.Document.read? (String.ofList []) = none := rfl
  cases empty.symm.trans read

/-- The text that a value is printed as writes what its document is read as. -/
theorem Writes.of_chars {line : String} {v u : Json} (printed : Text.trimChars line.toList = Json.chars v)
    (value : (Json.document v).toJson? Json.Document.depthLimit = some u) : Writes line u := by
  have read : Json.Document.read? (String.ofList (Text.trimChars line.toList)) = some (Json.document v) := by
    rw [printed, ← Json.compact_toList, String.ofList_toList, Json.Document.read?_compact]
  refine ⟨not_isBlank_of_read? read, ?_⟩
  rw [Json.parse?, read]
  exact value

namespace Server

variable (server : Server)

theorem respond_eq_none_iff {v : Json} {w : World} :
    (server.respond v w).1 = none ↔ IsNotification v ∨ IsNullArray v := by
  rw [← exists_ofJson_iff, respond]
  cases read : RpcRequest.ofJson v with
  | error e => simp
  | ok r =>
    cases id : r.id <;> simp [RpcRequest.isNotification, id]

theorem handleLine_of_isBlank {line : String} (blank : IsBlank line) (w : World) : server.handleLine line w = (none, w) := by
  have empty : (Text.trimChars line.toList).isEmpty = true := List.isEmpty_iff.mpr blank
  simp only [handleLine, empty, if_true]

theorem handleLine_of_writes {line : String} {v : Json} (writes : Writes line v) (w : World) :
    server.handleLine line w = server.respond v w := by
  have visible : (Text.trimChars line.toList).isEmpty = false := List.isEmpty_eq_false_iff.mpr writes.1
  simp only [handleLine, visible, Bool.false_eq_true, if_false, writes.2]

theorem handleLine_of_unwritten {line : String} (visible : ¬ IsBlank line) (unwritten : ∀ v, ¬ Writes line v) (w : World) :
    server.handleLine line w = (some ⟨none, .error .unparsable⟩, w) := by
  have some : (Text.trimChars line.toList).isEmpty = false := List.isEmpty_eq_false_iff.mpr visible
  cases value : Json.parse? (String.ofList (Text.trimChars line.toList)) with
  | none => simp only [handleLine, some, Bool.false_eq_true, if_false, value]
  | some v => exact absurd ⟨visible, value⟩ (unwritten v)

theorem handleLine_eq_none_iff {line : String} {w : World} :
    (server.handleLine line w).1 = none ↔
      IsBlank line ∨ ∃ v, Writes line v ∧ (IsNotification v ∨ IsNullArray v) := by
  by_cases blank : IsBlank line
  · simp [server.handleLine_of_isBlank blank, blank]
  · by_cases written : ∃ v, Writes line v
    · obtain ⟨v, writes⟩ := written
      rw [server.handleLine_of_writes writes, respond_eq_none_iff]
      constructor
      · exact fun silent => .inr ⟨v, writes, silent⟩
      · rintro (empty | ⟨u, other, silent⟩)
        · exact absurd empty blank
        · rwa [writes.unique other]
    · rw [server.handleLine_of_unwritten blank (not_exists.mp written)]
      simp only [reduceCtorEq, blank, false_or, false_iff, not_exists, not_and]
      exact fun v writes => absurd ⟨v, writes⟩ written

/-- A line is without an answer because it is blank or a notification in an object, exactly when it is no
request in an array with `null` for its identifier. -/
theorem handleLine_silent_iff (line : String) (w : World) :
    (((server.handleLine line w).1 = none ↔ IsBlank line ∨ ∃ v, Writes line v ∧ IsNotification v) ↔
        ¬ ∃ v, Writes line v ∧ IsNullArray v) ∧
      ((server.handleLine line w).1 = none ↔
        IsBlank line ∨ ∃ v, Writes line v ∧ (IsNotification v ∨ IsNullArray v)) := by
  refine ⟨?_, server.handleLine_eq_none_iff⟩
  rw [handleLine_eq_none_iff]
  constructor
  · rintro same ⟨v, writes, array⟩
    rcases same.mp (.inr ⟨v, writes, .inr array⟩) with blank | ⟨u, other, object⟩
    · exact writes.1 blank
    · cases writes.unique other
      exact object.not_isNullArray array
  · intro none
    refine or_congr_right ⟨?_, ?_⟩
    · rintro ⟨v, writes, object | array⟩
      · exact ⟨v, writes, object⟩
      · exact absurd ⟨v, writes, array⟩ none
    · rintro ⟨v, writes, object⟩
      exact ⟨v, writes, .inl object⟩

/-- A request that is no object. -/
def nullPing : String := "[\"2.0\",null,\"ping\"]"

theorem nullPing_writes : Writes nullPing (.arr [.str "2.0", .null, .str "ping"]) :=
  .of_chars (by decide +kernel : _ = Json.chars (.arr [.str "2.0", .null, .str "ping"])) rfl

theorem handleLine_not_silent_nullPing :
    ¬ (((⟨{}, {}⟩ : Server).handleLine nullPing {}).1 = none ↔
      IsBlank nullPing ∨ ∃ v, Writes nullPing v ∧ IsNotification v) := by
  have array : IsNullArray (.arr [.str "2.0", .null, .str "ping"]) := ⟨"ping", [], rfl, Nat.zero_le 1⟩
  rw [handleLine_eq_none_iff]
  intro same
  rcases same.mp (.inr ⟨_, nullPing_writes, .inr array⟩) with blank | ⟨v, writes, object⟩
  · exact nullPing_writes.1 blank
  · cases nullPing_writes.unique writes
    exact object.not_isNullArray array

end Server

end ScriptTools.Rpc
