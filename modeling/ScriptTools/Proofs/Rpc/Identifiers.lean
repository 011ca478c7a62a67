import ScriptTools.Proofs.Decimal.Value
import ScriptTools.Proofs.Json.Values
import ScriptTools.Proofs.Rpc.Outcomes

/-!
The identifiers that come back. What stands for one is looked for in the value of a line, and again among the
members of a request; both times a number must be written as an integer and have 64 bits with a sign.
-/

namespace ScriptTools.Rpc

open Json (Document NumberToken)

/-- A string or a number, in whatever way it is written. -/
inductive IsIdentifier : Document → Prop where
  | string (s : Option String) : IsIdentifier (.string s)
  | number (n : NumberToken) : IsIdentifier (.number n)

/-- What is written is an identifier: the same text, or an integer with the same value. -/
inductive Identifies : Document → RequestId → Prop where
  | string (s : String) : Identifies (.string (some s)) (.string s)
  | number {n : NumberToken} {i : Int64} (whole : n.IsWhole) (value : n.integer = i.toInt) :
      Identifies (.number n) (.number i)

variable {d : Document} {depth : Nat} {u : Json} {id : RequestId}

theorem RequestId.ofJson?_eq_some : ofJson? u = some id ↔ u = id.toJson := by
  cases id with
  | string s => cases u <;> simp [ofJson?, toJson]
  | number n =>
    cases u with
    | int i =>
      simp only [ofJson?, toJson, Option.ite_none_right_eq_some, Option.some.injEq, RequestId.number.injEq,
        Json.int.injEq, Decimal.fitsInt64_iff]
      constructor
      · rintro ⟨fits, rfl⟩
        exact fits.symm
      · rintro rfl
        rw [Int64.ofInt_toInt]
        exact ⟨rfl, rfl⟩
    | _ => simp [ofJson?, toJson]

theorem toJson?_eq_toJson : d.toJson? depth = some id.toJson ↔ Identifies d id := by
  cases id with
  | string s =>
    rw [RequestId.toJson, Document.toJson?_eq_str]
    constructor
    · rintro rfl
      exact .string s
    · rintro ⟨⟩
      rfl
  | number i =>
    rw [RequestId.toJson, Document.toJson?_eq_int]
    simp only [NumberToken.value?_eq_int]
    constructor
    · rintro ⟨n, rfl, whole, value, _⟩
      exact .number whole value
    · rintro ⟨⟩
      next n whole value =>
        have low := i.le_toInt
        have high := i.toInt_lt
        exact ⟨n, rfl, whole, value, by omega, by omega⟩

/-- The value of what is written is read as the identifier that it is. -/
theorem ofJson?_eq_some_iff (value : d.toJson? depth = some u) : RequestId.ofJson? u = some id ↔ Identifies d id := by
  rw [RequestId.ofJson?_eq_some, ← @toJson?_eq_toJson d depth, value, Option.some.injEq]

theorem readId_eq_ok (some : u ≠ .null) {id : Option RequestId} :
    optionalMember (readOption RequestId.read) (.some u) = .ok id ↔ id ≠ none ∧ RequestId.ofJson? u = id := by
  have read : optionalMember (readOption RequestId.read) (.some u) = (RequestId.read u).map .some := by
    cases u <;> first | rfl | contradiction
  rw [read, RequestId.read]
  cases RequestId.ofJson? u <;> cases id <;> simp [Except.map]

/-- An answer with the identifier that is written. -/
def Echoes (answer : Option RpcResponse) (d : Document) : Prop :=
  ∃ r id, answer = some r ∧ r.id = some id ∧ Identifies d id

/-- A line that is the text of an object, whose numbers may be out of range and whose strings may be no texts. -/
def WritesObject (line : String) (fields : List (Option String × Document)) : Prop :=
  Document.read? (String.ofList (Text.trimChars line.toList)) = some (.object fields)

/-- An object that has a version 2.0 and a method. -/
def IsRequest (fields : List (Option String × Document)) : Prop :=
  Document.last? fields "jsonrpc" = some (.string (some "2.0")) ∧
    ∃ method, Document.last? fields "method" = some (.string method)

/-- A value in which a string or a number stands for the identifier. -/
structure Identified (fields : List (String × Json)) (u : Json) : Prop where
  member : fields.lookup "id" = some u
  accepted : RpcRequest.checkId (.obj fields) = .ok ()
  notNull : u ≠ .null

theorem identified_of_isIdentifier (kind : IsIdentifier d) (value : d.toJson? depth = some u)
    {fields : List (String × Json)} (member : fields.lookup "id" = some u) : Identified fields u := by
  cases kind with
  | string s =>
    obtain ⟨t, _, rfl⟩ := Option.map_eq_some_iff.mp value
    exact ⟨member, by rw [RpcRequest.checkId, Json.get?, member], by simp⟩
  | number n =>
    rcases NumberToken.int_or_float_of_value? value with ⟨i, rfl⟩ | ⟨x, rfl⟩ <;>
      exact ⟨member, by rw [RpcRequest.checkId, Json.get?, member], by simp⟩

/-- What an object with an identifier is read as, if it is. -/
theorem identified_of_writes {line : String} {written : List (Option String × Document)}
    (object : WritesObject line written) (identifier : Document.last? written "id" = some d) (kind : IsIdentifier d)
    {v : Json} (writes : Writes line v) :
    ∃ depth fields u, v = .obj fields ∧ d.toJson? depth = some u ∧ Identified fields u ∧
      ∀ name s, Document.last? written name = some (.string s) → ∃ t, fields.lookup name = some (.str t) ∧ s = some t := by
  have value : (Document.object written).toJson? Document.depthLimit = some v := by
    have parsed := writes.2
    rwa [Json.parse?, object] at parsed
  obtain ⟨depth, fields, rfl, lookup⟩ := Document.lookup_of_toJson? value
  obtain ⟨u, value, member⟩ := lookup "id" d identifier
  refine ⟨depth, fields, u, rfl, value, identified_of_isIdentifier kind value member, fun name s written => ?_⟩
  obtain ⟨t, value, member⟩ := lookup name _ written
  obtain ⟨t, rfl, rfl⟩ := Option.map_eq_some_iff.mp value
  exact ⟨t, member, rfl⟩

namespace Identified

variable {fields : List (String × Json)} (identified : Identified fields u)
include identified

/-- An accepted request has the identifier that stands in the object. -/
theorem ofJson?_eq_id {r : RpcRequest} (accepted : RpcRequest.ofJson (.obj fields) = .ok r) :
    r.id ≠ none ∧ RequestId.ofJson? u = r.id := by
  obtain ⟨_, shape, _⟩ := RpcRequest.ofJson_eq_ok.mp accepted
  obtain ⟨read, _⟩ := RpcRequest.ofFields_eq_ok.mp shape
  rwa [identified.member, readId_eq_ok identified.notNull] at read

/-- A request of version 2.0 with a method is accepted when its identifier is read. -/
theorem exists_ofJson_iff {method : String} (version : fields.lookup "jsonrpc" = some (.str "2.0"))
    (atMethod : fields.lookup "method" = some (.str method)) :
    (∃ r, RpcRequest.ofJson (.obj fields) = .ok r) ↔ RequestId.ofJson? u ≠ none := by
  constructor
  · rintro ⟨r, accepted⟩
    obtain ⟨some, same⟩ := identified.ofJson?_eq_id accepted
    rwa [same]
  · intro read
    refine ⟨⟨"2.0", RequestId.ofJson? u, method, paramsOf (fields.lookup "params")⟩,
      RpcRequest.ofJson_eq_ok.mpr ⟨identified.accepted, ?_, rfl⟩⟩
    refine RpcRequest.ofFields_eq_ok.mpr ⟨?_, version, atMethod, rfl⟩
    rw [identified.member, readId_eq_ok identified.notNull]
    exact ⟨read, rfl⟩

end Identified

namespace Server

variable (server : Server)

theorem code_of_call_ne {p : CallParams} {w : World} {e : RpcError} (failed : (server.call p w).1 = .error e) :
    e.code ≠ -32600 := by
  rw [call] at failed
  split at failed <;> cases failed <;> simp [RpcError.code]

/-- No method fails as an invalid request. -/
theorem code_of_dispatch_ne {method : String} {params : Option Json} {w : World} {e : RpcError}
    (failed : (server.dispatch method params w).1 = .error e) : e.code ≠ -32600 := by
  unfold dispatch at failed
  split at failed
  next =>
    split at failed <;> cases failed
    simp [RpcError.code]
  next => cases failed
  next =>
    split at failed <;> cases failed
    simp [RpcError.code]
  next =>
    split at failed
    next =>
      cases failed
      simp [RpcError.code]
    next =>
      split at failed
      next => exact server.code_of_call_ne failed
      next =>
        cases failed
        simp [RpcError.code]
  next =>
    cases failed
    simp [RpcError.code]

variable {fields : List (String × Json)} (identified : Identified fields u) (w : World)
include identified

/-- Whatever an object is refused for or answered with, the identifier comes back that it is read with. -/
theorem exists_respond_eq : ∃ outcome, (server.respond (.obj fields) w).1 = some ⟨RequestId.ofJson? u, outcome⟩ := by
  rw [respond]
  cases accepted : RpcRequest.ofJson (.obj fields) with
  | error e => exact ⟨.error e, by rw [Json.get?, identified.member]; rfl⟩
  | ok r =>
    obtain ⟨some, same⟩ := identified.ofJson?_eq_id accepted
    have loud : ¬ r.isNotification = true := by rwa [RpcRequest.isNotification, Option.isNone_iff_eq_none]
    exact ⟨_, by simp only [if_neg loud, same]; rfl⟩

theorem failsWith_respond_iff {method : String} (version : fields.lookup "jsonrpc" = some (.str "2.0"))
    (atMethod : fields.lookup "method" = some (.str method)) :
    FailsWith (server.respond (.obj fields) w).1 (-32600) ↔ RequestId.ofJson? u = none := by
  rw [← not_iff_not, ← ne_eq (RequestId.ofJson? u), ← identified.exists_ofJson_iff version atMethod, respond]
  cases accepted : RpcRequest.ofJson (.obj fields) with
  | error e => simp [failsWith_some, RpcRequest.code_of_ofJson accepted]
  | ok r =>
    obtain ⟨some, same⟩ := identified.ofJson?_eq_id accepted
    have loud : ¬ r.isNotification = true := by rwa [RpcRequest.isNotification, Option.isNone_iff_eq_none]
    simp only [if_neg loud, failsWith_some]
    refine iff_of_true ?_ ⟨r, rfl⟩
    rintro ⟨e, failed, code⟩
    exact server.code_of_dispatch_ne failed code

omit identified

section Lines

variable {line : String} {written : List (Option String × Document)}
variable (object : WritesObject line written) (identifier : Document.last? written "id" = some d) (kind : IsIdentifier d)
include object identifier kind

theorem exists_answer_iff (read : ∃ v, Writes line v) (w : World) :
    ∃ r, (server.handleLine line w).1 = some r ∧ ∀ id, r.id = some id ↔ Identifies d id := by
  obtain ⟨v, writes⟩ := read
  obtain ⟨depth, fields, u, rfl, value, identified, _⟩ := identified_of_writes object identifier kind writes
  obtain ⟨outcome, answer⟩ := server.exists_respond_eq identified w
  exact ⟨_, by rw [server.handleLine_of_writes writes, answer], fun id => ofJson?_eq_some_iff value⟩

theorem echoes_iff (read : ∃ v, Writes line v) (w : World) :
    Echoes (server.handleLine line w).1 d ↔ ∃ id, Identifies d id := by
  obtain ⟨r, answer, returned⟩ := server.exists_answer_iff object identifier kind read w
  rw [answer]
  constructor
  · rintro ⟨_, id, _, _, identifies⟩
    exact ⟨id, identifies⟩
  · rintro ⟨id, identifies⟩
    exact ⟨r, id, rfl, (returned id).mpr identifies, identifies⟩

theorem failsWith_iff (read : ∃ v, Writes line v) (request : IsRequest written) (w : World) :
    FailsWith (server.handleLine line w).1 (-32600) ↔ ∀ id, ¬ Identifies d id := by
  obtain ⟨v, writes⟩ := read
  obtain ⟨depth, fields, u, rfl, value, identified, strings⟩ := identified_of_writes object identifier kind writes
  obtain ⟨version, _, method⟩ := request
  obtain ⟨_, version, ⟨⟩⟩ := strings _ _ version
  obtain ⟨_, atMethod, _⟩ := strings _ _ method
  rw [server.handleLine_of_writes writes, server.failsWith_respond_iff identified w version atMethod,
    Option.eq_none_iff_forall_ne_some]
  exact forall_congr' fun id => not_congr (ofJson?_eq_some_iff value)

/-- Where the text of an object is read at all, the identifier that stands in it comes back, and a request is not
refused as an invalid one, exactly when it is a text or an integer of 64 bits that is written as one. Any other comes
back as none, and the request is refused for it. -/
theorem handleLine_identified (w : World) :
    ((∃ v, Writes line v) →
      ((Echoes (server.handleLine line w).1 d ∧
          (IsRequest written → ¬ FailsWith (server.handleLine line w).1 (-32600))) ↔ ∃ id, Identifies d id) ∧
        (∃ r, (server.handleLine line w).1 = some r ∧ ∀ id, r.id = some id ↔ Identifies d id) ∧
        (IsRequest written → (FailsWith (server.handleLine line w).1 (-32600) ↔ ∀ id, ¬ Identifies d id))) ∧
      ((∀ v, ¬ Writes line v) → server.handleLine line w = (some ⟨none, .error .unparsable⟩, w)) := by
  refine ⟨fun read => ⟨?_, server.exists_answer_iff object identifier kind read w,
    fun request => server.failsWith_iff object identifier kind read request w⟩,
    fun unread => server.handleLine_of_unwritten (not_isBlank_of_read? object) unread w⟩
  rw [server.echoes_iff object identifier kind read]
  refine and_iff_left_of_imp fun ⟨id, identifies⟩ request => ?_
  rw [server.failsWith_iff object identifier kind read request]
  exact fun none => none id identifies

end Lines

/-- The text of a request with a number for its identifier. -/
def pingText (number : String) : String := "\x7b\"id\":" ++ number ++ ",\"jsonrpc\":\"2.0\",\"method\":\"ping\"\x7d"

def pingFields (n : NumberToken) : List (Option String × Document) :=
  [(some "id", .number n), (some "jsonrpc", .string (some "2.0")), (some "method", .string (some "ping"))]

theorem isRequest_pingFields (n : NumberToken) : IsRequest (pingFields n) := ⟨rfl, "ping", rfl⟩

/-- The least integer of 64 bits. -/
def least : NumberToken := ⟨true, "9223372036854775808".toList, [], none⟩

def fractional : NumberToken := ⟨false, ['1'], ['5'], none⟩

def pingTokens (n : NumberToken) : List Json.Token :=
  [.beginObject, .string (some "id"), .colon, .number n, .comma, .string (some "jsonrpc"), .colon, .string (some "2.0"),
    .comma, .string (some "method"), .colon, .string (some "ping"), .endObject]

theorem writesObject_of_tokens {line : String} {n : NumberToken}
    (read : Json.Token.readAll? (String.ofList (Text.trimChars line.toList)) = some (pingTokens n)) :
    WritesObject line (pingFields n) := by
  rw [WritesObject, Document.read?, read]
  rfl

theorem exists_writes {line : String} {n : NumberToken} (object : WritesObject line (pingFields n)) {v : Json}
    (value : n.value? = some v) : ∃ u, Writes line u := by
  refine ⟨Json.ofFields [("id", v), ("jsonrpc", .str "2.0"), ("method", .str "ping")], not_isBlank_of_read? object, ?_⟩
  have fields : Document.fieldsToJson? 126 (pingFields n) =
      some [("id", v), ("jsonrpc", .str "2.0"), ("method", .str "ping")] := by
    simp [pingFields, Document.fieldsToJson?, Document.toJson?, value]
  rw [WritesObject] at object
  rw [Json.parse?, object]
  exact congrArg (Option.map Json.ofFields) fields

theorem writesObject_least : WritesObject (pingText "-9223372036854775808") (pingFields least) :=
  writesObject_of_tokens (by decide +kernel)

theorem handleLine_identified_least :
    WritesObject (pingText "-9223372036854775808") (pingFields least) ∧
      Document.last? (pingFields least) "id" = some (.number least) ∧ IsIdentifier (.number least) ∧
      Echoes ((⟨{}, {}⟩ : Server).handleLine (pingText "-9223372036854775808") {}).1 (.number least) := by
  have whole : least.IsWhole := ⟨rfl, rfl, by decide⟩
  have value : least.integer = (-9223372036854775808 : Int64).toInt := by decide +kernel
  have written : ∃ v, Writes (pingText "-9223372036854775808") v :=
    exists_writes writesObject_least (NumberToken.value?_eq_int.mpr ⟨whole, value, by decide, by decide⟩)
  have identifies : Identifies (.number least) (.number (-9223372036854775808)) := .number whole value
  exact ⟨writesObject_least, rfl, .number _,
    (((handleLine_identified _ writesObject_least rfl (.number _) {}).1 written).1.mpr ⟨_, identifies⟩).1⟩

/-- An identifier that is a number, but none with the value of an integer. -/
theorem handleLine_not_echoes_fractional :
    WritesObject (pingText "1.5") (pingFields fractional) ∧
      Document.last? (pingFields fractional) "id" = some (.number fractional) ∧ IsIdentifier (.number fractional) ∧
      IsRequest (pingFields fractional) ∧
      ¬ Echoes ((⟨{}, {}⟩ : Server).handleLine (pingText "1.5") {}).1 (.number fractional) ∧
      FailsWith ((⟨{}, {}⟩ : Server).handleLine (pingText "1.5") {}).1 (-32600) := by
  have object : WritesObject (pingText "1.5") (pingFields fractional) := writesObject_of_tokens (by decide +kernel)
  have read : ∃ v, Writes (pingText "1.5") v := exists_writes object rfl
  have unidentified (id : RequestId) : ¬ Identifies (.number fractional) id := by
    rintro ⟨⟩
    next whole _ => cases whole.fraction
  refine ⟨object, rfl, .number _, isRequest_pingFields _, ?_, ?_⟩
  · rw [echoes_iff _ object rfl (.number _) read]
    exact not_exists.mpr unidentified
  · rw [failsWith_iff _ object rfl (.number _) read (isRequest_pingFields _)]
    exact unidentified

end Server

end ScriptTools.Rpc
