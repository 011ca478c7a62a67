import ScriptTools.Proofs.Result
import ScriptTools.Rpc.Server

/-!
Which values are requests: objects and arrays with the members of one, in which a `null` counts as no
identifier and as no parameters.
-/

namespace ScriptTools.Rpc

theorem readString_eq_ok {v : Json} {s : String} : readString v = .ok s ↔ v = .str s := by
  cases v <;> simp [readString]

theorem fieldString_eq_ok {v : Option Json} {name s : String} :
    (v.mapM readString >>= fieldMember name) = .ok s ↔ v = some (.str s) := by
  cases v with
  | none => simp [fieldMember, pure, Except.pure, bind, Except.bind]
  | some v =>
    have mapped : (some v).mapM readString = some <$> readString v := rfl
    rw [mapped, Option.some.injEq, ← readString_eq_ok]
    cases readString v <;> simp [Functor.map, Except.map, bind, Except.bind, fieldMember]

theorem itemString_eq_ok {v : Option Json} {type s : String} {members index : Nat} :
    itemMember readString type members index v = .ok s ↔ v = some (.str s) := by
  cases v <;> simp [itemMember, readString_eq_ok]

/-- What is written for the parameters; `null` stands for none. -/
def paramsOf : Option Json → Option Json
  | some .null => none
  | v => v

theorem readParams_eq (v : Option Json) : optionalMember RpcRequest.readParams v = .ok (paramsOf v) := by
  rcases v with _ | v
  · rfl
  · cases v <;> rfl

theorem checkLength_eq_ok {items : List Json} {members : Nat} {u : Unit} :
    checkLength items members = .ok u ↔ items.length ≤ members := by
  simp [checkLength]

/-- An identifier is none where it is left out or `null`. -/
theorem readId_eq_none {v : Option Json} :
    optionalMember (readOption RequestId.read) v = .ok none ↔ v = none ∨ v = some .null := by
  rcases v with _ | v
  · simp [optionalMember]
  · cases v with
    | null => simp [optionalMember, readOption]
    | _ =>
      simp only [optionalMember, readOption, map_eq_ok]
      simp

namespace RpcRequest

/-- The members of a request in an object. -/
theorem ofFields_eq_ok {fields : List (String × Json)} {r : RpcRequest} :
    ofFields fields = .ok r ↔
      optionalMember (readOption RequestId.read) (fields.lookup "id") = .ok r.id ∧
        fields.lookup "jsonrpc" = some (.str r.jsonrpc) ∧ fields.lookup "method" = some (.str r.method) ∧
          paramsOf (fields.lookup "params") = r.params := by
  obtain ⟨jsonrpc, id, method, params⟩ := r
  rw [← fieldString_eq_ok, ← fieldString_eq_ok]
  simp only [ofFields, bind_eq_ok, readParams_eq, pure, Except.pure, Except.ok.injEq, RpcRequest.mk.injEq]
  constructor
  · rintro ⟨_, readId, version, readVersion, name, readName, _, same, _, atVersion, _, atName, rfl, rfl, rfl, rfl⟩
    exact ⟨readId, ⟨version, readVersion, atVersion⟩, ⟨name, readName, atName⟩, same⟩
  · rintro ⟨readId, ⟨version, readVersion, atVersion⟩, ⟨name, readName, atName⟩, same⟩
    exact ⟨_, readId, version, readVersion, name, readName, _, same, _, atVersion, _, atName, rfl, rfl, rfl, rfl⟩

/-- The members of a request in an array. -/
theorem ofItems_eq_ok {items : List Json} {r : RpcRequest} :
    ofItems items = .ok r ↔
      items[0]? = some (.str r.jsonrpc) ∧ optionalMember (readOption RequestId.read) items[1]? = .ok r.id ∧
        items[2]? = some (.str r.method) ∧ paramsOf items[3]? = r.params ∧ items.length ≤ 4 := by
  obtain ⟨jsonrpc, id, method, params⟩ := r
  simp only [ofItems, bind_eq_ok, itemString_eq_ok, readParams_eq, checkLength_eq_ok, pure, Except.pure,
    Except.ok.injEq, RpcRequest.mk.injEq]
  constructor
  · rintro ⟨_, version, _, readId, _, name, _, same, _, short, rfl, rfl, rfl, rfl⟩
    exact ⟨version, readId, name, same, short⟩
  · rintro ⟨version, readId, name, same, short⟩
    exact ⟨_, version, _, readId, _, name, _, same, (), short, rfl, rfl, rfl, rfl⟩

/-- A value is an accepted request when its identifier is none that is refused as written, and its members
are those of a request of version 2.0. -/
theorem ofJson_eq_ok {v : Json} {r : RpcRequest} :
    ofJson v = .ok r ↔ checkId v = .ok () ∧ ofShape v = .ok r ∧ r.jsonrpc = "2.0" := by
  cases shape : ofShape v with
  | error e => simp [ofJson, bind_eq_ok, shape]
  | ok found =>
    simp only [ofJson, bind_eq_ok, shape, Except.ok.injEq]
    constructor
    · rintro ⟨⟨⟩, accepted, version⟩
      split at version
      next current =>
        cases version
        exact ⟨accepted, rfl, current⟩
      next => cases version
    · rintro ⟨accepted, rfl, version⟩
      exact ⟨(), accepted, if_pos version⟩

/-- A value that is no accepted request is refused as an invalid one. -/
theorem code_of_ofJson {v : Json} {e : RpcError} (refused : ofJson v = .error e) : e.code = -32600 := by
  rw [ofJson] at refused
  cases accepted : checkId v with
  | error bad =>
    rw [accepted] at refused
    cases refused
    rw [checkId] at accepted
    split at accepted <;> cases accepted
    rfl
  | ok =>
    cases shape : ofShape v with
    | error bad =>
      rw [accepted, shape] at refused
      cases refused
      rfl
    | ok r =>
      rw [accepted, shape] at refused
      by_cases version : r.jsonrpc = "2.0"
      · simp [bind, Except.bind, version] at refused
      · simp only [bind, Except.bind, version, if_false, Except.error.injEq] at refused
        exact congrArg RpcError.code refused.symm

end RpcRequest

end ScriptTools.Rpc
