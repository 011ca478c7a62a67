import ScriptTools.Proofs.Json.Fields
import ScriptTools.Proofs.Rpc.Silence
import ScriptTools.Proofs.Tool.Codec

/-!
The outcomes of requests: every failure has the code of the stage at which it comes, and a tool runs for nothing
but a call with an identifier that names a tool of the store.
-/

namespace ScriptTools

/-- Whether every row of a store can be read. -/
def Store.Readable (s : Store) : Prop := ∀ r ∈ s.rows, ∃ t, r.tool = .ok t

namespace Store.Readable

variable {s : Store} (readable : s.Readable)
include readable

theorem find (name : String) : s.find name = .ok none ∨ ∃ t, s.find name = .ok (some t) := by
  cases found : s.rows.find? fun r => r.name = name with
  | none => exact .inl (by simp only [Store.find, Store.query, found])
  | some r =>
    obtain ⟨t, read⟩ := readable r (List.mem_of_find?_eq_some found)
    exact .inr ⟨t, by simp only [Store.find, Store.query, found, read, Except.map]⟩

theorem list : ∃ tools, s.list = .ok tools := by
  cases listed : s.list with
  | ok tools => exact ⟨tools, rfl⟩
  | error e =>
    obtain ⟨r, member, e, unread⟩ := exists_mapM_eq_error_iff.mp ⟨e, listed⟩
    obtain ⟨t, read⟩ := readable r (List.mem_mergeSort.mp member)
    cases read.symm.trans unread

end Store.Readable

namespace Rpc

/-- Whether an answer is an error of a code. -/
def FailsWith (answer : Option RpcResponse) (code : Int) : Prop :=
  ∃ id e, answer = some ⟨id, .error e⟩ ∧ e.code = code

theorem failsWith_some {id : Option RequestId} {outcome : Except RpcError Json} {code : Int} :
    FailsWith (some ⟨id, outcome⟩) code ↔ ∃ e, outcome = .error e ∧ e.code = code := by
  constructor
  · rintro ⟨_, e, same, code⟩
    cases same
    exact ⟨e, rfl, code⟩
  · rintro ⟨e, rfl, code⟩
    exact ⟨id, e, rfl, code⟩

theorem not_failsWith_none {code : Int} : ¬ FailsWith none code := nofun

/-- The methods that a server has. -/
def methods : List String := ["initialize", "ping", "tools/list", "tools/call"]

/-- Parameters that cannot be read as those of their method, or that name no tool of a store. -/
inductive BadParams (store : Store) : String → Option Json → Prop where
  | opening {params : Option Json} {e : ShapeError} (refused : InitializeParams.read (params.getD .null) = .error e) :
      BadParams store "initialize" params
  | missing : BadParams store "tools/call" none
  | call {v : Json} {e : ShapeError} (refused : CallParams.read v = .error e) : BadParams store "tools/call" (some v)
  | unknown {v : Json} {p : CallParams} (read : CallParams.read v = .ok p) (absent : store.find p.name = .ok none) :
      BadParams store "tools/call" (some v)

/-- A method and parameters that call a tool of a store with some arguments. -/
inductive CallsTool (store : Store) : String → Option Json → Tool → List (String × Json) → Prop where
  | call {v : Json} {p : CallParams} {t : Tool} (read : CallParams.read v = .ok p)
      (found : store.find p.name = .ok (some t)) : CallsTool store "tools/call" (some v) t p.arguments

/-- A method and parameters that are answered from a store alone. -/
inductive AnsweredBy (store : Store) : String → Option Json → Json → Prop where
  | opening {params : Option Json} {p : InitializeParams} (read : InitializeParams.read (params.getD .null) = .ok p) :
      AnsweredBy store "initialize" params initializeResult
  | ping {params : Option Json} : AnsweredBy store "ping" params (.obj [])
  | list {params : Option Json} {tools : List Tool} (listed : store.list = .ok tools) :
      AnsweredBy store "tools/list" params (.obj [("tools", .arr (tools.map fun t => t.spec.toJson))])

variable {store : Store} {method : String} {params : Option Json}

/-- Every request is of one of four kinds. -/
theorem kinds (readable : store.Readable) (method : String) (params : Option Json) :
    method ∉ methods ∨ BadParams store method params ∨ (∃ t arguments, CallsTool store method params t arguments) ∨
      ∃ result, AnsweredBy store method params result := by
  by_cases member : method ∈ methods
  · simp only [methods, List.mem_cons, List.not_mem_nil, or_false] at member
    refine .inr ?_
    rcases member with rfl | rfl | rfl | rfl
    · cases read : InitializeParams.read (params.getD .null) with
      | error e => exact .inl (.opening read)
      | ok p => exact .inr (.inr ⟨_, .opening read⟩)
    · exact .inr (.inr ⟨_, .ping⟩)
    · obtain ⟨tools, listed⟩ := readable.list
      exact .inr (.inr ⟨_, .list listed⟩)
    · cases params with
      | none => exact .inl .missing
      | some v =>
        cases read : CallParams.read v with
        | error e => exact .inl (.call read)
        | ok p =>
          rcases readable.find p.name with absent | ⟨t, found⟩
          · exact .inl (.unknown read absent)
          · exact .inr (.inl ⟨t, _, .call read found⟩)
  · exact .inl member

namespace Server

variable (executor : Executor) (w : World)

theorem dispatch_of_notMem (other : method ∉ methods) :
    (⟨store, executor⟩ : Server).dispatch method params w = (.error (.unknownMethod method), w) := by
  simp only [methods, List.mem_cons, List.not_mem_nil, or_false, not_or] at other
  obtain ⟨_, _, _, _⟩ := other
  unfold dispatch
  split <;> first | contradiction | rfl

theorem dispatch_of_badParams (bad : BadParams store method params) :
    ∃ e : RpcError, e.code = -32602 ∧
      ∀ executor w, (⟨store, executor⟩ : Server).dispatch method params w = (.error e, w) := by
  cases bad with
  | @opening _ e refused => exact ⟨.badParams e, rfl, fun _ _ => by simp only [dispatch, refused]⟩
  | missing => exact ⟨.missingParams, rfl, fun _ _ => rfl⟩
  | @call _ e refused => exact ⟨.badParams e, rfl, fun _ _ => by simp only [dispatch, refused]⟩
  | @unknown _ p read absent =>
    exact ⟨.unknownTool p.name, rfl, fun _ _ => by simp only [dispatch, read, call, absent]⟩

theorem dispatch_of_callsTool {t : Tool} {arguments : List (String × Json)}
    (calls : CallsTool store method params t arguments) :
    (⟨store, executor⟩ : Server).dispatch method params w =
      (.ok (callResult (executor.runJson t arguments w).1), (executor.runJson t arguments w).2) := by
  cases calls with
  | call read found => simp only [dispatch, read, call, found]

theorem dispatch_of_answeredBy {result : Json} (answered : AnsweredBy store method params result) :
    (⟨store, executor⟩ : Server).dispatch method params w = (.ok result, w) := by
  cases answered with
  | opening read => simp only [dispatch, read]
  | ping => rfl
  | list listed => simp only [dispatch, listed]

/-- A request fails as one of an unknown method or as one with bad parameters, and in no other way. -/
theorem code_of_dispatch (readable : store.Readable) (method : String) (params : Option Json) (code : Int) :
    (∃ e, ((⟨store, executor⟩ : Server).dispatch method params w).1 = .error e ∧ e.code = code) ↔
      code = -32601 ∧ method ∉ methods ∨ code = -32602 ∧ BadParams store method params := by
  constructor
  · rintro ⟨e, failed, rfl⟩
    rcases kinds readable method params with other | bad | ⟨t, arguments, calls⟩ | ⟨result, answered⟩
    · rw [dispatch_of_notMem executor w other] at failed
      cases failed
      exact .inl ⟨rfl, other⟩
    · obtain ⟨e', code, run⟩ := dispatch_of_badParams bad
      rw [run] at failed
      cases failed
      exact .inr ⟨code, bad⟩
    · rw [dispatch_of_callsTool executor w calls] at failed
      cases failed
    · rw [dispatch_of_answeredBy executor w answered] at failed
      cases failed
  · rintro (⟨rfl, other⟩ | ⟨rfl, bad⟩)
    · exact ⟨_, by rw [dispatch_of_notMem executor w other], rfl⟩
    · obtain ⟨e, code, run⟩ := dispatch_of_badParams bad
      exact ⟨e, by rw [run], code⟩

/-- A request has a result otherwise. -/
theorem exists_dispatch_eq_ok (readable : store.Readable) (method : String) (params : Option Json) :
    (∃ result, ((⟨store, executor⟩ : Server).dispatch method params w).1 = .ok result) ↔
      method ∈ methods ∧ ¬ BadParams store method params := by
  have fails := code_of_dispatch executor w readable method params
  cases outcome : ((⟨store, executor⟩ : Server).dispatch method params w).1 with
  | ok result =>
    simp only [Except.ok.injEq, exists_eq', true_iff]
    refine ⟨not_not.mp fun other => ?_, fun bad => ?_⟩
    · obtain ⟨e, failed, _⟩ := (fails (-32601)).mpr (.inl ⟨rfl, other⟩)
      cases outcome.symm.trans failed
    · obtain ⟨e, failed, _⟩ := (fails (-32602)).mpr (.inr ⟨rfl, bad⟩)
      cases outcome.symm.trans failed
  | error e =>
    simp only [reduceCtorEq, exists_false, false_iff, not_and, not_not]
    intro member
    rcases (fails e.code).mp ⟨e, outcome, rfl⟩ with ⟨_, other⟩ | ⟨_, bad⟩
    · exact absurd member other
    · exact bad

end Server

/-! Lines -/

/-- A line that writes a request which is accepted. -/
def Requests (line : String) (r : RpcRequest) : Prop := ∃ v, Writes line v ∧ RpcRequest.ofJson v = .ok r

/-- A line that calls a tool of a store: an accepted request with an identifier. -/
def Calls (store : Store) (line : String) (id : RequestId) (t : Tool) (arguments : List (String × Json)) : Prop :=
  ∃ r, Requests line r ∧ r.id = some id ∧ CallsTool store r.method r.params t arguments

theorem isError_callResult {r : Except RunError Scalar} :
    (callResult r).get? "isError" = some (.bool true) ↔ ∃ e, r = .error e := by
  cases r <;> simp [callResult, Json.get?, List.lookup_cons]

theorem AnsweredBy.isError {result : Json} (answered : AnsweredBy store method params result) :
    result.get? "isError" = none := by
  cases answered with
  | opening =>
    rw [initializeResult, Json.ofFields, Json.get?, Json.lookup_sortFields]
    rfl
  | ping => rfl
  | list => rfl

namespace Server

variable (server : Server) {line : String}

theorem handleLine_of_refused {v : Json} {e : RpcError} (writes : Writes line v)
    (refused : RpcRequest.ofJson v = .error e) (w : World) :
    server.handleLine line w = (some ⟨(v.get? "id").bind RequestId.ofJson?, .error e⟩, w) := by
  rw [server.handleLine_of_writes writes, respond, refused]

theorem handleLine_of_notification {r : RpcRequest} (requests : Requests line r) (silent : r.id = none) (w : World) :
    server.handleLine line w = (none, w) := by
  obtain ⟨v, writes, accepted⟩ := requests
  rw [server.handleLine_of_writes writes, respond, accepted]
  exact if_pos (by simp [RpcRequest.isNotification, silent])

theorem handleLine_of_request {r : RpcRequest} {id : RequestId} (requests : Requests line r)
    (identified : r.id = some id) (w : World) :
    server.handleLine line w =
      (some ⟨some id, (server.dispatch r.method r.params w).1⟩, (server.dispatch r.method r.params w).2) := by
  obtain ⟨v, writes, accepted⟩ := requests
  rw [server.handleLine_of_writes writes, respond, accepted, ← identified]
  exact if_neg (by simp [RpcRequest.isNotification, identified])

/-- How a line comes out in a world. Each failure has the code of its stage and comes for its reasons alone; a result
says that it is an error exactly when it is that of a run which fails. A line that calls no tool is answered
from the store alone: whatever runs tools and in whatever world, its answer is the same and the world is left
as it was. The store itself is never written. -/
structure Classified (line : String) (w : World) : Prop where
  unparsable : FailsWith (server.handleLine line w).1 (-32700) ↔ ¬ IsBlank line ∧ ∀ v, ¬ Writes line v
  refused : FailsWith (server.handleLine line w).1 (-32600) ↔ ∃ v e, Writes line v ∧ RpcRequest.ofJson v = .error e
  unknown : ∀ r id, Requests line r → r.id = some id →
    (FailsWith (server.handleLine line w).1 (-32601) ↔ r.method ∉ methods)
  undecodable : ∀ r id, Requests line r → r.id = some id →
    (FailsWith (server.handleLine line w).1 (-32602) ↔ BadParams server.store r.method r.params)
  result : ∀ r id, Requests line r → r.id = some id →
    ((∃ result, (server.handleLine line w).1 = some ⟨some id, .ok result⟩) ↔
      r.method ∈ methods ∧ ¬ BadParams server.store r.method r.params)
  isError : ∀ id result, (server.handleLine line w).1 = some ⟨id, .ok result⟩ →
    (result.get? "isError" = some (.bool true) ↔
      ∃ id t arguments e, Calls server.store line id t arguments ∧ (server.executor.runJson t arguments w).1 = .error e)
  call : ∀ id t arguments, Calls server.store line id t arguments →
    server.handleLine line w =
      (some ⟨some id, .ok (callResult (server.executor.runJson t arguments w).1)⟩,
        (server.executor.runJson t arguments w).2)
  quiet : (∀ id t arguments, ¬ Calls server.store line id t arguments) →
    ∀ executor w', (⟨server.store, executor⟩ : Server).handleLine line w' = ((server.handleLine line w).1, w')

section Stages

variable {server} {w : World} {code : Int}

theorem failsWith_of_unwritten (visible : ¬ IsBlank line) (unwritten : ∀ v, ¬ Writes line v) :
    FailsWith (server.handleLine line w).1 code ↔ code = -32700 := by
  rw [server.handleLine_of_unwritten visible unwritten, failsWith_some]
  simp [RpcError.code, eq_comm]

theorem failsWith_of_refused {v : Json} {e : RpcError} (writes : Writes line v)
    (refused : RpcRequest.ofJson v = .error e) : FailsWith (server.handleLine line w).1 code ↔ code = -32600 := by
  rw [server.handleLine_of_refused writes refused, failsWith_some]
  simp [RpcRequest.code_of_ofJson refused, eq_comm]

theorem failsWith_of_request (readable : server.store.Readable) {r : RpcRequest} {id : RequestId}
    (requests : Requests line r) (identified : r.id = some id) :
    FailsWith (server.handleLine line w).1 code ↔
      code = -32601 ∧ r.method ∉ methods ∨ code = -32602 ∧ BadParams server.store r.method r.params := by
  rw [server.handleLine_of_request requests identified, failsWith_some]
  exact code_of_dispatch server.executor w readable r.method r.params code

/-- A line that is neither blank nor refused writes an accepted request. -/
theorem line_cases (line : String) :
    IsBlank line ∨ (¬ IsBlank line ∧ ∀ v, ¬ Writes line v) ∨
      (∃ v e, Writes line v ∧ RpcRequest.ofJson v = .error e) ∨ ∃ r, Requests line r := by
  by_cases blank : IsBlank line
  · exact .inl blank
  · by_cases written : ∃ v, Writes line v
    · obtain ⟨v, writes⟩ := written
      cases read : RpcRequest.ofJson v with
      | error e => exact .inr (.inr (.inl ⟨v, e, writes, read⟩))
      | ok r => exact .inr (.inr (.inr ⟨r, v, writes, read⟩))
    · exact .inr (.inl ⟨blank, not_exists.mp written⟩)

/-- The stages at which a line can fail. -/
theorem stage_of_failsWith (readable : server.store.Readable) (fails : FailsWith (server.handleLine line w).1 code) :
    code = -32700 ∧ (¬ IsBlank line ∧ ∀ v, ¬ Writes line v) ∨
      code = -32600 ∧ (∃ v e, Writes line v ∧ RpcRequest.ofJson v = .error e) ∨ code = -32601 ∨ code = -32602 := by
  rcases line_cases line with blank | ⟨visible, unwritten⟩ | ⟨v, e, writes, refused⟩ | ⟨r, requests⟩
  · rw [server.handleLine_of_isBlank blank] at fails
    exact absurd fails not_failsWith_none
  · exact .inl ⟨(failsWith_of_unwritten visible unwritten).mp fails, visible, unwritten⟩
  · exact .inr (.inl ⟨(failsWith_of_refused writes refused).mp fails, v, e, writes, refused⟩)
  · cases identified : r.id with
    | none =>
      rw [server.handleLine_of_notification requests identified] at fails
      exact absurd fails not_failsWith_none
    | some id =>
      exact .inr (.inr (((failsWith_of_request readable requests identified).mp fails).imp And.left And.left))

theorem failsWith_unparsable (readable : server.store.Readable) :
    FailsWith (server.handleLine line w).1 (-32700) ↔ ¬ IsBlank line ∧ ∀ v, ¬ Writes line v := by
  constructor
  · intro fails
    rcases stage_of_failsWith readable fails with ⟨_, unwritten⟩ | ⟨⟨⟩, _⟩ | ⟨⟨⟩⟩ | ⟨⟨⟩⟩
    exact unwritten
  · rintro ⟨visible, unwritten⟩
    exact (failsWith_of_unwritten visible unwritten).mpr rfl

theorem failsWith_refused (readable : server.store.Readable) :
    FailsWith (server.handleLine line w).1 (-32600) ↔ ∃ v e, Writes line v ∧ RpcRequest.ofJson v = .error e := by
  constructor
  · intro fails
    rcases stage_of_failsWith readable fails with ⟨⟨⟩, _⟩ | ⟨_, refused⟩ | ⟨⟨⟩⟩ | ⟨⟨⟩⟩
    exact refused
  · rintro ⟨v, e, writes, refused⟩
    exact (failsWith_of_refused writes refused).mpr rfl

theorem exists_result_iff (readable : server.store.Readable) {r : RpcRequest} {id : RequestId}
    (requests : Requests line r) (identified : r.id = some id) :
    (∃ result, (server.handleLine line w).1 = some ⟨some id, .ok result⟩) ↔
      r.method ∈ methods ∧ ¬ BadParams server.store r.method r.params := by
  rw [← exists_dispatch_eq_ok server.executor w readable, server.handleLine_of_request requests identified]
  simp only [Option.some.injEq, RpcResponse.mk.injEq, true_and]

theorem handleLine_of_calls {id : RequestId} {t : Tool} {arguments : List (String × Json)}
    (calls : Calls server.store line id t arguments) (w : World) :
    server.handleLine line w =
      (some ⟨some id, .ok (callResult (server.executor.runJson t arguments w).1)⟩,
        (server.executor.runJson t arguments w).2) := by
  obtain ⟨r, requests, identified, callsTool⟩ := calls
  rw [server.handleLine_of_request requests identified, dispatch_of_callsTool server.executor w callsTool]

/-- A line that calls no tool has an answer of its own: who would run tools makes no difference, and neither does
the world, which is left as it was. A result in it is not said to be an error. -/
theorem exists_answer (readable : store.Readable) (uncalled : ∀ id t arguments, ¬ Calls store line id t arguments) :
    ∃ answer : Option RpcResponse,
      (∀ id result, answer = some ⟨id, .ok result⟩ → result.get? "isError" = none) ∧
        ∀ executor w, (⟨store, executor⟩ : Server).handleLine line w = (answer, w) := by
  rcases line_cases line with blank | ⟨visible, unwritten⟩ | ⟨v, e, writes, refused⟩ | ⟨r, requests⟩
  · exact ⟨none, nofun, fun executor => handleLine_of_isBlank _ blank⟩
  · exact ⟨some ⟨none, .error .unparsable⟩, nofun, fun executor => handleLine_of_unwritten _ visible unwritten⟩
  · refine ⟨some ⟨(v.get? "id").bind RequestId.ofJson?, .error e⟩, ?_,
      fun executor => handleLine_of_refused _ writes refused⟩
    rintro _ _ ⟨⟩
  · cases identified : r.id with
    | none => exact ⟨none, nofun, fun executor => handleLine_of_notification _ requests identified⟩
    | some id =>
      have answer (executor : Executor) := (⟨store, executor⟩ : Server).handleLine_of_request requests identified
      rcases kinds readable r.method r.params with other | bad | ⟨t, arguments, callsTool⟩ | ⟨result, answered⟩
      · exact ⟨some ⟨some id, .error (.unknownMethod r.method)⟩, nofun,
          fun executor w => by rw [answer, dispatch_of_notMem executor w other]⟩
      · obtain ⟨e, _, run⟩ := dispatch_of_badParams bad
        exact ⟨some ⟨some id, .error e⟩, nofun, fun executor w => by rw [answer, run]⟩
      · exact absurd ⟨r, requests, identified, callsTool⟩ (uncalled id t arguments)
      · refine ⟨some ⟨some id, .ok result⟩, ?_,
          fun executor w => by rw [answer, dispatch_of_answeredBy executor w answered]⟩
        rintro _ _ ⟨⟩
        exact answered.isError

theorem isError_iff (readable : server.store.Readable) {id : Option RequestId} {result : Json}
    (answer : (server.handleLine line w).1 = some ⟨id, .ok result⟩) :
    result.get? "isError" = some (.bool true) ↔
      ∃ id t arguments e, Calls server.store line id t arguments ∧
        (server.executor.runJson t arguments w).1 = .error e := by
  constructor
  · intro flagged
    by_cases called : ∃ id t arguments, Calls server.store line id t arguments
    · obtain ⟨id, t, arguments, calls⟩ := called
      rw [handleLine_of_calls calls] at answer
      cases answer
      obtain ⟨e, failed⟩ := isError_callResult.mp flagged
      exact ⟨id, t, arguments, e, calls, failed⟩
    · obtain ⟨quiet, unflagged, same⟩ :=
        exists_answer readable fun id t arguments calls => called ⟨id, t, arguments, calls⟩
      rw [unflagged id result (by rw [← answer, same server.executor w])] at flagged
      cases flagged
  · rintro ⟨id, t, arguments, e, calls, failed⟩
    rw [handleLine_of_calls calls] at answer
    cases answer
    exact isError_callResult.mpr ⟨e, failed⟩

end Stages

/-- Every line, in every world, whatever readable store is served and whatever runs its tools. -/
theorem classified (readable : server.store.Readable) (line : String) (w : World) : server.Classified line w where
  unparsable := failsWith_unparsable readable
  refused := failsWith_refused readable
  unknown r id requests identified := by simp [failsWith_of_request readable requests identified]
  undecodable r id requests identified := by simp [failsWith_of_request readable requests identified]
  result r id requests identified := exists_result_iff readable requests identified
  isError id result answer := isError_iff readable answer
  call id t arguments calls := handleLine_of_calls calls w
  quiet uncalled executor w' := by
    obtain ⟨answer, _, same⟩ := exists_answer readable uncalled
    have here : server.handleLine line w = (answer, w) := same server.executor w
    rw [same executor w', here]

def greeting : Tool :=
  { id := default, name := "greeting", code := "return 'hello ' .. name", returnType := .string,
    args := [{ name := "name", type := .string }], createdAt := ⟨0, 0⟩, updatedAt := ⟨0, 0⟩ }

theorem tool_greeting : (Store.Row.ofTool greeting).tool = .ok greeting := by
  have moment : (⟨0, 0⟩ : Timestamp).IsMoment := ⟨by decide, by decide, by decide⟩
  rw [Store.Row.tool, Store.Row.ofTool, Tool.decode?_encode ⟨moment, moment⟩]

def greeter : Server where
  store := { rows := [.ofTool greeting], ids := List.nodup_singleton _, names := List.nodup_singleton _ }
  executor := {}

/-- A call of a tool without the argument that it must have. -/
def greetingCall : Json :=
  .obj [("id", .str "a"), ("jsonrpc", .str "2.0"), ("method", .str "tools/call"),
    ("params", .obj [("name", .str "greeting")])]

def greetingLine : String :=
  " \x7b\"id\":\"a\",\"jsonrpc\":\"2.0\",\"method\":\"tools/call\",\"params\":\x7b\"name\":\"greeting\"\x7d\x7d"

theorem greetingLine_writes : Writes greetingLine greetingCall := by
  refine .of_chars (by decide +kernel : _ = Json.chars greetingCall) ?_
  have ordered {fields : List (String × Json)} (ascending : fields.Pairwise fun a b => a.1 < b.1) :
      Json.ofFields fields = .obj fields := congrArg Json.obj (Json.sortFields_eq_of_perm (.refl _) ascending)
  change some (Json.ofFields [("id", .str "a"), ("jsonrpc", .str "2.0"), ("method", .str "tools/call"),
    ("params", Json.ofFields [("name", .str "greeting")])]) = _
  rw [ordered (by decide), ordered (by decide)]
  rfl

theorem greetingLine_calls : Calls greeter.store greetingLine (.string "a") greeting [] := by
  refine ⟨⟨"2.0", some (.string "a"), "tools/call", some (.obj [("name", .str "greeting")])⟩,
    ⟨greetingCall, greetingLine_writes, rfl⟩, rfl, ?_⟩
  have found : greeter.store.find "greeting" = (Store.Row.ofTool greeting).tool.map some := rfl
  exact .call (p := ⟨"greeting", []⟩) rfl (found.trans (by rw [tool_greeting, Except.map]))

theorem classified_greeting :
    greeter.store.Readable ∧ Calls greeter.store greetingLine (.string "a") greeting [] ∧
      greeter.handleLine greetingLine {} =
        (some ⟨some (.string "a"), .ok (callResult (.error (.argument (.missing "name"))))⟩, {}) := by
  have readable : greeter.store.Readable := by
    intro r member
    obtain rfl := List.mem_singleton.mp member
    exact ⟨greeting, tool_greeting⟩
  exact ⟨readable, greetingLine_calls, (greeter.classified readable greetingLine {}).call _ _ _ greetingLine_calls⟩

end Server

end Rpc

end ScriptTools
