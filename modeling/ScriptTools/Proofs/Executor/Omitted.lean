import ScriptTools.Proofs.Executor.Returned
import ScriptTools.Proofs.Source.Respelled
import ScriptTools.Proofs.Tool.Advertised

/-!
Calls that leave out an argument, and calls that pass the default it is advertised with. They come to the same where
the text of the default is the same value as JSON and in a script.
-/

namespace ScriptTools

open Guest (Literal)

/-! Reading -/

/-- Calls of a tool that differ in one argument only, which one of them leaves out. -/
structure Tool.PassesDefault (t : Tool) (a : Argument) (d : Json) (raw given : List (String × Json)) : Prop where
  omitted : raw.lookup a.name = none
  passed : given.lookup a.name = some d
  others : ∀ name, name ≠ a.name → given.lookup name = raw.lookup name

namespace Argument

theorem read_congr {raw given : List (String × Json)} {b : Argument} (same : given.lookup b.name = raw.lookup b.name) :
    b.read raw = b.read given := by
  rw [read, read, same]

theorem name_of_read {raw : List (String × Json)} {a : Argument} {b : Binding} (read : a.read raw = .ok (some b)) :
    b.name = a.name :=
  (read_eq_some.mp read).name

end Argument

namespace Tool

variable {t : Tool} {before after : List Argument} {a : Argument} {d : Json} {raw given : List (String × Json)}

/-- The arguments before and after one of a tool in order have other names. -/
theorem names_ne (valid : t.validate = .ok ()) (args : t.args = before ++ a :: after) :
    (∀ b ∈ before, b.name ≠ a.name) ∧ ∀ b ∈ after, b.name ≠ a.name := by
  have distinct := nodup_of_validate valid
  rw [args, List.map_append, List.map_cons, List.nodup_middle, List.nodup_cons, ← List.map_append, List.mem_map] at distinct
  refine ⟨fun b member same => distinct.1 ⟨b, ?_, same⟩, fun b member same => distinct.1 ⟨b, ?_, same⟩⟩
  · exact List.mem_append_left _ member
  · exact List.mem_append_right _ member

/-- Bindings of the arguments around one. -/
structure Around (before after : List Argument) (raw : List (String × Json)) (first last : List Binding) : Prop where
  first : ∃ read, before.mapM (Argument.read raw) = .ok read ∧ first = read.filterMap fun b => b
  last : ∃ read, after.mapM (Argument.read raw) = .ok read ∧ last = read.filterMap fun b => b

theorem exists_of_mem_filterMap {args : List Argument} {read : List (Option Binding)}
    (run : args.mapM (Argument.read raw) = .ok read) {b : Binding} (member : b ∈ read.filterMap fun b => b) :
    ∃ a ∈ args, b.name = a.name := by
  obtain ⟨_, inside, rfl⟩ := List.mem_filterMap.mp member
  obtain ⟨a, declared, here⟩ := exists_mem_of_forall₂ (mapM_eq_ok_iff.mp run) _ inside
  exact ⟨a, declared, Argument.name_of_read here⟩

/-- Either both calls are refused for the same fault, or the one binds the argument and is else as the other. -/
theorem readArguments_default (valid : t.validate = .ok ()) (args : t.args = before ++ a :: after)
    (optional : a.required = false) (passes : t.PassesDefault a d raw given) {v : Scalar} (some : d ≠ .null)
    (coerced : Argument.coerce? a.type d = .some v) :
    (∃ e, t.readArguments raw = .error e ∧ t.readArguments given = .error e) ∨
      ∃ read read' first last, t.readArguments raw = .ok read ∧ t.readArguments given = .ok read' ∧
        read.bindings = first ++ last ∧ read'.bindings = first ++ ⟨a.name, v⟩ :: last ∧
        (∀ b ∈ first ++ last, b.name ≠ a.name) := by
  obtain ⟨front, back⟩ := names_ne valid args
  have same {b : Argument} (other : b.name ≠ a.name) := Argument.read_congr (passes.others b.name other)
  have left : a.read raw = .ok none := Argument.read_eq_none.mpr ⟨Argument.given?_eq_none.mpr (.inl passes.omitted), optional⟩
  have right : a.read given = .ok (.some ⟨a.name, v⟩) :=
    Argument.read_eq_some.mpr ⟨rfl, d, Argument.given?_eq_some.mpr ⟨passes.passed, some⟩, coerced⟩
  have here (e : ArgumentError) : a.read raw = .error e ↔ a.read given = .error e := by simp [left, right]
  rcases mapM_replaced (fun b member => same (front b member)) (fun b member => same (back b member)) here with
    ⟨e, fails, fails'⟩ | ⟨xs, x, y, ys, first, omitted, passed, last, run, run'⟩
  · refine .inl ⟨e, ?_, ?_⟩
    · rwa [readArguments_eq_error, args]
    · rwa [readArguments_eq_error, args]
  · cases left.symm.trans omitted
    cases right.symm.trans passed
    rw [← args] at run run'
    refine .inr ⟨_, _, xs.filterMap fun b => b, ys.filterMap fun b => b, bind_eq_ok.mpr ⟨_, run, rfl⟩,
      bind_eq_ok.mpr ⟨_, run', rfl⟩, ?_, ?_, ?_⟩
    · simp
    · simp
    · intro b member
      rcases List.mem_append.mp member with member | member
      · obtain ⟨c, declared, name⟩ := exists_of_mem_filterMap first member
        exact name ▸ front c declared
      · obtain ⟨c, declared, name⟩ := exists_of_mem_filterMap last member
        exact name ▸ back c declared

end Tool

/-! Sources -/

namespace Source

variable {t : Tool} {before after : List Argument} {a : Argument} {first last : List Binding} {v : Scalar}

/-- Another binding is not looked at. -/
theorem line_around {b : Argument} (other : b.name ≠ a.name) :
    line (first ++ last) b = line (first ++ ⟨a.name, v⟩ :: last) b := by
  have found : (first ++ last).find? (fun c => c.name = b.name) =
      (first ++ ⟨a.name, v⟩ :: last).find? fun c => c.name = b.name := by
    rw [List.find?_append, List.find?_append, List.find?_cons_of_neg (by simpa using Ne.symm other)]
  rw [line, line, boundLiteral, boundLiteral, found]

theorem line_omitted (free : ∀ b ∈ first ++ last, b.name ≠ a.name) {text : String} (default : a.defaultValue = some text)
    (identifier : isIdentifier a.name = true) :
    line (first ++ last) a = .ok (declarationText a.name text) := by
  have none : ((first ++ last).find? fun b => b.name = a.name) = none := by
    rw [List.find?_eq_none]
    intro b member
    simpa using free b member
  rw [line_eq_ok, boundLiteral, none]
  exact ⟨identifier, text, by rw [default]; rfl, rfl⟩

theorem line_passed (free : ∀ b ∈ first ++ last, b.name ≠ a.name) {host : String} (written : literal a.name v = .ok host)
    (identifier : isIdentifier a.name = true) :
    line (first ++ ⟨a.name, v⟩ :: last) a = .ok (declarationText a.name host) := by
  have found : ((first ++ ⟨a.name, v⟩ :: last).find? fun b => b.name = a.name) = some ⟨a.name, v⟩ := by
    have none : (first.find? fun b => b.name = a.name) = none := by
      rw [List.find?_eq_none]
      intro b member
      simpa using free b (List.mem_append_left _ member)
    rw [List.find?_append, none, Option.none_or, List.find?_cons_of_pos (by simp)]
  rw [line_eq_ok, boundLiteral, found]
  exact ⟨identifier, host, written, rfl⟩

theorem line_eq_error_of_name {bindings : List Binding} (other : isIdentifier a.name = false) :
    line bindings a = .error (.badName a.name) := by
  rw [line, other]
  rfl

/-- A line of an argument goes no further where the default does not that it may stand for. -/
theorem exists_closed_of_line {bindings : List Binding} {b : Argument} {text : String} (run : line bindings b = .ok text)
    (closed : (bindings.find? fun c => c.name = b.name) = none → ∀ s, b.defaultValue = some s → Closed s) :
    ∃ name value, text = declarationText name value ∧ isIdentifier name = true ∧ Closed value := by
  obtain ⟨identifier, value, bound, rfl⟩ := line_eq_ok.mp run
  refine ⟨b.name, value, rfl, identifier, ?_⟩
  rw [boundLiteral] at bound
  split at bound
  · exact closed_of_reads (reads_literal bound)
  · rename_i none
    cases bound
    cases default : b.defaultValue with
    | none => exact closed_of_reads reads_nil
    | some s => exact closed none s default

/-- Sources that differ in the line of one argument, in parts. -/
theorem build_of_lines {bindings : List Binding} {xs ys : List String} {x : String}
    (run : t.args.mapM (line bindings) = .ok (xs ++ x :: ys)) :
    ∃ source, build bindings t = .ok source ∧
      source.toList = (String.join xs).toList ++ (x.toList ++ ((String.join ys).toList ++ '\n' :: t.code.toList)) := by
  refine ⟨_, bind_eq_ok.mpr ⟨_, run, rfl⟩, ?_⟩
  have some : (xs ++ x :: ys).isEmpty = false := by simp
  rw [some, if_neg nofun]
  simp [String.toList_join, List.append_assoc]

theorem Respells.value {l l' : Literal} (respells : Respells l l') : l.value = l'.value := by
  cases respells <;> rfl

/-- The default in the place of a value of the argument: it is the literal of the host, or stands for it behind lines
that go no further than they should. -/
inductive Replaces (before : List Argument) (bindings : List Binding) (name text : String) (v : Scalar) : Prop
  | verbatim : literal name v = .ok text → Replaces before bindings name text v
  | standsFor : StandsFor text v →
      (∀ b ∈ before, (bindings.find? fun c => c.name = b.name) = none → ∀ s, b.defaultValue = some s → Closed s) →
      Replaces before bindings name text v

theorem readScript_congr {script source source' : String} (same : Guest.compile source = Guest.compile source')
    (head : source.toList.head? = some 'l') (head' : source'.toList.head? = some 'l') :
    Guest.readScript script source = Guest.readScript script source' := by
  rw [Guest.readScript, Guest.readScript, head, head', if_neg (by decide), if_neg (by decide), same]

/-- Either neither call has a source, or both sources are the same script. -/
theorem build_default (args : t.args = before ++ a :: after) (front : ∀ b ∈ before, b.name ≠ a.name)
    (back : ∀ b ∈ after, b.name ≠ a.name) (free : ∀ b ∈ first ++ last, b.name ≠ a.name) {text : String}
    (default : a.defaultValue = some text) (replaces : Replaces before (first ++ last) a.name text v) :
    (∃ e, build (first ++ last) t = .error e ∧ build (first ++ ⟨a.name, v⟩ :: last) t = .error e) ∨
      ∃ source source', build (first ++ last) t = .ok source ∧ build (first ++ ⟨a.name, v⟩ :: last) t = .ok source' ∧
        ∀ script, Guest.readScript script source = Guest.readScript script source' := by
  have fails {bindings : List Binding} {e : Error} (fails : t.args.mapM (line bindings) = .error e) :
      build bindings t = .error e := by
    rw [build, fails]
    rfl
  obtain ⟨host, written⟩ : ∃ host, literal a.name v = .ok host := by
    cases replaces with
    | verbatim same => exact ⟨text, same⟩
    | standsFor stands => exact stands.written a.name
  cases identifier : isIdentifier a.name with
  | false =>
    have here (e : Error) : line (first ++ last) a = .error e ↔ line (first ++ ⟨a.name, v⟩ :: last) a = .error e := by
      rw [line_eq_error_of_name identifier, line_eq_error_of_name identifier]
    rcases mapM_replaced (fun b member => line_around (front b member)) (fun b member => line_around (back b member)) here with
      ⟨e, run, run'⟩ | ⟨_, _, _, _, _, run, _⟩
    · rw [← args] at run run'
      exact .inl ⟨e, fails run, fails run'⟩
    · cases (line_eq_error_of_name identifier).symm.trans run
  | true =>
    have omitted := line_omitted free default identifier
    have passed := line_passed free written identifier
    have here (e : Error) : line (first ++ last) a = .error e ↔ line (first ++ ⟨a.name, v⟩ :: last) a = .error e := by
      simp [omitted, passed]
    rcases mapM_replaced (fun b member => line_around (front b member)) (fun b member => line_around (back b member)) here with
      ⟨e, run, run'⟩ | ⟨xs, x, y, ys, lines, left, right, _, run, run'⟩
    · rw [← args] at run run'
      exact .inl ⟨e, fails run, fails run'⟩
    · rw [← args] at run run'
      cases omitted.symm.trans left
      cases passed.symm.trans right
      obtain ⟨source, built, parts⟩ := build_of_lines run
      obtain ⟨source', built', parts'⟩ := build_of_lines run'
      refine .inr ⟨source, source', built, built', fun script => ?_⟩
      have declares : t.args ≠ [] := by simp [args]
      refine readScript_congr ?_ (head?_build built declares) (head?_build built' declares)
      cases replaces with
      | verbatim same =>
        obtain rfl : text = host := by simpa using same.symm.trans written
        rw [String.toList_inj.mp (parts.trans parts'.symm)]
      | standsFor stands closed =>
        obtain ⟨l, reads, respells⟩ := stands.reads
        have apart := (apart_declarations fun line member => by
          obtain ⟨b, declared, run⟩ := exists_mem_of_forall₂ (mapM_eq_ok_iff.mp lines) line member
          exact exists_closed_of_line run (closed b declared)).1
        exact compile_respelled identifier reads (reads_literal written) respells apart parts parts'

end Source

/-! Running -/

/-- Where a tool's argument has a default that is the same as JSON and in a script, for calls that leave it out. -/
inductive Tool.DefaultReadsAlike (t : Tool) (a : Argument) (raw : List (String × Json)) : Json → Prop
  /-- A `null` that is passed counts as none. -/
  | null : DefaultReadsAlike t a raw .null
  /-- The text is the literal that the host writes for the value. -/
  | verbatim {text : String} {d : Json} {v : Scalar} : a.defaultValue = some text → Argument.coerce? a.type d = some v →
      Source.literal a.name v = .ok text → DefaultReadsAlike t a raw d
  /-- The text is of the declared type, stands on one line, and no default before it reaches into its line. -/
  | alike {text : String} {d : Json} : a.defaultValue = some text → Source.ReadsAlike text a.type d → Source.OneLine text →
      (∀ before after, t.args = before ++ a :: after →
        ∀ b ∈ before, b.given? raw = none → ∀ s, b.defaultValue = some s → Source.Closed s) →
      DefaultReadsAlike t a raw d

/-- The value of a script that an argument stands for. -/
def Scalar.inScript : Scalar → Guest.Value
  | .string s => .text s
  | .int i => .int i
  | .float x => .number (.float x)
  | .boolean b => .bool b

theorem Source.scriptValue_of_literal {name host : String} {v : Scalar} (written : literal name v = .ok host) :
    scriptValue v = v.inScript := by
  cases v with
  | float x =>
    rw [literal] at written
    split at written
    · rename_i finite
      exact scriptValue_float finite
    · cases written
  | _ => rfl

/-- A script reads the default of an argument as the value that the argument has when the JSON value is passed. -/
def Argument.BindsAlike (a : Argument) (d : Json) : Prop :=
  ∃ (text : String) (v : Scalar) (l : Literal), a.defaultValue = some text ∧ Argument.coerce? a.type d = some v ∧
    Source.Reads text.toUTF8.toList l.tokens ∧ l.value = v.inScript

namespace Executor

theorem session_congr {x : Executor} {type : ScalarType} {source source' : String}
    (same : Guest.readScript Sandbox.scriptName source = Guest.readScript Sandbox.scriptName source') :
    x.session type source = x.session type source' := by
  have run (s : Guest.State World) :
      Guest.runScript Sandbox.scriptName source s = Guest.runScript Sandbox.scriptName source' s := by
    rw [Guest.runScript, Guest.runScript, same]
  simp only [session, Sandbox.evaluate, run]

theorem run_congr {x : Executor} {t : Tool} {bindings bindings' : List Binding} (validated : validate t bindings = .ok ())
    (validated' : validate t bindings' = .ok ())
    (same : (∃ e, Source.build bindings t = .error e ∧ Source.build bindings' t = .error e) ∨
      ∃ source source', Source.build bindings t = .ok source ∧ Source.build bindings' t = .ok source' ∧
        ∀ script, Guest.readScript script source = Guest.readScript script source') (w : World) :
    x.run t bindings w = x.run t bindings' w := by
  have prepared {bindings : List Binding} (validated : validate t bindings = .ok ()) :
      prepare t bindings = (Source.build bindings t).mapError .source := by
    rw [prepare, validated]
    cases Source.build bindings t <;> rfl
  rw [run, run, prepared validated, prepared validated']
  rcases same with ⟨e, fails, fails'⟩ | ⟨source, source', built, built', same⟩
  · rw [fails, fails']
  · rw [built, built']
    simp only [Except.mapError, session_congr (same Sandbox.scriptName)]

/-- A call with `null` for an argument comes to the same as one without it. -/
theorem runJson_null {t : Tool} (valid : t.validate = .ok ()) {before after : List Argument} {a : Argument}
    (args : t.args = before ++ a :: after) {raw given : List (String × Json)}
    (passes : t.PassesDefault a .null raw given) (x : Executor) (w : World) :
    x.runJson t given w = x.runJson t raw w := by
  obtain ⟨front, back⟩ := Tool.names_ne valid args
  have same {b : Argument} (other : b.name ≠ a.name) := Argument.read_congr (passes.others b.name other)
  have here : a.read raw = a.read given := by rw [Argument.read, Argument.read, passes.omitted, passes.passed]
  have bound : t.args.mapM (Argument.read raw) = t.args.mapM (Argument.read given) := by
    rw [args, List.mapM_append, List.mapM_append, List.mapM_cons, List.mapM_cons, here,
      mapM_congr fun b member => same (front b member), mapM_congr fun b member => same (back b member)]
  rw [runJson, runJson, Tool.readArguments, Tool.readArguments, bound]
  cases t.args.mapM (Argument.read given) <;> rfl

/-- With a value in the place of the default, a call comes to the same. -/
theorem runJson_replaced {t : Tool} (valid : t.validate = .ok ()) {before after : List Argument} {a : Argument}
    (args : t.args = before ++ a :: after) (optional : a.required = false) {d : Json} {raw given : List (String × Json)}
    (passes : t.PassesDefault a d raw given) (some : d ≠ .null) {text : String} (default : a.defaultValue = .some text)
    {v : Scalar} (coerced : Argument.coerce? a.type d = .some v)
    (replaces : ∀ read, t.readArguments raw = .ok read → Source.Replaces before read.bindings a.name text v)
    (x : Executor) (w : World) : x.runJson t given w = x.runJson t raw w := by
  obtain ⟨front, back⟩ := Tool.names_ne valid args
  rcases Tool.readArguments_default valid args optional passes some coerced with
    ⟨e, fails, fails'⟩ | ⟨read, read', first, last, run, run', bindings, bindings', free⟩
  · rw [runJson, runJson, fails, fails']
  · have validated := Tool.validate_of_readArguments valid run
    have validated' := Tool.validate_of_readArguments valid run'
    have replaces := replaces read run
    rw [bindings] at validated replaces
    rw [bindings'] at validated'
    rw [runJson, runJson, run, run']
    dsimp only
    rw [bindings, bindings']
    exact (run_congr validated validated' (Source.build_default args front back free default replaces) w).symm

/-- Leaving out an argument comes to the same as passing the default it is advertised with, whatever the code and the
other arguments are, where the default is the same as JSON and in a script. The script then has the argument as the
value that was passed. -/
theorem runJson_default {t : Tool} (valid : t.validate = .ok ()) {a : Argument} (declared : a ∈ t.args)
    (optional : a.required = false) {d : Json} (advertised : t.Advertises a.name d) {raw given : List (String × Json)}
    (passes : t.PassesDefault a d raw given) (alike : t.DefaultReadsAlike a raw d) :
    (d ≠ .null → a.BindsAlike d) ∧ ∀ (x : Executor) (w : World), x.runJson t given w = x.runJson t raw w := by
  obtain ⟨text, default, parsed⟩ := (Tool.advertises_iff valid declared).mp advertised
  obtain ⟨before, after, args⟩ := List.append_of_mem declared
  have some {v : Scalar} (coerced : Argument.coerce? a.type d = .some v) : d ≠ .null := by
    rintro rfl
    generalize a.type = type at coerced
    cases type <;> cases coerced
  cases alike with
  | null => exact ⟨fun other => absurd rfl other, runJson_null valid args passes⟩
  | @verbatim _ _ v default' coerced same =>
    cases default.symm.trans default'
    have value : (Source.scalarLiteral v).value = v.inScript :=
      (Source.value_scalarLiteral v).trans (Source.scriptValue_of_literal same)
    exact ⟨fun _ => ⟨text, v, Source.scalarLiteral v, default, coerced, Source.reads_literal same, value⟩,
      runJson_replaced valid args optional passes (some coerced) default coerced fun _ _ => .verbatim same⟩
  | alike default' reads line closed =>
    cases default.symm.trans default'
    obtain ⟨v, coerced, stands⟩ := Source.exists_standsFor line parsed reads
    obtain ⟨l, reads, respells⟩ := stands.reads
    obtain ⟨host, written⟩ := stands.written a.name
    have value : l.value = v.inScript :=
      (respells.value.trans (Source.value_scalarLiteral v)).trans (Source.scriptValue_of_literal written)
    refine ⟨fun _ => ⟨text, v, l, default, coerced, reads, value⟩,
      runJson_replaced valid args optional passes (some coerced) default coerced fun read run => .standsFor stands ?_⟩
    intro b earlier unbound
    exact closed before after args b earlier
      (Tool.given?_of_unbound run (by rw [args]; exact List.mem_append_left _ earlier) unbound)

/-- A tool with two numbers that both have a default, the second one written in another way than the host does. -/
def scaled : Tool :=
  { id := default, name := "scaled", code := "return n * x", returnType := .float, createdAt := default, updatedAt := default,
    args := [{ name := "n", type := .int, required := false, defaultValue := some "10" },
      { name := "x", type := .float, required := false, defaultValue := some " -2.50 " }] }

theorem parse?_padded : Json.parse? " -2.50 " = some (.float (-2.5)) := by
  have value : Json.NumberToken.finish true 250 (-2) none = some (-2.5) :=
    Option.map_injective (fun _ _ => Decimal.toBits_inj) (by decide +kernel)
  have read : Json.Document.read? " -2.50 " = some (.number ⟨true, ['2'], ['5', '0'], none⟩) := rfl
  rw [Json.parse?, read]
  exact congrArg (Option.map Json.float) value

theorem runJson_default_scaled :
    (⟨[.log true], .unlimited⟩ : Executor).runJson scaled [("x", .float (-2.5))] {} =
      (⟨[.log true], .unlimited⟩ : Executor).runJson scaled [] {} := by
  have valid : scaled.validate = .ok () := by decide +kernel
  have declared : { name := "x", type := .float, required := false, defaultValue := some " -2.50 " } ∈ scaled.args := by
    simp [scaled]
  have advertised : scaled.Advertises "x" (.float (-2.5)) := (Tool.advertises_iff valid declared).mpr ⟨" -2.50 ", rfl, parse?_padded⟩
  have passes : scaled.PassesDefault { name := "x", type := .float, required := false, defaultValue := some " -2.50 " }
      (.float (-2.5)) [] [("x", .float (-2.5))] := ⟨rfl, rfl, fun name other => by rw [List.lookup_cons, beq_eq_false_iff_ne.mpr other]⟩
  have reads : Source.ReadsAlike " -2.50 " .float (.float (-2.5)) := .float (by decide) rfl
  have closed : Source.Closed "10" := Source.closed_of_reads (Source.reads_literal (show Source.literal "n" (.int 10) = .ok "10" from rfl))
  refine (runJson_default valid declared rfl advertised passes (.alike rfl reads (by decide +kernel) ?_)).2 _ _
  intro before after args b earlier _ s default
  have other := (Tool.names_ne valid args).1 b earlier
  have member : b ∈ scaled.args := args ▸ List.mem_append_left _ earlier
  simp only [scaled, List.mem_cons, List.not_mem_nil, or_false] at member
  rcases member with rfl | rfl
  · cases default
    exact closed
  · exact absurd rfl other

/-- A tool that returns its argument, a text with a number as its default. -/
def labelled : Tool :=
  { id := default, name := "labelled", code := "return x", returnType := .string, createdAt := default,
    updatedAt := default, args := [{ name := "x", type := .string, required := false, defaultValue := some "1" }] }

/-- The default `1` of a text is advertised as a number. A call that passes it gets the text `1`, and one that leaves it
out gets the number. -/
theorem runJson_default_differs_labelled :
    labelled.validate = .ok () ∧ labelled.Advertises "x" (.int 1) ∧
      labelled.PassesDefault { name := "x", type := .string, required := false, defaultValue := some "1" } (.int 1) []
        [("x", .int 1)] ∧
      ((⟨[], .unlimited⟩ : Executor).runJson labelled [("x", .int 1)] {}).1 = .ok (.string "1") ∧
      ∃ found, ((⟨[], .unlimited⟩ : Executor).runJson labelled [] {}).1 = .error (.mismatch .string found) := by
  have valid : labelled.validate = .ok () := by decide +kernel
  have member : { name := "x", type := .string, required := false, defaultValue := some "1" } ∈ labelled.args :=
    List.mem_singleton.mpr rfl
  have identifiers : ∀ a ∈ labelled.args, Source.isIdentifier a.name = true := by decide +kernel
  refine ⟨valid, (Tool.advertises_iff valid member).mpr ⟨"1", rfl, rfl⟩, ⟨rfl, rfl, fun name other => ?_⟩, ?_, ?_⟩
  · rw [List.lookup_cons, beq_eq_false_iff_ne.mpr other]
  · -- The number comes to the binding that the text has.
    have same : (⟨[], .unlimited⟩ : Executor).runJson labelled [("x", .int 1)] {} =
        (⟨[], .unlimited⟩ : Executor).runJson labelled [("x", .str "1")] {} := rfl
    have supplied : ∀ a ∈ labelled.args, a.Supplied [("x", .str "1")] := by
      intro a member
      obtain rfl := List.mem_singleton.mp member
      exact ⟨.str "1", rfl, trivial⟩
    have returned := runJson_returned ⟨[], .unlimited⟩ labelled [("x", .str "1")] {} _ rfl valid identifiers (by decide) supplied
      member nofun rfl rfl
    rw [same]
    exact returned.1 _ rfl
  · -- The source is the one of a call that binds the integer.
    have built : Source.build [⟨"x", .int 1⟩] labelled = .ok "local x = 1\n\nreturn x" := rfl
    have prepared : prepare labelled [] = .ok "local x = 1\n\nreturn x" := rfl
    obtain ⟨tables, result⟩ := session_gives (x := ⟨[], .unlimited⟩) .string {} rfl fun b calm =>
      runScript_bound calm (Tool.nodup_of_validate valid)
        (fun a member => .inr (by obtain rfl := List.mem_singleton.mp member; rfl)) (identifiers _ member) (by decide) member rfl built
    refine ⟨Sandbox.describe (.number (Decimal.ofInt (Int64.toInt 1))), ?_⟩
    rw [runJson_of_prepared (show labelled.readArguments [] = .ok ⟨[], []⟩ from rfl) prepared,
      show labelled.returnType = .string from rfl, result]
    have host : Guest.Bridge.toHost tables Guest.Bridge.depthLimit (.int 1) = .ok (.number (Decimal.ofInt (Int64.toInt 1))) :=
      if_pos (by decide)
    exact congrArg (fun v => (Sandbox.result .string v).bind _) host

end Executor

end ScriptTools
