import ScriptTools.Capability.Basic
import ScriptTools.Text.Escaped

/-!
Running tools. Every run has a sandbox of its own, into which the capabilities are put in order.
-/

namespace ScriptTools

structure Executor where
  capabilities : List Capability := []
  limits : Limits := {}

namespace Executor

/-- Text that tells what an executor is made of. -/
def text (x : Executor) : String :=
  "NeedleExecutor \x7b capabilities: ["
    ++ ", ".intercalate (x.capabilities.map fun c => Text.shown c.name) ++ "], limits: "
    ++ x.limits.text ++ " \x7d"

/-- Checks one binding against the declared arguments. -/
def checkBinding (t : Tool) (b : Binding) : Except RunError Unit :=
  match t.arg? b.name with
  | none => .error (.argument (.unknown b.name))
  | some a =>
    if b.value.type = a.type then .ok ()
    else .error (.argument (.mismatch b.name a.type b.value.type))

/-- Checks a tool and the bindings of a call before anything runs. -/
def validate (t : Tool) (bindings : List Binding) : Except RunError Unit := do
  match t.validate with
  | .error d => throw (.tool d)
  | .ok () => pure ()
  bindings.forM (checkBinding t)
  match t.args.find? fun a => a.required && !bindings.any fun b => b.name = a.name with
  | some a => throw (.argument (.missing a.name))
  | none => pure ()

/-- The source of a call that is in order. -/
def prepare (t : Tool) (bindings : List Binding) : Except RunError String := do
  validate t bindings
  match Source.build bindings t with
  | .ok source => pure source
  | .error e => throw (.source e)

/-- What happens in the sandbox of a run. -/
def session (x : Executor) (type : ScalarType) (source : String) : Sandboxed World Scalar := do
  x.capabilities.forM Capability.install
  match ← Sandbox.evaluate type source with
  | some v => return v
  | none => throw (.noValue type)

/-- Runs a tool with bound arguments in a world. -/
def run (x : Executor) (t : Tool) (bindings : List Binding) (w : World) :
    Except RunError Scalar × World :=
  match prepare t bindings with
  | .error e => (.error e, w)
  | .ok source =>
    let (r, b) := (x.session t.returnType source).run (Sandbox.create x.limits w)
    (r, b.state.world)

/-- What is said of a run that broke off before there was a sandbox. -/
def taskFault : RunError := .failed "needle task failed"

/-- Runs a tool at a moment. There is no sandbox, and nothing runs, where the clock cannot count as far as the
deadline. -/
def runAt (x : Executor) (now : Instant) (t : Tool) (bindings : List Binding) (w : World) :
    Except RunError Scalar × World :=
  match prepare t bindings with
  | .error e => (.error e, w)
  | .ok source =>
    match Sandbox.start x.limits now w with
    | none => (.error taskFault, w)
    | some b =>
      let (r, b) := (x.session t.returnType source).run b
      (r, b.state.world)

/-- Runs a tool with arguments as they come in a call. -/
def runJson (x : Executor) (t : Tool) (raw : List (String × Json)) (w : World) :
    Except RunError Scalar × World :=
  match t.readArguments raw with
  | .error e => (.error (.argument e), w)
  | .ok a => x.run t a.bindings w

/-- Runs a tool with arguments as they come in a call, at a moment. -/
def runJsonAt (x : Executor) (now : Instant) (t : Tool) (raw : List (String × Json)) (w : World) :
    Except RunError Scalar × World :=
  match t.readArguments raw with
  | .error e => (.error (.argument e), w)
  | .ok a => x.runAt now t a.bindings w

end Executor

end ScriptTools
