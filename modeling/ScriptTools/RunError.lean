import ScriptTools.Duration
import ScriptTools.Source
import ScriptTools.Tool.Basic

/-!
Why a run of a tool gives no result.
-/

namespace ScriptTools

inductive RunError where
  | tool (d : Tool.Defect)
  | argument (e : ArgumentError)
  | source (e : Source.Error)
  /-- The source is no script: the place of the fault, and what is wrong there. -/
  | malformed (reason : String)
  | failed (reason : String)
  | noValue (expected : ScalarType)
  | mismatch (expected : ScalarType) (found : String)
  | timeout (limit : Duration)
  | setup (reason : String)

namespace RunError

def message : RunError → String
  | .tool d => d.message
  | .argument e => e.message
  | .source e => e.message
  | .malformed reason => "generated source failed to compile: " ++ reason
  | .failed reason => "needle failed: " ++ reason
  | .noValue expected => "needle produced no value (expected " ++ expected.name ++ ")"
  | .mismatch expected found => "needle returned " ++ found ++ ", expected " ++ expected.name
  | .timeout limit => "needle exceeded its deadline of " ++ limit.text
  | .setup reason => "sandbox setup failed: " ++ reason

end RunError

end ScriptTools
