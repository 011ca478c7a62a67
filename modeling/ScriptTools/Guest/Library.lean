import ScriptTools.Guest.Library.Base
import ScriptTools.Guest.Library.CodePoints
import ScriptTools.Guest.Library.Maths
import ScriptTools.Guest.Library.Packed
import ScriptTools.Guest.Library.Patterns
import ScriptTools.Guest.Library.Tables

/-!
What each function of the libraries does, and the tables in which scripts find them.
-/

namespace ScriptTools.Guest

open Library

variable {World : Type}

/-- The results of a function of the libraries on its arguments. -/
def Builtin.run (b : Builtin) (args : List Value) : Eval World (List Value) :=
  match b with
  | assert => runAssert args
  | collectgarbage => runCollectgarbage args
  | error => runError args
  | getmetatable => runGetmetatable args
  | ipairs => runIpairs args
  | ipairsStep => runIpairsStep args
  | next => runNext args
  | pairs => runPairs args
  | pcall => runPcall args
  | rawequal => runRawequal args
  | rawget => runRawget args
  | rawlen => runRawlen args
  | rawset => runRawset args
  | select => runSelect args
  | setmetatable => runSetmetatable args
  | tonumber => runTonumber args
  | tostring => runTostring args
  | type => runType args
  | warn => runWarn args
  | xpcall => runXpcall args
  | stringByte => runByte args
  | stringChar => runChar args
  | stringDump => runDump args
  | stringFind => runFind args
  | stringFormat => runFormat args
  | stringGmatch => runGmatch args
  | stringGsub => runGsub args
  | stringLen => runLen args
  | stringLower => runLower args
  | stringMatch => runMatch args
  | stringPack => runStringPack args
  | stringPacksize => runPacksize args
  | stringRep => runRep args
  | stringReverse => runReverse args
  | stringSub => runSub args
  | stringUnpack => runStringUnpack args
  | stringUpper => runUpper args
  | stringAdd => runArithOp .add args
  | stringSubtract => runArithOp .sub args
  | stringMul => runArithOp .mul args
  | stringMod => runArithOp .mod args
  | stringPow => runArithOp .pow args
  | stringDiv => runArithOp .div args
  | stringIdiv => runArithOp .floorDiv args
  | stringUnm => runStringUnm args
  | tableConcat => runConcat args
  | tableInsert => runInsert args
  | tableMove => runMove args
  | tablePack => runPack args
  | tableRemove => runRemove args
  | tableSort => runSort args
  | tableUnpack => runUnpack args
  | mathAbs => runAbs args
  | mathAcos => runReal mathAcos Float.acos args
  | mathAsin => runReal mathAsin Float.asin args
  | mathAtan => runAtan args
  | mathCeil => runCeil args
  | mathCos => runReal mathCos Float.cos args
  | mathCosh => runReal mathCosh Float.cosh args
  | mathDeg => runReal mathDeg (fun x => x * (180.0 / pi)) args
  | mathExp => runReal mathExp Float.exp args
  | mathFloor => runFloor args
  | mathFmod => runFmod args
  | mathFrexp => runFrexp args
  | mathLdexp => runLdexp args
  | mathLog => runLog args
  | mathLog10 => runReal mathLog10 Float.log10 args
  | mathMax => runBest mathMax (fun v best => Eval.less .native best v) args
  | mathMin => runBest mathMin (fun v best => Eval.less .native v best) args
  | mathModf => runModf args
  | mathPow => runPow args
  | mathRad => runReal mathRad (fun x => x * (pi / 180.0)) args
  | mathRandom => runRandom args
  | mathRandomseed => runRandomseed args
  | mathSin => runReal mathSin Float.sin args
  | mathSinh => runReal mathSinh Float.sinh args
  | mathSqrt => runReal mathSqrt Float.sqrt args
  | mathTan => runReal mathTan Float.tan args
  | mathTanh => runReal mathTanh Float.tanh args
  | mathTointeger => runTointeger args
  | mathType => runMathType args
  | mathUlt => runUlt args
  | utf8Char => runUtf8Char args
  | utf8Codepoint => runCodepoint args
  | utf8Codes => runCodes args
  | utf8Len => runUtf8Len args
  | utf8Offset => runOffset args
  | utf8Step => runCodesStep utf8Step true args
  | utf8LaxStep => runCodesStep utf8LaxStep false args

namespace Library

/-- The values of a library that are no functions. -/
def constants : String → List (String × Value)
  | "math" =>
    [("pi", .float pi), ("huge", .float (1.0 / 0.0)), ("maxinteger", .int Int64.maxValue),
     ("mininteger", .int Int64.minValue)]
  | "utf8" => [("charpattern", .string charPattern)]
  | _ => []

def functions (fs : List (String × Builtin)) : List (String × Value) :=
  fs.map fun f => (f.1, .builtin f.2)

/-- The tables of the libraries, with their names. -/
def tables : List (String × Table) :=
  Builtin.libraries.map fun l => (l.1, .ofFields (functions l.2 ++ constants l.1))

end Library

namespace State

/-- The number of a library's table, in the order of the libraries. -/
def libraryTable (name : String) : Nat :=
  2 + ((Builtin.libraries.findIdx? fun l => l.1 == name).getD 0)

/-- The state before any script has run. The first tables are that of the globals, the metatable of
strings and those of the libraries. -/
def initial (world : World) : State World :=
  let libraries := Builtin.libraries.map fun l => (l.1, Value.table (libraryTable l.1))
  let globals := Table.ofFields (Library.functions Builtin.globals ++ libraries
    ++ [("_G", .table 0), ("_VERSION", .text "Lua 5.4")])
  let strings := Table.ofFields (Library.functions Builtin.stringMetamethods
    ++ [("__index", .table (libraryTable "string"))])
  { world
    tables := (globals :: strings :: Library.tables.map (·.2)).toArray
    globals := 0
    stringMeta := 1 }

end State

end ScriptTools.Guest
