/-!
The functions that every script finds. Each is known by the table that holds it and its name there.
-/

namespace ScriptTools.Guest

inductive Builtin where
  | assert | collectgarbage | error | getmetatable | ipairs | next | pairs | pcall | rawequal | rawget
  | rawlen | rawset | select | setmetatable | tonumber | tostring | type | warn | xpcall
  /-- The step of a loop over the items of a list. -/
  | ipairsStep
  | stringByte | stringChar | stringDump | stringFind | stringFormat | stringGmatch | stringGsub
  | stringLen | stringLower | stringMatch | stringPack | stringPacksize | stringRep | stringReverse
  | stringSub | stringUnpack | stringUpper
  /-- The arithmetic of strings that spell numbers. -/
  | stringAdd | stringSubtract | stringMul | stringMod | stringPow | stringDiv | stringIdiv | stringUnm
  | tableConcat | tableInsert | tableMove | tablePack | tableRemove | tableSort | tableUnpack
  | mathAbs | mathAcos | mathAsin | mathAtan | mathCeil | mathCos | mathCosh | mathDeg | mathExp
  | mathFloor | mathFmod | mathFrexp | mathLdexp | mathLog | mathLog10 | mathMax | mathMin | mathModf
  | mathPow | mathRad | mathRandom | mathRandomseed | mathSin | mathSinh | mathSqrt | mathTan | mathTanh
  | mathTointeger | mathType | mathUlt
  | utf8Char | utf8Codepoint | utf8Codes | utf8Len | utf8Offset
  /-- The steps of a loop over code points, strict or not. -/
  | utf8Step | utf8LaxStep
deriving DecidableEq, Repr, Hashable, Inhabited

namespace Builtin

/-- The functions of the global table. -/
def globals : List (String × Builtin) :=
  [("assert", assert), ("collectgarbage", collectgarbage), ("error", error),
   ("getmetatable", getmetatable), ("ipairs", ipairs), ("next", next), ("pairs", pairs),
   ("pcall", pcall), ("rawequal", rawequal), ("rawget", rawget), ("rawlen", rawlen),
   ("rawset", rawset), ("select", select), ("setmetatable", setmetatable), ("tonumber", tonumber),
   ("tostring", tostring), ("type", type), ("warn", warn), ("xpcall", xpcall)]

def strings : List (String × Builtin) :=
  [("byte", stringByte), ("char", stringChar), ("dump", stringDump), ("find", stringFind),
   ("format", stringFormat), ("gmatch", stringGmatch), ("gsub", stringGsub), ("len", stringLen),
   ("lower", stringLower), ("match", stringMatch), ("pack", stringPack),
   ("packsize", stringPacksize), ("rep", stringRep), ("reverse", stringReverse),
   ("sub", stringSub), ("unpack", stringUnpack), ("upper", stringUpper)]

/-- The metamethods of strings other than the table of their methods. -/
def stringMetamethods : List (String × Builtin) :=
  [("__add", stringAdd), ("__sub", stringSubtract), ("__mul", stringMul), ("__mod", stringMod),
   ("__pow", stringPow), ("__div", stringDiv), ("__idiv", stringIdiv), ("__unm", stringUnm)]

def tables : List (String × Builtin) :=
  [("concat", tableConcat), ("insert", tableInsert), ("move", tableMove), ("pack", tablePack),
   ("remove", tableRemove), ("sort", tableSort), ("unpack", tableUnpack)]

def maths : List (String × Builtin) :=
  [("abs", mathAbs), ("acos", mathAcos), ("asin", mathAsin), ("atan", mathAtan), ("ceil", mathCeil),
   ("cos", mathCos), ("cosh", mathCosh), ("deg", mathDeg), ("exp", mathExp), ("floor", mathFloor),
   ("fmod", mathFmod), ("frexp", mathFrexp), ("ldexp", mathLdexp), ("log", mathLog),
   ("log10", mathLog10), ("max", mathMax), ("min", mathMin), ("modf", mathModf), ("pow", mathPow),
   ("rad", mathRad), ("random", mathRandom), ("randomseed", mathRandomseed), ("sin", mathSin),
   ("sinh", mathSinh), ("sqrt", mathSqrt), ("tan", mathTan), ("tanh", mathTanh),
   ("tointeger", mathTointeger), ("type", mathType), ("ult", mathUlt)]

def utf8s : List (String × Builtin) :=
  [("char", utf8Char), ("codepoint", utf8Codepoint), ("codes", utf8Codes), ("len", utf8Len),
   ("offset", utf8Offset)]

/-- The libraries with the names of their tables. -/
def libraries : List (String × List (String × Builtin)) :=
  [("string", strings), ("table", tables), ("math", maths), ("utf8", utf8s)]

/-- The name of a function with that of its library, by which messages call a function that the script
does not call by a name of its own. -/
def name (b : Builtin) : String :=
  let find (fs : List (String × Builtin)) := (fs.find? fun f => f.2 == b).map (·.1)
  match find globals with
  | some x => x
  | none =>
    (libraries.findSome? fun l => (find l.2).map fun x => l.1 ++ "." ++ x).getD "?"

end Builtin

end ScriptTools.Guest
