import ScriptTools.Text.Basic

/-!
Identifiers of tools: 128 bits, written as 32 hexadecimal digits in groups of 8, 4, 4, 4 and 12.
-/

namespace ScriptTools

structure ToolId where
  value : BitVec 128
deriving DecidableEq, Repr, Inhabited

namespace ToolId

/-- The lower-case written form with hyphens. -/
def text (id : ToolId) : String :=
  let ds := Text.hexDigits 32 id.value.toNat
  String.ofList (ds.take 8 ++ '-' :: (ds.drop 8).take 4 ++ '-' :: (ds.drop 12).take 4
    ++ '-' :: (ds.drop 16).take 4 ++ '-' :: ds.drop 20)

/-- The identifier of random bits, in which those of the version are 4 and those of the variant 2. -/
def ofRandom (bits : BitVec 128) : ToolId :=
  let versionMask : BitVec 128 := 0xF <<< 76
  let variantMask : BitVec 128 := 0x3 <<< 62
  ⟨(bits &&& ~~~(versionMask ||| variantMask)) ||| (0x4 <<< 76) ||| (0x2 <<< 62)⟩

/-- The digits of a form with hyphens, if they stand where they must. -/
def dropHyphens? (cs : List Char) : Option (List Char) :=
  if cs.length = 36 && [8, 13, 18, 23].all (fun i => cs[i]? == some '-') then
    some (cs.take 8 ++ (cs.drop 9).take 4 ++ (cs.drop 14).take 4 ++ (cs.drop 19).take 4 ++ cs.drop 24)
  else none

/-- The digits in a written identifier: plain, with hyphens, or with hyphens and in braces or after
`urn:uuid:`. -/
def digits? (cs : List Char) : Option (List Char) :=
  if cs.length = 32 then some cs
  else if cs.length = 38 then
    if cs.head? == some '\x7b' && cs.getLast? == some '\x7d' then dropHyphens? (cs.drop 1).dropLast
    else none
  else if cs.length = 45 then
    if (cs.take 9).map Char.toLower == "urn:uuid:".toList then dropHyphens? (cs.drop 9) else none
  else dropHyphens? cs

/-- The identifier that a text writes. -/
def read? (s : String) : Option ToolId := do
  let ds ← digits? s.toList
  pure ⟨BitVec.ofNat 128 (← Text.natOfHex? ds)⟩

end ToolId

end ScriptTools
