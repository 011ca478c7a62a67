import ScriptTools.Proofs.Tool.Codec
import ScriptTools.Tool.Store

/-!
Records are read and written without loss: what any accepted text was read as is read again from the text
that is stored for it.
-/

namespace ScriptTools.Tool

/-- The tools that some text writes are those whose times the calendar has. Names, descriptions, code and
arguments are not restricted. -/
theorem exists_decode?_iff {t : Tool} : (∃ text, decode? text = some t) ↔ t.IsTimed :=
  ⟨fun ⟨_, read⟩ => isTimed_of_decode? read, fun timed => ⟨t.encode, decode?_encode timed⟩⟩

/-- Whatever a text was read as, the text that is stored for it is read as the same, by itself and in its
row of a store. -/
theorem decode?_encode_of_decode? {text : String} {t : Tool} (read : decode? text = some t) :
    decode? t.encode = some t ∧ (Store.Row.ofTool t).tool = .ok t := by
  have again : decode? t.encode = some t := decode?_encode (exists_decode?_iff.mp ⟨text, read⟩)
  exact ⟨again, by rw [Store.Row.tool, Store.Row.ofTool, again]⟩

/-- A record in an unusual form: members out of order, one that is unknown, arguments as arrays and with
members left out, escaped characters, a leap second before the year 0 and a time after the year 9999. -/
def unusualText : String :=
  "\x7b\"name\": \"\\u00e9\\ud83d\\ude00\\n\\u0001\\\"\","
    ++ " \"extra\": [1.5],"
    ++ " \"id\": \"urn:uuid:6F1C1F57-2c4a-4a39-9f57-0a3e7b6e6c11\","
    ++ " \"args\": [[\"a\", \"Int\"],"
    ++ " \x7b\"type\": \x7b\"Float\": null\x7d, \"name\": \"b\","
    ++ " \"required\": false, \"defaultValue\": null\x7d,"
    ++ " \x7b\"name\": \"\", \"type\": \"String\","
    ++ " \"defaultValue\": \"'\\\\'\"\x7d],"
    ++ " \"code\": \"return '\\/'\","
    ++ " \"returnType\": \"Boolean\","
    ++ " \"createdAt\": \"-0044-03-15T23:59:60.000000001+01:30\","
    ++ " \"updatedAt\": \"+10000-01-01 00:00:00.5000000009Z\"\x7d"

def unusual : Tool where
  id := ⟨0x6f1c1f572c4a4a399f570a3e7b6e6c11⟩
  name := "é😀\n\x01\""
  code := "return '/'"
  args := [{ name := "a", type := .int }, { name := "b", type := .float, required := false },
    { name := "", type := .string, defaultValue := some "'\\'" }]
  returnType := .boolean
  createdAt := ⟨-63549279001, 1000000001⟩
  updatedAt := ⟨253402300800, 500000000⟩

theorem decode?_encode_of_decode?_unusual :
    decode? unusualText = some unusual ∧ decode? unusual.encode = some unusual ∧
      (Store.Row.ofTool unusual).tool = .ok unusual := by
  -- The text is taken apart, since the characters of a long one take long to find.
  have read : decode? unusualText = some unusual := by
    unfold decode? Json.Document.read? Json.Token.readAll? unusualText
    simp only [String.toList_append]
    decide +kernel
  exact ⟨read, decode?_encode_of_decode? read⟩

end ScriptTools.Tool
