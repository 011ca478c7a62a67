import Mathlib.Init
import ScriptTools.Guest.Lexer

/-!
The bytes of texts. A character of ASCII is one byte, and the bytes of every other character are none of
ASCII.
-/

namespace ScriptTools.Text

instance lawfulBEqBytes : LawfulBEq ByteArray where
  eq_of_beq := fun {a b} same => ByteArray.ext (beq_iff_eq.mp same : a.data = b.data)
  rfl := fun {a} => beq_self_eq_true a.data

/-- The bytes of characters in UTF-8. -/
def utf8 (cs : List Char) : List UInt8 := cs.flatMap String.utf8EncodeChar

theorem utf8_cons (c : Char) (cs : List Char) : utf8 (c :: cs) = String.utf8EncodeChar c ++ utf8 cs := rfl

theorem utf8_append (cs ds : List Char) : utf8 (cs ++ ds) = utf8 cs ++ utf8 ds := List.flatMap_append

theorem toList_loop_eq (b : ByteArray) (i : Nat) (done : List UInt8) :
    ByteArray.toList.loop b i done = done.reverse ++ b.data.toList.drop i := by
  fun_induction ByteArray.toList.loop b i done with
  | case1 i done inside ih =>
    have here : i < b.data.toList.length := inside
    have value : b.get! i = b.data.toList[i] := by
      rw [ByteArray.get!, getElem!_pos b.data i here]
      simp
    rw [ih, List.reverse_cons, List.append_assoc, List.drop_eq_getElem_cons here, value]
    rfl
  | case2 i done outside =>
    have past : b.data.toList.length ≤ i := Nat.le_of_not_lt outside
    rw [List.drop_eq_nil_of_le past, List.append_nil]

theorem toList_eq (b : ByteArray) : b.toList = b.data.toList := by
  rw [ByteArray.toList, toList_loop_eq]
  rfl

theorem toUTF8_toList (s : String) : s.toUTF8.toList = utf8 s.toList := by
  rw [toList_eq, String.toUTF8, ← String.utf8Encode_toList, List.utf8Encode, List.toList_data_toByteArray]
  rfl

/-- The byte of a character of ASCII. -/
def byte (c : Char) : UInt8 := UInt8.ofNat c.toNat

theorem byte_toNat {c : Char} (ascii : c.toNat < 128) : (byte c).toNat = c.toNat := by
  rw [byte, UInt8.toNat_ofNat', Nat.mod_eq_of_lt (Nat.lt_trans ascii (by decide))]

/-- The characters of bytes of ASCII. -/
theorem map_byte_toChar {cs : List Char} (ascii : ∀ c ∈ cs, c.toNat < 128) :
    (cs.map byte).map (fun b => Char.ofNat b.toNat) = cs := by
  rw [List.map_map]
  refine (List.map_congr_left fun c member => ?_).trans (List.map_id cs)
  rw [Function.comp_apply, byte_toNat (ascii c member), Char.ofNat_toNat, id]

theorem utf8EncodeChar_ascii {c : Char} (ascii : c.toNat < 128) : String.utf8EncodeChar c = [byte c] :=
  if_pos (Nat.le_of_lt_succ ascii)

theorem utf8EncodeChar_high {c : Char} (high : 128 ≤ c.toNat) : ∀ b ∈ String.utf8EncodeChar c, 128 ≤ b := by
  have large : ¬ c.val.toNat ≤ 127 := Nat.not_le.mpr high
  have byte {n : Nat} (low : 128 ≤ n) (small : n < 256) : 128 ≤ UInt8.ofNat n := by
    rw [UInt8.le_iff_toNat_le, UInt8.toNat_ofNat', Nat.mod_eq_of_lt small]
    exact low
  intro b member
  rw [String.utf8EncodeChar, if_neg large] at member
  split at member
  · simp only [List.mem_cons, List.not_mem_nil, or_false] at member
    rcases member with rfl | rfl <;> exact byte (by omega) (by omega)
  · split at member
    · simp only [List.mem_cons, List.not_mem_nil, or_false] at member
      rcases member with rfl | rfl | rfl <;> exact byte (by omega) (by omega)
    · simp only [List.mem_cons, List.not_mem_nil, or_false] at member
      rcases member with rfl | rfl | rfl | rfl <;> exact byte (by omega) (by omega)

theorem utf8_ascii {cs : List Char} (ascii : ∀ c ∈ cs, c.toNat < 128) :
    utf8 cs = cs.map byte := by
  induction cs with
  | nil => rfl
  | cons c cs ih =>
    rw [utf8_cons, utf8EncodeChar_ascii (ascii c (by simp)), ih fun d member => ascii d (by simp [member])]
    rfl

theorem appendBytes_data (out : ByteArray) (bytes : List UInt8) :
    (Guest.Lexer.appendBytes out bytes).data.toList = out.data.toList ++ bytes := by
  induction bytes generalizing out with
  | nil => simp [Guest.Lexer.appendBytes]
  | cons b bytes ih =>
    change (Guest.Lexer.appendBytes (out.push b) bytes).data.toList = _
    rw [ih]
    simp

theorem appendBytes_append (out : ByteArray) (as bs : List UInt8) :
    Guest.Lexer.appendBytes (Guest.Lexer.appendBytes out as) bs = Guest.Lexer.appendBytes out (as ++ bs) :=
  List.foldl_append.symm

/-- The bytes of a text, put together. -/
theorem appendBytes_utf8 (s : String) : Guest.Lexer.appendBytes ByteArray.empty (utf8 s.toList) = s.toUTF8 := by
  apply ByteArray.ext
  apply Array.ext'
  rw [appendBytes_data, ← toUTF8_toList, toList_eq]
  rfl

/-- The bytes of a text are read as the text. -/
theorem ofBytesRepaired_toUTF8 (s : String) : ofBytesRepaired s.toUTF8 = s := by
  have valid : s.toUTF8.IsValidUTF8 := s.isValidUTF8
  rw [ofBytesRepaired, String.fromUTF8?, dif_pos valid]
  rfl

end ScriptTools.Text
