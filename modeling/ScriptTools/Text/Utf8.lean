/-!
UTF-8 with repair: every byte sequence has a text, in which each maximal broken part stands as one
replacement character. Bytes that are valid UTF-8 are read as they are.
-/

namespace ScriptTools.Text

/-- U+FFFD, which stands for bytes that are not UTF-8. -/
def replacement : Char := '\uFFFD'

def isContinuation (b : UInt8) : Bool := 0x80 ≤ b && b ≤ 0xBF

/-- The second bytes that may follow a leading byte of three or four: shorter forms, surrogates and
numbers above U+10FFFF are cut off here. -/
def mayFollow (lead second : UInt8) : Bool :=
  isContinuation second &&
    (if lead == 0xE0 then 0xA0 ≤ second
     else if lead == 0xED then second ≤ 0x9F
     else if lead == 0xF0 then 0x90 ≤ second
     else if lead == 0xF4 then second ≤ 0x8F
     else true)

/-- The low six bits of a continuation byte. -/
def payload (b : UInt8) : Nat := b.toNat % 64

/-- Reads one character after the leading byte `lead`. A broken start consumes the bytes that could
have begun a character and no more. -/
def readChar (lead : UInt8) (rest : List UInt8) : Char × List UInt8 :=
  if lead < 0x80 then (Char.ofNat lead.toNat, rest)
  else if lead < 0xC2 || 0xF4 < lead then (replacement, rest)
  else
    match rest with
    | [] => (replacement, [])
    | second :: rest₁ =>
      if lead < 0xE0 then
        if isContinuation second then
          (Char.ofNat (lead.toNat % 32 * 64 + payload second), rest₁)
        else (replacement, rest)
      else if !mayFollow lead second then (replacement, rest)
      else
        match rest₁ with
        | [] => (replacement, [])
        | third :: rest₂ =>
          if !isContinuation third then (replacement, rest₁)
          else if lead < 0xF0 then
            (Char.ofNat ((lead.toNat % 16 * 64 + payload second) * 64 + payload third), rest₂)
          else
            match rest₂ with
            | [] => (replacement, [])
            | fourth :: rest₃ =>
              if !isContinuation fourth then (replacement, rest₂)
              else
                (Char.ofNat (((lead.toNat % 8 * 64 + payload second) * 64 + payload third) * 64
                  + payload fourth), rest₃)

theorem readChar_length_le (lead : UInt8) (rest : List UInt8) :
    (readChar lead rest).2.length ≤ rest.length := by
  unfold readChar
  repeat' split
  all_goals simp_all only [List.length_cons, List.length_nil, Nat.le_refl] <;> omega

/-- Appends the characters of a byte sequence to `done`, broken parts replaced. -/
def pushRepaired (done : String) : List UInt8 → String
  | [] => done
  | lead :: rest =>
    let step := readChar lead rest
    pushRepaired (done.push step.1) step.2
termination_by bytes => bytes.length
decreasing_by
  have := readChar_length_le lead rest
  simp only [List.length_cons]
  omega

/-- The text of any bytes; broken parts become U+FFFD. -/
def ofBytesRepaired (bytes : ByteArray) : String :=
  match String.fromUTF8? bytes with
  | some text => text
  | none => pushRepaired "" bytes.toList

/-- The text of bytes that are UTF-8. -/
def ofBytes? (bytes : ByteArray) : Option String := String.fromUTF8? bytes

end ScriptTools.Text
