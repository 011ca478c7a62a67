import ScriptTools.Decimal.Read

/-!
The layout of values in strings of bytes, as the formats of packing describe it.
-/

namespace ScriptTools.Guest.Packing

/-- What one option of a format stands for, with the bytes it takes up by itself. -/
inductive Item where
  | int (signed : Bool) (size : Nat)
  | single
  | double
  | chars (size : Nat)
  /-- A string after its length. -/
  | counted (size : Nat)
  | zeroEnded
  | padding
  /-- Only the alignment of the option that follows. -/
  | align
  | none
deriving DecidableEq, Repr

def Item.size : Item → Nat
  | .int _ n => n
  | .single => 4
  | .double => 8
  | .chars n => n
  | .counted n => n
  | .padding => 1
  | .zeroEnded | .align | .none => 0

structure Layout where
  little : Bool := true
  maxAlign : Nat := 1

/-- What is wrong with a format: a fault of its own, or one that is blamed on the argument. -/
inductive Fault where
  | plain (message : String)
  | argument (message : String)

/-- A number in a format is cut off when it would not fit into 32 bits. -/
def numberLimit : Nat := 214748363

def isDigit (b : UInt8) : Bool := 48 ≤ b && b ≤ 57

def readNumberFrom (n : Nat) : List UInt8 → Nat × List UInt8
  | [] => (n, [])
  | b :: rest =>
    if isDigit b && n ≤ numberLimit then readNumberFrom (n * 10 + (b.toNat - 48)) rest
    else (n, b :: rest)

/-- The number at the front of a format. -/
def readNumber? : List UInt8 → Option (Nat × List UInt8)
  | [] => Option.none
  | b :: rest => if isDigit b then some (readNumberFrom 0 (b :: rest)) else Option.none

/-- The size of an integer, from 1 to 16 bytes. -/
def readSize (default : Nat) (format : List UInt8) : Except Fault (Nat × List UInt8) :=
  match readNumber? format with
  | Option.none => .ok (default, format)
  | some (n, rest) =>
    if 1 ≤ n && n ≤ 16 then .ok (n, rest)
    else .error (.plain ("integral size (" ++ toString n ++ ") out of limits [1,16]"))

/-- One option of a format, which may change the layout of those after it. -/
def readOption (l : Layout) (letter : UInt8) (rest : List UInt8) :
    Except Fault (Item × Layout × List UInt8) :=
  match Char.ofNat letter.toNat with
  | 'b' => .ok (.int true 1, l, rest)
  | 'B' => .ok (.int false 1, l, rest)
  | 'h' => .ok (.int true 2, l, rest)
  | 'H' => .ok (.int false 2, l, rest)
  | 'l' | 'j' => .ok (.int true 8, l, rest)
  | 'L' | 'J' | 'T' => .ok (.int false 8, l, rest)
  | 'f' => .ok (.single, l, rest)
  | 'n' | 'd' => .ok (.double, l, rest)
  | 'i' => do
    let (n, rest) ← readSize 4 rest
    pure (.int true n, l, rest)
  | 'I' => do
    let (n, rest) ← readSize 4 rest
    pure (.int false n, l, rest)
  | 's' => do
    let (n, rest) ← readSize 8 rest
    pure (.counted n, l, rest)
  | 'c' =>
    match readNumber? rest with
    | some (n, rest) => .ok (.chars n, l, rest)
    | Option.none => .error (.plain "missing size for format option 'c'")
  | 'z' => .ok (.zeroEnded, l, rest)
  | 'x' => .ok (.padding, l, rest)
  | 'X' => .ok (.align, l, rest)
  | ' ' => .ok (.none, l, rest)
  | '<' | '=' => .ok (.none, { l with little := true }, rest)
  | '>' => .ok (.none, { l with little := false }, rest)
  | '!' => do
    let (n, rest) ← readSize 8 rest
    pure (.none, { l with maxAlign := n }, rest)
  | c => .error (.plain ("invalid format option '" ++ String.singleton c ++ "'"))

/-- The alignment that an option asks for before limits. -/
def wantedAlign (l : Layout) (item : Item) (rest : List UInt8) :
    Except Fault (Nat × Layout × List UInt8) :=
  match item, rest with
  | .align, [] => .error invalid
  | .align, letter :: after => do
    let (next, l, rest) ← readOption l letter after
    match next with
    | .chars _ => .error invalid
    | next => if next.size = 0 then .error invalid else pure (next.size, l, rest)
  | .chars _, _ => .ok (0, l, rest)
  | item, _ => .ok (item.size, l, rest)
where
  invalid : Fault := .argument "invalid next option for option 'X'"

/-- An item of a format and the bytes of padding in front of it. -/
structure Step where
  item : Item
  gap : Nat
  layout : Layout
  rest : List UInt8

/-- The next item of a format after a number of bytes; none at its end. -/
def next? (l : Layout) (total : Nat) : List UInt8 → Except Fault (Option Step)
  | [] => .ok Option.none
  | letter :: rest => do
    let (item, l, rest) ← readOption l letter rest
    let (wanted, l, rest) ← wantedAlign l item rest
    if wanted ≤ 1 then pure (some ⟨item, 0, l, rest⟩)
    else
      let a := min wanted l.maxAlign
      if a &&& (a - 1) != 0 then .error (.argument "format asks for alignment not power of 2")
      else pure (some ⟨item, (a - total % a) % a, l, rest⟩)

/-! Bytes of numbers -/

/-- The lowest bytes of an integer, the least significant first. -/
def lowBytes (n : Int) : Nat → List UInt8
  | 0 => []
  | count + 1 => (n % 256).toNat.toUInt8 :: lowBytes (n / 256) count

def intBytes (l : Layout) (size : Nat) (n : Int) : List UInt8 :=
  if l.little then lowBytes n size else (lowBytes n size).reverse

/-- The number that bytes write, the most significant first. -/
def natOfBytes (bytes : List UInt8) : Nat := bytes.foldl (fun n b => n * 256 + b.toNat) 0

/-- The number that bytes of a layout write. -/
def readInt (l : Layout) (signed : Bool) (bytes : List UInt8) : Int :=
  let n := natOfBytes (if l.little then bytes.reverse else bytes)
  if signed && Nat.pow 2 (8 * bytes.length - 1) ≤ n then (n : Int) - Nat.pow 2 (8 * bytes.length) else n

/-- Whether a number that was read has a place in 64 bits: numbers of more bytes may not be larger. -/
def fits (signed : Bool) (size : Nat) (n : Int) : Bool :=
  size ≤ 8 || (if signed then Decimal.fitsInt64 n else n < Nat.pow 2 64)

end ScriptTools.Guest.Packing
