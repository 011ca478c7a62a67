import ScriptTools.Guest.Number
import ScriptTools.Text.Utf8

/-!
The tokens of scripts.
-/

namespace ScriptTools.Guest

/-- The words that are no names. -/
inductive Keyword where
  | and_ | break_ | do_ | else_ | elseif_ | end_ | false_ | for_ | function_ | goto_ | if_ | in_
  | local_ | nil_ | not_ | or_ | repeat_ | return_ | then_ | true_ | until_ | while_
deriving DecidableEq, Repr, Inhabited

namespace Keyword

def text : Keyword → String
  | and_ => "and"
  | break_ => "break"
  | do_ => "do"
  | else_ => "else"
  | elseif_ => "elseif"
  | end_ => "end"
  | false_ => "false"
  | for_ => "for"
  | function_ => "function"
  | goto_ => "goto"
  | if_ => "if"
  | in_ => "in"
  | local_ => "local"
  | nil_ => "nil"
  | not_ => "not"
  | or_ => "or"
  | repeat_ => "repeat"
  | return_ => "return"
  | then_ => "then"
  | true_ => "true"
  | until_ => "until"
  | while_ => "while"

def all : List Keyword :=
  [and_, break_, do_, else_, elseif_, end_, false_, for_, function_, goto_, if_, in_, local_, nil_,
   not_, or_, repeat_, return_, then_, true_, until_, while_]

/-- The keyword that a name of ASCII letters is. -/
def ofText? (cs : List Char) : Option Keyword := all.find? fun k => k.text.toList == cs

end Keyword

/-- Marks of one to three characters. -/
inductive Mark where
  | plus | minus | star | slash | doubleSlash | percent | caret | hash
  | ampersand | tilde | bar | shiftLeft | shiftRight
  | equal | notEqual | lessEqual | greaterEqual | less | greater | assign
  | openParen | closeParen | openBrace | closeBrace | openBracket | closeBracket
  | doubleColon | semicolon | colon | comma | dot | doubleDot | ellipsis
deriving DecidableEq, Repr, Inhabited

namespace Mark

def text : Mark → String
  | plus => "+"
  | minus => "-"
  | star => "*"
  | slash => "/"
  | doubleSlash => "//"
  | percent => "%"
  | caret => "^"
  | hash => "#"
  | ampersand => "&"
  | tilde => "~"
  | bar => "|"
  | shiftLeft => "<<"
  | shiftRight => ">>"
  | equal => "=="
  | notEqual => "~="
  | lessEqual => "<="
  | greaterEqual => ">="
  | less => "<"
  | greater => ">"
  | assign => "="
  | openParen => "("
  | closeParen => ")"
  | openBrace => "\x7b"
  | closeBrace => "\x7d"
  | openBracket => "["
  | closeBracket => "]"
  | doubleColon => "::"
  | semicolon => ";"
  | colon => ":"
  | comma => ","
  | dot => "."
  | doubleDot => ".."
  | ellipsis => "..."

end Mark

/-- How a string is written: between quotes, or in long brackets of a level. -/
inductive StringForm where
  | quoted (quote : UInt8)
  | long (level : Nat)

namespace StringForm

def bracket (b : UInt8) (level : Nat) : List UInt8 := b :: List.replicate level 61 ++ [b]

/-- What stands before and after the text of a string. -/
def openingBytes : StringForm → List UInt8
  | quoted q => [q]
  | long level => bracket 91 level

def closingBytes : StringForm → List UInt8
  | quoted q => [q]
  | long level => bracket 93 level

end StringForm

inductive Token where
  | name (s : ByteArray)
  | string (s : ByteArray) (form : StringForm)
  /-- A numeral with its text. -/
  | number (n : Number) (text : List UInt8)
  | keyword (k : Keyword)
  | mark (m : Mark)
  /-- A byte that begins no token. -/
  | stray (b : UInt8)
  /-- The place where the text stops being tokens, and why. -/
  | broken (message : String)
  | eof
deriving Inhabited

/-- Bytes in quotes as messages show them; they end before a zero. -/
def shownBytes (bytes : List UInt8) : String :=
  "'" ++ Text.ofBytesRepaired ⟨(bytes.takeWhile (· != 0)).toArray⟩ ++ "'"

namespace Token

def endText : String := "<eof>"

/-- A token as messages show it. -/
def shown : Token → String
  | name s => shownBytes s.toList
  | string s form => shownBytes (form.openingBytes ++ s.toList ++ form.closingBytes)
  | number _ text => shownBytes text
  | keyword k => "'" ++ k.text ++ "'"
  | mark m => "'" ++ m.text ++ "'"
  | stray b =>
    if 32 ≤ b && b ≤ 126 then shownBytes [b] else "'<\\" ++ toString b.toNat ++ ">'"
  | broken _ | eof => endText

end Token

/-- A token and the line on which it ends. -/
structure Lexeme where
  token : Token
  line : Nat
deriving Inhabited

end ScriptTools.Guest
