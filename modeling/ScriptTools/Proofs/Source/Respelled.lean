import ScriptTools.Proofs.Guest.Respelled
import ScriptTools.Proofs.Source.Defaults

/-!
Sources that differ in how one literal is written. They are the same script, as long as no earlier line reaches into
the declaration of that literal.
-/

namespace ScriptTools.Source

open Guest (Literal Lexeme)
open Guest.Lexer Text

/-- Lines behind which a declaration is read as it stands, or nothing is read. -/
def Apart (front : List UInt8) : Prop :=
  ∀ line, (∃ ts last, ∀ rest, tokensAfter [] line (front ++ 108 :: rest) = ts ++ tokensAfter [] last (108 :: rest)) ∨
    ∃ ts, ∀ rest, tokensAfter [] line (front ++ 108 :: rest) = ts

/-- A text that goes no further than its line: the next line is read on its own, or nothing of it is read. -/
def Closed (text : String) : Prop := Apart (utf8 text.toList ++ [10])

theorem closed_of_reads {text : String} {ts : List Guest.Token} (reads : Reads text.toUTF8.toList ts) : Closed text := by
  intro line
  rw [toUTF8_toList] at reads
  refine .inl ⟨ts.map (⟨·, line⟩), line + 1, fun rest => ?_⟩
  rw [← List.append_cons, reads, tokensAfter_newline, dropPair_eq (by decide)]

/-- The text of a declaration. -/
def declarationText (name value : String) : String := "local " ++ name ++ " = " ++ value ++ "\n"

theorem utf8_declarationText (name value : String) (rest : List UInt8) :
    utf8 (declarationText name value).toList ++ rest =
      utf8 ("local " ++ name ++ " = ").toList ++ (utf8 value.toList ++ 10 :: rest) := by
  simp only [declarationText, String.toList_append, utf8_append, List.append_assoc]
  rfl

/-- A declaration starts with a letter. -/
theorem exists_utf8_declarationText (name value : String) :
    ∃ inner, ∀ rest, utf8 (declarationText name value).toList ++ rest = 108 :: (inner ++ rest) := by
  refine ⟨[111, 99, 97, 108, 32] ++ utf8 name.toList ++ [32, 61, 32] ++ utf8 value.toList ++ [10], fun rest => ?_⟩
  simp only [declarationText, String.toList_append, utf8_append, List.append_assoc]
  rfl

theorem Closed.apart {name value : String} (identifier : isIdentifier name = true) (closed : Closed value) :
    Apart (utf8 (declarationText name value).toList) := by
  intro line
  let front : List Lexeme := [⟨.keyword .local_, line⟩, ⟨.name name.toUTF8, line⟩, ⟨.mark .assign, line⟩]
  have declares (rest : List UInt8) : tokensAfter [] line (utf8 (declarationText name value).toList ++ 108 :: rest) =
      front ++ tokensAfter [] line (utf8 value.toList ++ [10] ++ 108 :: rest) := by
    rw [utf8_declarationText, tokensAfter_declares identifier, ← List.append_cons]
    rfl
  rcases closed line with ⟨ts, last, read⟩ | ⟨ts, read⟩
  · exact .inl ⟨front ++ ts, last, fun rest => by rw [declares, read, List.append_assoc]⟩
  · exact .inr ⟨front ++ ts, fun rest => by rw [declares, read]⟩

/-- Declarations with literals that go no further than their lines. -/
theorem apart_declarations {lines : List String}
    (each : ∀ line ∈ lines, ∃ name value, line = declarationText name value ∧ isIdentifier name = true ∧ Closed value) :
    Apart (utf8 (String.join lines).toList) ∧
      ∀ rest, ∃ rest', utf8 (String.join lines).toList ++ 108 :: rest = 108 :: rest' := by
  induction lines with
  | nil => exact ⟨fun line => .inl ⟨[], line, fun _ => rfl⟩, fun rest => ⟨rest, rfl⟩⟩
  | cons first lines ih =>
    obtain ⟨⟨name, value, rfl, identifier, closed⟩, others⟩ := List.forall_mem_cons.mp each
    obtain ⟨apart, starts⟩ := ih others
    obtain ⟨inner, letter⟩ := exists_utf8_declarationText name value
    have bytes (rest : List UInt8) : utf8 (String.join (declarationText name value :: lines)).toList ++ 108 :: rest =
        utf8 (declarationText name value).toList ++ (utf8 (String.join lines).toList ++ 108 :: rest) := by
      rw [String.toList_join, String.toList_join, List.flatMap_cons, utf8_append, List.append_assoc]
    refine ⟨fun line => ?_, fun rest => ⟨_, (bytes rest).trans (letter _)⟩⟩
    rcases closed.apart identifier line with ⟨ts, last, read⟩ | ⟨ts, read⟩
    · have next (rest : List UInt8) :
          tokensAfter [] line (utf8 (String.join (declarationText name value :: lines)).toList ++ 108 :: rest) =
            ts ++ tokensAfter [] last (utf8 (String.join lines).toList ++ 108 :: rest) := by
        obtain ⟨rest', same⟩ := starts rest
        rw [bytes, same, read]
      rcases apart last with ⟨ts', last', read'⟩ | ⟨ts', read'⟩
      · exact .inl ⟨ts ++ ts', last', fun rest => by rw [next, read', List.append_assoc]⟩
      · exact .inr ⟨ts ++ ts', fun rest => by rw [next, read']⟩
    · refine .inr ⟨ts, fun rest => ?_⟩
      obtain ⟨rest', same⟩ := starts rest
      rw [bytes, same, read]

/-- Sources are the same script when they differ in the spelling of one literal, behind lines that reach no further. -/
theorem compile_respelled {name value value' : String} (identifier : isIdentifier name = true) {l l' : Literal}
    (reads : Reads value.toUTF8.toList l.tokens) (reads' : Reads value'.toUTF8.toList l'.tokens)
    (respells : Respells l l') {front : List Char} (apart : Apart (utf8 front)) {source source' : String} {behind : List Char}
    (text : source.toList = front ++ ((declarationText name value).toList ++ behind))
    (text' : source'.toList = front ++ ((declarationText name value').toList ++ behind)) :
    Guest.compile source = Guest.compile source' := by
  rw [toUTF8_toList] at reads reads'
  have split {value : String} {l : Literal} {source : String} (reads : Reads (utf8 value.toList) l.tokens)
      (text : source.toList = front ++ ((declarationText name value).toList ++ behind)) :
      (∃ rest, tokens source = tokensAfter [] 1 (utf8 front ++ 108 :: rest)) ∧
        ∀ ts last, (∀ rest, tokensAfter [] 1 (utf8 front ++ 108 :: rest) = ts ++ tokensAfter [] last (108 :: rest)) →
          tokens source = ts ++ ((Guest.Parser.declarationTokens name.toUTF8 l).map (⟨·, last⟩) ++
            tokensAfter [] last (10 :: utf8 behind)) := by
    obtain ⟨inner, letter⟩ := exists_utf8_declarationText name value
    have bytes : source.toUTF8.toList = utf8 front ++ (utf8 (declarationText name value).toList ++ utf8 behind) := by
      rw [toUTF8_toList, text, utf8_append, utf8_append]
    refine ⟨⟨_, by rw [tokens, bytes, letter]⟩, fun ts last read => ?_⟩
    have whole := reads_declaration identifier reads last (utf8 behind)
    rw [utf8_append, List.append_assoc] at whole
    rw [tokens, bytes, letter, read, ← letter, utf8_declarationText, whole]
  obtain ⟨⟨_, any⟩, read⟩ := split reads text
  obtain ⟨⟨_, any'⟩, read'⟩ := split reads' text'
  rw [Guest.compile, Guest.compile]
  rcases apart 1 with ⟨ts, last, tokens⟩ | ⟨ts, tokens⟩
  · rw [read ts last tokens, read' ts last tokens]
    cases respells with
    | same => rfl
    | number negative n first second =>
      let r : Guest.Parser.Respelling := ⟨name.toUTF8, negative, n, second, first, last, tokensAfter [] last (10 :: utf8 behind)⟩
      exact Guest.parse_respelled r ts
  · rw [any, any', tokens, tokens]

end ScriptTools.Source
