import ScriptTools.Proofs.Files.Scopes
import ScriptTools.Proofs.Policy.Checked

/-!
What the policy allows of paths. A pattern reaches no further than the directory that it names, and a pattern that ends
in one star no deeper than one level, except below a child whose own name is a star.
-/

namespace ScriptTools.Policy

open Files (IsName IsScope scopeText)

/-! Pieces of patterns -/

variable {suffix front rest cs ds : List Char}

theorem stripSuffix?_eq_some : stripSuffix? suffix cs = some front ↔ cs = front ++ suffix := by
  rw [stripSuffix?, Option.ite_none_right_eq_some, List.isSuffixOf_iff_suffix, Option.some_inj]
  constructor
  · rintro ⟨⟨start, rfl⟩, rfl⟩
    simp
  · rintro rfl
    simp

theorem stripPrefix?_eq_some : stripPrefix? front cs = some rest ↔ cs = front ++ rest := by
  rw [stripPrefix?, Option.ite_none_right_eq_some, List.isPrefixOf_iff_prefix, Option.some_inj]
  constructor
  · rintro ⟨⟨start, rfl⟩, rfl⟩
    simp
  · rintro rfl
    simp

theorem isBelow_iff : isBelow front cs = true ↔ cs = front ∨ front ++ ['/'] <+: cs := by
  rw [isBelow, Bool.or_eq_true, beq_iff_eq, List.isPrefixOf_iff_prefix]

theorem dropTrailingSlashes_of_last (last : cs.getLast? ≠ some '/') : dropTrailingSlashes cs = cs := by
  rcases List.eq_nil_or_concat' cs with rfl | ⟨front, c, rfl⟩
  · rfl
  · have other : c ≠ '/' := by simpa using last
    rw [dropTrailingSlashes, List.reverse_append, List.reverse_singleton, List.singleton_append,
      List.dropWhile_cons_of_neg (by simpa using other), List.reverse_cons, List.reverse_reverse]

/-- The directory that a pattern names: what is left without the `./`s at its front, the slashes at its end and a star or
two after the last slash. -/
def base (pattern : String) : List Char :=
  let cs := dropTrailingSlashes (dropDotSlash pattern.toList)
  match stripSuffix? ['/', '*'] cs, stripSuffix? ['/', '*', '*'] cs with
  | some front, _ => front
  | none, some front => front
  | none, none => cs

/-- How a pattern covers a path, when neither starts with `./`. -/
inductive Covers (pattern path : List Char) : Prop where
  | self (same : path = pattern)
  | inside (below : dropTrailingSlashes pattern ++ ['/'] <+: path)
  | level {front rest : List Char} (star : pattern = front ++ ['/', '*']) (below : path = front ++ ['/'] ++ rest)
      (single : '/' ∉ rest)
  | tree {front : List Char} (stars : pattern = front ++ ['/', '*', '*']) (below : path = front ∨ front ++ ['/'] <+: path)

theorem patternCovers_iff {pattern path : String} :
    patternCovers pattern path = true ↔ pattern = "*" ∨ pattern = "**" ∨ pattern = "." ∨
      Covers (dropDotSlash pattern.toList) (dropDotSlash path.toList) := by
  rw [patternCovers]
  split
  · rename_i whole
    simp only [Bool.or_eq_true, beq_iff_eq, or_assoc] at whole
    grind
  · rename_i part
    simp only [Bool.or_eq_true, beq_iff_eq, or_assoc, not_or] at part
    simp only [part, false_or, Bool.or_eq_true, beq_iff_eq, List.isPrefixOf_iff_prefix]
    generalize dropDotSlash pattern.toList = pattern
    generalize dropDotSlash path.toList = path
    constructor
    · rintro (((same | below) | level) | tree)
      · exact .self same
      · exact .inside below
      · split at level
        · rename_i front star
          split at level
          · rename_i rest below
            exact .level (stripSuffix?_eq_some.mp star) (stripPrefix?_eq_some.mp below) (by simpa using level)
          · cases level
        · cases level
      · split at tree
        · rename_i front stars
          exact .tree (stripSuffix?_eq_some.mp stars) (isBelow_iff.mp tree)
        · cases tree
    · rintro (same | below | ⟨star, below, single⟩ | ⟨stars, below⟩)
      · exact .inl (.inl (.inl same))
      · exact .inl (.inl (.inr below))
      · simp [stripSuffix?_eq_some.mpr star, stripPrefix?_eq_some.mpr below, single]
      · simp [stripSuffix?_eq_some.mpr stars, isBelow_iff.mpr below]

/-! Bases -/

theorem base_of_star {pattern : String} (star : dropDotSlash pattern.toList = front ++ ['/', '*']) :
    base pattern = front := by
  rw [base, star, dropTrailingSlashes_of_last (by simp), stripSuffix?_eq_some.mpr rfl]

theorem base_of_stars {pattern : String} (stars : dropDotSlash pattern.toList = front ++ ['/', '*', '*']) :
    base pattern = front := by
  have other : stripSuffix? ['/', '*'] (front ++ ['/', '*', '*']) = none := by
    rw [Option.eq_none_iff_forall_ne_some]
    intro start same
    have ends := congrArg (List.take 2 ·.reverse) (stripSuffix?_eq_some.mp same)
    simp at ends
  rw [base, stars, dropTrailingSlashes_of_last (by simp), other, stripSuffix?_eq_some.mpr rfl]

/-- A pattern without the slashes at its end is its base, or goes on there after a slash. -/
theorem base_cases (pattern : String) :
    dropTrailingSlashes (dropDotSlash pattern.toList) = base pattern ∨
      base pattern ++ ['/'] <+: dropTrailingSlashes (dropDotSlash pattern.toList) := by
  rw [base]
  split
  · rename_i star
    exact .inr ⟨['*'], by simp [stripSuffix?_eq_some.mp star]⟩
  · rename_i stars
    exact .inr ⟨['*', '*'], by simp [stripSuffix?_eq_some.mp stars]⟩
  · exact .inl rfl

/-- What a pattern covers is its base or lies below it. -/
theorem Covers.within {pattern : String} (covers : Covers (dropDotSlash pattern.toList) cs)
    (last : cs.getLast? ≠ some '/') : cs = base pattern ∨ base pattern ++ ['/'] <+: cs := by
  have cases := base_cases pattern
  cases covers with
  | self same =>
    rwa [← same, dropTrailingSlashes_of_last last] at cases
  | inside below =>
    refine .inr (.trans ?_ below)
    rcases cases with same | more
    · exact same ▸ List.prefix_rfl
    · exact more.trans (List.prefix_append ..)
  | level star below =>
    rw [base_of_star star]
    exact .inr ⟨_, below.symm⟩
  | tree stars below =>
    rwa [base_of_stars stars]

/-! Scopes -/

theorem splitOn_dotSlash (rest : List Char) : ('.' :: '/' :: rest).splitOn '/' = ['.'] :: rest.splitOn '/' := by
  change (['.'] ++ '/' :: rest).splitOn '/' = _
  exact List.splitOn_append_cons_self_of_not_mem (by decide) rest

/-- A path of which the first part is no dot has nothing to drop. -/
theorem dropDotSlash_of_head (other : ['.'] ∉ (cs.splitOn '/').head?) : dropDotSlash cs = cs := by
  fun_cases dropDotSlash cs with
  | case1 rest => exact absurd (by simp [splitOn_dotSlash]) other
  | case2 => rfl

/-- The `./`s at the front of a path are parts of it, unless it ends with them. -/
theorem splitOn_dropDotSlash (last : ['.'] ∉ (cs.splitOn '/').getLast?) :
    (dropDotSlash cs).splitOn '/' = (cs.splitOn '/').dropWhile (· = ['.']) := by
  fun_induction dropDotSlash cs with
  | case1 rest ih =>
    rw [splitOn_dotSlash, List.getLast?_cons_of_ne_nil (List.splitOn_ne_nil _ _)] at last
    rw [splitOn_dotSlash, List.dropWhile_cons_of_pos (by simp), ih last]
  | case2 cs other =>
    obtain ⟨part, parts, split⟩ := List.exists_cons_of_ne_nil (List.splitOn_ne_nil '/' cs)
    rw [split, List.dropWhile_cons_of_neg]
    intro dot
    obtain rfl : part = ['.'] := of_decide_eq_true dot
    have front : ['.'].splitOn '/' <+: cs.splitOn '/' :=
      ⟨parts, by rw [split, List.splitOn_eq_singleton (by decide), List.singleton_append]⟩
    rcases Text.splitOn_prefix_iff.mp front with rfl | ⟨rest, rfl⟩
    · exact last (by decide)
    · exact other rest rfl

variable {parts : List String} {scope : String}

theorem splitOn_scopeText (names : ∀ name ∈ parts, IsName name) :
    (scopeText parts).toList.splitOn '/' = if parts = [] then [['.']] else parts.map String.toList := by
  split
  · rename_i none
    rw [none]
    decide
  · rename_i some
    rw [← Text.map_toList_parts, Files.parts_scopeText names some]

theorem dropDotSlash_scopeText (names : ∀ name ∈ parts, IsName name) :
    dropDotSlash (scopeText parts).toList = (scopeText parts).toList := by
  cases parts with
  | nil => rfl
  | cons name rest =>
    refine dropDotSlash_of_head fun dot => ?_
    have first : name.toList = ['.'] := by simpa [splitOn_scopeText names] using dot
    exact (names name (by simp)).notDot (String.toList_inj.mp (first.trans (by decide)))

theorem getLast?_scopeText (names : ∀ name ∈ parts, IsName name) : (scopeText parts).toList.getLast? ≠ some '/' := by
  refine Text.getLast?_ne_of_splitOn fun empty => ?_
  rw [splitOn_scopeText names] at empty
  split at empty
  · simp at empty
  · obtain ⟨name, member, none⟩ := List.mem_map.mp (List.mem_of_getLast? empty)
    exact (names name member).nonempty (String.toList_eq_nil_iff.mp none)

/-! Decisions -/

variable {p : Policy} {access : Access}

theorem check_path_eq_ok (files : access ≠ .netHttp) :
    p.check ⟨access, some scope⟩ = .ok () ↔
      access ∉ p.denied ∧ ∃ e ∈ p.entries access, patternCovers e scope = true := by
  rw [check_eq_ok, listed_iff]
  simp [files]

theorem patternCovers_scopeText {pattern : String} (names : ∀ name ∈ parts, IsName name) :
    patternCovers pattern (scopeText parts) = true ↔ pattern = "*" ∨ pattern = "**" ∨ pattern = "." ∨
      Covers (dropDotSlash pattern.toList) (scopeText parts).toList := by
  rw [patternCovers_iff, dropDotSlash_scopeText names]

/-- A path is allowed only where an entry covers everything or names a directory that the path is or lies below; and
policies with the same entries decide alike, those with more entries and fewer denied kinds allow no less. -/
theorem check_within (p : Policy) :
    (∀ access scope, access ≠ .netHttp → IsScope scope → p.check ⟨access, some scope⟩ = .ok () →
      access ∉ p.denied ∧ ∃ e ∈ p.entries access, e = "*" ∨ e = "**" ∨ e = "." ∨
        scope.toList = base e ∨ base e ++ ['/'] <+: scope.toList) ∧
    (∀ q : Policy, (∀ access e, e ∈ p.entries access ↔ e ∈ q.entries access) →
      (∀ access, access ∈ p.denied ↔ access ∈ q.denied) → ∀ r, p.check r = q.check r) ∧
    ∀ q : Policy, (∀ access, p.entries access ⊆ q.entries access) → q.denied ⊆ p.denied →
      ∀ r, p.check r = .ok () → q.check r = .ok () := by
  refine ⟨?_, fun q => check_congr, fun q more fewer r => check_mono more fewer⟩
  rintro access _ files ⟨parts, names, rfl⟩ allowed
  obtain ⟨free, e, member, covers⟩ := (check_path_eq_ok files).mp allowed
  refine ⟨free, e, member, ?_⟩
  exact ((patternCovers_scopeText names).mp covers).imp_right <| .imp_right <| .imp_right fun covers =>
    covers.within (getLast?_scopeText names)

/-- A policy with a pattern that has dots in front and a slash behind. -/
def starred : Policy := { fsRead := ["./data/**/", "notes/*"], denied := [.netHttp] }

theorem check_within_starred :
    starred.validate = .ok () ∧ IsScope "data/**/x" ∧ starred.check ⟨.fsRead, some "data/**/x"⟩ = .ok () ∧
      (∃ e ∈ starred.fsRead, e = "*" ∨ e = "**" ∨ e = "." ∨
        "data/**/x".toList = base e ∨ base e ++ ['/'] <+: "data/**/x".toList) ∧
      starred.check ⟨.fsRead, some "data/**/x"⟩ =
        { starred with fsRead := ["notes/*", "./data/**/", "notes/*"] }.check ⟨.fsRead, some "data/**/x"⟩ ∧
      { starred with fsRead := "more" :: starred.fsRead, denied := [] }.check ⟨.fsRead, some "data/**/x"⟩ = .ok () := by
  have allowed : starred.check ⟨.fsRead, some "data/**/x"⟩ = .ok () := rfl
  obtain ⟨within, congr, mono⟩ := check_within starred
  have scope : IsScope "data/**/x" := ⟨["data", "**", "x"], by decide, by decide⟩
  refine ⟨rfl, scope, allowed, (within .fsRead _ (by decide) scope allowed).2, congr _ ?_ ?_ _, mono _ ?_ ?_ _ allowed⟩
  · rintro (_ | _ | _) e <;> simp [entries, starred]
    tauto
  · exact fun _ => Iff.rfl
  · rintro (_ | _ | _) <;> simp [entries]
  · simp

/-! One star -/

/-- The names on the way to a directory, without the dots at its front. -/
def steps (directory : String) : List String := (Text.parts '/' directory).dropWhile (· = ".")

theorem splitOn_star (directory : String) :
    (dropDotSlash (directory ++ "/*").toList).splitOn '/' = (steps directory ++ ["*"]).map String.toList := by
  have whole : (directory ++ "/*").toList.splitOn '/' = (Text.parts '/' directory ++ ["*"]).map String.toList := by
    have chars : (directory ++ "/*").toList = directory.toList ++ '/' :: ['*'] := by simp
    rw [chars, Text.splitOn_append_single (by decide), List.map_append, Text.map_toList_parts]
    rfl
  have dot (name : String) : decide (name.toList = ['.']) = decide (name = ".") := by
    rw [decide_eq_decide, ← String.toList_inj]
    rfl
  rw [splitOn_dropDotSlash, whole, List.dropWhile_map]
  · simp only [Function.comp_def, dot]
    rw [steps, List.dropWhile_append]
    split
    · rename_i dots
      rw [List.isEmpty_iff.mp dots]
      rfl
    · rfl
  · rw [whole]
    simp

theorem covers_star_iff {directory : String} {path : List String} (single : ∀ name ∈ path, '/' ∉ name.toList)
    (split : cs.splitOn '/' = path.map String.toList) :
    Covers (dropDotSlash (directory ++ "/*").toList) cs ↔
      (steps directory ≠ [] ∧ ∃ name, path = steps directory ++ [name]) ∨ steps directory ++ ["*"] <+: path := by
  have parts := splitOn_star directory
  generalize dropDotSlash (directory ++ "/*").toList = pattern at parts
  generalize steps directory = above at parts
  have injective : Function.Injective String.toList := fun _ _ => String.toList_inj.mp
  have whole : dropTrailingSlashes pattern = pattern :=
    dropTrailingSlashes_of_last (Text.getLast?_ne_of_splitOn (by simp [parts]))
  have inside : (cs = pattern ∨ pattern ++ ['/'] <+: cs) ↔ above ++ ["*"] <+: path := by
    rw [← Text.splitOn_prefix_iff, parts, split, List.prefix_map_iff_of_injective injective]
  rw [List.map_append] at parts
  constructor
  · rintro (same | below | ⟨star, below, level⟩ | ⟨stars, _⟩)
    · exact .inr (inside.mp (.inl same))
    · exact .inr (inside.mp (.inr (whole ▸ below)))
    · rename_i front rest
      rw [star, Text.splitOn_append_single (by decide)] at parts
      rw [below, List.append_assoc, List.singleton_append, Text.splitOn_append_single level] at split
      have front := (List.append_inj' parts rfl).1
      refine .inl ⟨fun none => List.splitOn_ne_nil _ _ (front.trans (by rw [none]; rfl)), String.ofList rest, ?_⟩
      refine List.map_injective_iff.mpr injective ?_
      rw [← split, front, List.map_append, List.map_singleton, String.toList_ofList]
    · rename_i front
      rw [stars, Text.splitOn_append_single (by decide)] at parts
      simpa using (List.append_inj' parts rfl).2
  · rintro (⟨some, name, rfl⟩ | below)
    · rw [List.map_append] at split
      have front := Text.eq_of_splitOn parts (by simpa using some) (by simp)
      have path := Text.eq_of_splitOn split (by simpa using some) (by simp)
      exact .level front (by simpa using path) (single name (by simp))
    · rcases inside.mpr below with same | below
      · exact .self same
      · exact .inside (whole.symm ▸ below)

/-- The dot is no path below a directory. -/
theorem not_covers_star_dot (directory : String) : ¬ Covers (dropDotSlash (directory ++ "/*").toList) ['.'] := by
  have dot : ['.'].splitOn '/' = ["."].map String.toList := List.splitOn_eq_singleton (by decide)
  rw [covers_star_iff (by decide) dot]
  rintro (⟨some, name, same⟩ | ⟨rest, same⟩)
  · exact some (List.append_inj' (show [] ++ ["."] = _ from same) rfl).1.symm
  · rcases above : steps directory with _ | ⟨first, above⟩ <;> simp [above] at same

theorem patternCovers_star_iff {directory : String} (names : ∀ name ∈ parts, IsName name) :
    patternCovers (directory ++ "/*") (scopeText parts) = true ↔
      (steps directory ≠ [] ∧ ∃ name, parts = steps directory ++ [name]) ∨ steps directory ++ ["*"] <+: parts := by
  have other (pattern : String) (short : '/' ∉ pattern.toList) : directory ++ "/*" ≠ pattern := by
    rintro rfl
    simp at short
  simp only [patternCovers_scopeText names, other "*" (by decide), other "**" (by decide), other "." (by decide), false_or]
  by_cases none : parts = []
  · subst none
    refine iff_of_false (not_covers_star_dot directory) ?_
    simp
  · exact covers_star_iff (fun name member => (names name member).single) (by rw [splitOn_scopeText names, if_neg none])

/-- What a single entry that ends in one star allows: the children of its directory, and what lies below the child whose
name is a star, because the entry is read as a name too. So no more than one level is allowed, except below that child. -/
theorem check_star_iff {p : Policy} {access : Access} {directory : String} {parts : List String}
    (files : access ≠ .netHttp) (only : p.entries access = [directory ++ "/*"]) (names : ∀ name ∈ parts, IsName name) :
    (p.check ⟨access, some (scopeText parts)⟩ = .ok () ↔ access ∉ p.denied ∧
      ((steps directory ≠ [] ∧ ∃ name, parts = steps directory ++ [name]) ∨ steps directory ++ ["*"] <+: parts)) ∧
    ((p.check ⟨access, some (scopeText parts)⟩ = .ok () → ∃ name, parts = steps directory ++ [name]) ↔
      access ∈ p.denied ∨ ∀ name rest, parts ≠ steps directory ++ "*" :: name :: rest) := by
  have decision : p.check ⟨access, some (scopeText parts)⟩ = .ok () ↔ access ∉ p.denied ∧
      ((steps directory ≠ [] ∧ ∃ name, parts = steps directory ++ [name]) ∨ steps directory ++ ["*"] <+: parts) := by
    rw [check_path_eq_ok files, only, ← patternCovers_star_iff names]
    simp
  refine ⟨decision, ?_⟩
  rw [decision]
  by_cases denied : access ∈ p.denied
  · simp [denied]
  simp only [denied, not_false_eq_true, true_and, false_or]
  constructor
  · rintro level name rest rfl
    obtain ⟨last, same⟩ := level (.inr ⟨name :: rest, by simp⟩)
    simp at same
  · rintro notBelow (⟨_, level⟩ | ⟨rest, rfl⟩)
    · exact level
    · cases rest with
      | nil => exact ⟨"*", by simp⟩
      | cons name rest => exact absurd (by simp) (notBelow name rest)

theorem check_star_iff_out :
    ({ fsWrite := ["./out/*"] } : Policy).entries .fsWrite = ["./out" ++ "/*"] ∧
      (∀ name ∈ ["out", "*", "x"], IsName name) ∧ (∀ name ∈ ["out", "a", "x"], IsName name) ∧
      ({ fsWrite := ["./out/*"] } : Policy).check ⟨.fsWrite, some (scopeText ["out", "*", "x"])⟩ = .ok () ∧
      ¬ ({ fsWrite := ["./out/*"] } : Policy).check ⟨.fsWrite, some (scopeText ["out", "a", "x"])⟩ = .ok () := by
  have steps : steps "./out" = ["out"] := by decide +kernel
  have names : ∀ name ∈ ["out", "*", "x"], IsName name := by decide
  have names' : ∀ name ∈ ["out", "a", "x"], IsName name := by decide
  have only : ({ fsWrite := ["./out/*"] } : Policy).entries .fsWrite = ["./out" ++ "/*"] := rfl
  refine ⟨only, names, names', (check_star_iff (by decide) only names).1.mpr ?_, fun allowed => ?_⟩
  · exact ⟨by decide, .inr (by rw [steps]; exact ⟨["x"], rfl⟩)⟩
  · have inside := ((check_star_iff (by decide) only names').1.mp allowed).2
    rw [steps] at inside
    simp at inside

theorem check_star_below_star :
    IsScope "out/*/x" ∧ ({ fsWrite := ["out/*"] } : Policy).check ⟨.fsWrite, some "out/*/x"⟩ = .ok () ∧
      ¬ ∃ name : String, '/' ∉ name.toList ∧ "out/*/x" = "out" ++ "/" ++ name := by
  refine ⟨⟨["out", "*", "x"], by decide, by decide⟩, rfl, ?_⟩
  rintro ⟨name, single, same⟩
  have chars : ['*', '/', 'x'] = name.toList := by simpa using congrArg String.toList same
  simp [← chars] at single

end ScriptTools.Policy
