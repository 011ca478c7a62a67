import Mathlib.Data.List.TakeWhile
import Mathlib.Logic.Unique
import ScriptTools.Proofs.Policy.Paths

/-!
Which patterns can match at all. What is checked of a pattern keeps out no pattern that matches a path, but it lets through
patterns that match none: those with an empty part or a dot behind a name, and dots with a slash behind them.
-/

namespace ScriptTools.Policy

open Files (IsName IsScope scopeText)

/-- Whether a pattern names a path: names with slashes between them, dots in front and slashes behind, or dots alone. -/
def IsUsable (pattern : String) : Prop := ∃ dots names slashes,
  Text.parts '/' pattern = List.replicate dots "." ++ names ++ List.replicate slashes "" ∧ (∀ name ∈ names, IsName name) ∧
    (names = [] → slashes = 0)

variable {cs front : List Char} {pattern : String} {parts names : List String} {dots slashes : Nat}

/-! What is checked -/

/-- A loop that only checks ends well when every check does. -/
theorem forIn_eq_ok {α ε : Type} {as : List α} {good : α → Prop} {check : α → Unit → Except ε (ForInStep Unit)}
    (passes : ∀ a, good a → check a () = .ok (.yield ())) (fails : ∀ a, ¬ good a → ∃ e, check a () = .error e) :
    forIn as () check = .ok () ↔ ∀ a ∈ as, good a := by
  induction as with
  | nil => simp [pure, Except.pure]
  | cons a as ih =>
    rw [List.forIn_cons, List.forall_mem_cons, ← ih]
    by_cases here : good a
    · rw [passes a here, and_iff_right here]
      rfl
    · obtain ⟨e, failed⟩ := fails a here
      rw [failed]
      exact iff_of_false nofun fun both => here both.1

theorem validate_eq_ok {p : Policy} : p.validate = .ok () ↔
    (∀ e ∈ p.fsRead ++ p.fsWrite, e ≠ "" ∧ leadsOut e = false) ∧ "" ∉ p.netHttp := by
  rw [validate, bind_eq_ok, Unique.exists_iff]
  refine and_congr (forIn_eq_ok (fun e good => ?_) fun e bad => ?_) ?_
  · rw [if_neg good.1, if_neg (by simp [good.2])]
    rfl
  · by_cases empty : e = ""
    · exact ⟨_, by rw [if_pos empty]; rfl⟩
    · exact ⟨_, by rw [if_neg empty, if_pos (by simpa [empty] using bad)]; rfl⟩
  · by_cases empty : "" ∈ p.netHttp
    · simp [empty, throw, throwThe, MonadExceptOf.throw]
    · simp [empty, pure, Except.pure]

theorem leadsOut_eq_true : leadsOut pattern = true ↔
    (∃ rest, pattern.toList = '/' :: rest) ∨ ".." ∈ Text.parts '/' pattern := by
  rw [leadsOut, Bool.or_eq_true, beq_iff_eq, List.contains_iff_mem, List.head?_eq_some_iff]

/-- A pattern that names a path starts with a dot or a name. -/
theorem IsUsable.head?_parts (usable : IsUsable pattern) : (Text.parts '/' pattern).head? ≠ some "" := by
  obtain ⟨dots, names, slashes, split, each, none⟩ := usable
  rw [split]
  cases dots with
  | succ dots => simp [List.replicate_succ]
  | zero =>
    cases names with
    | nil => simp [none rfl]
    | cons name names => simpa using (each name (by simp)).nonempty

/-- No pattern that names a path is refused. -/
theorem IsUsable.valid (usable : IsUsable pattern) : pattern ≠ "" ∧ leadsOut pattern = false := by
  have first := usable.head?_parts
  constructor
  · rintro rfl
    exact first rfl
  · rw [← Bool.not_eq_true, leadsOut_eq_true]
    rintro (⟨rest, slash⟩ | up)
    · rw [Text.parts, slash, List.splitOn_cons_eq_if_modifyHead, if_pos (by simp)] at first
      exact first rfl
    · obtain ⟨dots, names, slashes, split, each, _⟩ := usable
      simp only [split, List.mem_append, List.mem_replicate] at up
      rcases up with (⟨_, dot⟩ | name) | ⟨_, empty⟩
      · exact absurd dot (by decide)
      · exact (each ".." name).notUp rfl
      · exact absurd empty (by decide)

/-! Dots in front and slashes behind -/

theorem exists_splitOn_dropDotSlash (cs : List Char) :
    ∃ dots, cs.splitOn '/' = List.replicate dots ['.'] ++ (dropDotSlash cs).splitOn '/' := by
  fun_induction dropDotSlash cs with
  | case1 rest ih =>
    obtain ⟨dots, split⟩ := ih
    exact ⟨dots + 1, by rw [splitOn_dotSlash, split, List.replicate_succ, List.cons_append]⟩
  | case2 cs => exact ⟨0, rfl⟩

theorem dropDotSlash_ne (cs rest : List Char) : dropDotSlash cs ≠ '.' :: '/' :: rest := by
  fun_induction dropDotSlash cs with
  | case1 _ ih => exact ih
  | case2 cs other => exact other rest

theorem splitOn_append_slashes (cs : List Char) (slashes : Nat) :
    (cs ++ List.replicate slashes '/').splitOn '/' = cs.splitOn '/' ++ List.replicate slashes [] := by
  induction slashes with
  | zero => simp
  | succ slashes ih =>
    rw [List.replicate_succ', ← List.append_assoc, Text.splitOn_append_single List.not_mem_nil, ih, List.append_assoc,
      ← List.replicate_succ']

theorem exists_eq_dropTrailingSlashes (cs : List Char) :
    ∃ slashes, cs = dropTrailingSlashes cs ++ List.replicate slashes '/' := by
  refine ⟨(cs.reverse.takeWhile (· == '/')).length, ?_⟩
  have same : cs.reverse.takeWhile (· == '/') = List.replicate (cs.reverse.takeWhile (· == '/')).length '/' :=
    List.eq_replicate_iff.mpr ⟨rfl, fun c member => by simpa using List.mem_takeWhile_imp member⟩
  have whole := congrArg List.reverse (List.takeWhile_append_dropWhile (p := (· == '/')) (l := cs.reverse))
  rw [List.reverse_append, same, List.reverse_replicate, List.reverse_reverse] at whole
  exact whole.symm

theorem dropTrailingSlashes_append (last : cs.getLast? ≠ some '/') (slashes : Nat) :
    dropTrailingSlashes (cs ++ List.replicate slashes '/') = cs := by
  have whole := dropTrailingSlashes_of_last last
  rw [dropTrailingSlashes] at whole ⊢
  rw [List.reverse_append, List.reverse_replicate, List.dropWhile_append_of_pos (by simp), whole]

/-! What a pattern that matches looks like -/

theorem isUsable_iff : IsUsable pattern ↔ ∃ dots names slashes,
    pattern.toList.splitOn '/' = List.replicate dots ['.'] ++ (names.map String.toList ++ List.replicate slashes []) ∧
      (∀ name ∈ names, IsName name) ∧ (names = [] → slashes = 0) := by
  have chars (dots : Nat) (names : List String) (slashes : Nat) :
      List.replicate dots ['.'] ++ (names.map String.toList ++ List.replicate slashes []) =
        (List.replicate dots "." ++ names ++ List.replicate slashes "").map String.toList := by
    simp
  have injective : Function.Injective String.toList := fun _ _ => String.toList_inj.mp
  simp only [IsUsable, chars, ← Text.map_toList_parts, (List.map_injective_iff.mpr injective).eq_iff]

theorem isName_of_mem_append {name : String} (each : ∀ name ∈ names, IsName name) (last : IsName name) :
    ∀ n ∈ names ++ [name], IsName n := by
  intro n member
  rcases List.mem_append.mp member with member | member
  · exact each n member
  · exact List.mem_singleton.mp member ▸ last

theorem isUsable_of_splitOn (each : ∀ name ∈ names, IsName name) (some : names ≠ []) (slashes : Nat)
    (split : (dropDotSlash pattern.toList).splitOn '/' = names.map String.toList ++ List.replicate slashes []) :
    IsUsable pattern := by
  obtain ⟨dots, whole⟩ := exists_splitOn_dropDotSlash pattern.toList
  exact isUsable_iff.mpr ⟨dots, names, slashes, by rw [whole, split], each, fun none => absurd none some⟩

theorem isUsable_of_dot (dot : dropDotSlash pattern.toList = ['.']) : IsUsable pattern := by
  obtain ⟨dots, whole⟩ := exists_splitOn_dropDotSlash pattern.toList
  refine isUsable_iff.mpr ⟨dots + 1, [], 0, ?_, by simp, fun _ => rfl⟩
  rw [whole, dot, List.splitOn_eq_singleton (by decide), List.replicate_succ']
  simp

theorem isUsable_of_stars (each : ∀ name ∈ names, IsName name) (split : front.splitOn '/' = names.map String.toList)
    (stars : dropDotSlash pattern.toList = front ++ '/' :: ['*'] ∨ dropDotSlash pattern.toList = front ++ '/' :: ['*', '*']) :
    IsUsable pattern := by
  have more (star : String) (isName : IsName star) (stars : dropDotSlash pattern.toList = front ++ '/' :: star.toList) :
      IsUsable pattern := by
    refine isUsable_of_splitOn (isName_of_mem_append each isName) (by simp) 0 ?_
    rw [stars, Text.splitOn_append_single isName.single, split]
    simp
  rcases stars with star | stars
  · exact more "*" (by decide) star
  · exact more "**" (by decide) stars

/-- What stands at the front of a path, up to a slash, are names. -/
theorem exists_names_of_prefix (each : ∀ name ∈ parts, IsName name) (front : List Char)
    (below : front ++ ['/'] <+: (scopeText parts).toList) :
    ∃ names, names ≠ [] ∧ (∀ name ∈ names, IsName name) ∧ front.splitOn '/' = names.map String.toList := by
  have start : front.splitOn '/' <+: (scopeText parts).toList.splitOn '/' := Text.splitOn_prefix_iff.mpr (.inr below)
  rw [splitOn_scopeText each] at start
  split at start
  · rename_i none
    have slash : '/' ∈ (scopeText parts).toList := below.subset (by simp)
    rw [none] at slash
    exact absurd slash (by decide)
  · obtain ⟨names, start, split⟩ := List.prefix_map_iff.mp start
    refine ⟨names, ?_, fun name member => each name (start.subset member), split⟩
    rintro rfl
    exact List.splitOn_ne_nil _ _ split

/-- A pattern that covers a path is usable. -/
theorem isUsable_of_covers (each : ∀ name ∈ parts, IsName name)
    (covers : Covers (dropDotSlash pattern.toList) (scopeText parts).toList) : IsUsable pattern := by
  cases covers with
  | self same =>
    by_cases none : parts = []
    · exact isUsable_of_dot (same.symm.trans (by rw [none]; rfl))
    · refine isUsable_of_splitOn each none 0 ?_
      rw [← same, splitOn_scopeText each, if_neg none, List.replicate_zero, List.append_nil]
  | inside below =>
    obtain ⟨slashes, whole⟩ := exists_eq_dropTrailingSlashes (dropDotSlash pattern.toList)
    obtain ⟨names, some, each, split⟩ := exists_names_of_prefix each _ below
    exact isUsable_of_splitOn each some slashes (by rw [whole, splitOn_append_slashes, split])
  | level star below =>
    obtain ⟨names, some, each, split⟩ := exists_names_of_prefix each _ ⟨_, below.symm⟩
    exact isUsable_of_stars each split (.inl star)
  | @tree front stars below =>
    rcases below with same | below
    · by_cases none : parts = []
      · obtain rfl : front = ['.'] := same.symm.trans (by rw [none]; rfl)
        exact (dropDotSlash_ne _ _ stars).elim
      · exact isUsable_of_stars each (by rw [← same, splitOn_scopeText each, if_neg none]) (.inr stars)
    · obtain ⟨names, some, each, split⟩ := exists_names_of_prefix each _ below
      exact isUsable_of_stars each split (.inr stars)

/-! What a usable pattern matches -/

/-- Of dots with slashes between them one is left. -/
theorem dropDotSlash_of_dots (split : cs.splitOn '/' = List.replicate dots ['.']) : dropDotSlash cs = ['.'] := by
  obtain ⟨dropped, whole⟩ := exists_splitOn_dropDotSlash cs
  obtain ⟨part, rest, left⟩ := List.exists_cons_of_ne_nil (List.splitOn_ne_nil '/' (dropDotSlash cs))
  obtain rfl : part = ['.'] := by
    refine List.eq_of_mem_replicate (n := dots) ?_
    rw [← split, whole, left]
    simp
  have front : ['.'].splitOn '/' <+: (dropDotSlash cs).splitOn '/' := by
    rw [left, List.splitOn_eq_singleton (by decide)]
    exact ⟨rest, rfl⟩
  rcases Text.splitOn_prefix_iff.mp front with same | ⟨rest, more⟩
  · exact same
  · exact (dropDotSlash_ne cs rest more.symm).elim

/-- The paths below a path start with it and a slash. -/
theorem prefix_scopeText_append {name : String} (each : ∀ name ∈ names, IsName name) (last : IsName name)
    (some : names ≠ []) : (scopeText names).toList ++ ['/'] <+: (scopeText (names ++ [name])).toList := by
  have upper := splitOn_scopeText each
  have lower := splitOn_scopeText (isName_of_mem_append each last)
  rw [if_neg some] at upper
  rw [if_neg (by simp), List.map_append, ← upper] at lower
  refine ⟨['/'].intercalate ([name].map String.toList), ?_⟩
  rw [Text.eq_of_splitOn lower (List.splitOn_ne_nil _ _) (by simp), List.intercalate_splitOn, List.append_assoc,
    List.singleton_append]

/-- What stands behind the dots is left of a path without them. -/
theorem splitOn_dropDotSlash_of_split {parts : List (List Char)}
    (split : cs.splitOn '/' = List.replicate dots ['.'] ++ parts) (notDot : ['.'] ∉ parts) (some : parts ≠ []) :
    (dropDotSlash cs).splitOn '/' = parts := by
  rw [splitOn_dropDotSlash, split, List.dropWhile_append_of_pos (by simp)]
  · refine List.dropWhile_eq_self_iff.mpr fun long dot => notDot ?_
    rw [← of_decide_eq_true dot]
    exact List.getElem_mem long
  · rw [split, List.getLast?_append_of_ne_nil _ some]
    exact fun dot => notDot (List.mem_of_getLast? dot)

/-- The dot, or what lies below the names, is a path that a usable pattern covers. -/
theorem IsUsable.covers (usable : IsUsable pattern) :
    ∃ parts, (∀ name ∈ parts, IsName name) ∧ Covers (dropDotSlash pattern.toList) (scopeText parts).toList := by
  obtain ⟨dots, names, slashes, split, each, none⟩ := isUsable_iff.mp usable
  rcases eq_or_ne names [] with rfl | some
  · rw [none rfl, List.map_nil, List.nil_append, List.replicate_zero, List.append_nil] at split
    exact ⟨[], by simp, .self (dropDotSlash_of_dots split).symm⟩
  · have notDot : ['.'] ∉ names.map String.toList ++ List.replicate slashes [] := by
      intro dot
      rcases List.mem_append.mp dot with member | member
      · obtain ⟨name, member, dot⟩ := List.mem_map.mp member
        exact (each name member).notDot (String.toList_inj.mp dot)
      · exact absurd (List.eq_of_mem_replicate member) (by decide)
    have whole : dropDotSlash pattern.toList = (scopeText names).toList ++ List.replicate slashes '/' := by
      rw [← Text.splitOn_inj, splitOn_dropDotSlash_of_split split notDot (by simp [some]), splitOn_append_slashes,
        splitOn_scopeText each, if_neg some]
    refine ⟨names ++ ["x"], isName_of_mem_append each (by decide), .inside ?_⟩
    rw [whole, dropTrailingSlashes_append (getLast?_scopeText each)]
    exact prefix_scopeText_append each (by decide) some

/-! Decisions -/

/-- A policy with a single pattern allows some path exactly when the pattern names one. -/
theorem exists_check_eq_ok_iff {p : Policy} {access : Access} (files : access ≠ .netHttp)
    (only : p.entries access = [pattern]) (free : access ∉ p.denied) :
    (∃ scope, IsScope scope ∧ p.check ⟨access, some scope⟩ = .ok ()) ↔ IsUsable pattern := by
  have decision (scope : String) : p.check ⟨access, some scope⟩ = .ok () ↔ patternCovers pattern scope = true := by
    rw [check_path_eq_ok files, only]
    simp [free]
  simp only [decision]
  constructor
  · rintro ⟨_, ⟨parts, each, rfl⟩, covers⟩
    rcases (patternCovers_scopeText each).mp covers with rfl | rfl | rfl | covers
    · exact ⟨0, ["*"], 0, by decide, by decide, by simp⟩
    · exact ⟨0, ["**"], 0, by decide, by decide, by simp⟩
    · exact ⟨1, [], 0, by decide, by simp, fun _ => rfl⟩
    · exact isUsable_of_covers each covers
  · intro usable
    obtain ⟨parts, each, covers⟩ := usable.covers
    exact ⟨_, ⟨parts, each, rfl⟩, (patternCovers_scopeText each).mpr (.inr (.inr (.inr covers)))⟩

/-- What is checked of a policy with a single pattern, and what it allows: the check keeps out what is empty, starts at the
root or goes up, and never a pattern that matches a path, but a pattern that matches none may pass it. -/
theorem validate_single (pattern : String) :
    (({ fsRead := [pattern] } : Policy).validate = .ok () ↔ pattern ≠ "" ∧ leadsOut pattern = false) ∧
    ((∃ scope, IsScope scope ∧ ({ fsRead := [pattern] } : Policy).check ⟨.fsRead, some scope⟩ = .ok ()) ↔
      IsUsable pattern) ∧
    (IsUsable pattern → ({ fsRead := [pattern] } : Policy).validate = .ok ()) := by
  have checked : ({ fsRead := [pattern] } : Policy).validate = .ok () ↔ pattern ≠ "" ∧ leadsOut pattern = false := by
    rw [validate_eq_ok]
    simp
  exact ⟨checked, exists_check_eq_ok_iff (by decide) rfl (by simp), fun usable => checked.mpr usable.valid⟩

/-- A slash too many between two names: the pattern passes the check, and no path is allowed by it. -/
theorem validate_doubled :
    ({ fsRead := ["a//b"] } : Policy).validate = .ok () ∧
      ¬ ∃ scope, IsScope scope ∧ ({ fsRead := ["a//b"] } : Policy).check ⟨.fsRead, some scope⟩ = .ok () := by
  refine ⟨rfl, fun allowed => ?_⟩
  obtain ⟨dots, names, slashes, split, each, none⟩ := (exists_check_eq_ok_iff (by decide) rfl (by simp)).mp allowed
  have parts : Text.parts '/' "a//b" = ["a", "", "b"] := by decide
  rw [parts] at split
  obtain rfl : dots = 0 := by
    cases dots with
    | zero => rfl
    | succ dots => simp [List.replicate_succ] at split
  obtain rfl : slashes = 0 := by
    cases slashes with
    | zero => rfl
    | succ slashes =>
      have last := congrArg List.getLast? split
      simp [List.replicate_succ'] at last
  obtain rfl : ["a", "", "b"] = names := by simpa using split
  exact (each "" (by decide)).nonempty rfl

end ScriptTools.Policy
