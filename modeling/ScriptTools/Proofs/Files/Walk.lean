import Mathlib.Data.List.Induction
import Mathlib.Logic.Basic
import ScriptTools.Files.Disk

/-!
Where walks lead. A walk to a place that is there can be taken in two parts, does not mind what is added
elsewhere, and goes straight where no link stands in its way.
-/

namespace ScriptTools.Files.Disk

/-! Paths that calls accept -/

theorem checkPath_eq_ok {p : Path} :
    checkPath p = .ok () ↔ (∀ name ∈ p, '\x00' ∉ name.toList) ∧
      p.foldl (fun n name => n + name.utf8ByteSize + 1) 0 ≤ pathLimit := by
  unfold checkPath
  split
  · rename_i zero
    simp only [List.any_eq_true, List.contains_iff_mem] at zero
    obtain ⟨name, member, found⟩ := zero
    simp only [reduceCtorEq, false_iff, not_and]
    exact fun none => absurd found (none name member)
  · rename_i zero
    have none : ∀ name ∈ p, '\x00' ∉ name.toList := by simpa using zero
    split
    · rename_i long
      simp only [reduceCtorEq, false_iff, not_and]
      exact fun _ => Nat.not_le.mpr long
    · rename_i short
      exact ⟨fun _ => ⟨none, Nat.not_lt.mp short⟩, fun _ => rfl⟩

theorem le_foldl_length (p : Path) (n : Nat) :
    n ≤ p.foldl (fun n name => n + name.utf8ByteSize + 1) n := by
  induction p generalizing n with
  | nil => exact Nat.le_refl n
  | cons name rest ih =>
    have grown : n ≤ n + name.utf8ByteSize + 1 := by omega
    exact Nat.le_trans grown (ih _)

theorem checkPath_of_append {front : Path} (back : Path) (ok : checkPath (front ++ back) = .ok ()) :
    checkPath front = .ok () := by
  rw [checkPath_eq_ok] at ok ⊢
  refine ⟨fun name member => ok.1 name (List.mem_append_left _ member), ?_⟩
  have whole := ok.2
  rw [List.foldl_append] at whole
  exact Nat.le_trans (le_foldl_length back _) whole

/-! Steps of a walk -/

variable {d : Disk} {follow : Bool} {links : Nat} {at_ place : Path} {name : String}
  {rest : List String}

theorem walkFrom_dot (inDir : d.get? at_ = some .dir) :
    d.walkFrom follow links at_ ("." :: rest) = d.walkFrom follow links at_ rest := by
  rw [walkFrom]
  simp only [inDir, if_true]

theorem walkFrom_up (inDir : d.get? at_ = some .dir) :
    d.walkFrom follow links at_ (".." :: rest) = d.walkFrom follow links at_.dropLast rest := by
  rw [walkFrom]
  simp [inDir]

/-- A name that a step can take: it means nothing but itself and is not too long. -/
structure IsStep (name : String) : Prop where
  notDot : name ≠ "."
  notUp : name ≠ ".."
  short : name.utf8ByteSize ≤ nameLimit

theorem walkFrom_node {n : Node} (inDir : d.get? at_ = some .dir) (step : IsStep name)
    (found : d.get? (at_ ++ [name]) = some n) (noLink : ∀ target, n ≠ .link target) :
    d.walkFrom follow links at_ (name :: rest) = d.walkFrom follow links (at_ ++ [name]) rest := by
  rw [walkFrom]
  have short := Nat.not_lt.mpr step.short
  cases n with
  | link target => exact absurd rfl (noLink target)
  | _ => simp only [inDir, step.notDot, step.notUp, short, found, if_false]

theorem walkFrom_link {target : String} (inDir : d.get? at_ = some .dir) (step : IsStep name)
    (found : d.get? (at_ ++ [name]) = some (.link target)) (goesOn : rest ≠ [] ∨ follow = true) :
    d.walkFrom follow (links + 1) at_ (name :: rest) =
      d.walkFrom follow links (if isAbsolute target then [] else at_) (steps target ++ rest) := by
  have more : (rest.isEmpty && !follow) = false := by
    rcases goesOn with more | more
    · simp [more]
    · simp [more]
  rw [walkFrom]
  have short := Nat.not_lt.mpr step.short
  simp only [inDir, step.notDot, step.notUp, short, found, more, if_false, Bool.false_eq_true]

/-- The walks that succeed, step by step. -/
inductive Leads (d : Disk) (follow : Bool) : Nat → Path → List String → Path → Prop
  | here {links : Nat} {at_ : Path} : Leads d follow links at_ [] at_
  | dot {links : Nat} {at_ place : Path} {rest : List String} : d.get? at_ = some .dir →
      Leads d follow links at_ rest place → Leads d follow links at_ ("." :: rest) place
  | up {links : Nat} {at_ place : Path} {rest : List String} : d.get? at_ = some .dir →
      Leads d follow links at_.dropLast rest place → Leads d follow links at_ (".." :: rest) place
  | node {links : Nat} {at_ place : Path} {name : String} {rest : List String} {n : Node} :
      d.get? at_ = some .dir → IsStep name → d.get? (at_ ++ [name]) = some n →
      (∀ target, n ≠ .link target) → Leads d follow links (at_ ++ [name]) rest place →
      Leads d follow links at_ (name :: rest) place
  | link {links : Nat} {at_ place : Path} {name target : String} {rest : List String} :
      d.get? at_ = some .dir → IsStep name → d.get? (at_ ++ [name]) = some (.link target) →
      rest ≠ [] ∨ follow = true →
      Leads d follow links (if isAbsolute target then [] else at_) (steps target ++ rest) place →
      Leads d follow (links + 1) at_ (name :: rest) place
  | stop {links : Nat} {at_ : Path} {name target : String} : d.get? at_ = some .dir → IsStep name →
      d.get? (at_ ++ [name]) = some (.link target) → follow = false →
      Leads d follow links at_ [name] (at_ ++ [name])
  | fresh {links : Nat} {at_ : Path} {name : String} : d.get? at_ = some .dir → IsStep name →
      d.get? (at_ ++ [name]) = none → Leads d follow links at_ [name] (at_ ++ [name])

theorem leads_of_walkFrom (run : d.walkFrom follow links at_ rest = .ok place) :
    d.Leads follow links at_ rest place := by
  fun_induction walkFrom d follow links at_ rest with
  | case1 => cases run; exact .here
  | case2 links at_ rest inDir ih => exact .dot inDir (ih run)
  | case3 links at_ rest inDir notDot ih => exact .up inDir (ih run)
  | case4 => cases run
  | case5 links at_ name rest inDir notDot notUp short target found last =>
    cases run
    simp only [Bool.and_eq_true, List.isEmpty_iff, Bool.not_eq_true'] at last
    obtain ⟨rfl, notFollowed⟩ := last
    exact .stop inDir ⟨notDot, notUp, Nat.not_lt.mp short⟩ found notFollowed
  | case6 => cases run
  | case7 at_ name rest inDir notDot notUp short target found more links ih =>
    refine .link inDir ⟨notDot, notUp, Nat.not_lt.mp short⟩ found ?_ (ih run)
    simpa only [Bool.and_eq_true, List.isEmpty_iff, Bool.not_eq_true', not_and_or, Bool.not_eq_false,
      ne_eq] using more
  | case8 links at_ name rest inDir notDot notUp short n noLink found ih =>
    exact .node inDir ⟨notDot, notUp, Nat.not_lt.mp short⟩ found noLink (ih run)
  | case9 links at_ name rest inDir notDot notUp short found last =>
    cases run
    obtain rfl := List.isEmpty_iff.mp last
    exact .fresh inDir ⟨notDot, notUp, Nat.not_lt.mp short⟩ found
  | case10 => cases run
  | case11 => cases run
  | case12 => cases run

theorem Leads.walkFrom (leads : d.Leads follow links at_ rest place) :
    d.walkFrom follow links at_ rest = .ok place := by
  induction leads with
  | here => rw [Disk.walkFrom]
  | dot inDir _ ih => rw [walkFrom_dot inDir, ih]
  | up inDir _ ih => rw [walkFrom_up inDir, ih]
  | node inDir step found noLink _ ih => rw [walkFrom_node inDir step found noLink, ih]
  | link inDir step found goesOn _ ih => rw [walkFrom_link inDir step found goesOn, ih]
  | stop inDir step found notFollowed =>
    have short := Nat.not_lt.mpr step.short
    rw [Disk.walkFrom]
    simp [inDir, step.notDot, step.notUp, short, found, notFollowed]
  | fresh inDir step found =>
    have short := Nat.not_lt.mpr step.short
    rw [Disk.walkFrom]
    simp [inDir, step.notDot, step.notUp, short, found]

theorem walkFrom_eq_ok :
    d.walkFrom follow links at_ rest = .ok place ↔ d.Leads follow links at_ rest place :=
  ⟨leads_of_walkFrom, Leads.walkFrom⟩

/-! Walks in parts -/

/-- A walk to a place that is there can be gone on with: the further steps are those of a walk from that
place, with the links that are left. -/
theorem Leads.append {front : List String} (leads : d.Leads true links at_ front place)
    (there : (d.get? place).isSome) :
    ∃ left, ∀ follow rest, rest ≠ [] →
      d.walkFrom follow links at_ (front ++ rest) = d.walkFrom follow left place rest := by
  induction leads with
  | @here links at_ => exact ⟨links, fun _ _ _ => rfl⟩
  | dot inDir _ ih =>
    obtain ⟨left, same⟩ := ih there
    exact ⟨left, fun follow rest more => by rw [List.cons_append, walkFrom_dot inDir, same follow rest more]⟩
  | up inDir _ ih =>
    obtain ⟨left, same⟩ := ih there
    exact ⟨left, fun follow rest more => by rw [List.cons_append, walkFrom_up inDir, same follow rest more]⟩
  | node inDir step found noLink _ ih =>
    obtain ⟨left, same⟩ := ih there
    refine ⟨left, fun follow rest more => ?_⟩
    rw [List.cons_append, walkFrom_node inDir step found noLink, same follow rest more]
  | @link links at_ place name target rest' inDir step found _ _ ih =>
    obtain ⟨left, same⟩ := ih there
    refine ⟨left, fun follow rest more => ?_⟩
    have goesOn := List.append_ne_nil_of_right_ne_nil rest' more
    rw [List.cons_append, walkFrom_link inDir step found (.inl goesOn), ← List.append_assoc,
      same follow rest more]
  | stop _ _ _ notFollowed => cases notFollowed
  | fresh _ _ absent => simp [absent] at there

/-- All but the last step of a walk lead to a directory. -/
theorem Leads.parent {front : List String}
    (leads : d.Leads follow links at_ (front ++ [name]) place) :
    ∃ mid, d.Leads true links at_ front mid ∧ d.get? mid = some .dir := by
  generalize whole : front ++ [name] = names at leads
  induction leads generalizing front with
  | here => simp at whole
  | @dot links at_ place rest inDir leads ih =>
    cases front with
    | nil => exact ⟨at_, .here, inDir⟩
    | cons first front =>
      obtain ⟨rfl, same⟩ := List.cons.inj whole
      obtain ⟨mid, before, atDir⟩ := ih same
      exact ⟨mid, .dot inDir before, atDir⟩
  | @up links at_ place rest inDir leads ih =>
    cases front with
    | nil => exact ⟨at_, .here, inDir⟩
    | cons first front =>
      obtain ⟨rfl, same⟩ := List.cons.inj whole
      obtain ⟨mid, before, atDir⟩ := ih same
      exact ⟨mid, .up inDir before, atDir⟩
  | @node links at_ place name' rest n inDir step found noLink leads ih =>
    cases front with
    | nil => exact ⟨at_, .here, inDir⟩
    | cons first front =>
      obtain ⟨rfl, same⟩ := List.cons.inj whole
      obtain ⟨mid, before, atDir⟩ := ih same
      exact ⟨mid, .node inDir step found noLink before, atDir⟩
  | @link links at_ place name' target rest inDir step found goesOn leads ih =>
    cases front with
    | nil => exact ⟨at_, .here, inDir⟩
    | cons first front =>
      obtain ⟨rfl, same⟩ := List.cons.inj whole
      obtain ⟨mid, before, atDir⟩ := @ih (steps target ++ front) (by simp [← same])
      exact ⟨mid, .link inDir step found (.inr rfl) before, atDir⟩
  | @stop links at_ name' target inDir step found notFollowed =>
    cases front with
    | nil => exact ⟨at_, .here, inDir⟩
    | cons first front => simp at whole
  | @fresh links at_ name' inDir step absent =>
    cases front with
    | nil => exact ⟨at_, .here, inDir⟩
    | cons first front => simp at whole

/-- Every front part of a path that is there is there. -/
theorem Leads.front_there {front : List String} (back : List String)
    (leads : d.Leads true links at_ (front ++ back) place) (there : (d.get? place).isSome) :
    ∃ mid, d.Leads true links at_ front mid ∧ (d.get? mid).isSome := by
  induction back using List.reverseRecOn generalizing place with
  | nil => exact ⟨place, by simpa using leads, there⟩
  | append_singleton back name ih =>
    rw [← List.append_assoc] at leads
    obtain ⟨mid, before, inDir⟩ := leads.parent
    exact ih before (by simp [inDir])

/-- What a path leads to through all links is there for a walk that stops at the last one: itself, or
the link that leads there. -/
theorem Leads.unfollowed (leads : d.Leads true links at_ rest place) (there : (d.get? place).isSome) :
    ∃ stop, d.Leads false links at_ rest stop ∧
      (stop = place ∨ ∃ target, d.get? stop = some (.link target)) := by
  induction leads with
  | here => exact ⟨_, .here, .inl rfl⟩
  | dot inDir _ ih =>
    obtain ⟨stop, leads, same⟩ := ih there
    exact ⟨stop, .dot inDir leads, same⟩
  | up inDir _ ih =>
    obtain ⟨stop, leads, same⟩ := ih there
    exact ⟨stop, .up inDir leads, same⟩
  | node inDir step found noLink _ ih =>
    obtain ⟨stop, leads, same⟩ := ih there
    exact ⟨stop, .node inDir step found noLink leads, same⟩
  | @link links at_ place name target rest inDir step found _ _ ih =>
    cases rest with
    | nil => exact ⟨_, .stop inDir step found rfl, .inr ⟨target, found⟩⟩
    | cons next rest =>
      obtain ⟨stop, leads, same⟩ := ih there
      exact ⟨stop, .link inDir step found (.inl (List.cons_ne_nil _ _)) leads, same⟩
  | stop _ _ _ notFollowed => cases notFollowed
  | fresh _ _ absent => simp [absent] at there

/-- A walk that stops at no link leads to the same place when links are followed. -/
theorem Leads.followed {n : Node} (leads : d.Leads false links at_ rest place)
    (there : d.get? place = some n) (noLink : ∀ target, n ≠ .link target) :
    d.Leads true links at_ rest place := by
  induction leads with
  | here => exact .here
  | dot inDir _ ih => exact .dot inDir (ih there)
  | up inDir _ ih => exact .up inDir (ih there)
  | node inDir step found other _ ih => exact .node inDir step found other (ih there)
  | link inDir step found _ _ ih => exact .link inDir step found (.inr rfl) (ih there)
  | @stop links at_ name target _ _ found _ =>
    exact absurd (Option.some.inj (there.symm.trans found)) (noLink target)
  | fresh _ _ absent => simp [absent] at there

/-- A disk that has everything that another one has. -/
def Extends (d' d : Disk) : Prop := ∀ p n, d.get? p = some n → d'.get? p = some n

/-- A disk that has everything that another one has, up to what is in files. -/
def Retains (d' d : Disk) : Prop :=
  ∀ p n, d.get? p = some n → d'.get? p = some n ∨ ∃ old new, n = .file old ∧ d'.get? p = some (.file new)

theorem Extends.retains {d' : Disk} (more : d'.Extends d) : d'.Retains d := fun p n found => .inl (more p n found)

theorem Retains.of_noFile {d' : Disk} {p : Path} {n : Node} (kept : d'.Retains d) (found : d.get? p = some n)
    (noFile : ∀ old, n ≠ .file old) : d'.get? p = some n := by
  rcases kept p n found with same | ⟨old, _, rfl, _⟩
  · exact same
  · exact absurd rfl (noFile old)

/-- A walk to a place that is there does not mind what is added elsewhere and what is in files. -/
theorem Leads.retain {d' : Disk} (leads : d.Leads follow links at_ rest place)
    (there : (d.get? place).isSome) (kept : d'.Retains d) : d'.Leads follow links at_ rest place := by
  induction leads with
  | here => exact .here
  | dot inDir _ ih => exact .dot (kept.of_noFile inDir (by simp)) (ih there)
  | up inDir _ ih => exact .up (kept.of_noFile inDir (by simp)) (ih there)
  | node inDir step found noLink _ ih =>
    have inDir := kept.of_noFile inDir (by simp)
    rcases kept _ _ found with same | ⟨_, _, _, now⟩
    · exact .node inDir step same noLink (ih there)
    · exact .node inDir step now (by simp) (ih there)
  | link inDir step found goesOn _ ih =>
    exact .link (kept.of_noFile inDir (by simp)) step (kept.of_noFile found (by simp)) goesOn (ih there)
  | stop inDir step found notFollowed =>
    exact .stop (kept.of_noFile inDir (by simp)) step (kept.of_noFile found (by simp)) notFollowed
  | fresh _ _ absent => simp [absent] at there

theorem Leads.extend {d' : Disk} (leads : d.Leads follow links at_ rest place)
    (there : (d.get? place).isSome) (more : d'.Extends d) : d'.Leads follow links at_ rest place :=
  leads.retain there more.retains

/-- A walk in which every name stands for itself and no link stands leads straight down. -/
theorem Leads.straight (leads : d.Leads follow links at_ rest place)
    (plain : ∀ name ∈ rest, name ≠ "." ∧ name ≠ "..")
    (noLink : ∀ front, front ≠ [] → front <+: rest → ∀ target, d.get? (at_ ++ front) ≠ some (.link target)) :
    place = at_ ++ rest := by
  induction leads with
  | here => simp
  | dot => exact absurd rfl (plain "." (List.mem_cons_self ..)).1
  | up => exact absurd rfl (plain ".." (List.mem_cons_self ..)).2
  | @node links at_ place name rest n inDir step found other _ ih =>
    have later := ih (fun name member => plain name (List.mem_cons_of_mem _ member)) (by
      intro front more within target
      have := noLink (name :: front) (List.cons_ne_nil _ _) (List.cons_prefix_cons.mpr ⟨rfl, within⟩) target
      simpa using this)
    simpa using later
  | @link links at_ place name target rest inDir step found =>
    exact absurd found (noLink [name] (List.cons_ne_nil _ _) (by simp) target)
  | stop => rfl
  | fresh => rfl

end ScriptTools.Files.Disk
