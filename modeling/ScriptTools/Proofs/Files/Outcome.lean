import ScriptTools.Proofs.Files.Making

/-!
How the making of directories ends along a path that is there up to some place. It makes nothing when the system
does not take the path, or no step can take the first name of the rest. Otherwise it goes down to the first name that no
step can take, and what was made stays.
-/

namespace ScriptTools.Files.Disk

variable {d d' : Disk} {p at_ place : Path} {front back q rest : List String} {name first : String}
  {follow : Bool} {links : Nat} {e : DiskError}

/-- Whatever a walk takes by its name is a step. -/
theorem Leads.isStep (leads : d.Leads follow links at_ rest place) (member : name ∈ rest)
    (plain : name ≠ "." ∧ name ≠ "..") : IsStep name := by
  induction leads with
  | here => cases member
  | dot _ _ ih => exact ih ((List.mem_cons.mp member).resolve_left plain.1)
  | up _ _ ih => exact ih ((List.mem_cons.mp member).resolve_left plain.2)
  | node _ step _ _ _ ih =>
    rcases List.mem_cons.mp member with rfl | later
    · exact step
    · exact ih later
  | link _ step _ _ _ ih =>
    rcases List.mem_cons.mp member with rfl | later
    · exact step
    · exact ih (List.mem_append_right _ later)
  | stop _ step =>
    obtain rfl := List.mem_singleton.mp member
    exact step
  | fresh _ step =>
    obtain rfl := List.mem_singleton.mp member
    exact step

/-! Steps that a walk cannot take -/

theorem walkFrom_of_ne_dir {n : Node} (found : d.get? at_ = some n) (notDir : n ≠ .dir) :
    d.walkFrom follow links at_ (name :: rest) = .error .notDirectory := by
  rw [walkFrom]
  cases n with
  | dir => exact absurd rfl notDir
  | _ => simp only [found]

theorem walkFrom_of_not_isStep (inDir : d.get? at_ = some .dir) (plain : name ≠ "." ∧ name ≠ "..")
    (noStep : ¬ IsStep name) : d.walkFrom follow links at_ (name :: rest) = .error .nameTooLong := by
  have long : nameLimit < name.utf8ByteSize := by
    by_contra short
    exact noStep ⟨plain.1, plain.2, Nat.not_lt.mp short⟩
  rw [walkFrom]
  simp only [inDir, plain.1, plain.2, long, if_true, if_false]

theorem walkFrom_of_absent (inDir : d.get? at_ = some .dir) (step : IsStep name)
    (absent : d.get? (at_ ++ [name]) = none) (more : rest ≠ []) :
    d.walkFrom follow links at_ (name :: rest) = .error .missing := by
  have short := Nat.not_lt.mpr step.short
  rw [walkFrom]
  simp [inDir, step.notDot, step.notUp, short, absent, more]

theorem ne_missing_of_checkPath (failed : checkPath p = .error e) : e ≠ .missing := by
  unfold checkPath at failed
  split at failed
  · cases failed
    simp
  · split at failed
    · cases failed
      simp
    · cases failed

/-! Making directories -/

theorem makeDir_of_walk_error (failed : d.walk false p = .error e) : d.makeDir p = .error e := by
  rw [makeDir, failed]
  rfl

theorem makeDirs_concat (d : Disk) (p : Path) (name : String) :
    d.makeDirs (p ++ [name]) =
      match d.makeDir (p ++ [name]) with
      | .ok d => (d, .ok ())
      | .error .missing =>
        match d.makeDirs p with
        | (d, .error e) => (d, .error e)
        | (d, .ok ()) =>
          match d.ensured (p ++ [name]) (d.makeDir (p ++ [name])) with
          | .ok d => (d, .ok ())
          | .error e => (d, .error e)
      | .error e => if d.isDir (p ++ [name]) then (d, .ok ()) else (d, .error e) := by
  have up : (p ++ [name]).reverse = name :: p.reverse := by simp
  have down : (name :: p.reverse).reverse = p ++ [name] := by simp
  have run := makeDirsUp.eq_2 d name p.reverse
  simp only [down] at run
  exact (congrArg d.makeDirsUp up).trans run

/-- Only a missing directory makes it try further up. -/
theorem makeDirs_of_error (failed : d.makeDir p = .error e) (other : e ≠ .missing) : (d.makeDirs p).1 = d := by
  induction p using List.reverseRecOn with
  | nil => rfl
  | append_singleton p name _ =>
    rw [makeDirs_concat, failed]
    cases e with
    | missing => exact absurd rfl other
    | _ => simp only; split <;> rfl

theorem makeDir_of_there (there : (d.named? p).isSome) : d.makeDir p = .error .alreadyThere := by
  obtain ⟨n, entry⟩ := Option.isSome_iff_exists.mp there
  obtain ⟨place, found⟩ := named?_eq_some.mp entry
  obtain ⟨checked, leads, stands⟩ := locate_eq_ok.mp found
  rw [makeDir, walk_eq_ok.mpr ⟨checked, leads⟩]
  simp [bind, Except.bind, stands, throw, throwThe, MonadExceptOf.throw]

theorem makeDirs_of_isDir (there : d.isDir p = true) : d.makeDirs p = (d, .ok ()) := by
  induction p using List.reverseRecOn with
  | nil => rfl
  | append_singleton p name _ =>
    obtain ⟨place, found⟩ := isDir_eq_true.mp there
    rw [makeDirs_concat, makeDir_of_there (named?_of_locate found)]
    simp only [there, if_true]

theorem GrownBelow.absent_beyond (grown : d'.GrownBelow d place q) (absent : d.get? (place ++ (q ++ [name])) = none) :
    d'.get? (place ++ (q ++ [name])) = none := by
  rcases grown (place ++ (q ++ [name])) with same | ⟨_, _, part, _, within, same⟩
  · rw [same, absent]
  · have shorter := within.length_le
    rw [← List.append_cancel_left same, List.length_append, List.length_singleton] at shorter
    omega

namespace Reaches

variable (reach : d.Reaches front back place)
include reach

theorem isDir_front (inDir : d.get? place = some .dir) : d.isDir front = true :=
  isDir_eq_true.mpr ⟨place, locate_eq_ok.mpr ⟨reach.checked, reach.leads, inDir⟩⟩

/-- What is there already leaves nothing to make. -/
theorem makeDirs_there (within : p <+: front) : (d.makeDirs p).1 = d := by
  refine makeDirs_induct p (P := fun d₁ => d₁ = d) rfl fun part d₁ d₂ inside same made => ?_
  subst same
  exact absurd made (reach.not_makeDir (.refl _ place back) (inside.trans within))

omit reach

/-- Whatever is made, the path was taken and its first missing name was a step from a directory. -/
theorem begins_of_changed {mid : List String} (reach : d.Reaches front (first :: mid) place)
    (changed : (d.makeDirs (front ++ first :: mid)).1 ≠ d) :
    d.get? place = some .dir ∧ IsStep first ∧ checkPath (front ++ first :: mid) = .ok () := by
  -- Any other error than a missing directory would have ended it before anything was made.
  have missing {e : DiskError} (failed : d.walk false (front ++ first :: mid) = .error e) : e = .missing := by
    by_contra other
    exact changed (makeDirs_of_error (makeDir_of_walk_error failed) other)
  have checked : checkPath (front ++ first :: mid) = .ok () := by
    cases outcome : checkPath (front ++ first :: mid) with
    | ok => rfl
    | error e =>
      have failed : d.walk false (front ++ first :: mid) = .error e := by
        rw [walk, outcome]
        rfl
      exact absurd (missing failed) (ne_missing_of_checkPath outcome)
  obtain ⟨left, same⟩ := reach.walk_on (.refl d place _) checked (by simp)
  obtain ⟨n, found⟩ := Option.isSome_iff_exists.mp reach.there
  have inDir : n = .dir := by
    by_contra notDir
    cases missing ((same false).trans (walkFrom_of_ne_dir found notDir))
  subst inDir
  refine ⟨found, ?_, checked⟩
  by_contra noStep
  cases missing ((same false).trans (walkFrom_of_not_isStep found (reach.plain first (List.mem_cons_self ..)) noStep))

section
variable (tree : d.IsTree) (inDir : d.get? place = some .dir)
include tree inDir

theorem makeDir_missing {mid : List String} (reach : d.Reaches front (first :: mid) place) (step : IsStep first)
    (checked : checkPath (front ++ first :: mid) = .ok ()) (more : mid ≠ []) :
    d.makeDir (front ++ first :: mid) = .error .missing := by
  have absent : d.get? (place ++ [first]) = none :=
    reach.absent tree (checkPath_of_append mid (by simpa using checked)) (by simp) (by simp)
  obtain ⟨left, same⟩ := reach.walk_on (.refl d place _) checked (by simp)
  exact makeDir_of_walk_error ((same false).trans (walkFrom_of_absent inDir step absent more))

omit inDir in
/-- Behind the directories that were made, the next name leads to a place where nothing is. -/
theorem walk_made (reach : d.Reaches front (q ++ [name]) place) (made : d.makeDirs (front ++ q) = (d', .ok ()))
    (now : d'.get? (place ++ q) = some .dir) (step : IsStep name)
    (checked : checkPath (front ++ (q ++ [name])) = .ok ()) :
    d'.get? (place ++ (q ++ [name])) = none ∧
      ∀ follow, d'.walk follow (front ++ (q ++ [name])) = .ok (place ++ (q ++ [name])) := by
  have shorter := reach.shorten (List.prefix_append q [name])
  have tree' := makeDirs_isTree tree made
  have grown := shorter.grown_of_makeDirs tree made (List.prefix_refl _)
  have absent := grown.absent_beyond (reach.absent tree checked (by simp) (List.prefix_refl _))
  obtain ⟨left, same⟩ := shorter.walk_on grown checked (by simp)
  refine ⟨absent, fun follow => ?_⟩
  rw [same follow, tree'.walkFrom_append q now, walkFrom_eq_ok, ← List.append_assoc]
  exact .fresh now step (by rwa [List.append_assoc])

/-- Steps from a directory are all made. -/
theorem makeDirs_ok (reach : d.Reaches front q place) (steps : ∀ name ∈ q, IsStep name)
    (checked : checkPath (front ++ q) = .ok ()) :
    ∃ d', d.makeDirs (front ++ q) = (d', .ok ()) ∧ d'.get? (place ++ q) = some .dir := by
  induction q using List.reverseRecOn with
  | nil =>
    exact ⟨d, by rw [List.append_nil, makeDirs_of_isDir (reach.isDir_front inDir)], by rwa [List.append_nil]⟩
  | append_singleton q name ih =>
    have below : place ++ (q ++ [name]) ≠ [] := by simp
    obtain ⟨d₁, made, now⟩ := ih (reach.shorten (List.prefix_append q [name]))
      (fun other member => steps other (List.mem_append_left _ member))
      (checkPath_of_append [name] (by rwa [List.append_assoc]))
    obtain ⟨absent, walked⟩ := walk_made tree reach made now (steps name (by simp)) checked
    have next : d₁.makeDir (front ++ (q ++ [name])) = .ok (d₁.put (place ++ (q ++ [name])) .dir) :=
      makeDir_eq_ok.mpr ⟨_, walked false, absent, rfl⟩
    refine ⟨_, ?_, get?_put_self d₁ below .dir⟩
    -- The directory is made at once when it is the first one, and otherwise after those above it.
    rcases q with _ | ⟨first, mid⟩
    · rw [List.append_nil, makeDirs_of_isDir (reach.isDir_front inDir)] at made
      obtain ⟨rfl, _⟩ := Prod.mk.inj made
      rw [List.nil_append] at next ⊢
      rw [makeDirs_concat, next]
    · have missing : d.makeDir (front ++ first :: (mid ++ [name])) = .error .missing :=
        makeDir_missing tree inDir reach (steps first (by simp)) checked (by simp)
      rw [List.cons_append] at next
      simp only [List.cons_append]
      have whole : front ++ first :: (mid ++ [name]) = front ++ first :: mid ++ [name] := by simp
      rw [whole] at missing next ⊢
      rw [makeDirs_concat, missing]
      simp only [made, next, ensured]

/-- Where all names are steps and the system takes the path, the file at its end is written too. -/
theorem finishes (reach : d.Reaches front (q ++ [name]) place) (steps : ∀ other ∈ q ++ [name], IsStep other)
    (checked : checkPath (front ++ (q ++ [name])) = .ok ()) (content : ByteArray) :
    ∃ d₁ d₂, d.makeDirs (front ++ q) = (d₁, .ok ()) ∧ d₁.writeFile (front ++ (q ++ [name])) content = .ok d₂ := by
  obtain ⟨d₁, made, now⟩ := makeDirs_ok tree inDir (reach.shorten (List.prefix_append q [name]))
    (fun other member => steps other (List.mem_append_left _ member))
    (checkPath_of_append [name] (by rwa [List.append_assoc]))
  obtain ⟨absent, walked⟩ := walk_made tree reach made now (steps name (by simp)) checked
  exact ⟨d₁, _, made, writeFile_eq_ok.mpr ⟨_, walked true, by simp [absent], rfl⟩⟩

/-- Once it begins, the first missing directory is made and stays, however it ends. -/
theorem makeDirs_first {mid : List String} (reach : d.Reaches front (first :: mid) place) (step : IsStep first)
    (checked : checkPath (front ++ first :: mid) = .ok ()) :
    (d.makeDirs (front ++ first :: mid)).1.get? (place ++ [first]) = some .dir := by
  induction mid using List.reverseRecOn with
  | nil =>
    obtain ⟨d₁, made, now⟩ := makeDirs_ok tree inDir reach (by simpa using step) checked
    rw [made]
    exact now
  | append_singleton mid name ih =>
    have missing : d.makeDir (front ++ first :: (mid ++ [name])) = .error .missing :=
      makeDir_missing tree inDir reach step checked (by simp)
    have whole : front ++ first :: (mid ++ [name]) = front ++ first :: mid ++ [name] := by simp
    rw [whole] at checked missing ⊢
    have made := ih (reach.shorten (List.prefix_append (first :: mid) [name])) (checkPath_of_append [name] checked)
    rw [makeDirs_concat, missing]
    cases outcome : d.makeDirs (front ++ first :: mid) with
    | mk d₁ ended =>
      rw [outcome] at made
      cases ended with
      | error e => exact made
      | ok =>
        simp only
        split
        · rename_i d₂ next
          rcases ensured_eq_ok next with rfl | next
          · exact made
          · obtain ⟨dest, _, absent, rfl⟩ := makeDir_eq_ok.mp next
            exact extends_put absent .dir _ _ made
        · exact made

end

end Reaches

end ScriptTools.Files.Disk
