import ScriptTools.Proofs.Files.Governed
import ScriptTools.Proofs.Files.Outcome

/-!
What is left behind by calls that fail. A deletion that fails leaves nothing behind, and neither does a write that is
refused. A write makes the directories of its path before it writes the file, so one that gives false can leave some of
them.
-/

namespace ScriptTools.Files.Access

open Disk

variable {a : Access} {d : Disk} {text content : String} {full front place : Path} {first : String}
  {parts rest : List String}

/-- Where a write breaks off: at least two names of its path are missing, the system takes the path above the last one
and the first missing one is a step, but some later name is none or the system does not take the path as a whole. -/
structure BreaksOff (a : Access) (d : Disk) (text : String) (front : Path) (first : String) (rest : List String)
    (place : Path) : Prop where
  permitted : ∃ parts, parts ≠ [] ∧ a.permit d .fsWrite text = .ok (front ++ first :: rest, parts)
  reach : d.Reaches front (first :: rest) place
  inDir : d.get? place = some .dir
  step : IsStep first
  deeper : rest ≠ []
  taken : checkPath (front ++ first :: rest.dropLast) = .ok ()
  fails : checkPath (front ++ first :: rest) = .ok () → ∃ name ∈ rest, ¬ IsStep name

theorem delete_failed (failed : (a.delete d text).2 ≠ .ok true) : (a.delete d text).1 = d := by
  rcases delete_steps a d text with ⟨same, _⟩ | ⟨_, _, _, _, _, _, _, _, _, done⟩
  · exact same
  · exact absurd done failed

theorem write_refused {e : HostError} (refused : (a.write d text content).2 = .error e) :
    (a.write d text content).1 = d := by
  have run := writes_write a d text content
  generalize a.write d text content = out at run refused ⊢
  cases run with
  | refused => rfl
  | _ => cases refused

theorem dropLast_append_cons (deeper : rest ≠ []) :
    (front ++ first :: rest).dropLast = front ++ first :: rest.dropLast := by
  rw [List.dropLast_append_cons, List.dropLast_cons_of_ne_nil deeper]

/-- Directories that are made for a file which is not written are made along at least two missing names. -/
theorem breaksOff_of_changed {d₁ : Disk} {ended : Except DiskError Unit} (holds : a.Holds d) (content : String)
    (permitted : a.permit d .fsWrite text = .ok (full, parts)) (more : parts ≠ [])
    (made : d.makeDirs full.dropLast = (d₁, ended)) (changed : d₁ ≠ d)
    (unwritten : ended = .ok () → ∀ d₂, d₁.writeFile full content.toUTF8 ≠ .ok d₂) :
    ∃ front first rest place, a.BreaksOff d text front first rest place ∧
      d₁.GrownBelow d place (first :: rest.dropLast) := by
  obtain ⟨front, back, place, rfl, reach, _, _⟩ :=
    reaches_of_resolve holds.tree holds.home (resolve_of_permit permitted)
  have ran : (d.makeDirs (front ++ back).dropLast).1 = d₁ := congrArg Prod.fst made
  -- With no name missing, or only the last one, all directories above are there.
  rcases back with _ | ⟨first, rest⟩
  · rw [List.append_nil] at ran
    exact absurd (ran.symm.trans (reach.makeDirs_there (List.dropLast_prefix front))) changed
  by_cases deeper : rest = []
  · rw [deeper, List.dropLast_concat] at ran
    exact absurd (ran.symm.trans (reach.makeDirs_there (List.prefix_refl front))) changed
  rw [dropLast_append_cons deeper] at made ran
  have above := reach.shorten (List.cons_prefix_cons.mpr ⟨rfl, List.dropLast_prefix rest⟩)
  obtain ⟨inDir, step, taken⟩ := above.begins_of_changed (by rwa [ran])
  refine ⟨front, first, rest, place, ⟨⟨parts, more, permitted⟩, reach, inDir, step, deeper, taken, ?_⟩, ?_⟩
  · intro checked
    by_contra none
    have steps : ∀ name ∈ first :: rest, IsStep name :=
      List.forall_mem_cons.mpr ⟨step, fun name member => by_contra fun noStep => none ⟨name, member, noStep⟩⟩
    have split : first :: rest = first :: rest.dropLast ++ [rest.getLast deeper] := by
      rw [List.cons_append, List.dropLast_append_getLast deeper]
    rw [split] at reach checked steps unwritten
    obtain ⟨d₁', d₂, made', written⟩ := Reaches.finishes holds.tree inDir reach steps checked content.toUTF8
    obtain ⟨rfl, rfl⟩ := Prod.mk.inj (made.symm.trans made')
    exact unwritten rfl d₂ written
  · exact above.grown_of_makeDirs holds.tree made (List.prefix_refl _)

/-- A write that breaks off gives false, and the first directory that it has made stays. -/
theorem BreaksOff.write (broken : a.BreaksOff d text front first rest place) (tree : d.IsTree) (content : String) :
    (a.write d text content).2 = .ok false ∧ d.get? (place ++ [first]) = none ∧
      (a.write d text content).1.get? (place ++ [first]) = some .dir := by
  obtain ⟨parts, more, permitted⟩ := broken.permitted
  have above : first :: rest.dropLast <+: first :: rest := List.cons_prefix_cons.mpr ⟨rfl, List.dropLast_prefix rest⟩
  have reach := broken.reach.shorten above
  have absent : d.get? (place ++ [first]) = none :=
    reach.absent tree (checkPath_of_append rest.dropLast (by simpa using broken.taken)) (by simp) (by simp)
  have made := Reaches.makeDirs_first tree broken.inDir reach broken.step broken.taken
  rw [← dropLast_append_cons broken.deeper] at made
  have run := writes_write a d text content
  generalize a.write d text content = out at run ⊢
  cases run with
  | refused refused => cases permitted.symm.trans refused
  | top top =>
    obtain ⟨_, rfl⟩ := Prod.mk.inj (Except.ok.inj (permitted.symm.trans top))
    exact absurd rfl more
  | unmade permitted' _ ended | unwritten permitted' _ ended _ =>
    obtain ⟨rfl, rfl⟩ := Prod.mk.inj (Except.ok.inj (permitted.symm.trans permitted'))
    rw [ended] at made
    exact ⟨rfl, absent, made⟩
  | written permitted' _ _ written =>
    obtain ⟨rfl, rfl⟩ := Prod.mk.inj (Except.ok.inj (permitted.symm.trans permitted'))
    obtain ⟨_, walked, _⟩ := writeFile_eq_ok.mp written
    obtain ⟨checked, leads⟩ := walk_eq_ok.mp walked
    obtain ⟨name, member, noStep⟩ := broken.fails checked
    have later : name ∈ first :: rest := List.mem_cons_of_mem first member
    exact absurd (leads.isStep (List.mem_append_right front later) (broken.reach.plain name later)) noStep

/-- A write that gives false and changes something has broken off, and has made directories of its path alone. -/
theorem breaksOff_of_write (holds : a.Holds d) (failed : (a.write d text content).2 = .ok false)
    (changed : (a.write d text content).1 ≠ d) :
    ∃ front first rest place, a.BreaksOff d text front first rest place ∧
      (a.write d text content).1.GrownBelow d place (first :: rest.dropLast) := by
  have run := writes_write a d text content
  generalize a.write d text content = out at run failed changed ⊢
  cases run with
  | refused => cases failed
  | top => exact absurd rfl changed
  | unmade permitted more made =>
    exact breaksOff_of_changed holds content permitted more made changed fun done => nomatch done
  | unwritten permitted more made stopped =>
    refine breaksOff_of_changed holds content permitted more made changed fun _ d₂ written => ?_
    cases stopped.symm.trans written
  | written => cases failed

/-- A deletion that fails and a write that is refused change nothing. A write that gives false changes something only
where it breaks off, and then nothing but directories along the rest of its path are new. The first of them is left
wherever a write breaks off. -/
theorem left_by_failure (holds : a.Holds d) (text content : String) :
    ((a.delete d text).2 ≠ .ok true → (a.delete d text).1 = d) ∧
    (∀ e, (a.write d text content).2 = .error e → (a.write d text content).1 = d) ∧
    ((a.write d text content).2 = .ok false → (a.write d text content).1 ≠ d →
      ∃ front first rest place, a.BreaksOff d text front first rest place ∧
        (a.write d text content).1.GrownBelow d place (first :: rest.dropLast)) ∧
    ∀ front first rest place, a.BreaksOff d text front first rest place →
      (a.write d text content).2 = .ok false ∧ d.get? (place ++ [first]) = none ∧
        (a.write d text content).1.get? (place ++ [first]) = some .dir :=
  ⟨delete_failed, fun _ => write_refused, breaksOff_of_write holds, fun _ _ _ _ broken => broken.write holds.tree content⟩

/-- A directory that is not there, on the way to a name that no file can have. -/
theorem sharedDisk_reaches : sharedDisk.Reaches ["root", "out"] ["new", "x\x00"] ["root", "out"] := by
  obtain ⟨checked, leads, out⟩ := locate_eq_ok.mp sharedDisk_out
  exact .of_absent checked leads out (by decide) (by decide)

theorem sharedDisk_breaksOff :
    outOnly.BreaksOff sharedDisk "out/new/x\x00" ["root", "out"] "new" ["x\x00"] ["root", "out"] where
  permitted :=
    ⟨["out", "new", "x\x00"], by simp, permit_of_reaches (by decide) rfl sharedDisk_reaches
      (canonical?_of_locate (by decide) sharedDisk_out) (by decide)
      (Policy.require_eq_ok.mp (by decide))⟩
  reach := sharedDisk_reaches
  inDir := by decide
  step := by decide
  deeper := by simp
  taken := by decide
  fails checked := absurd checked (by decide)

theorem left_by_failure_sharedDisk :
    outOnly.Holds sharedDisk ∧ (outOnly.write sharedDisk "out/new/x\x00" "y").2 = .ok false := by
  obtain ⟨_, _, _, broken⟩ := left_by_failure sharedDisk_holds "out/new/x\x00" "y"
  exact ⟨sharedDisk_holds, (broken _ _ _ _ sharedDisk_breaksOff).1⟩

/-- The write gives false, and the directory above the file is new. -/
theorem write_leaves_sharedDisk :
    outOnly.Holds sharedDisk ∧ (outOnly.write sharedDisk "out/new/x\x00" "y").2 = .ok false ∧
      (outOnly.write sharedDisk "out/new/x\x00" "y").1 ≠ sharedDisk := by
  obtain ⟨failed, absent, made⟩ := sharedDisk_breaksOff.write sharedDisk_holds.tree "y"
  refine ⟨sharedDisk_holds, failed, fun same => ?_⟩
  rw [same, absent] at made
  cases made

end ScriptTools.Files.Access
