import ScriptTools.Proofs.Files.Tree

/-!
What making directories and writing files changes. The path of such a call is there up to some place and
then goes on where nothing stands: the call adds along this rest, below that place.
-/

namespace ScriptTools.Files.Disk

variable {d d' d'' : Disk} {p place dest : Path} {front back q : List String} {follow : Bool}

theorem makeDir_eq_ok :
    d.makeDir p = .ok d' ↔
      ∃ place, d.walk false p = .ok place ∧ d.get? place = none ∧ d' = d.put place .dir := by
  rw [makeDir]
  cases walked : d.walk false p with
  | error e => simp [bind, Except.bind]
  | ok place =>
    simp only [bind, Except.bind, Except.ok.injEq, exists_eq_left']
    cases found : d.get? place with
    | none => simp [pure, Except.pure, eq_comm]
    | some n => simp [throw, throwThe, MonadExceptOf.throw]

theorem writeFile_eq_ok {content : ByteArray} :
    d.writeFile p content = .ok d' ↔
      ∃ place, d.walk true p = .ok place ∧ d.get? place ≠ some .dir ∧ d' = d.put place (.file content) := by
  rw [writeFile]
  cases walked : d.walk true p with
  | error e => simp [bind, Except.bind]
  | ok place =>
    simp only [bind, Except.bind, Except.ok.injEq, exists_eq_left']
    split
    · rename_i inDir
      simp [inDir, throw, throwThe, MonadExceptOf.throw]
    · rename_i notDir
      simp only [pure, Except.pure, Except.ok.injEq, ne_eq]
      exact ⟨fun same => ⟨notDir, same.symm⟩, fun same => same.2.symm⟩

theorem ensured_eq_ok {made : Except DiskError Disk} (run : d.ensured p made = .ok d') :
    d' = d ∨ made = .ok d' := by
  cases made with
  | ok made =>
    cases run
    exact .inr rfl
  | error e =>
    simp only [ensured] at run
    split at run
    · cases run
      exact .inl rfl
    · cases run

/-- Making the directories of a path makes one directory after the other, each at a front part of it. -/
theorem makeDirs_induct {P : Disk → Prop} (p : Path) (start : P d)
    (step : ∀ front d₁ d₂, front <+: p → P d₁ → d₁.makeDir front = .ok d₂ → P d₂) :
    P (d.makeDirs p).1 := by
  have up : ∀ up : List String, up.reverse <+: p → P (d.makeDirsUp up).1 := by
    intro up within
    induction up with
    | nil => exact start
    | cons name above ih =>
      have shorter : above.reverse <+: p :=
        (List.prefix_append above.reverse [name]).trans (by simpa using within)
      rw [makeDirsUp]
      split
      · rename_i made
        exact step _ _ _ within start made
      · have later := ih shorter
        split
        · rename_i outcome
          simpa [outcome] using later
        · rename_i d₁ outcome
          rw [outcome] at later
          split
          · rename_i made
            rcases ensured_eq_ok made with same | made
            · exact same ▸ later
            · exact step _ _ _ within later made
          · exact later
      · split <;> exact start
  exact up p.reverse (by simp)

theorem makeDir_isTree (tree : d.IsTree) (made : d.makeDir p = .ok d') : d'.IsTree := by
  obtain ⟨place, walked, absent, rfl⟩ := makeDir_eq_ok.mp made
  obtain ⟨_, leads⟩ := walk_eq_ok.mp walked
  obtain ⟨at_, name, rfl, inDir, step⟩ := leads.of_absent tree (by simp [get?_nil]) absent
  exact tree.put_of_dir inDir step absent .dir

theorem makeDirs_isTree {ended : Except DiskError Unit} (tree : d.IsTree) (made : d.makeDirs p = (d', ended)) :
    d'.IsTree := by
  obtain rfl : (d.makeDirs p).1 = d' := congrArg Prod.fst made
  exact makeDirs_induct p tree fun _ _ _ _ tree made => makeDir_isTree tree made

/-- A path of which the front part is there and leads to a place, and nothing more is there. -/
structure Reaches (d : Disk) (front back : List String) (place : Path) : Prop where
  checked : checkPath front = .ok ()
  leads : d.Leads true linkLimit [] front place
  there : (d.get? place).isSome
  plain : ∀ name ∈ back, name ≠ "." ∧ name ≠ ".."
  ends : ∀ name more, back = name :: more → d.named? (front ++ [name]) = none

/-- A disk that has the same as another one and perhaps directories in addition, along a path below a
place. -/
def GrownBelow (d' d : Disk) (place : Path) (back : List String) : Prop :=
  ∀ p, d'.get? p = d.get? p ∨
    (d.get? p = none ∧ d'.get? p = some .dir ∧ ∃ q, q ≠ [] ∧ q <+: back ∧ p = place ++ q)

theorem GrownBelow.refl (d : Disk) (place : Path) (back : List String) : d.GrownBelow d place back :=
  fun _ => .inl rfl

theorem GrownBelow.extends (grown : d'.GrownBelow d place back) : d'.Extends d := by
  intro p n found
  rcases grown p with same | ⟨absent, _⟩
  · rw [same, found]
  · simp [absent] at found

/-- The top holds no file. -/
theorem ne_nil_of_onlyFile (onlyFile : ∀ n, d.get? p = some n → ∃ old, n = .file old) : p ≠ [] := by
  rintro rfl
  obtain ⟨old, same⟩ := onlyFile .dir rfl
  cases same

namespace Reaches

/-- From a directory a path that goes on to nothing is there no further. -/
theorem of_absent {first : String} {rest : List String} (checked : checkPath front = .ok ())
    (leads : d.Leads true linkLimit [] front place) (inDir : d.get? place = some .dir)
    (plain : ∀ name ∈ first :: rest, name ≠ "." ∧ name ≠ "..") (absent : d.get? (place ++ [first]) = none) :
    d.Reaches front (first :: rest) place := by
  refine ⟨checked, leads, by simp [inDir], plain, fun name more same => ?_⟩
  obtain ⟨rfl, _⟩ := List.cons.inj same
  rw [Option.eq_none_iff_forall_ne_some]
  intro n entry
  obtain ⟨dest, found⟩ := named?_eq_some.mp entry
  obtain ⟨_, walked, there⟩ := locate_eq_ok.mp found
  obtain ⟨left, onward⟩ := leads.append (by simp [inDir])
  have step := leads_of_walkFrom ((onward false [first] (by simp)).symm.trans walked.walkFrom)
  obtain ⟨notDot, notUp⟩ := plain first (List.mem_cons_self ..)
  cases step with
  | dot => exact notDot rfl
  | up => exact notUp rfl
  | node _ _ here => cases absent.symm.trans here
  | link _ _ here => cases absent.symm.trans here
  | stop _ _ here => cases absent.symm.trans here
  | fresh => cases absent.symm.trans there

variable (reach : d.Reaches front back place) (tree : d.IsTree)
include reach tree

omit tree in
theorem shorten (within : q <+: back) : d.Reaches front q place where
  checked := reach.checked
  leads := reach.leads
  there := reach.there
  plain name member := reach.plain name (within.subset member)
  ends := by
    rintro name more rfl
    obtain ⟨later, rfl⟩ := within
    exact reach.ends name (more ++ later) rfl

/-- Nothing stands along the rest of the path. -/
theorem absent (checked : checkPath (front ++ q) = .ok ()) (more : q ≠ []) (within : q <+: back) :
    d.get? (place ++ q) = none := by
  obtain ⟨name, rest, rfl⟩ := List.exists_cons_of_ne_nil more
  obtain ⟨later, rfl⟩ := within
  have first : d.get? (place ++ [name]) = none := by
    cases found : d.get? (place ++ [name]) with
    | none => rfl
    | some n =>
      obtain ⟨inDir, step⟩ := tree _ _ _ found
      have checked : checkPath (front ++ [name]) = .ok () := by
        refine checkPath_of_append rest ?_
        simpa using checked
      obtain ⟨left, same⟩ := reach.leads.append reach.there
      have walked : d.walkFrom false linkLimit [] (front ++ [name]) = .ok (place ++ [name]) := by
        rw [same false [name] (by simp), walkFrom_eq_ok]
        cases n with
        | link target => exact .stop inDir step found rfl
        | _ => exact .node inDir step found (by simp) .here
      have entry : d.named? (front ++ [name]) = some n :=
        named?_eq_some.mpr ⟨_, locate_eq_ok.mpr ⟨checked, walkFrom_eq_ok.mp walked, found⟩⟩
      rw [reach.ends name (rest ++ later) rfl] at entry
      cases entry
  have below := tree.absent_append rest first
  simpa using below

omit tree in
/-- A walk along the path goes on from the place. -/
theorem walk_on (grown : d'.GrownBelow d place back) (checked : checkPath (front ++ q) = .ok ()) (more : q ≠ []) :
    ∃ left, ∀ follow, d'.walk follow (front ++ q) = d'.walkFrom follow left place q := by
  have before := reach.leads.extend reach.there grown.extends
  have there : (d'.get? place).isSome := by
    obtain ⟨n, found⟩ := Option.isSome_iff_exists.mp reach.there
    simp [grown.extends _ _ found]
  obtain ⟨left, same⟩ := before.append there
  refine ⟨left, fun follow => ?_⟩
  rw [walk, checked, ← same follow q more]
  rfl

/-- Walks along the path go straight on from the place. -/
theorem eq_of_walk (grown : d'.GrownBelow d place back) (within : q <+: back)
    (goesOn : q ≠ [] ∨ follow = true) (walked : d'.walk follow (front ++ q) = .ok dest) :
    dest = place ++ q := by
  obtain ⟨checked, leads⟩ := walk_eq_ok.mp walked
  by_cases last : q = []
  · obtain rfl := goesOn.resolve_left (not_not_intro last)
    subst last
    rw [List.append_nil] at leads ⊢
    have before := reach.leads.extend reach.there grown.extends
    exact Except.ok.inj (leads.walkFrom.symm.trans before.walkFrom)
  · obtain ⟨left, same⟩ := reach.walk_on grown checked last
    have rest := leads_of_walkFrom ((same follow).symm.trans walked)
    refine rest.straight (fun name member => reach.plain name (within.subset member)) ?_
    intro part more inside target link
    have checked : checkPath (front ++ part) = .ok () := by
      obtain ⟨later, rfl⟩ := inside
      exact checkPath_of_append later (by simpa using checked)
    have nothing := reach.absent tree checked more (inside.trans within)
    rcases grown (place ++ part) with same | ⟨_, inDir, _⟩
    · rw [same, nothing] at link
      cases link
    · rw [inDir] at link
      cases link

omit tree in
/-- What is there already is not made. -/
theorem not_makeDir (grown : d'.GrownBelow d place back) (within : p <+: front) :
    d'.makeDir p ≠ .ok d'' := by
  intro made
  obtain ⟨dest, walked, nothing, _⟩ := makeDir_eq_ok.mp made
  obtain ⟨rest, rfl⟩ := within
  obtain ⟨mid, leads, there⟩ := reach.leads.front_there rest reach.there
  obtain ⟨n, found⟩ := Option.isSome_iff_exists.mp there
  have found := grown.extends _ _ found
  have leads := leads.extend there grown.extends
  obtain ⟨stop, direct, stands⟩ := leads.unfollowed (by simp [found])
  obtain ⟨_, other⟩ := walk_eq_ok.mp walked
  obtain rfl := Except.ok.inj (other.walkFrom.symm.trans direct.walkFrom)
  rcases stands with rfl | ⟨target, link⟩
  · simp [nothing] at found
  · simp [nothing] at link

theorem grown_of_makeDir (grown : d'.GrownBelow d place back) (within : p <+: front ++ back)
    (made : d'.makeDir p = .ok d'') : d''.GrownBelow d place back := by
  rcases List.prefix_or_prefix_of_prefix within (List.prefix_append front back) with short | ⟨q, rfl⟩
  · exact absurd made (reach.not_makeDir grown short)
  · have inside := (List.prefix_append_right_inj front).mp within
    by_cases last : q = []
    · exact absurd made (reach.not_makeDir grown (by simp [last]))
    · obtain ⟨dest, walked, nothing, rfl⟩ := makeDir_eq_ok.mp made
      obtain rfl := reach.eq_of_walk tree grown inside (.inl last) walked
      intro p
      by_cases here : p = place ++ q
      · subst here
        refine .inr ⟨?_, get?_put_self _ (by simp [last]) _, q, last, inside, rfl⟩
        rcases grown (place ++ q) with same | ⟨absent, _⟩
        · rw [← same, nothing]
        · exact absent
      · rw [get?_put_of_ne _ here]
        exact grown p

theorem grown_of_makeDirs {ended : Except DiskError Unit} (made : d.makeDirs p = (d', ended))
    (within : p <+: front ++ back) : d'.GrownBelow d place back := by
  obtain rfl : (d.makeDirs p).1 = d' := congrArg Prod.fst made
  exact makeDirs_induct p (GrownBelow.refl d place back) fun _ _ _ inside grown made =>
    reach.grown_of_makeDir tree grown (inside.trans within) made

/-- A written file stands where its path goes on to, and replaces nothing but a file. -/
theorem place_of_writeFile {content : ByteArray} (grown : d'.GrownBelow d place back) (tree' : d'.IsTree)
    (written : d'.writeFile (front ++ back) content = .ok d'') :
    d'' = d'.put (place ++ back) (.file content) ∧
      ∀ n, d.get? (place ++ back) = some n → ∃ old, n = .file old := by
  obtain ⟨dest, walked, notDir, rfl⟩ := writeFile_eq_ok.mp written
  obtain rfl := reach.eq_of_walk tree grown (List.prefix_refl back) (.inr rfl) walked
  refine ⟨rfl, fun n found => ?_⟩
  obtain ⟨_, leads⟩ := walk_eq_ok.mp walked
  cases n with
  | file old => exact ⟨old, rfl⟩
  | dir => exact absurd (grown.extends _ _ found) notDir
  | link target =>
    exact absurd (grown.extends _ _ found) (leads.ne_link tree' (by simp [get?_nil]) target)

end Reaches

end ScriptTools.Files.Disk
