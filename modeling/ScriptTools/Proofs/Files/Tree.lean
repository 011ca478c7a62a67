import ScriptTools.Proofs.Files.Walk

/-!
Disks that are trees: what stands somewhere stands in a directory. Changes that keep a disk a tree, and
what making directories adds.
-/

namespace ScriptTools.Files.Disk

variable {d : Disk} {p q : Path} {n : Node}

/-! Single places -/

theorem get?_nil (d : Disk) : d.get? [] = some .dir := rfl

theorem get?_of_ne_nil (more : p ≠ []) : d.get? p = d.nodes.lookup p := by
  simp [get?, more]

theorem lookup_filter (f : Path → Bool) (nodes : List (Path × Node)) (q : Path) :
    (nodes.filter fun e => f e.1).lookup q = if f q then nodes.lookup q else none := by
  induction nodes with
  | nil => simp
  | cons e nodes ih =>
    obtain ⟨at_, n⟩ := e
    rw [List.filter_cons]
    by_cases same : q = at_
    · subst same
      by_cases kept : f q = true
      · simp [kept]
      · simp [kept, ih]
    · have other : (q == at_) = false := beq_eq_false_iff_ne.mpr same
      by_cases kept : f at_ = true
      · simp [kept, List.lookup_cons, other, ih]
      · simp [kept, List.lookup_cons, other, ih]

theorem get?_put_self (d : Disk) (more : p ≠ []) (n : Node) : (d.put p n).get? p = some n := by
  rw [get?_of_ne_nil more, put, List.lookup_cons_self]

theorem get?_put_of_ne (d : Disk) (other : q ≠ p) (n : Node) : (d.put p n).get? q = d.get? q := by
  cases q with
  | nil => rfl
  | cons first rest =>
    have more : first :: rest ≠ [] := List.cons_ne_nil _ _
    rw [get?_of_ne_nil more, get?_of_ne_nil more, put, List.lookup_cons]
    simp only [beq_eq_false_iff_ne.mpr other]
    rw [lookup_filter (fun at_ => at_ ≠ p), if_pos (by simpa using other)]

theorem get?_erase_of_ne (d : Disk) (other : q ≠ p) : (d.erase p).get? q = d.get? q := by
  cases q with
  | nil => rfl
  | cons first rest =>
    have more : first :: rest ≠ [] := List.cons_ne_nil _ _
    rw [get?_of_ne_nil more, get?_of_ne_nil more, erase]
    rw [lookup_filter (fun at_ => at_ ≠ p), if_pos (by simpa using other)]

theorem get?_erase_self (d : Disk) (more : p ≠ []) : (d.erase p).get? p = none := by
  rw [get?_of_ne_nil more, erase, lookup_filter (fun at_ => at_ ≠ p), if_neg (by simp)]

/-- A path names what stands there unless no call accepts the path. -/
theorem get?_nameable : d.nameable.get? p = some n ↔ checkPath p = .ok () ∧ d.get? p = some n := by
  have checked : (checkPath p).isOk = true ↔ checkPath p = .ok () := by
    cases checkPath p <;> simp [Except.isOk, Except.toBool]
  cases p with
  | nil => exact ⟨fun found => ⟨rfl, found⟩, And.right⟩
  | cons first rest =>
    have more : first :: rest ≠ [] := List.cons_ne_nil _ _
    rw [get?_of_ne_nil more, get?_of_ne_nil more, nameable, lookup_filter (fun at_ => (checkPath at_).isOk), ← checked]
    simp

theorem extends_nameable (d : Disk) : d.Extends d.nameable := fun _ _ found => (get?_nameable.mp found).2

theorem extends_put (absent : d.get? p = none) (n : Node) : (d.put p n).Extends d := by
  intro q m found
  have other : q ≠ p := by
    rintro rfl
    rw [absent] at found
    cases found
  rw [get?_put_of_ne d other, found]

/-- A directory in which something stands has names. -/
theorem names_ne_nil {name : String} (found : d.get? (p ++ [name]) = some n) : d.names p ≠ [] := by
  rw [get?_of_ne_nil (by simp)] at found
  obtain ⟨front, back, split, _⟩ := List.lookup_eq_some_iff.mp found
  have member : name ∈ d.names p := by
    rw [names, List.mem_mergeSort, List.mem_filterMap]
    exact ⟨(p ++ [name], n), by simp [split], by simp⟩
  exact List.ne_nil_of_mem member

/-! Trees -/

/-- Whatever stands on the disk stands in a directory, under a name that a walk can take. -/
def IsTree (d : Disk) : Prop :=
  ∀ p name n, d.get? (p ++ [name]) = some n → d.get? p = some .dir ∧ IsStep name

instance decidableIsStep (name : String) : Decidable (IsStep name) :=
  decidable_of_iff (name ≠ "." ∧ name ≠ ".." ∧ name.utf8ByteSize ≤ nameLimit)
    ⟨fun ⟨notDot, notUp, short⟩ => ⟨notDot, notUp, short⟩,
      fun step => ⟨step.notDot, step.notUp, step.short⟩⟩

/-- It is enough to look at what is on the disk. -/
theorem isTree_of_nodes (d : Disk)
    (all : ∀ e ∈ d.nodes, ∀ name ∈ e.1.getLast?, d.get? e.1.dropLast = some .dir ∧ IsStep name) :
    d.IsTree := by
  intro p name n found
  rw [get?_of_ne_nil (by simp)] at found
  obtain ⟨front, back, split, _⟩ := List.lookup_eq_some_iff.mp found
  have here := all (p ++ [name], n) (by simp [split]) name (by simp)
  simpa using here

namespace IsTree

variable (tree : d.IsTree)
include tree

theorem dir_of_append (q : Path) (found : (d.get? (p ++ q)).isSome) (more : q ≠ []) :
    d.get? p = some .dir := by
  induction q using List.reverseRecOn with
  | nil => exact absurd rfl more
  | append_singleton q name ih =>
    obtain ⟨n, found⟩ := Option.isSome_iff_exists.mp found
    rw [← List.append_assoc] at found
    have above := (tree _ _ _ found).1
    by_cases last : q = []
    · simpa [last] using above
    · exact ih (by simp [above]) last

/-- Nothing stands below a place where nothing stands. -/
theorem absent_append (q : Path) (absent : d.get? p = none) : d.get? (p ++ q) = none := by
  by_cases last : q = []
  · simpa [last] using absent
  · cases found : d.get? (p ++ q) with
    | none => rfl
    | some n =>
      have above := tree.dir_of_append q (Option.isSome_iff_exists.mpr ⟨n, found⟩) last
      simp [above] at absent

/-- The path of a directory leads there. -/
theorem walkFrom_append {follow : Bool} {links : Nat} {rest : List String} {at_ : Path}
    (names : List String) (home : d.get? (at_ ++ names) = some .dir) :
    d.walkFrom follow links at_ (names ++ rest) = d.walkFrom follow links (at_ ++ names) rest := by
  induction names generalizing at_ with
  | nil => simp
  | cons name names ih =>
    have whole : at_ ++ name :: names = at_ ++ [name] ++ names := by simp
    rw [whole] at home ⊢
    have here : d.get? (at_ ++ [name]) = some .dir := by
      by_cases last : names = []
      · simpa [last] using home
      · exact tree.dir_of_append names (Option.isSome_iff_exists.mpr ⟨_, home⟩) last
    obtain ⟨inDir, step⟩ := tree _ _ _ here
    rw [List.cons_append, walkFrom_node inDir step here (by simp), ih home]

theorem isStep_of_dir {name : String} (home : d.get? p = some .dir) (member : name ∈ p) : IsStep name := by
  obtain ⟨above, below, rfl⟩ := List.append_of_mem member
  have whole : above ++ name :: below = above ++ [name] ++ below := by simp
  rw [whole] at home
  have here : d.get? (above ++ [name]) = some .dir := by
    by_cases last : below = []
    · simpa [last] using home
    · exact tree.dir_of_append below (Option.isSome_iff_exists.mpr ⟨_, home⟩) last
  exact (tree _ _ _ here).2

theorem nameable : d.nameable.IsTree := by
  intro p name n found
  obtain ⟨checked, found⟩ := get?_nameable.mp found
  obtain ⟨inDir, step⟩ := tree _ _ _ found
  exact ⟨get?_nameable.mpr ⟨checkPath_of_append [name] checked, inDir⟩, step⟩

/-- A walk goes straight down to what is no link. -/
theorem leads_down {follow : Bool} {links : Nat} {place : Path} {rest : List String}
    (found : d.get? (place ++ rest) = some n) (noLink : ∀ target, n ≠ .link target) :
    d.Leads follow links place rest (place ++ rest) := by
  rcases List.eq_nil_or_concat rest with rfl | ⟨above, name, rfl⟩
  · simpa using Leads.here
  · rw [List.concat_eq_append, ← List.append_assoc] at found ⊢
    obtain ⟨inDir, step⟩ := tree _ _ _ found
    refine leads_of_walkFrom ?_
    rw [tree.walkFrom_append above inDir, walkFrom_node inDir step found noLink, walkFrom]

theorem put_of_dir {place : Path} {name : String} (inDir : d.get? place = some .dir)
    (step : IsStep name) (absent : d.get? (place ++ [name]) = none) (n : Node) :
    (d.put (place ++ [name]) n).IsTree := by
  intro p other m found
  have keeps := extends_put absent n
  by_cases same : p ++ [other] = place ++ [name]
  · obtain ⟨rfl, last⟩ := List.append_inj' same rfl
    obtain ⟨rfl, _⟩ := List.cons.inj last
    exact ⟨keeps _ _ inDir, step⟩
  · rw [get?_put_of_ne d same] at found
    obtain ⟨above, step⟩ := tree _ _ _ found
    exact ⟨keeps _ _ above, step⟩

end IsTree

/-! Places and what stands there -/

variable {place : Path} {follow : Bool}

theorem walk_eq_ok :
    d.walk follow p = .ok place ↔ checkPath p = .ok () ∧ d.Leads follow linkLimit [] p place := by
  rw [← walkFrom_eq_ok, walk]
  cases checked : checkPath p with
  | error e => simp [bind, Except.bind]
  | ok u => simp [bind, Except.bind]

theorem locate_eq_ok :
    d.locate follow p = .ok (place, n) ↔
      checkPath p = .ok () ∧ d.Leads follow linkLimit [] p place ∧ d.get? place = some n := by
  rw [← and_assoc, ← walk_eq_ok, locate]
  cases walked : d.walk follow p with
  | error e => simp [bind, Except.bind]
  | ok place' =>
    simp only [bind, Except.bind, Except.ok.injEq]
    cases found : d.get? place' with
    | none =>
      simp only [throw, throwThe, MonadExceptOf.throw, reduceCtorEq, false_iff, not_and]
      rintro rfl
      simp [found]
    | some m =>
      simp only [pure, Except.pure, Except.ok.injEq, Prod.mk.injEq]
      constructor
      · rintro ⟨rfl, rfl⟩
        exact ⟨rfl, found⟩
      · rintro ⟨rfl, here⟩
        exact ⟨rfl, Option.some.inj (found.symm.trans here)⟩

/-- What is found among the places that paths can name is found on the whole disk. -/
theorem locate_of_nameable (found : d.nameable.locate true p = .ok (place, n)) :
    d.locate true p = .ok (place, n) := by
  obtain ⟨checked, leads, there⟩ := locate_eq_ok.mp found
  have keeps := extends_nameable d
  exact locate_eq_ok.mpr ⟨checked, leads.extend (by simp [there]) keeps, keeps _ _ there⟩

theorem canonicalize_eq_ok :
    d.canonicalize p = .ok place ↔ ∃ n, d.nameable.locate true p = .ok (place, n) := by
  rw [canonicalize]
  cases found : d.nameable.locate true p with
  | error e => cases d.locate true p <;> simp [bind, Except.bind, throw, throwThe, MonadExceptOf.throw]
  | ok found' =>
    obtain ⟨place', n⟩ := found'
    simp [locate_of_nameable found, bind, Except.bind, pure, Except.pure]

theorem canonical?_eq_some :
    d.canonical? p = some place ↔ ∃ n, d.nameable.locate true p = .ok (place, n) := by
  rw [← canonicalize_eq_ok, canonical?]
  cases d.canonicalize p <;> simp [Except.toOption]

/-- Where paths can name everything, what a path leads to has a path without links. -/
theorem canonical?_of_locate (shallow : ∀ e ∈ d.nodes, checkPath e.1 = .ok ())
    (found : d.locate true p = .ok (place, n)) : d.canonical? p = some place := by
  have all : d.nameable = d := by
    refine congrArg Disk.mk (List.filter_eq_self.mpr fun e member => ?_)
    rw [shallow e member]
    rfl
  exact canonical?_eq_some.mpr ⟨n, by rwa [all]⟩

theorem locate_of_canonical? (found : d.canonical? p = some place) : ∃ n, d.locate true p = .ok (place, n) := by
  obtain ⟨n, found⟩ := canonical?_eq_some.mp found
  exact ⟨n, locate_of_nameable found⟩

theorem named?_eq_some :
    d.named? p = some n ↔ ∃ place, d.locate false p = .ok (place, n) := by
  rw [named?]
  cases d.locate false p with
  | error e => simp [Except.toOption]
  | ok found =>
    obtain ⟨place, n'⟩ := found
    simp [Except.toOption]

theorem readFile_eq_ok {content : ByteArray} :
    d.readFile p = .ok content ↔ ∃ place, d.locate true p = .ok (place, .file content) := by
  rw [readFile]
  cases d.locate true p with
  | error e => simp [bind, Except.bind]
  | ok found =>
    obtain ⟨place, n⟩ := found
    cases n <;> simp [bind, Except.bind, pure, Except.pure, throw, throwThe, MonadExceptOf.throw]

theorem listDir_eq_ok {names : List String} :
    d.listDir p = .ok names ↔ ∃ place, d.locate true p = .ok (place, .dir) ∧ names = d.names place := by
  rw [listDir]
  cases d.locate true p with
  | error e => simp [bind, Except.bind]
  | ok found =>
    obtain ⟨place, n⟩ := found
    cases n <;> simp [bind, Except.bind, pure, Except.pure, throw, throwThe, MonadExceptOf.throw, eq_comm]

theorem isDir_eq_true : d.isDir p = true ↔ ∃ place, d.locate true p = .ok (place, .dir) := by
  rw [isDir]
  cases d.locate true p with
  | error e => simp
  | ok found =>
    obtain ⟨place, n⟩ := found
    cases n <;> simp

/-- What a path leads to through all links has an entry at the path itself. -/
theorem named?_of_locate (found : d.locate true p = .ok (place, n)) : (d.named? p).isSome := by
  obtain ⟨checked, leads, there⟩ := locate_eq_ok.mp found
  obtain ⟨stop, direct, same | ⟨target, link⟩⟩ := leads.unfollowed (by simp [there])
  · have stands := same ▸ there
    exact Option.isSome_iff_exists.mpr ⟨n, named?_eq_some.mpr ⟨stop, locate_eq_ok.mpr ⟨checked, direct, stands⟩⟩⟩
  · exact Option.isSome_iff_exists.mpr
      ⟨_, named?_eq_some.mpr ⟨stop, locate_eq_ok.mpr ⟨checked, direct, link⟩⟩⟩

/-- Every front part of a path that is there is there. -/
theorem named?_front {front : Path} (back : List String) (there : (d.named? (front ++ back)).isSome) :
    (d.named? front).isSome := by
  rcases List.eq_nil_or_concat back with rfl | ⟨back, name, rfl⟩
  · rwa [List.append_nil] at there
  · rw [List.concat_eq_append, ← List.append_assoc] at there
    obtain ⟨n, entry⟩ := Option.isSome_iff_exists.mp there
    obtain ⟨place, found⟩ := named?_eq_some.mp entry
    obtain ⟨checked, leads, _⟩ := locate_eq_ok.mp found
    obtain ⟨above, leads, inDir⟩ := leads.parent
    obtain ⟨mid, leads, stands⟩ := leads.front_there back (by simp [inDir])
    obtain ⟨m, stands⟩ := Option.isSome_iff_exists.mp stands
    rw [List.append_assoc] at checked
    exact named?_of_locate (locate_eq_ok.mpr ⟨checkPath_of_append _ checked, leads, stands⟩)

theorem IsTree.dir_dropLast (tree : d.IsTree) (inDir : d.get? p = some .dir) :
    d.get? p.dropLast = some .dir := by
  induction p using List.reverseRecOn with
  | nil => exact inDir
  | append_singleton p name _ =>
    rw [List.dropLast_concat]
    exact (tree _ _ _ inDir).1

/-- A walk that follows all links ends at none. -/
theorem Leads.ne_link {links : Nat} {at_ : Path} {rest : List String}
    (leads : d.Leads true links at_ rest place) (tree : d.IsTree)
    (start : ∀ target, d.get? at_ ≠ some (.link target)) (target : String) :
    d.get? place ≠ some (.link target) := by
  induction leads with
  | here => exact start target
  | dot _ _ ih => exact ih start
  | up inDir _ ih => exact ih (by simp [tree.dir_dropLast inDir])
  | node _ _ found noLink _ ih =>
    exact ih fun target other => noLink target (Option.some.inj (found.symm.trans other))
  | @link _ at_ _ _ target _ inDir _ _ _ _ ih =>
    refine ih ?_
    by_cases top : isAbsolute target
    · simp [top, get?_nil]
    · simp [top, inDir]
  | stop _ _ _ notFollowed => cases notFollowed
  | fresh _ _ absent => simp [absent]

/-- A place where nothing stands is the next step from a directory. -/
theorem Leads.of_absent {links : Nat} {at_ : Path} {rest : List String}
    (leads : d.Leads follow links at_ rest place) (tree : d.IsTree) (start : (d.get? at_).isSome)
    (absent : d.get? place = none) :
    ∃ above name, place = above ++ [name] ∧ d.get? above = some .dir ∧ IsStep name := by
  induction leads with
  | here => simp [absent] at start
  | dot _ _ ih => exact ih start absent
  | up inDir _ ih => exact ih (by simp [tree.dir_dropLast inDir]) absent
  | node _ _ found _ _ ih => exact ih (by simp [found]) absent
  | @link _ at_ _ _ target _ inDir _ _ _ _ ih =>
    refine ih ?_ absent
    by_cases top : isAbsolute target
    · simp [top, get?_nil]
    · simp [top, inDir]
  | stop _ _ found => simp [absent] at found
  | fresh inDir step => exact ⟨_, _, rfl, inDir, step⟩

end ScriptTools.Files.Disk
