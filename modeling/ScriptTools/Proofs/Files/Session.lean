import ScriptTools.Proofs.Files.Outcome
import ScriptTools.Proofs.Files.Removal

/-!
Access from its creation on: the disk stays a tree and the root stays a directory, whatever a script calls.
-/

namespace ScriptTools.Files

open Disk

namespace Disk

variable {d d' : Disk} {p place : Path}

/-- What a directory is made at leads to it afterwards. -/
theorem Leads.made {links : Nat} {at_ : Path} {rest : List String}
    (leads : d.Leads false links at_ rest place) (tree : d.IsTree) (start : (d.get? at_).isSome)
    (absent : d.get? place = none) : (d.put place .dir).Leads true links at_ rest place := by
  have keeps := extends_put absent .dir
  induction leads with
  | here => exact .here
  | dot inDir _ ih => exact .dot (keeps _ _ inDir) (ih start absent keeps)
  | up inDir _ ih => exact .up (keeps _ _ inDir) (ih (by simp [tree.dir_dropLast inDir]) absent keeps)
  | node inDir step found noLink _ ih =>
    exact .node (keeps _ _ inDir) step (keeps _ _ found) noLink (ih (by simp [found]) absent keeps)
  | @link _ at_ _ _ target _ inDir step found _ _ ih =>
    refine .link (keeps _ _ inDir) step (keeps _ _ found) (.inr rfl) (ih ?_ absent keeps)
    by_cases top : isAbsolute target
    · simp [top, get?_nil]
    · simp [top, inDir]
  | stop _ _ found => simp [absent] at found
  | fresh inDir step =>
    exact .node (keeps _ _ inDir) step (get?_put_self d (by simp) .dir) (by simp) .here

theorem isDir_of_makeDir (tree : d.IsTree) (made : d.makeDir p = .ok d') : d'.isDir p = true := by
  obtain ⟨place, walked, absent, rfl⟩ := makeDir_eq_ok.mp made
  obtain ⟨checked, leads⟩ := walk_eq_ok.mp walked
  obtain ⟨above, name, rfl, _⟩ := leads.of_absent tree (by simp [get?_nil]) absent
  refine isDir_eq_true.mpr ⟨above ++ [name], locate_eq_ok.mpr ⟨checked, ?_, get?_put_self d (by simp) .dir⟩⟩
  exact leads.made tree (by simp [get?_nil]) absent

/-- Where making directories succeeds there is a directory. -/
theorem isDir_of_makeDirs (tree : d.IsTree) (made : d.makeDirs p = (d', .ok ())) : d'.isDir p = true := by
  rcases List.eq_nil_or_concat p with rfl | ⟨above, name, rfl⟩
  · cases made
    exact isDir_eq_true.mpr ⟨[], locate_eq_ok.mpr ⟨rfl, .here, rfl⟩⟩
  · rw [List.concat_eq_append] at made ⊢
    rw [makeDirs_concat] at made
    split at made
    · rename_i direct
      cases made
      exact isDir_of_makeDir tree direct
    · split at made
      · cases made
      · rename_i d₁ outcome
        split at made
        · rename_i next
          cases made
          cases again : d₁.makeDir (above ++ [name]) with
          | ok d₂ =>
            rw [again] at next
            cases next
            exact isDir_of_makeDir (makeDirs_isTree tree outcome) again
          | error e =>
            rw [again, ensured] at next
            split at next
            · rename_i there
              cases next
              exact there
            · cases next
        · cases made
    · split at made
      · rename_i there
        cases made
        exact there
      · cases made

namespace IsTree

variable (tree : d.IsTree)
include tree

/-- A file may take the place of a file. -/
theorem put_of_file {old new : ByteArray} (found : d.get? p = some (.file old)) :
    (d.put p (.file new)).IsTree := by
  intro above name n here
  have notAbove : ∀ q, d.get? q = some .dir → (d.put p (.file new)).get? q = some .dir := by
    intro q inDir
    rw [get?_put_of_ne d (by rintro rfl; simp [found] at inDir), inDir]
  by_cases same : above ++ [name] = p
  · subst same
    obtain ⟨inDir, step⟩ := tree _ _ _ found
    exact ⟨notAbove _ inDir, step⟩
  · rw [get?_put_of_ne d same] at here
    obtain ⟨inDir, step⟩ := tree _ _ _ here
    exact ⟨notAbove _ inDir, step⟩

/-- What has nothing below it may go. -/
theorem erase_of_empty {n : Node} (found : d.get? p = some n) (empty : n = .dir → d.names p = []) :
    (d.erase p).IsTree := by
  intro above name m here
  have other : above ++ [name] ≠ p := by
    rintro rfl
    rw [get?_erase_self d (by simp)] at here
    cases here
  rw [get?_erase_of_ne d other] at here
  obtain ⟨inDir, step⟩ := tree _ _ _ here
  refine ⟨?_, step⟩
  rw [get?_erase_of_ne d ?_, inDir]
  rintro rfl
  exact names_ne_nil here (empty (Option.some.inj (found.symm.trans inDir)))

end IsTree

theorem writeFile_isTree {content : ByteArray} (tree : d.IsTree) (written : d.writeFile p content = .ok d') :
    d'.IsTree := by
  obtain ⟨place, walked, notDir, rfl⟩ := writeFile_eq_ok.mp written
  obtain ⟨_, leads⟩ := walk_eq_ok.mp walked
  cases found : d.get? place with
  | none =>
    obtain ⟨above, name, rfl, inDir, step⟩ := leads.of_absent tree (by simp [get?_nil]) found
    exact tree.put_of_dir inDir step found _
  | some n =>
    cases n with
    | file old => exact tree.put_of_file found
    | dir => exact absurd found notDir
    | link target => exact absurd found (leads.ne_link tree (by simp [get?_nil]) target)

end Disk

namespace Access

variable {a : Access} {d d' : Disk}

/-- What a script may call. -/
inductive Call where
  | read (path : String)
  | write (path content : String)
  | delete (path : String)
  | isThere (path : String)
  | list (path : String)

/-- The disk after a call. -/
def Call.after (a : Access) (d : Disk) : Call → Disk
  | .write path content => (a.write d path content).1
  | .delete path => (a.delete d path).1
  | .read _ | .isThere _ | .list _ => d

/-- A disk with the root that access was created for. -/
structure Holds (a : Access) (d : Disk) : Prop where
  tree : d.IsTree
  home : d.get? a.root = some .dir

/-- Access is created for the path without links to the directory that was made. -/
theorem create_eq_ok {root : Path} {policy : Policy} (run : create d root policy = (d', .ok a)) :
    d.makeDirs root = (d', .ok ()) ∧ d'.canonicalize root = .ok a.root := by
  rw [create] at run
  split at run
  · cases run
  · rename_i made
    obtain ⟨rfl, ran⟩ := Prod.mk.inj run
    obtain ⟨place, canonical, rfl⟩ := map_eq_ok.mp ran
    exact ⟨made, canonical⟩

theorem create_holds {root : Path} {policy : Policy} (tree : d.IsTree)
    (run : create d root policy = (d', .ok a)) : a.Holds d' := by
  obtain ⟨made, canonical⟩ := create_eq_ok run
  obtain ⟨n, named⟩ := canonicalize_eq_ok.mp canonical
  obtain ⟨place, found⟩ := isDir_eq_true.mp (isDir_of_makeDirs tree made)
  obtain ⟨rfl, _⟩ := Prod.mk.inj (Except.ok.inj (found.symm.trans (locate_of_nameable named)))
  exact ⟨makeDirs_isTree tree made, (locate_eq_ok.mp found).2.2⟩

/-- The path of the root is one that the system takes. -/
theorem checkPath_of_create {root : Path} {policy : Policy} (run : create d root policy = (d', .ok a)) :
    checkPath a.root = .ok () := by
  obtain ⟨n, named⟩ := canonicalize_eq_ok.mp (create_eq_ok run).2
  exact (get?_nameable.mp (locate_eq_ok.mp named).2.2).1

theorem Holds.write (holds : a.Holds d) (text content : String) : a.Holds (a.write d text content).1 := by
  constructor
  · have run := writes_write a d text content
    generalize a.write d text content = out at run
    cases run with
    | refused | top => exact holds.tree
    | unmade _ _ made | unwritten _ _ made => exact makeDirs_isTree holds.tree made
    | written _ _ made written => exact writeFile_isTree (makeDirs_isTree holds.tree made) written
  · by_contra changed
    have moved : (a.write d text content).1.get? a.root ≠ d.get? a.root := by rwa [holds.home]
    exact (write_inside holds.tree holds.home moved).2.1 rfl

/-- The root stays: what is removed is a link or a file, or a directory below. -/
theorem Holds.delete (holds : a.Holds d) (text : String) : a.Holds (a.delete d text).1 := by
  rcases delete_steps a d text with ⟨same, _⟩ | ⟨full, parts, place, n, permitted, more, found, empty, same, _⟩
  · rw [same]
    exact holds
  · obtain ⟨_, leads, there⟩ := locate_eq_ok.mp found
    rw [same]
    refine ⟨holds.tree.erase_of_empty there empty, ?_⟩
    rw [get?_erase_of_ne d ?_, holds.home]
    rintro rfl
    obtain ⟨rfl, normal, _⟩ := resolve_eq_ok (resolve_of_permit permitted)
    obtain rfl := Option.some.inj (there.symm.trans holds.home)
    exact names_of_walk_back holds.tree holds.home (normalParts?_plain normal) more leads (empty rfl)

theorem Holds.after (holds : a.Holds d) (call : Call) : a.Holds (call.after a d) := by
  cases call with
  | write path content => exact holds.write path content
  | delete path => exact holds.delete path
  | read => exact holds
  | isThere => exact holds
  | list => exact holds

/-- From its creation on, access finds a tree with its root, however many calls there are. -/
theorem create_holds_after {root : Path} {policy : Policy} (tree : d.IsTree)
    (run : create d root policy = (d', .ok a)) (calls : List Call) :
    a.Holds (calls.foldl (fun d call => call.after a d) d') := by
  have start := create_holds tree run
  clear run tree
  induction calls generalizing d' with
  | nil => exact start
  | cons call calls ih => exact ih (start.after call)

/-- The path of the root leads to a directory, by no link. -/
theorem Holds.root_leads (holds : a.Holds d) (checked : checkPath a.root = .ok ()) :
    d.isDir a.root = true ∧ d.canonical? a.root = some a.root := by
  have there : d.get? ([] ++ a.root) = some .dir := holds.home
  have there' : d.nameable.get? ([] ++ a.root) = some .dir := get?_nameable.mpr ⟨checked, there⟩
  exact ⟨isDir_eq_true.mpr ⟨a.root, locate_eq_ok.mpr ⟨checked, holds.tree.leads_down there (by simp), there⟩⟩,
    canonical?_eq_some.mpr ⟨.dir, locate_eq_ok.mpr ⟨checked, holds.tree.nameable.leads_down there' (by simp), there'⟩⟩⟩

/-- The root is never removed: whatever calls a script has made, it is a directory at the path that access was created
with. -/
theorem root_stays {root : Path} {policy : Policy} (tree : d.IsTree) (run : create d root policy = (d', .ok a))
    (calls : List Call) :
    (calls.foldl (fun d call => call.after a d) d').isDir a.root = true ∧
      (calls.foldl (fun d call => call.after a d) d').canonical? a.root = some a.root :=
  (create_holds_after tree run calls).root_leads (checkPath_of_create run)

/-- A root with a link to the directory above it, which has a link back. -/
def loopDisk : Disk where
  nodes := [(["root"], .dir), (["root", "up"], .link ".."), (["back"], .link "root/up/root")]

/-- The root cannot be removed as a child of the directory above it, nor through the link there. -/
theorem root_stays_loopDisk :
    loopDisk.IsTree ∧
      (([.delete "up/root", .delete "up/back", .delete "up"] : List Call).foldl
        (fun d call => call.after ⟨["root"], .restrictive⟩ d) loopDisk).isDir ["root"] = true := by
  have tree : loopDisk.IsTree := isTree_of_nodes _ (by decide)
  have run : create loopDisk ["root"] .restrictive = (loopDisk, .ok ⟨["root"], .restrictive⟩) := by cbv
  exact ⟨tree, (root_stays tree run _).1⟩

end Access

end ScriptTools.Files
