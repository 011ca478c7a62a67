import Mathlib
import ScriptTools.Proofs.Files.Confinement

/-!
What a script can remove. The check of a path follows its last link, but the removal takes the link
itself: a link that stands outside the root and leads back inside is removed, and nothing else outside is.
-/

namespace ScriptTools.Files

open Disk

namespace Disk

variable {d d' : Disk} {p : Path}

theorem removeFile_eq_ok :
    d.removeFile p = .ok d' ↔
      ∃ place n, d.locate false p = .ok (place, n) ∧ n ≠ .dir ∧ d' = d.erase place := by
  rw [removeFile]
  cases d.locate false p with
  | error e => simp [bind, Except.bind]
  | ok found =>
    obtain ⟨place, n⟩ := found
    cases n <;> simp [bind, Except.bind, pure, Except.pure, throw, throwThe, MonadExceptOf.throw, eq_comm]

theorem removeDir_eq_ok :
    d.removeDir p = .ok d' ↔
      ∃ place, d.locate false p = .ok (place, .dir) ∧ d.names place = [] ∧ d' = d.erase place := by
  rw [removeDir]
  cases d.locate false p with
  | error e => simp [bind, Except.bind]
  | ok found =>
    obtain ⟨place, n⟩ := found
    cases n with
    | dir =>
      by_cases empty : d.names place = []
      · simp [bind, Except.bind, pure, Except.pure, empty, eq_comm (a := d')]
      · simp [bind, Except.bind, throw, throwThe, MonadExceptOf.throw, empty]
    | _ => simp [bind, Except.bind, throw, throwThe, MonadExceptOf.throw]

/-- A path that goes on below a directory leads back there only if that directory has names. -/
theorem names_of_walk_back {follow : Bool} {root parts : List String} (tree : d.IsTree)
    (home : d.get? root = some .dir) (plain : ∀ name ∈ parts, name ≠ "." ∧ name ≠ "..") (more : parts ≠ [])
    (leads : d.Leads follow linkLimit [] (root ++ parts) root) : d.names root ≠ [] := by
  have rest := leads.walkFrom
  rw [tree.walkFrom_append root (by simpa using home), List.nil_append] at rest
  obtain ⟨first, later, rfl⟩ := List.exists_cons_of_ne_nil more
  have back : ∀ dest, d.Leads follow linkLimit root (first :: later) dest → dest = root →
      d.names root ≠ [] := by
    intro dest leads same
    have longer : root ++ [first] ≠ root := by simp
    cases leads with
    | dot => exact absurd rfl (plain "." (List.mem_cons_self ..)).1
    | up => exact absurd rfl (plain ".." (List.mem_cons_self ..)).2
    | node _ _ found => exact names_ne_nil found
    | link _ _ found => exact names_ne_nil found
    | stop => exact absurd same longer
    | fresh => exact absurd same longer
  exact back root (leads_of_walkFrom rest) rfl

end Disk

namespace Access

variable {a : Access} {d : Disk} {text : String} {full : Path} {parts : List String}

/-- What a script removes is what stands at the path itself. -/
theorem delete_steps (a : Access) (d : Disk) (text : String) :
    ((a.delete d text).1 = d ∧ (a.delete d text).2 ≠ .ok true) ∨
      ∃ full parts place n, a.permit d .fsWrite text = .ok (full, parts) ∧ parts ≠ [] ∧
        d.locate false full = .ok (place, n) ∧ (n = .dir → d.names place = []) ∧
        (a.delete d text).1 = d.erase place ∧ (a.delete d text).2 = .ok true := by
  rw [delete]
  split
  · exact .inl ⟨rfl, by simp⟩
  · rename_i full parts permitted
    split
    · exact .inl ⟨rfl, by simp⟩
    · rename_i more
      simp only
      split
      · rename_i d' removed
        refine .inr ⟨full, parts, ?_⟩
        have some : parts ≠ [] := by simpa using more
        split at removed
        · obtain ⟨place, found, empty, rfl⟩ := removeDir_eq_ok.mp removed
          exact ⟨place, .dir, permitted, some, found, fun _ => empty, rfl, rfl⟩
        · obtain ⟨place, n, found, notDir, rfl⟩ := removeFile_eq_ok.mp removed
          exact ⟨place, n, permitted, some, found, fun inDir => absurd inDir notDir, rfl, rfl⟩
        · cases removed
      · exact .inl ⟨rfl, by simp⟩

/-- Removing changes only what stands at the path itself, which is gone afterwards. -/
theorem delete_place {p : Path} (changed : (a.delete d text).1.get? p ≠ d.get? p) :
    ∃ full parts n, a.permit d .fsWrite text = .ok (full, parts) ∧ d.locate false full = .ok (p, n) ∧
      (a.delete d text).1.get? p = none := by
  rcases delete_steps a d text with ⟨same, _⟩ | ⟨full, parts, place, n, permitted, _, found, _, same, _⟩
  · exact absurd (by rw [same]) changed
  rw [same] at changed ⊢
  have here : p = place := by
    by_contra other
    exact changed (get?_erase_of_ne d other)
  subst here
  have below : p ≠ [] := by
    rintro rfl
    simp [get?_nil] at changed
  exact ⟨full, parts, n, permitted, found, get?_erase_self d below⟩

/-- A link that a permitted path ends at is removed. -/
theorem delete_of_link {place : Path} {target : String}
    (permitted : a.permit d .fsWrite text = .ok (full, parts)) (more : parts ≠ [])
    (found : d.locate false full = .ok (place, .link target)) :
    (a.delete d text).1 = d.erase place := by
  have entry : d.named? full = some (.link target) := named?_eq_some.mpr ⟨place, found⟩
  have removed : d.removeFile full = .ok (d.erase place) :=
    removeFile_eq_ok.mpr ⟨place, _, found, by simp, rfl⟩
  rw [delete, permitted]
  simp only [List.isEmpty_iff, more, if_false, entry, removed]

theorem prefix_dropLast {root place : Path} (within : root <+: place) (other : place ≠ root) :
    root <+: place.dropLast := by
  obtain ⟨rest, rfl⟩ := within
  have more : rest ≠ [] := by
    rintro rfl
    simp at other
  rw [List.dropLast_append_of_ne_nil more]
  exact List.prefix_append root _

/-- Deletion stays in the root exactly when no link that a permitted path ends at stands outside. -/
theorem delete_confined_iff (a : Access) (d : Disk) (tree : d.IsTree) (home : d.get? a.root = some .dir)
    (text : String) :
    (∀ p, (a.delete d text).1.get? p ≠ d.get? p → a.root <+: p.dropLast) ↔
      ∀ full parts place target, a.permit d .fsWrite text = .ok (full, parts) → parts ≠ [] →
        d.locate false full = .ok (place, .link target) → a.root <+: place.dropLast := by
  constructor
  · intro confined full parts place target permitted more found
    obtain ⟨_, _, link⟩ := locate_eq_ok.mp found
    have below : place ≠ [] := by
      rintro rfl
      cases link
    refine confined place ?_
    rw [delete_of_link permitted more found, get?_erase_self d below, link]
    simp
  · intro links p changed
    rcases delete_steps a d text with ⟨same, _⟩ | ⟨full, parts, place, n, permitted, more, found, empty, same, _⟩
    · exact absurd (by rw [same]) changed
    rw [same] at changed
    have here : p = place := by
      by_contra other
      exact changed (get?_erase_of_ne d other)
    subst here
    have followed (noLink : ∀ target, n ≠ .link target) : a.root <+: p := by
      obtain ⟨checked, leads, there⟩ := locate_eq_ok.mp found
      have found := locate_eq_ok.mpr ⟨checked, leads.followed there noLink, there⟩
      exact prefix_of_resolve (resolve_of_permit permitted) found
    cases n with
    | link target => exact links full parts p target permitted more found
    | file content =>
      refine prefix_dropLast (followed (by simp)) ?_
      rintro rfl
      obtain ⟨_, _, there⟩ := locate_eq_ok.mp found
      rw [home] at there
      cases there
    | dir =>
      refine prefix_dropLast (followed (by simp)) ?_
      rintro rfl
      obtain ⟨rfl, normal, _⟩ := resolve_eq_ok (resolve_of_permit permitted)
      obtain ⟨_, leads, _⟩ := locate_eq_ok.mp found
      exact names_of_walk_back tree home (normalParts?_plain normal) more leads (empty rfl)

theorem delete_confined_iff_linkedDisk :
    linkedDisk.IsTree ∧ linkedDisk.get? ["root"] = some .dir ∧
      ∀ p, ((⟨["root"], .restrictive⟩ : Access).delete linkedDisk "a").1.get? p ≠ linkedDisk.get? p →
        ["root"] <+: p.dropLast := by
  have tree : linkedDisk.IsTree := isTree_of_nodes _ (by decide +kernel)
  have home : linkedDisk.get? ["root"] = some .dir := by decide
  refine ⟨tree, home, (delete_confined_iff ⟨["root"], .restrictive⟩ linkedDisk tree home "a").mpr ?_⟩
  intro full parts place target permitted _ found
  obtain ⟨rfl, normal, _⟩ := resolve_eq_ok (resolve_of_permit permitted)
  have path : normalParts? "a" = some ["a"] := by decide
  cases path.symm.trans normal
  have there : linkedDisk.named? ["root", "a"] = some (.file "x".toUTF8) := by cbv
  cases there.symm.trans (named?_eq_some.mpr ⟨place, found⟩)

theorem linkedDisk_out {follow : Bool} {place : Path}
    (next : linkedDisk.Leads follow 39 ["other"] ["back"] place) :
    linkedDisk.Leads follow linkLimit [] ["root", "out", "back"] place := by
  have target : steps "/other" = ["other"] := by decide
  refine .node rfl (by decide) (n := .dir) (by decide) (by simp) ?_
  refine .link (by decide) (by decide) (by decide : _ = some (Node.link "/other")) (.inl (by simp)) ?_
  rw [target]
  exact .node rfl (by decide) (n := .dir) (by decide) (by simp) next

theorem linkedDisk_back : linkedDisk.Leads true 39 ["other"] ["back"] ["root", "a"] := by
  have target : steps "/root/a" = ["root", "a"] := by decide
  refine .link (by decide) (by decide) (by decide : _ = some (Node.link "/root/a")) (.inr rfl) ?_
  rw [target]
  refine .node rfl (by decide) (n := .dir) (by decide) (by simp) ?_
  exact .node (by decide) (by decide) (n := .file "x".toUTF8) (by decide) (by simp) .here

/-- The way out of the root and back leads to a link outside, which is removed. -/
theorem delete_not_confined_linkedDisk :
    linkedDisk.IsTree ∧ linkedDisk.get? ["root"] = some .dir ∧
      linkedDisk.get? ["other", "back"] = some (.link "/root/a") ∧
      ((⟨["root"], .restrictive⟩ : Access).delete linkedDisk "out/back").1.get? ["other", "back"] = none ∧
      ¬ ["root"] <+: (["other", "back"] : Path).dropLast := by
  have stands : linkedDisk.get? ["other", "back"] = some (.link "/root/a") := by decide
  have link : linkedDisk.locate false ["root", "out", "back"] = .ok (["other", "back"], .link "/root/a") :=
    locate_eq_ok.mpr ⟨by decide +kernel, linkedDisk_out (.stop (by decide) (by decide +kernel) stands rfl), stands⟩
  have leads : linkedDisk.locate true ["root", "out", "back"] = .ok (["root", "a"], .file "x".toUTF8) :=
    locate_eq_ok.mpr ⟨by decide +kernel, linkedDisk_out linkedDisk_back, by decide +kernel⟩
  have file := canonical?_of_locate (by decide +kernel) leads
  have normal : normalParts? "out/back" = some ["out", "back"] := by decide +kernel
  have allowed : Policy.restrictive.require ⟨.fsWrite, some (scopeText ["out", "back"])⟩ = .ok () := by
    decide +kernel
  have path : (⟨["root"], .restrictive⟩ : Access).permit linkedDisk .fsWrite "out/back" =
      .ok (["root", "out", "back"], ["out", "back"]) := by
    have entry : linkedDisk.named? ["root", "out", "back"] = some (.link "/root/a") :=
      named?_eq_some.mpr ⟨_, link⟩
    simp [permit, resolve, normal, staysInside, entry, file, allowed, bind, Except.bind, pure, Except.pure]
  refine ⟨isTree_of_nodes _ (by decide +kernel), by decide, stands, ?_, by decide⟩
  rw [delete_of_link path (by simp) link, get?_erase_self linkedDisk (by simp)]

end Access

end ScriptTools.Files
