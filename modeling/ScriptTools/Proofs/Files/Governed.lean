import ScriptTools.Proofs.Files.Session
import ScriptTools.Proofs.Policy.Checked

/-!
Which files the policy is asked about. It is asked about the path that a script gives, so it governs the
files that are really touched as long as no link stands on that path; behind a link the file has a path of
its own, and the policy is not asked about that one.
-/

namespace ScriptTools.Files.Access

open Disk

variable {a : Access} {d : Disk} {text : String} {full : Path} {parts q : List String}

/-- Whether the policy allows a kind of access to a path below the root. -/
def Allows (a : Access) (access : ScriptTools.Access) (parts : List String) : Prop :=
  a.policy.check ⟨access, some (scopeText parts)⟩ = .ok ()

theorem allows_of_permit {access : ScriptTools.Access} (run : a.permit d access text = .ok (full, parts)) :
    full = a.root ++ parts ∧ normalParts? text = some parts ∧ a.Allows access parts := by
  obtain ⟨rfl, normal, _⟩ := resolve_eq_ok (resolve_of_permit run)
  obtain ⟨⟨_, _⟩, resolved, run⟩ := bind_eq_ok.mp run
  obtain ⟨_, required, run⟩ := bind_eq_ok.mp run
  cases run
  exact ⟨rfl, normal, Policy.require_eq_ok.mp required⟩

/-- A path that is there up to a place inside goes to the policy with its normal form. -/
theorem permit_of_reaches {access : ScriptTools.Access} {front back : List String} {place : Path}
    (normal : normalParts? text = some parts) (whole : a.root ++ parts = front ++ back)
    (reach : d.Reaches front back place) (found : d.canonical? front = some place) (inside : a.root <+: place)
    (allowed : a.Allows access parts) : a.permit d access text = .ok (front ++ back, parts) := by
  have resolved : a.resolve d text = .ok (front ++ back, parts) := by
    simp only [resolve, normal, whole, staysInside_of_reaches reach found inside, if_true]
  rw [permit, resolved]
  simp only [bind, Except.bind, Policy.require_eq_ok.mpr allowed, pure, Except.pure]

namespace Call

/-- The path that a script gives. -/
def path : Call → String
  | .read path | .write path _ | .delete path | .isThere path | .list path => path

/-- The files below the root that a call touches: those that it adds, changes or removes, and the one whose
content it gives to the script. -/
inductive Touches (a : Access) (d : Disk) : Call → ScriptTools.Access → List String → Prop
  | changed {call : Call} {q : List String} {content : ByteArray}
      (changed : (call.after a d).get? (a.root ++ q) ≠ d.get? (a.root ++ q))
      (isFile : d.get? (a.root ++ q) = some (.file content) ∨
        (call.after a d).get? (a.root ++ q) = some (.file content)) : Touches a d call .fsWrite q
  | read {text s : String} {full : Path} {parts q : List String} {content : ByteArray}
      (permitted : a.permit d .fsRead text = .ok (full, parts)) (given : a.read d text = .ok (some s))
      (found : d.locate true full = .ok (a.root ++ q, .file content)) : Touches a d (.read text) .fsRead q

/-- Whether a link stands on the path of a call, below the root. -/
def Linked (a : Access) (d : Disk) (call : Call) : Prop :=
  ∃ parts front target, normalParts? call.path = some parts ∧ front ≠ [] ∧ front <+: parts ∧
    d.get? (a.root ++ front) = some (.link target)

end Call

/-- Where no link stands a path leads to itself. -/
theorem Holds.straight {follow : Bool} {front place : Path} (holds : a.Holds d)
    (normal : normalParts? text = some parts)
    (direct : ∀ front target, front ≠ [] → front <+: parts → d.get? (a.root ++ front) ≠ some (.link target))
    (within : front <+: a.root ++ parts) (leads : d.Leads follow linkLimit [] front place) : place = front := by
  refine leads.straight (fun name member => ?_) (fun before more inFront target => ?_)
  · rcases List.mem_append.mp (within.subset member) with inRoot | inParts
    · have step := holds.tree.isStep_of_dir holds.home inRoot
      exact ⟨step.notDot, step.notUp⟩
    · exact normalParts?_plain normal name inParts
  · rw [List.nil_append]
    rcases List.prefix_or_prefix_of_prefix (inFront.trans within) (List.prefix_append a.root parts) with
      ⟨rest, above⟩ | ⟨below, rfl⟩
    · have inDir : d.get? before = some .dir := by
        by_cases last : rest = []
        · rw [last, List.append_nil] at above
          rw [above, holds.home]
        · exact holds.tree.dir_of_append rest (by simp [above, holds.home]) last
      simp [inDir]
    · by_cases last : below = []
      · simp [last, holds.home]
      · exact direct below target last ((List.prefix_append_right_inj a.root).mp (inFront.trans within))

/-- Where no link stands on the path of a call, the policy allows what the call touches. -/
theorem Holds.allows_of_touches {call : Call} {access : ScriptTools.Access} (holds : a.Holds d)
    (touches : call.Touches a d access q) (direct : ¬ call.Linked a d) : a.Allows access q := by
  have noLink {parts : List String} (normal : normalParts? call.path = some parts) (front : List String)
      (target : String) (more : front ≠ []) (within : front <+: parts) :
      d.get? (a.root ++ front) ≠ some (.link target) :=
    fun link => direct ⟨parts, front, target, normal, more, within, link⟩
  cases touches with
  | @read text s full parts q content permitted given found =>
    obtain ⟨rfl, normal, allowed⟩ := allows_of_permit permitted
    obtain ⟨_, leads, _⟩ := locate_eq_ok.mp found
    have here := holds.straight normal (noLink normal) (List.prefix_refl _) leads
    rwa [List.append_cancel_left here]
  | @changed _ _ content changed isFile =>
    cases call with
    | read | isThere | list => exact absurd rfl changed
    | write text written =>
      obtain ⟨front, back, parts, place, permitted, reach, _, _, steps⟩ :=
        write_place holds.tree holds.home changed
      obtain ⟨whole, normal, allowed⟩ := allows_of_permit permitted
      have here := holds.straight normal (noLink normal) ⟨back, whole⟩ reach.leads
      rcases steps with ⟨absent, inDir⟩ | ⟨atEnd, _⟩
      · rcases isFile with before | after
        · simp [absent] at before
        · simp only [Call.after, inDir] at after
          cases after
      · rw [here, whole] at atEnd
        rwa [List.append_cancel_left atEnd]
    | delete text =>
      obtain ⟨full, parts, n, permitted, found, _⟩ := delete_place changed
      obtain ⟨rfl, normal, allowed⟩ := allows_of_permit permitted
      obtain ⟨_, leads, _⟩ := locate_eq_ok.mp found
      have here := holds.straight normal (noLink normal) (List.prefix_refl _) leads
      rwa [List.append_cancel_left here]

/-! Sequences of calls -/

/-- Whether something holds of every call of a sequence and the disk that it finds. -/
def Throughout (a : Access) (P : Disk → Call → Prop) : Disk → List Call → Prop
  | _, [] => True
  | d, call :: calls => P d call ∧ a.Throughout P (call.after a d) calls

theorem Holds.throughout_iff {P Q : Disk → Call → Prop} (same : ∀ d call, a.Holds d → (P d call ↔ Q d call))
    (holds : a.Holds d) (calls : List Call) : a.Throughout P d calls ↔ a.Throughout Q d calls := by
  induction calls generalizing d with
  | nil => rfl
  | cons call calls ih => exact and_congr (same d call holds) (ih (holds.after call))

/-- Every file that is touched is one that the policy allows, exactly when those are that are touched through
a link. -/
theorem touched_allowed_iff (holds : a.Holds d) (calls : List Call) :
    a.Throughout (fun d call => ∀ access q, call.Touches a d access q → a.Allows access q) d calls ↔
      a.Throughout (fun d call => call.Linked a d → ∀ access q, call.Touches a d access q → a.Allows access q)
        d calls := by
  refine holds.throughout_iff (fun d call holds => ?_) calls
  constructor
  · exact fun governed _ => governed
  · intro linked access q touches
    by_cases direct : call.Linked a d
    · exact linked direct access q touches
    · exact holds.allows_of_touches touches direct

/-- A root in which a link leads from a directory to a file above it. -/
def sharedDisk : Disk where
  nodes := [(["root"], .dir), (["root", "out"], .dir), (["root", "out", "l"], .link "../secret"),
    (["root", "secret"], .file "x".toUTF8)]

/-- Access that may read and write below one directory. -/
def outOnly : Access := ⟨["root"], { fsRead := ["out/**"], fsWrite := ["out/**"] }⟩

theorem sharedDisk_holds : outOnly.Holds sharedDisk :=
  ⟨isTree_of_nodes _ (by decide), by decide⟩

theorem sharedDisk_out : sharedDisk.locate true ["root", "out"] = .ok (["root", "out"], .dir) := by
  have out : sharedDisk.get? ([] ++ ["root", "out"]) = some .dir := by decide
  exact locate_eq_ok.mpr ⟨by decide, sharedDisk_holds.tree.leads_down out (by simp), out⟩

theorem touched_allowed_iff_sharedDisk :
    outOnly.Holds sharedDisk ∧
      outOnly.Throughout (fun d call => ∀ access q, call.Touches outOnly d access q → outOnly.Allows access q)
        sharedDisk [.write "out/a" "y"] := by
  refine ⟨sharedDisk_holds, (touched_allowed_iff sharedDisk_holds [.write "out/a" "y"]).mpr ⟨?_, trivial⟩⟩
  rintro ⟨parts, front, target, normal, more, within, link⟩
  have path : normalParts? "out/a" = some ["out", "a"] := by decide +kernel
  obtain rfl := Option.some.inj (path.symm.trans normal)
  obtain ⟨first, later, rfl⟩ := List.exists_cons_of_ne_nil more
  obtain ⟨rfl, below⟩ := List.cons_prefix_cons.mp within
  have dir : sharedDisk.get? (outOnly.root ++ ["out"]) = some .dir := by decide
  have absent : sharedDisk.get? (outOnly.root ++ ["out", "a"]) = none := by decide
  rcases List.prefix_cons_iff.mp below with rfl | ⟨rest, rfl, last⟩
  · simp [dir] at link
  · obtain rfl := List.prefix_nil.mp last
    simp [absent] at link

/-- Reading through the link gives the content of a file that may not be read. -/
theorem touched_not_allowed_sharedDisk :
    outOnly.Holds sharedDisk ∧ (Call.read "out/l").Touches outOnly sharedDisk .fsRead ["secret"] ∧
      ¬ outOnly.Allows .fsRead ["secret"] := by
  have target : steps "../secret" = ["..", "secret"] := by decide +kernel
  have leads : sharedDisk.Leads true linkLimit [] ["root", "out", "l"] ["root", "secret"] := by
    refine .node rfl (by decide +kernel) (n := .dir) (by decide) (by simp) ?_
    refine .node (by decide) (by decide +kernel) (n := .dir) (by decide) (by simp) ?_
    refine .link (by decide) (by decide +kernel) (by decide : _ = some (Node.link "../secret")) (.inr rfl) ?_
    rw [target]
    refine .up (by decide) ?_
    exact .node (by decide) (by decide +kernel) (n := .file "x".toUTF8) (by decide +kernel) (by simp) .here
  have found : sharedDisk.locate true ["root", "out", "l"] = .ok (["root", "secret"], .file "x".toUTF8) :=
    locate_eq_ok.mpr ⟨by decide +kernel, leads, by decide +kernel⟩
  have permitted : outOnly.permit sharedDisk .fsRead "out/l" = .ok (["root", "out", "l"], ["out", "l"]) := by
    have normal : normalParts? "out/l" = some ["out", "l"] := by decide +kernel
    have entry := named?_of_locate found
    have file := canonical?_of_locate (by decide +kernel) found
    have allowed : outOnly.policy.require ⟨.fsRead, some (scopeText ["out", "l"])⟩ = .ok () := by decide +kernel
    have root : outOnly.root = ["root"] := rfl
    simp [permit, resolve, normal, staysInside, root, entry, file, allowed, bind, Except.bind, pure, Except.pure]
  have given : outOnly.read sharedDisk "out/l" = .ok (some (Text.ofBytesRepaired "x".toUTF8)) := by
    simp [read, permitted, readFile_eq_ok.mpr ⟨_, found⟩, bind, Except.bind, pure, Except.pure]
  refine ⟨sharedDisk_holds, .read permitted given found, fun allowed => ?_⟩
  have refused : (outOnly.policy.check ⟨.fsRead, some (scopeText ["secret"])⟩).isOk = false := by decide +kernel
  rw [allowed] at refused
  cases refused

/-- Whether no link stands below the root. -/
def Unlinked (a : Access) (d : Disk) : Prop := ∀ q target, d.get? (a.root ++ q) ≠ some (.link target)

/-- No call adds a link. -/
theorem Holds.unlinked_after (holds : a.Holds d) (unlinked : a.Unlinked d) (call : Call) :
    a.Unlinked (call.after a d) := by
  intro q target
  by_cases changed : (call.after a d).get? (a.root ++ q) = d.get? (a.root ++ q)
  · rw [changed]
    exact unlinked q target
  cases call with
  | read | isThere | list => exact absurd rfl changed
  | write text content =>
    obtain ⟨_, _, ⟨_, now⟩ | ⟨_, now⟩⟩ := write_inside holds.tree holds.home changed
    · simp [Call.after, now]
    · simp [Call.after, now]
  | delete text =>
    obtain ⟨_, _, _, _, _, gone⟩ := delete_place changed
    simp [Call.after, gone]

/-- Without links below the root the policy governs every file that is touched, however many calls there are. -/
theorem touched_allowed_of_unlinked (holds : a.Holds d) (unlinked : a.Unlinked d) (calls : List Call) :
    a.Throughout (fun d call => ∀ access q, call.Touches a d access q → a.Allows access q) d calls := by
  induction calls generalizing d with
  | nil => trivial
  | cons call calls ih =>
    refine ⟨fun access q touches => holds.allows_of_touches touches ?_, ih (holds.after call) (holds.unlinked_after unlinked call)⟩
    rintro ⟨_, front, target, _, _, _, link⟩
    exact unlinked front target link

end ScriptTools.Files.Access
