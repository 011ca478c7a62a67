import Mathlib.Logic.Relation
import ScriptTools.Proofs.Files.Scopes
import ScriptTools.Proofs.Policy.Checked

/-!
Calls see a path through its normal form alone: parts that mean nothing are dropped, and each step up takes back the
nearest name before it. Every spelling of a normal form has the same answers, the policy is asked about its text, and a
path that leads out is refused whatever the policy says.
-/

namespace ScriptTools.Files

open Disk

/-! Normal forms -/

/-- One step towards the normal form of the parts of a path. -/
inductive Shortens : List String → List String → Prop
  | skip {front back : List String} {part : String} (idle : part = "" ∨ part = ".") :
      Shortens (front ++ part :: back) (front ++ back)
  | cancel {front back : List String} {name : String} (taken : IsName name) :
      Shortens (front ++ name :: ".." :: back) (front ++ back)

/-- The names that are left of a relative path when nothing more can be dropped or taken back. -/
def IsNormalForm (text : String) (names : List String) : Prop :=
  isAbsolute text = false ∧ Relation.ReflTransGen Shortens (Text.parts '/' text) names ∧ ∀ name ∈ names, IsName name

/-- Whether a path starts at the top, or goes up more often than down in some front of it. -/
def LeadsOut (text : String) : Prop :=
  isAbsolute text = true ∨
    ∃ front, front <+: Text.parts '/' text ∧ front.countP (fun part => IsName part) < front.count ".."

variable {text text' : String} {names parts done rest xs ys : List String}

theorem normalize_skip {part : String} (idle : part = "" ∨ part = ".") :
    normalize done (part :: rest) = normalize done rest := by
  rw [normalize.eq_def]
  simp [idle]

theorem normalize_name {name : String} (kept : IsName name) :
    normalize done (name :: rest) = normalize (name :: done) rest := by
  rw [normalize.eq_def]
  simp [kept.nonempty, kept.notDot, kept.notUp]

theorem normalize_up {name : String} : normalize (name :: done) (".." :: rest) = normalize done rest := by
  rw [normalize.eq_def]
  simp

/-- What stands before is taken in alike. -/
theorem normalize_append (same : ∀ done, normalize done xs = normalize done ys) (front : List String) :
    normalize done (front ++ xs) = normalize done (front ++ ys) := by
  induction front generalizing done with
  | nil => exact same done
  | cons part front ih =>
    rw [List.cons_append, List.cons_append, normalize.eq_def, normalize.eq_def done (part :: (front ++ ys))]
    cases done <;> simp only [ih]

theorem Shortens.normalize (step : Shortens xs ys) : normalize done xs = normalize done ys := by
  cases step with
  | skip idle => exact normalize_append (fun _ => normalize_skip idle) _
  | cancel taken => exact normalize_append (fun _ => by rw [normalize_name taken, normalize_up]) _

theorem isName_of_kept {part : String} (single : '/' ∉ part.toList) (kept : ¬ (part = "" || part = ".") = true)
    (notUp : part ≠ "..") : IsName part := by
  simp only [Bool.or_eq_true, decide_eq_true_eq, not_or] at kept
  exact ⟨kept.1, kept.2, notUp, single⟩

theorem normalize_of_shortens (steps : Relation.ReflTransGen Shortens xs ys) : normalize done xs = normalize done ys := by
  induction steps with
  | refl => rfl
  | tail _ step ih => exact ih.trans step.normalize

/-- What is left of a path is reached step by step. The names before it are in front. -/
theorem shortens_of_normalize (run : normalize done rest = some names) (single : ∀ part ∈ rest, '/' ∉ part.toList)
    (before : ∀ name ∈ done, IsName name) : Relation.ReflTransGen Shortens (done.reverse ++ rest) names := by
  fun_induction normalize done rest with
  | case1 done =>
    cases run
    rw [List.append_nil]
  | case2 done part rest idle ih =>
    exact .head (.skip (by simpa using idle)) (ih run (List.forall_mem_cons.mp single).2 before)
  | case3 => cases run
  | case4 rest _ name done ih =>
    obtain ⟨taken, before⟩ := List.forall_mem_cons.mp before
    have later := ih run (List.forall_mem_cons.mp single).2 before
    rw [List.reverse_cons, List.append_assoc, List.singleton_append]
    exact .head (.cancel taken) later
  | case5 done part rest kept notUp ih =>
    obtain ⟨here, single⟩ := List.forall_mem_cons.mp single
    have later := ih run single (List.forall_mem_cons.mpr ⟨isName_of_kept here kept notUp, before⟩)
    rwa [List.reverse_cons, List.append_assoc, List.singleton_append] at later

/-- The names that a call goes by are those of the normal form. -/
theorem normalParts?_eq_some : normalParts? text = some names ↔ IsNormalForm text names := by
  constructor
  · intro run
    have kept := isName_of_normalParts? run
    rw [normalParts?, Option.ite_none_left_eq_some] at run
    exact ⟨by simpa using run.1, shortens_of_normalize run.2 (fun _ => single_of_mem_parts) (by simp), kept⟩
  · rintro ⟨relative, shortens, kept⟩
    rw [normalParts?, relative, if_neg (by simp), normalize_of_shortens shortens, normalize_names kept, List.reverse_nil,
      List.nil_append]

theorem exists_prefix_cons {α : Type} {x : α} {xs : List α} {P : List α → Prop} (none : ¬ P []) :
    (∃ front, front <+: x :: xs ∧ P front) ↔ ∃ front, front <+: xs ∧ P (x :: front) := by
  constructor
  · rintro ⟨front, within, holds⟩
    rcases List.prefix_cons_iff.mp within with rfl | ⟨front, rfl, below⟩
    · exact absurd holds none
    · exact ⟨front, below, holds⟩
  · rintro ⟨front, within, holds⟩
    exact ⟨x :: front, List.cons_prefix_cons.mpr ⟨rfl, within⟩, holds⟩

/-- A path has no normal form as soon as it has gone up more often than down. -/
theorem normalize_eq_none (single : ∀ part ∈ rest, '/' ∉ part.toList) :
    normalize done rest = none ↔
      ∃ front, front <+: rest ∧ done.length + front.countP (fun part => IsName part) < front.count ".." := by
  fun_induction normalize done rest with
  | case1 => simp
  | case2 done part rest idle ih =>
    have idle : part = "" ∨ part = "." := by simpa using idle
    have notName : ¬ IsName part := fun name => idle.elim name.nonempty name.notDot
    have notUp : part ≠ ".." := by rcases idle with rfl | rfl <;> decide
    rw [exists_prefix_cons (by simp), ih (List.forall_mem_cons.mp single).2]
    simp [notName, List.count_cons_of_ne notUp]
  | case3 rest =>
    refine iff_of_true rfl ⟨[".."], by simp, ?_⟩
    decide
  | case4 rest _ name done ih =>
    have notName : ¬ IsName ".." := fun name => name.notUp rfl
    rw [exists_prefix_cons (by simp), ih (List.forall_mem_cons.mp single).2]
    simp only [List.countP_cons, notName, List.count_cons_self, List.length_cons]
    simp only [decide_false, Bool.false_eq_true, if_false]
    refine exists_congr fun front => and_congr_right fun _ => ?_
    omega
  | case5 done part rest kept notUp ih =>
    obtain ⟨here, single⟩ := List.forall_mem_cons.mp single
    have name := isName_of_kept here kept notUp
    rw [exists_prefix_cons (by simp), ih single]
    simp only [List.countP_cons, name, List.count_cons_of_ne notUp, List.length_cons]
    simp only [decide_true, if_true]
    refine exists_congr fun front => and_congr_right fun _ => ?_
    omega

/-- The paths without a normal form are those that lead out. -/
theorem normalParts?_eq_none : normalParts? text = none ↔ LeadsOut text := by
  rw [normalParts?, LeadsOut]
  split
  · rename_i top
    simp [top]
  · rename_i relative
    rw [normalize_eq_none fun _ => single_of_mem_parts]
    simp [relative]

/-! Calls -/

namespace Access

variable {a : Access} {d : Disk} {full : Path} {access : ScriptTools.Access} {e : HostError}

/-- Every call with a path is refused for one reason and changes nothing. -/
structure Refuses (a : Access) (d : Disk) (text : String) (e : HostError) : Prop where
  read : a.read d text = .error e
  write (content : String) : a.write d text content = (d, .error e)
  delete : a.delete d text = (d, .error e)
  isThere : a.exists? d text = .error e
  list : a.list d text = .error e

/-- No call tells two paths apart. -/
structure Agrees (a : Access) (d : Disk) (text text' : String) : Prop where
  read : a.read d text = a.read d text'
  write (content : String) : a.write d text content = a.write d text' content
  delete : a.delete d text = a.delete d text'
  isThere : a.exists? d text = a.exists? d text'
  list : a.list d text = a.list d text'

/-- A call with a path goes ahead or is refused as the policy says about a scope. -/
structure Asks (a : Access) (d : Disk) (text scope : String) : Prop where
  read : (a.read d text).map (fun _ => ()) = a.policy.require ⟨.fsRead, some scope⟩
  write (content : String) : (a.write d text content).2.map (fun _ => ()) = a.policy.require ⟨.fsWrite, some scope⟩
  delete : (a.delete d text).2.map (fun _ => ()) = a.policy.require ⟨.fsWrite, some scope⟩
  isThere : (a.exists? d text).map (fun _ => ()) = a.policy.require ⟨.fsRead, some scope⟩
  list : (a.list d text).map (fun _ => ()) = a.policy.require ⟨.fsRead, some scope⟩

theorem refuses_of_resolve (refused : a.resolve d text = .error e) : a.Refuses d text e := by
  have denied (access : ScriptTools.Access) : a.permit d access text = .error e := by
    rw [permit, refused]
    rfl
  constructor <;> simp [Access.read, Access.write, Access.delete, exists?, Access.list, denied, bind, Except.bind]

theorem agrees_of_resolve (same : a.resolve d text = a.resolve d text') : a.Agrees d text text' := by
  have permits (access : ScriptTools.Access) : a.permit d access text = a.permit d access text' := by
    rw [permit, same, ← permit]
  constructor <;> simp only [Access.read, Access.write, Access.delete, exists?, Access.list, permits, implies_true]

theorem map_permit (resolved : a.resolve d text = .ok (full, parts)) :
    (a.permit d access text).map (fun _ => ()) = a.policy.require ⟨access, some (scopeText parts)⟩ := by
  rw [permit, resolved]
  simp only [bind, Except.bind]
  cases a.policy.require ⟨access, some (scopeText parts)⟩ <;> rfl

theorem write_of_permit (permitted : a.permit d .fsWrite text = .ok (full, parts)) (content : String) :
    ∃ done, (a.write d text content).2 = .ok done := by
  rw [Access.write, permitted]
  simp only
  split
  · exact ⟨_, rfl⟩
  · split
    · exact ⟨_, rfl⟩
    · split <;> exact ⟨_, rfl⟩

theorem delete_of_permit (permitted : a.permit d .fsWrite text = .ok (full, parts)) :
    ∃ done, (a.delete d text).2 = .ok done := by
  rw [Access.delete, permitted]
  simp only
  split
  · exact ⟨_, rfl⟩
  · split <;> exact ⟨_, rfl⟩

/-- Behind the check of its path a call is refused by the policy alone. -/
theorem asks_of_resolve (resolved : a.resolve d text = .ok (full, parts)) : a.Asks d text (scopeText parts) := by
  constructor
  · rw [← map_permit resolved, Access.read]
    cases a.permit d .fsRead text with
    | error e => rfl
    | ok found => cases opened : d.readFile found.1 <;> simp [bind, Except.bind, opened, pure, Except.pure, Except.map]
  · intro content
    rw [← map_permit resolved]
    cases permitted : a.permit d .fsWrite text with
    | error e => simp [Access.write, permitted, Except.map]
    | ok found =>
      obtain ⟨done, ran⟩ := write_of_permit permitted content
      rw [ran]
      rfl
  · rw [← map_permit resolved]
    cases permitted : a.permit d .fsWrite text with
    | error e => simp [Access.delete, permitted, Except.map]
    | ok found =>
      obtain ⟨done, ran⟩ := delete_of_permit permitted
      rw [ran]
      rfl
  · rw [← map_permit resolved, exists?]
    cases a.permit d .fsRead text <;> rfl
  · rw [← map_permit resolved, Access.list]
    cases a.permit d .fsRead text with
    | error e => rfl
    | ok found => cases listed : d.listDir found.1 <;> simp [bind, Except.bind, listed, pure, Except.pure, Except.map]

theorem resolve_of_isNormalForm (normal : IsNormalForm text names) :
    a.resolve d text = .error (.escape text) ∨ a.resolve d text = .ok (a.root ++ names, names) := by
  simp only [resolve, normalParts?_eq_some.mpr normal]
  split
  · exact .inr rfl
  · exact .inl rfl

theorem resolve_of_leadsOut (out : LeadsOut text) : a.resolve d text = .error (.escape text) := by
  simp only [resolve, normalParts?_eq_none.mpr out]

/-- Two spellings of one normal form pass the check of their path together. -/
theorem resolve_congr (normal : IsNormalForm text names) (normal' : IsNormalForm text' names) :
    a.resolve d text = a.resolve d text' ∨
      a.resolve d text = .error (.escape text) ∧ a.resolve d text' = .error (.escape text') := by
  simp only [resolve, normalParts?_eq_some.mpr normal, normalParts?_eq_some.mpr normal']
  split
  · exact .inl rfl
  · exact .inr ⟨rfl, rfl⟩

/-- Every path leads out or has one normal form. A path that leads out is refused by all calls, whatever the policy.
Otherwise the policy is asked about the names of the normal form with slashes between them, or about a dot when there
are none, and no call tells two spellings of one normal form apart but by the path that a refusal quotes. -/
theorem decided_by_normalForm (a : Access) (d : Disk) :
    (∀ text, LeadsOut text → a.Refuses d text (.escape text)) ∧
    (∀ text, ¬ LeadsOut text → ∃! names, IsNormalForm text names) ∧
    ∀ text names, IsNormalForm text names →
      (names = [] ∧ scopeText names = "." ∨ names ≠ [] ∧ Text.parts '/' (scopeText names) = names) ∧
      (a.Refuses d text (.escape text) ∨ a.Asks d text (scopeText names)) ∧
      ∀ text', IsNormalForm text' names →
        a.Agrees d text text' ∨ a.Refuses d text (.escape text) ∧ a.Refuses d text' (.escape text') := by
  refine ⟨fun text out => refuses_of_resolve (resolve_of_leadsOut out), fun text inside => ?_, fun text names normal => ?_⟩
  · rw [← normalParts?_eq_none, ← ne_eq, Option.ne_none_iff_exists'] at inside
    obtain ⟨names, run⟩ := inside
    refine ⟨names, normalParts?_eq_some.mp run, fun other normal => ?_⟩
    exact Option.some.inj ((normalParts?_eq_some.mpr normal).symm.trans run)
  · refine ⟨?_, ?_, fun text' normal' => ?_⟩
    · by_cases none : names = []
      · exact .inl ⟨none, by rw [none]; rfl⟩
      · exact .inr ⟨none, parts_scopeText normal.2.2 none⟩
    · rcases resolve_of_isNormalForm normal with refused | resolved
      · exact .inl (refuses_of_resolve refused)
      · exact .inr (asks_of_resolve resolved)
    · rcases resolve_congr normal normal' with same | ⟨refused, refused'⟩
      · exact .inl (agrees_of_resolve same)
      · exact .inr ⟨refuses_of_resolve refused, refuses_of_resolve refused'⟩

/-- A way down and up again is no way of its own, and one step too many leads out. -/
theorem decided_by_normalForm_detour :
    IsNormalForm "a" ["a"] ∧ IsNormalForm "out/.././/a/" ["a"] ∧ LeadsOut "out/../../a" ∧
      ((⟨["root"], .restrictive⟩ : Access).Agrees linkedDisk "a" "out/.././/a/" ∨
        (⟨["root"], .restrictive⟩ : Access).Refuses linkedDisk "a" (.escape "a") ∧
          (⟨["root"], .restrictive⟩ : Access).Refuses linkedDisk "out/.././/a/" (.escape "out/.././/a/")) ∧
      (⟨["root"], .restrictive⟩ : Access).Refuses linkedDisk "out/../../a" (.escape "out/../../a") := by
  have direct : IsNormalForm "a" ["a"] := normalParts?_eq_some.mp (by decide)
  have detour : IsNormalForm "out/.././/a/" ["a"] := normalParts?_eq_some.mp (by decide)
  have out : LeadsOut "out/../../a" := normalParts?_eq_none.mp (by decide)
  obtain ⟨refused, _, decided⟩ := decided_by_normalForm ⟨["root"], .restrictive⟩ linkedDisk
  exact ⟨direct, detour, out, (decided "a" ["a"] direct).2.2 _ detour, refused _ out⟩

end Access

end ScriptTools.Files
