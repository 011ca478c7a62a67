import ScriptTools.Capability.Files
import ScriptTools.Proofs.Files.Making
import ScriptTools.Proofs.Result

/-!
Calls stay below their root: what they read or change lies there, whatever links the disk has. The one
exception is a link outside the root that leads back inside, which a script can remove.
-/

namespace ScriptTools.Files

open Disk

/-! Normal forms -/

theorem normalize_plain {done rest parts : List String} (run : normalize done rest = some parts)
    (plain : ∀ name ∈ done, name ≠ "." ∧ name ≠ "..") :
    ∀ name ∈ parts, name ≠ "." ∧ name ≠ ".." := by
  fun_induction normalize done rest with
  | case1 done =>
    cases run
    simpa using plain
  | case2 done part rest skip ih => exact ih run plain
  | case3 => cases run
  | case4 rest _ _ done ih => exact ih run fun name member => plain name (List.mem_cons_of_mem _ member)
  | case5 done part rest skip notUp ih =>
    refine ih run fun name member => ?_
    rcases List.mem_cons.mp member with rfl | member
    · exact ⟨fun same => skip (by simp [same]), notUp⟩
    · exact plain name member

theorem normalParts?_plain {text : String} {parts : List String} (run : normalParts? text = some parts) :
    ∀ name ∈ parts, name ≠ "." ∧ name ≠ ".." := by
  rw [normalParts?] at run
  split at run
  · cases run
  · exact normalize_plain run (by simp)

namespace Access

variable {a : Access} {d : Disk} {text : String} {full place : Path} {parts : List String} {n : Node}

/-! What the check of a path says -/

theorem resolve_eq_ok (run : a.resolve d text = .ok (full, parts)) :
    full = a.root ++ parts ∧ normalParts? text = some parts ∧ a.staysInside d full.reverse = true := by
  rw [resolve] at run
  split at run
  · cases run
  · rename_i found
    simp only at run
    split at run
    · rename_i inside
      cases run
      exact ⟨rfl, found, inside⟩
    · cases run

theorem resolve_of_permit {access : ScriptTools.Access} (run : a.permit d access text = .ok (full, parts)) :
    a.resolve d text = .ok (full, parts) := by
  rw [permit] at run
  obtain ⟨⟨full', parts'⟩, resolved, run⟩ := bind_eq_ok.mp run
  obtain ⟨_, _, run⟩ := bind_eq_ok.mp run
  cases run
  exact resolved

/-- The check follows a path as far as it is there. -/
theorem staysInside_front {up : List String} (run : a.staysInside d up = true) :
    ∃ front back place, up.reverse = front ++ back ∧ d.canonical? front = some place ∧
      a.root <+: place ∧ ∀ name more, back = name :: more → d.named? (front ++ [name]) = none := by
  induction up with
  | nil =>
    rw [staysInside, List.isEmpty_iff] at run
    refine ⟨[], [], [], rfl, ?_, by simp [run], by simp⟩
    exact canonical?_eq_some.mpr ⟨.dir, locate_eq_ok.mpr ⟨rfl, .here, rfl⟩⟩
  | cons name above ih =>
    rw [staysInside] at run
    split at run
    · split at run
      · rename_i place found
        exact ⟨(name :: above).reverse, [], place, by simp, found, List.isPrefixOf_iff_prefix.mp run, by simp⟩
      · cases run
    · rename_i absent
      obtain ⟨front, back, place, split, found, inside, ends⟩ := ih run
      refine ⟨front, back ++ [name], place, by simp [split], found, inside, ?_⟩
      intro first more same
      cases back with
      | nil =>
        obtain ⟨rfl, _⟩ := List.cons.inj same
        rw [List.append_nil] at split
        rw [List.reverse_cons, split] at absent
        simpa using absent
      | cons other back =>
        obtain ⟨rfl, _⟩ := List.cons.inj same
        exact ends other back rfl

/-- What a path leads to lies inside. -/
theorem prefix_of_resolve (run : a.resolve d text = .ok (full, parts))
    (found : d.locate true full = .ok (place, n)) : a.root <+: place := by
  obtain ⟨_, _, inside⟩ := resolve_eq_ok run
  have entry := named?_of_locate found
  cases up : full.reverse with
  | nil =>
    rw [up, staysInside, List.isEmpty_iff] at inside
    simp [inside]
  | cons name above =>
    have same : (name :: above).reverse = full := by rw [← up, List.reverse_reverse]
    rw [up, staysInside] at inside
    simp only [same, entry, if_true] at inside
    split at inside
    · rename_i place' canonical
      obtain ⟨_, found'⟩ := locate_of_canonical? canonical
      obtain ⟨rfl, _⟩ := Prod.mk.inj (Except.ok.inj (found.symm.trans found'))
      exact List.isPrefixOf_iff_prefix.mp inside
    · cases inside

/-- A path that passes the check is there up to a place inside. -/
theorem reaches_of_resolve (tree : d.IsTree) (home : d.get? a.root = some .dir)
    (run : a.resolve d text = .ok (full, parts)) :
    ∃ front back place, full = front ++ back ∧ d.Reaches front back place ∧ d.canonical? front = some place ∧
      a.root <+: place := by
  obtain ⟨split, found, inside⟩ := resolve_eq_ok run
  obtain ⟨front, back, place, whole, canonical, within, ends⟩ := staysInside_front inside
  rw [List.reverse_reverse] at whole
  obtain ⟨n, located⟩ := locate_of_canonical? canonical
  obtain ⟨checked, leads, there⟩ := locate_eq_ok.mp located
  refine ⟨front, back, place, whole, ⟨checked, leads, by simp [there], ?_, ends⟩, canonical, within⟩
  intro name member
  have member : name ∈ a.root ++ parts := by
    rw [← split, whole]
    exact List.mem_append_right _ member
  rcases List.mem_append.mp member with inRoot | inParts
  · have step := tree.isStep_of_dir home inRoot
    exact ⟨step.notDot, step.notUp⟩
  · exact normalParts?_plain found name inParts

/-- A path that is there up to a place inside passes the check. -/
theorem staysInside_of_reaches {front back : List String} (reach : d.Reaches front back place)
    (found : d.canonical? front = some place) (inside : a.root <+: place) :
    a.staysInside d (front ++ back).reverse = true := by
  induction back using List.reverseRecOn with
  | nil =>
    rw [List.append_nil]
    cases up : front.reverse with
    | nil =>
      obtain rfl : front = [] := List.reverse_eq_nil_iff.mp up
      obtain rfl : [] = place := Except.ok.inj (by rw [← reach.leads.walkFrom, walkFrom])
      rw [staysInside, List.prefix_nil.mp inside]
      rfl
    | cons name above =>
      have same : (name :: above).reverse = front := by rw [← up, List.reverse_reverse]
      obtain ⟨n, located⟩ := locate_of_canonical? found
      rw [staysInside]
      simp only [same, named?_of_locate located, found, if_true]
      exact List.isPrefixOf_iff_prefix.mpr inside
  | append_singleton back name ih =>
    have absent : ¬ (d.named? (front ++ (back ++ [name]))).isSome := by
      intro there
      have longer : back ++ [name] ≠ [] := by simp
      obtain ⟨first, more, split⟩ := List.exists_cons_of_ne_nil longer
      have whole : front ++ (back ++ [name]) = front ++ [first] ++ more := by simp [split]
      rw [whole] at there
      simpa [reach.ends first more split] using named?_front more there
    have up : (front ++ (back ++ [name])).reverse = name :: (front ++ back).reverse := by simp
    have down : (name :: (front ++ back).reverse).reverse = front ++ (back ++ [name]) := by simp
    rw [up, staysInside]
    simp only [down, absent]
    exact ih (reach.shorten (List.prefix_append back [name]))

/-! Calls -/

theorem read_inside {s : String} (run : a.read d text = .ok (some s)) :
    ∃ full parts place content, a.permit d .fsRead text = .ok (full, parts) ∧
      d.locate true full = .ok (place, .file content) ∧ s = Text.ofBytesRepaired content ∧
      a.root <+: place := by
  obtain ⟨⟨full, parts⟩, permitted, run⟩ := bind_eq_ok.mp run
  simp only at run
  split at run
  · rename_i content opened
    cases run
    obtain ⟨place, found⟩ := readFile_eq_ok.mp opened
    exact ⟨full, parts, place, content, permitted, found, rfl,
      prefix_of_resolve (resolve_of_permit permitted) found⟩
  · cases run

theorem list_inside {names : List String} (run : a.list d text = .ok names) (some : names ≠ []) :
    ∃ full parts place, a.permit d .fsRead text = .ok (full, parts) ∧
      d.locate true full = .ok (place, .dir) ∧ names = d.names place ∧ a.root <+: place := by
  obtain ⟨⟨full, parts⟩, permitted, run⟩ := bind_eq_ok.mp run
  simp only at run
  split at run
  · rename_i found listed
    cases run
    obtain ⟨place, located, same⟩ := listDir_eq_ok.mp listed
    exact ⟨full, parts, place, permitted, located, same,
      prefix_of_resolve (resolve_of_permit permitted) located⟩
  · cases run
    exact absurd rfl some

/-- What one place may become when a file is written: a new directory, or a file with what is written. -/
def Written (d d' : Disk) (content : String) (p : Path) : Prop :=
  (d.get? p = none ∧ d'.get? p = some .dir) ∨
    ((∀ n, d.get? p = some n → ∃ old, n = .file old) ∧ d'.get? p = some (.file content.toUTF8))

/-- How writing goes: the directories above are made first, and the file is written only when that worked. -/
inductive Writes (a : Access) (d : Disk) (text content : String) : Disk × Except HostError Bool → Prop
  | refused {e : HostError} : a.permit d .fsWrite text = .error e → Writes a d text content (d, .error e)
  | top {full : Path} : a.permit d .fsWrite text = .ok (full, []) → Writes a d text content (d, .ok false)
  | unmade {full : Path} {parts : List String} {d₁ : Disk} {e : DiskError} :
      a.permit d .fsWrite text = .ok (full, parts) → parts ≠ [] → d.makeDirs full.dropLast = (d₁, .error e) →
      Writes a d text content (d₁, .ok false)
  | unwritten {full : Path} {parts : List String} {d₁ : Disk} {e : DiskError} :
      a.permit d .fsWrite text = .ok (full, parts) → parts ≠ [] → d.makeDirs full.dropLast = (d₁, .ok ()) →
      d₁.writeFile full content.toUTF8 = .error e → Writes a d text content (d₁, .ok false)
  | written {full : Path} {parts : List String} {d₁ d₂ : Disk} :
      a.permit d .fsWrite text = .ok (full, parts) → parts ≠ [] → d.makeDirs full.dropLast = (d₁, .ok ()) →
      d₁.writeFile full content.toUTF8 = .ok d₂ → Writes a d text content (d₂, .ok true)

theorem writes_write (a : Access) (d : Disk) (text content : String) :
    Writes a d text content (a.write d text content) := by
  rw [write]
  split
  · rename_i refused
    exact .refused refused
  · rename_i full parts permitted
    split
    · rename_i top
      rw [List.isEmpty_iff.mp top] at permitted
      exact .top permitted
    · rename_i more
      have more : parts ≠ [] := by simpa using more
      split
      · rename_i unmade
        exact .unmade permitted more unmade
      · rename_i made
        split
        · rename_i written
          exact .written permitted more made written
        · rename_i unwritten
          exact .unwritten permitted more made unwritten

/-- A write that gives true has made directories along the rest of its path and put the file at the end of it, in place
of nothing but a file. -/
theorem Writes.put {content : String} {d' : Disk} {front back : List String} (tree : d.IsTree)
    (ran : a.Writes d text content (d', .ok true)) (permitted : a.permit d .fsWrite text = .ok (front ++ back, parts))
    (reach : d.Reaches front back place) :
    parts ≠ [] ∧ checkPath (front ++ back) = .ok () ∧ (∀ n, d.get? (place ++ back) = some n → ∃ old, n = .file old) ∧
      ∃ d₁ : Disk, d₁.GrownBelow d place back ∧ d' = d₁.put (place ++ back) (.file content.toUTF8) := by
  cases ran with
  | written permitted' more made written =>
    obtain ⟨rfl, rfl⟩ := Prod.mk.inj (Except.ok.inj (permitted.symm.trans permitted'))
    have grown := reach.grown_of_makeDirs tree made (List.dropLast_prefix (front ++ back))
    have tree₁ := makeDirs_isTree tree made
    obtain ⟨_, walked, _⟩ := writeFile_eq_ok.mp written
    obtain ⟨rfl, onlyFile⟩ := reach.place_of_writeFile tree grown tree₁ written
    exact ⟨more, (walk_eq_ok.mp walked).1, onlyFile, _, grown, rfl⟩

/-- What writing changes lies on the way that the path takes from where it is there no longer: a directory
that is added, or the file at its end. -/
theorem write_place {content : String} {p : Path} (tree : d.IsTree) (home : d.get? a.root = some .dir)
    (changed : (a.write d text content).1.get? p ≠ d.get? p) :
    ∃ front back parts place, a.permit d .fsWrite text = .ok (front ++ back, parts) ∧
      d.Reaches front back place ∧ a.root <+: place ∧ place <+: p ∧
      ((d.get? p = none ∧ (a.write d text content).1.get? p = some .dir) ∨
        (p = place ++ back ∧ (∀ n, d.get? p = some n → ∃ old, n = .file old) ∧
          (a.write d text content).1.get? p = some (.file content.toUTF8))) := by
  have run := writes_write a d text content
  generalize a.write d text content = out at run changed ⊢
  have along {full parts} (permitted : a.permit d .fsWrite text = .ok (full, parts)) :=
    reaches_of_resolve tree home (resolve_of_permit permitted)
  cases run with
  | refused | top => exact absurd rfl changed
  | unmade permitted _ made | unwritten permitted _ made _ =>
    obtain ⟨front, back, place, rfl, reach, _, inside⟩ := along permitted
    have grown := reach.grown_of_makeDirs tree made (List.dropLast_prefix (front ++ back))
    obtain ⟨absent, inDir, q, _, _, rfl⟩ := (grown p).resolve_left changed
    exact ⟨front, back, _, place, permitted, reach, inside, List.prefix_append place q, .inl ⟨absent, inDir⟩⟩
  | written permitted more made written =>
    obtain ⟨front, back, place, rfl, reach, _, inside⟩ := along permitted
    obtain ⟨_, _, onlyFile, d₁, grown, rfl⟩ := (Writes.written permitted more made written).put tree permitted reach
    refine ⟨front, back, _, place, permitted, reach, inside, ?_⟩
    by_cases here : p = place ++ back
    · subst here
      exact ⟨List.prefix_append place back, .inr ⟨rfl, onlyFile, get?_put_self _ (ne_nil_of_onlyFile onlyFile) _⟩⟩
    · simp only [get?_put_of_ne _ here] at changed ⊢
      obtain ⟨absent, inDir, q, _, _, rfl⟩ := (grown p).resolve_left changed
      exact ⟨List.prefix_append place q, .inl ⟨absent, inDir⟩⟩

theorem write_inside {content : String} {p : Path} (tree : d.IsTree) (home : d.get? a.root = some .dir)
    (changed : (a.write d text content).1.get? p ≠ d.get? p) :
    a.root <+: p ∧ p ≠ a.root ∧ Written d (a.write d text content).1 content p := by
  obtain ⟨front, back, parts, place, _, _, inside, below, steps⟩ := write_place tree home changed
  have written : Written d (a.write d text content).1 content p := by
    rcases steps with added | ⟨_, onlyFile, now⟩
    · exact .inl added
    · exact .inr ⟨onlyFile, now⟩
  refine ⟨inside.trans below, ?_, written⟩
  rintro rfl
  rcases written with ⟨absent, _⟩ | ⟨onlyFile, _⟩
  · simp [absent] at home
  · obtain ⟨old, same⟩ := onlyFile .dir home
    cases same

/-- Whatever a script reads, lists or writes lies below the root, where no link leads any further. What it
reads are files and directories there, and what it changes are directories that it adds and files that it
adds or replaces. Reading, listing and asking what is there change nothing at all. -/
theorem content_access_confined (a : Access) (w : World) (tree : w.disk.IsTree)
    (home : w.disk.get? a.root = some .dir) :
    (∀ text s, a.read w.disk text = .ok (some s) →
      ∃ full parts place content, a.permit w.disk .fsRead text = .ok (full, parts) ∧
        w.disk.locate true full = .ok (place, .file content) ∧ s = Text.ofBytesRepaired content ∧
        a.root <+: place) ∧
    (∀ text names, a.list w.disk text = .ok names → names ≠ [] →
      ∃ full parts place, a.permit w.disk .fsRead text = .ok (full, parts) ∧
        w.disk.locate true full = .ok (place, .dir) ∧ names = w.disk.names place ∧ a.root <+: place) ∧
    (∀ text content p, (a.write w.disk text content).1.get? p ≠ w.disk.get? p →
      a.root <+: p ∧ p ≠ a.root ∧ Written w.disk (a.write w.disk text content).1 content p) ∧
    (∀ args, ∀ host ∈ [Capability.Files.read a, Capability.Files.isThere a, Capability.Files.list a],
      (host.run args w).2 = w) := by
  refine ⟨fun _ _ => read_inside, fun _ _ => list_inside, fun _ _ _ => write_inside tree home, ?_⟩
  have keeps {α : Type} (f : α → HostValue) (r : Except HostError α) :
      (Capability.answer f w r).2 = w := by
    cases r <;> rfl
  intro args host member
  simp only [List.mem_cons, List.not_mem_nil, or_false] at member
  rcases member with rfl | rfl | rfl <;> exact keeps _ _

/-- A root with a link out of it, and a link back into it from there. -/
def linkedDisk : Disk where
  nodes := [(["root"], .dir), (["root", "out"], .link "/other"), (["root", "a"], .file "x".toUTF8),
    (["other"], .dir), (["other", "back"], .link "/root/a")]

theorem content_access_confined_linkedDisk :
    linkedDisk.IsTree ∧ linkedDisk.get? ["root"] = some .dir ∧
      ∀ p, ((⟨["root"], .restrictive⟩ : Access).write linkedDisk "out/back" "y").1.get? p ≠
        linkedDisk.get? p → ["root"] <+: p := by
  have tree : linkedDisk.IsTree := isTree_of_nodes _ (by decide +kernel)
  have home : linkedDisk.get? ["root"] = some .dir := by decide
  have confined := content_access_confined ⟨["root"], .restrictive⟩ { disk := linkedDisk } tree home
  exact ⟨tree, home, fun p changed => (confined.2.2.1 "out/back" "y" p changed).1⟩

end Access

end ScriptTools.Files
