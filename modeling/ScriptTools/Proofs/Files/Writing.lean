import ScriptTools.Proofs.Files.Governed
import ScriptTools.Proofs.Files.NormalForm
import ScriptTools.Proofs.Files.Outcome
import ScriptTools.Proofs.Text.Bytes

/-!
What is seen of a file once it is written. Its path leads to it from then on and its content is read back, and nothing
else is changed. Links can take a write further down than a path without links can name, though, and there the path
leads to the file but passes the check no more.
-/

namespace ScriptTools.Files

open Disk

namespace Disk

variable {d d' : Disk} {p place at_ : Path} {front back : List String} {links : Nat} {n : Node}

/-- A walk goes on straight down from the place that it leads to. -/
theorem Leads.onward (leads : d.Leads true links at_ front place) (tree : d.IsTree)
    (found : d.get? (place ++ back) = some n) (noLink : ∀ target, n ≠ .link target) :
    d.Leads true links at_ (front ++ back) (place ++ back) := by
  by_cases last : back = []
  · rwa [last, List.append_nil, List.append_nil]
  · have inDir : d.get? place = some .dir := tree.dir_of_append back (by simp [found]) last
    obtain ⟨left, same⟩ := leads.append (by simp [inDir])
    refine leads_of_walkFrom ?_
    rw [same true back last, (tree.leads_down found noLink).walkFrom]

theorem Retains.nameable (kept : d'.Retains d) : d'.nameable.Retains d.nameable := by
  intro p n found
  obtain ⟨checked, found⟩ := get?_nameable.mp found
  rcases kept p n found with same | ⟨old, new, was, now⟩
  · exact .inl (get?_nameable.mpr ⟨checked, same⟩)
  · exact .inr ⟨old, new, was, get?_nameable.mpr ⟨checked, now⟩⟩

/-- What stands straight below a place is found there as long as nothing on the way to that place is lost. -/
theorem locate_append {m : Node} (located : d.locate true front = .ok (place, m)) (kept : d'.Retains d)
    (tree' : d'.IsTree) (now : d'.get? (place ++ back) = some n) (noLink : ∀ target, n ≠ .link target)
    (checked : checkPath (front ++ back) = .ok ()) :
    d'.locate true (front ++ back) = .ok (place ++ back, n) := by
  obtain ⟨_, leads, there⟩ := locate_eq_ok.mp located
  exact locate_eq_ok.mpr ⟨checked, (leads.retain (by simp [there]) kept).onward tree' now noLink, now⟩

theorem GrownBelow.retains_put {d₁ : Disk} (grown : d₁.GrownBelow d place back) (bytes : ByteArray)
    (onlyFile : ∀ n, d.get? p = some n → ∃ old, n = .file old) : (d₁.put p (.file bytes)).Retains d := by
  intro q n found
  by_cases here : q = p
  · subst here
    obtain ⟨old, was⟩ := onlyFile n found
    exact .inr ⟨old, bytes, was, get?_put_self d₁ (ne_nil_of_onlyFile onlyFile) _⟩
  · exact .inl (by rw [get?_put_of_ne d₁ here, grown.extends q n found])

/-- What has a path without links is named by that path. -/
theorem checkPath_of_canonical? (found : d.canonical? p = some place) : checkPath place = .ok () := by
  obtain ⟨n, found⟩ := canonical?_eq_some.mp found
  obtain ⟨_, _, there⟩ := locate_eq_ok.mp found
  exact (get?_nameable.mp there).1

end Disk

namespace Access

variable {a : Access} {d d' : Disk} {text content : String} {full location : Path} {parts : List String} {n : Node}

/-- What lies too deep for a path without links cannot be asked for. -/
theorem refuses_of_deep (normal : normalParts? text = some parts) (more : parts ≠ [])
    (found : d.locate true (a.root ++ parts) = .ok (location, n)) (deep : checkPath location ≠ .ok ()) :
    a.Refuses d text (.escape text) := by
  have hidden : d.canonical? (a.root ++ parts) = none := by
    by_contra named
    obtain ⟨place, named⟩ := Option.ne_none_iff_exists'.mp named
    obtain ⟨_, found'⟩ := locate_of_canonical? named
    obtain ⟨rfl, _⟩ := Prod.mk.inj (Except.ok.inj (found.symm.trans found'))
    exact deep (checkPath_of_canonical? named)
  have outside : a.staysInside d (a.root ++ parts).reverse = false := by
    cases up : (a.root ++ parts).reverse with
    | nil => simp [more] at up
    | cons name above =>
      have same : (name :: above).reverse = a.root ++ parts := by rw [← up, List.reverse_reverse]
      rw [staysInside]
      simp only [same, named?_of_locate found, hidden, if_true]
  refine refuses_of_resolve ?_
  simp only [resolve, normal, outside, Bool.false_eq_true, if_false]

/-- A path that leads to a file below the root is read with its content. -/
theorem read_of_locate {bytes : ByteArray} (normal : normalParts? text = some parts) (allowed : a.Allows .fsRead parts)
    (found : d.locate true (a.root ++ parts) = .ok (location, .file bytes))
    (named : d.canonical? (a.root ++ parts) = some location) (inside : a.root <+: location) :
    a.read d text = .ok (some (Text.ofBytesRepaired bytes)) ∧ a.exists? d text = .ok true := by
  obtain ⟨checked, leads, there⟩ := locate_eq_ok.mp found
  have reach : d.Reaches (a.root ++ parts) [] location :=
    ⟨checked, leads, by simp [there], by simp, by simp⟩
  have permitted := permit_of_reaches normal (List.append_nil _).symm reach named inside allowed
  rw [List.append_nil] at permitted
  constructor
  · simp [read, permitted, readFile_eq_ok.mpr ⟨_, found⟩, bind, Except.bind, pure, Except.pure]
  · simp [exists?, permitted, found, bind, Except.bind, pure, Except.pure, Except.isOk, Except.toBool]

theorem writes_of_write (run : a.write d text content = (d', .ok true)) : a.Writes d text content (d', .ok true) :=
  run ▸ writes_write a d text content

/-- The path of a write that gives true leads to the file. -/
theorem locate_of_write {front back : List String} {place : Path} (holds : a.Holds d)
    (permitted : a.permit d .fsWrite text = .ok (front ++ back, parts)) (reach : d.Reaches front back place)
    (run : a.write d text content = (d', .ok true)) :
    d'.IsTree ∧ d'.Retains d ∧ d'.locate true (front ++ back) = .ok (place ++ back, .file content.toUTF8) := by
  have tree' := (holds.write text content).tree
  rw [run] at tree'
  obtain ⟨_, checked, onlyFile, d₁, grown, rfl⟩ := (writes_of_write run).put holds.tree permitted reach
  have now := get?_put_self d₁ (ne_nil_of_onlyFile onlyFile) (.file content.toUTF8)
  obtain ⟨_, there⟩ := Option.isSome_iff_exists.mp reach.there
  have located := locate_eq_ok.mpr ⟨reach.checked, reach.leads, there⟩
  have kept := grown.retains_put content.toUTF8 onlyFile
  exact ⟨tree', kept, locate_append located kept tree' now (by simp) checked⟩

/-- A write along names that are all missing succeeds when they are steps from a directory and the system takes the
path. -/
theorem write_of_reaches {front q : List String} {place : Path} {name : String} (tree : d.IsTree)
    (permitted : a.permit d .fsWrite text = .ok (front ++ (q ++ [name]), parts)) (more : parts ≠ [])
    (reach : d.Reaches front (q ++ [name]) place) (inDir : d.get? place = some .dir)
    (steps : ∀ other ∈ q ++ [name], IsStep other) (checked : checkPath (front ++ (q ++ [name])) = .ok ())
    (content : String) : ∃ d', a.write d text content = (d', .ok true) := by
  obtain ⟨d₁, d₂, made, written⟩ := Reaches.finishes tree inDir reach steps checked content.toUTF8
  have above : (front ++ (q ++ [name])).dropLast = front ++ q := by rw [← List.append_assoc, List.dropLast_concat]
  refine ⟨d₂, ?_⟩
  rw [write, permitted]
  simp only [List.isEmpty_iff, more, if_false, above, made, written]

/-- A file that was written stands where its path leads, and its content is read back unless it lies too deep for a path
without links; there the path is refused. Nothing but the file and missing directories above it is new, only a file can
have been there before, and everything else is as it was. -/
theorem write_seen (holds : a.Holds d) (run : a.write d text content = (d', .ok true)) :
    ∃ parts location, normalParts? text = some parts ∧
      d'.locate true (a.root ++ parts) = .ok (location, .file content.toUTF8) ∧
      (∀ n, d.get? location = some n → ∃ old, n = .file old) ∧
      (∀ p, p ≠ location →
        d'.get? p = d.get? p ∨ d.get? p = none ∧ d'.get? p = some .dir ∧ p <+: location) ∧
      (checkPath location = .ok () → a.Allows .fsRead parts →
        a.read d' text = .ok (some content) ∧ a.exists? d' text = .ok true) ∧
      (checkPath location ≠ .ok () → a.Refuses d' text (.escape text)) := by
  obtain ⟨full, parts, permitted⟩ : ∃ full parts, a.permit d .fsWrite text = .ok (full, parts) := by
    cases writes_of_write run with
    | written permitted => exact ⟨_, _, permitted⟩
  obtain ⟨whole, normal, _⟩ := resolve_eq_ok (resolve_of_permit permitted)
  obtain ⟨front, back, place, rfl, reach, named, inside⟩ :=
    reaches_of_resolve holds.tree holds.home (resolve_of_permit permitted)
  obtain ⟨tree', kept, found⟩ := locate_of_write holds permitted reach run
  obtain ⟨more, checked, onlyFile, d₁, grown, rfl⟩ := (writes_of_write run).put holds.tree permitted reach
  obtain ⟨_, _, now⟩ := locate_eq_ok.mp found
  rw [whole] at found
  refine ⟨parts, place ++ back, normal, found, onlyFile, fun p other => ?_, fun shallow allowed => ?_,
    refuses_of_deep normal more found⟩
  · rw [get?_put_of_ne d₁ other]
    refine (grown p).imp_right ?_
    rintro ⟨absent, inDir, q, _, within, rfl⟩
    exact ⟨absent, inDir, (List.prefix_append_right_inj place).mpr within⟩
  · -- The place was found among what paths can name, and so is the file when its own path is one of them.
    obtain ⟨_, named⟩ := canonical?_eq_some.mp named
    have found' := locate_append named kept.nameable tree'.nameable (get?_nameable.mpr ⟨shallow, now⟩) (by simp) checked
    rw [whole] at found'
    have read := read_of_locate normal allowed found (canonical?_eq_some.mpr ⟨_, found'⟩)
      (inside.trans (List.prefix_append place back))
    rwa [Text.ofBytesRepaired_toUTF8] at read

theorem write_seen_sharedDisk :
    ∃ d', outOnly.Holds sharedDisk ∧ outOnly.write sharedDisk "out/a" "y" = (d', .ok true) ∧
      ∃ location, d'.locate true ["root", "out", "a"] = .ok (location, .file "y".toUTF8) := by
  obtain ⟨checked, leads, out⟩ := locate_eq_ok.mp sharedDisk_out
  have reach : sharedDisk.Reaches ["root", "out"] ["a"] ["root", "out"] :=
    .of_absent checked leads out (by decide) (by decide)
  have named := canonical?_of_locate (by decide) sharedDisk_out
  have normal : normalParts? "out/a" = some ["out", "a"] := by decide
  have whole : outOnly.root ++ ["out", "a"] = ["root", "out"] ++ ["a"] := rfl
  have allowed : outOnly.Allows .fsWrite ["out", "a"] := Policy.require_eq_ok.mp (by decide)
  have permitted := permit_of_reaches normal whole reach named (by decide) allowed
  obtain ⟨d', run⟩ := write_of_reaches (q := []) sharedDisk_holds.tree permitted (by simp) reach out
    (by decide) (by decide) "y"
  obtain ⟨parts, location, normal', found, _⟩ := write_seen sharedDisk_holds run
  obtain rfl := Option.some.inj (normal'.symm.trans normal)
  exact ⟨d', sharedDisk_holds, run, location, found⟩

end Access

/-! A file that lies too deep -/

namespace Disk

/-- A name of which a path has room for sixteen. -/
def longName : String := String.ofList (List.replicate 250 'd')

/-- A disk with the directories of one path. -/
def along (p : Path) : Disk := ⟨p.inits.map fun q => (q, .dir)⟩

theorem get?_along (p q : Path) : (along p).get? q = if q <+: p then some .dir else none := by
  have lookup (qs : List Path) : (qs.map fun q => (q, Node.dir)).lookup q = if q ∈ qs then some .dir else none := by
    induction qs with
    | nil => rfl
    | cons first qs ih =>
      rw [List.map_cons, List.lookup_cons, ih]
      by_cases here : q = first
      · simp [here]
      · simp [beq_eq_false_iff_ne.mpr here, here]
  cases q with
  | nil => simp [get?_nil]
  | cons =>
    rw [get?_of_ne_nil (by simp), along, lookup]
    simp only [List.mem_inits]

theorem along_isTree {p : Path} (steps : ∀ name ∈ p, IsStep name) : (along p).IsTree := by
  intro q name n found
  rw [get?_along, ite_eq_iff] at found
  obtain ⟨within, _⟩ := found.resolve_right (by simp)
  rw [get?_along, if_pos ((List.prefix_append q [name]).trans within)]
  exact ⟨rfl, steps name (within.subset (by simp))⟩

theorem size_longName : longName.utf8ByteSize = 250 := by decide +kernel

theorem not_mem_longName {c : Char} (other : c ≠ 'd') : c ∉ longName.toList := by
  have chars : longName.toList = List.replicate 250 'd' := String.toList_ofList
  exact fun member => other (List.eq_of_mem_replicate (chars ▸ member))

theorem ne_longName {name : String} (size : name.utf8ByteSize ≠ 250) : longName ≠ name := by
  rintro rfl
  exact size size_longName

theorem isName_longName : IsName longName :=
  ⟨ne_longName (by decide), ne_longName (by decide), ne_longName (by decide), not_mem_longName (by decide)⟩

theorem isStep_longName : IsStep longName :=
  ⟨isName_longName.notDot, isName_longName.notUp, by rw [size_longName]; decide⟩

theorem checkPath_long (front : Path) (n : Nat) (name : String)
    (zero : ∀ part ∈ front ++ [name], '\x00' ∉ part.toList) :
    checkPath (front ++ (List.replicate n longName ++ [name])) = .ok () ↔
      front.foldl (fun n name => n + name.utf8ByteSize + 1) 0 + n * 251 + name.utf8ByteSize + 1 ≤ pathLimit := by
  have sizes (m : Nat) :
      (List.replicate n longName).foldl (fun n name => n + name.utf8ByteSize + 1) m = m + n * 251 := by
    induction n generalizing m with
    | zero => simp
    | succ n ih =>
      rw [List.replicate_succ, List.foldl_cons, ih, size_longName]
      omega
  have plain : ∀ part ∈ front ++ (List.replicate n longName ++ [name]), '\x00' ∉ part.toList := by
    intro part member
    by_cases long : part = longName
    · rw [long]
      exact not_mem_longName (by decide)
    · refine zero part ?_
      simpa [List.mem_replicate, long] using member
  rw [checkPath_eq_ok, List.foldl_append, List.foldl_append, sizes]
  simp only [List.foldl_cons, List.foldl_nil]
  exact and_iff_right plain

end Disk

namespace Access

/-- Nine directories with long names, one in the other, and a link to the last of them. -/
def deepDisk : Disk :=
  (along ("root" :: List.replicate 9 longName)).put ["root", "link"] (.link (scopeText (List.replicate 9 longName)))

/-- Access that may read and write all files. -/
def deepAccess : Access := ⟨["root"], .restrictive⟩

/-- Eight more directories below the link, with a file in the last of them. -/
def deepPath : List String := "link" :: (List.replicate 8 longName ++ ["x"])

theorem isName_deep : ∀ name ∈ deepPath, IsName name := by
  intro name member
  rw [deepPath, List.mem_cons, List.mem_append, List.mem_singleton] at member
  rcases member with rfl | long | rfl
  · decide
  · exact List.eq_of_mem_replicate long ▸ isName_longName
  · decide

theorem deepDisk_holds : deepAccess.Holds deepDisk := by
  have steps : ∀ name ∈ "root" :: List.replicate 9 longName, IsStep name :=
    List.forall_mem_cons.mpr ⟨by decide, fun name member => List.eq_of_mem_replicate member ▸ isStep_longName⟩
  have home : (along ("root" :: List.replicate 9 longName)).get? ["root"] = some .dir := by
    rw [get?_along, if_pos (by simp)]
  have absent : (along ("root" :: List.replicate 9 longName)).get? (["root"] ++ ["link"]) = none := by
    rw [get?_along, if_neg]
    intro within
    have inside := (List.cons_prefix_cons.mp within).2.subset (List.mem_singleton_self "link")
    exact ne_longName (by decide) (List.eq_of_mem_replicate inside).symm
  refine ⟨(along_isTree steps).put_of_dir home (by decide) absent _, ?_⟩
  exact (get?_put_of_ne _ (by decide) _).trans home

theorem get?_deepDisk {q : Path} (other : q ≠ ["root", "link"]) :
    deepDisk.get? q = if q <+: "root" :: List.replicate 9 longName then some .dir else none :=
  (get?_put_of_ne _ other _).trans (get?_along _ q)

theorem deepDisk_last : deepDisk.get? ("root" :: List.replicate 9 longName) = some .dir := by
  rw [get?_deepDisk (by simp), if_pos (List.prefix_refl _)]

theorem deepDisk_reaches :
    deepDisk.Reaches ["root", "link"] (List.replicate 8 longName ++ ["x"]) ("root" :: List.replicate 9 longName) := by
  have names : ∀ name ∈ List.replicate 9 longName, IsName name :=
    fun name member => List.eq_of_mem_replicate member ▸ isName_longName
  have home : deepDisk.get? ["root"] = some .dir := deepDisk_holds.home
  have link : deepDisk.get? (["root"] ++ ["link"]) = some (.link (scopeText (List.replicate 9 longName))) :=
    get?_put_self _ (by simp) _
  have leads : deepDisk.Leads true linkLimit [] ["root", "link"] ("root" :: List.replicate 9 longName) := by
    refine .node rfl (by decide) home (by simp) (.link home (by decide) link (.inr rfl) ?_)
    rw [isAbsolute_scopeText names (by simp), steps_scopeText names (by simp), List.append_nil]
    exact deepDisk_holds.tree.leads_down deepDisk_last (by simp)
  refine .of_absent (by decide) leads deepDisk_last (fun name member => ?_) ?_
  · have name : IsName name := isName_deep name (List.mem_cons_of_mem _ member)
    exact ⟨name.notDot, name.notUp⟩
  · rw [get?_deepDisk (by simp), if_neg]
    intro within
    simpa using within.length_le

theorem deepDisk_named : deepDisk.canonical? ["root", "link"] = some ("root" :: List.replicate 9 longName) := by
  have room : checkPath ("root" :: List.replicate 9 longName) = .ok () := by
    refine (checkPath_long ["root"] 8 longName fun part member => ?_).mpr (by rw [size_longName]; decide)
    rcases List.mem_append.mp member with first | last
    · obtain rfl := List.mem_singleton.mp first
      decide
    · exact List.mem_singleton.mp last ▸ not_mem_longName (by decide)
  refine canonical?_of_locate (fun e member => ?_)
    (locate_eq_ok.mpr ⟨by decide, deepDisk_reaches.leads, deepDisk_last⟩)
  rcases List.mem_cons.mp member with rfl | member
  · decide
  · obtain ⟨q, within, rfl⟩ := List.mem_map.mp (List.mem_filter.mp member).1
    obtain ⟨rest, whole⟩ := (List.mem_inits _ _).mp within
    exact checkPath_of_append rest (by rw [whole, room])

theorem allows_deepAccess (parts : List String) :
    deepAccess.Allows .fsRead parts ∧ deepAccess.Allows .fsWrite parts := by
  constructor <;> rfl

/-- What is written below the link is not found there. -/
theorem write_unseen_deepDisk :
    ∃ d', deepAccess.Holds deepDisk ∧ deepAccess.write deepDisk (scopeText deepPath) "hi" = (d', .ok true) ∧
      deepAccess.Allows .fsRead deepPath ∧
      deepAccess.read d' (scopeText deepPath) = .error (.escape (scopeText deepPath)) := by
  have normal := normalParts?_scopeText isName_deep
  have inside : deepAccess.root <+: "root" :: List.replicate 9 longName := by simp [deepAccess]
  have permitted : deepAccess.permit deepDisk .fsWrite (scopeText deepPath) =
      .ok (["root", "link"] ++ (List.replicate 8 longName ++ ["x"]), deepPath) :=
    permit_of_reaches normal rfl deepDisk_reaches deepDisk_named inside (allows_deepAccess deepPath).2
  have steps : ∀ name ∈ List.replicate 8 longName ++ ["x"], IsStep name := by
    intro name member
    rcases List.mem_append.mp member with long | last
    · exact List.eq_of_mem_replicate long ▸ isStep_longName
    · exact List.mem_singleton.mp last ▸ (by decide)
  have short : checkPath (["root", "link"] ++ (List.replicate 8 longName ++ ["x"])) = .ok () :=
    (checkPath_long _ 8 "x" (by decide)).mpr (by decide)
  have deep : checkPath (("root" :: List.replicate 9 longName) ++ (List.replicate 8 longName ++ ["x"])) ≠ .ok () :=
    fun room => absurd ((checkPath_long ["root"] 17 "x" (by decide)).mp room) (by decide)
  obtain ⟨d', run⟩ := write_of_reaches deepDisk_holds.tree permitted (List.cons_ne_nil _ _) deepDisk_reaches
    deepDisk_last steps short "hi"
  obtain ⟨_, _, found⟩ := locate_of_write deepDisk_holds permitted deepDisk_reaches run
  have refused := refuses_of_deep (a := deepAccess) normal (List.cons_ne_nil _ _) found deep
  exact ⟨d', deepDisk_holds, run, (allows_deepAccess deepPath).1, refused.read⟩

end Access

end ScriptTools.Files
