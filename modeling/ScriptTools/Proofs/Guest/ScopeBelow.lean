import ScriptTools.Proofs.Guest.Mirror
import ScriptTools.Proofs.Result

/-!
The rules of scope for a text that stands below some variables. What is in order in the text alone is in
order there, unless there are too many variables in the outermost function.
-/

namespace ScriptTools.Guest.Scope

variable {k : Nat} {extra : List (Name × Attribute)}

/-- A jump that waits, some lines further down and with more variables before it. -/
def Pending.shift (k more : Nat) (p : Pending) : Pending := ⟨p.label, p.line + k, p.visible + more⟩

/-- Blocks some lines further down, with variables before all others in the outermost one. -/
structure Frame.Below (k more : Nat) (f f' : Frame) : Prop where
  loop : f'.loop = f.loop
  labels : List.Forall₂ (fun a a' => a'.1 = a.1 ∧ a'.2.line = a.2.line + k) f.labels f'.labels
  pending : f'.pending = f.pending.map (Pending.shift k more)

inductive FramesBelow (k : Nat) (extra : List (Name × Attribute)) : List Frame → List Frame → Prop
  | nil : FramesBelow k extra [] []
  | last {f f' : Frame} : f.Below k extra.length f' → f'.names = f.names ++ extra → FramesBelow k extra [f] [f']
  | cons {f f' g g' : Frame} {fs fs' : List Frame} : f.Below k extra.length f' → f'.names = f.names →
      FramesBelow k extra (g :: fs) (g' :: fs') → FramesBelow k extra (f :: g :: fs) (f' :: g' :: fs')

structure Level.Below (k : Nat) (extra : List (Name × Attribute)) (l l' : Level) : Prop where
  line : l'.line = l.line.map (· + k)
  varargs : l'.varargs = l.varargs
  reserved : l'.reserved = l.reserved
  frames : FramesBelow k extra l.frames l'.frames

/-- Functions under way; the variables before all others are in the outermost one, the script itself. -/
inductive LevelsBelow (k : Nat) : Levels → Levels → Prop
  | nil : LevelsBelow k [] []
  | script {extra : List (Name × Attribute)} {l l' : Level} : (∀ v ∈ extra, v.2 = .plain) →
      (extra ≠ [] → l.line = none) → l.Below k extra l' → LevelsBelow k [l] [l']
  | function {l l' m m' : Level} {ls ls' : Levels} : l.Below k [] l' → LevelsBelow k (m :: ls) (m' :: ls') →
      LevelsBelow k (l :: m :: ls) (l' :: m' :: ls')

theorem visible_eq_length (l : Level) : l.visible = (l.frames.flatMap Frame.names).length := by
  have from_ (fs : List Frame) (n : Nat) :
      fs.foldl (fun n f => n + f.names.length) n = n + (fs.flatMap Frame.names).length := by
    induction fs generalizing n with
    | nil => simp
    | cons f fs ih => rw [List.foldl_cons, ih, List.flatMap_cons, List.length_append, Nat.add_assoc]
  rw [Level.visible, from_, Nat.zero_add]

/-- The line of the label of a name, if there is one. -/
theorem Frame.Below.lookup {more : Nat} {f f' : Frame} (below : f.Below k more f') (x : Name) :
    (f'.labels.lookup x).map Label.line = (f.labels.lookup x).map fun l => l.line + k := by
  have labels := below.labels
  revert labels
  generalize f.labels = known
  generalize f'.labels = known'
  intro labels
  induction labels with
  | nil => rfl
  | @cons a a' _ _ same _ ih =>
    obtain ⟨name, line⟩ := same
    rw [List.lookup_cons, List.lookup_cons, name]
    cases x == a.1 with
    | true => simp [line]
    | false => exact ih

theorem findSome?_cons_or {α β : Type} (g : α → Option β) (a : α) (as : List α) :
    (a :: as).findSome? g = (g a).or (as.findSome? g) := by
  rw [List.findSome?_cons]
  cases g a <;> rfl

namespace FramesBelow

theorem visible {fs fs' : List Frame} (below : FramesBelow k extra fs fs') (some : fs ≠ []) :
    (fs'.flatMap Frame.names).length = (fs.flatMap Frame.names).length + extra.length := by
  induction below with
  | nil => exact absurd rfl some
  | last _ names => simp [names]
  | @cons f f' _ _ _ _ _ names _ ih =>
    have rest := ih (by simp)
    simp only [List.flatMap_cons, List.length_append, names] at rest ⊢
    omega

/-- A label is known further down if it is known in the text alone. -/
theorem findLabel? {fs fs' : List Frame} (below : FramesBelow k extra fs fs') (x : Name) :
    (fs'.findSome? fun f => f.labels.lookup x).isSome = (fs.findSome? fun f => f.labels.lookup x).isSome := by
  have one {f f' : Frame} (below : f.Below k extra.length f') :
      (f'.labels.lookup x).isSome = (f.labels.lookup x).isSome := by
    have same := congrArg Option.isSome (below.lookup x)
    simpa using same
  induction below with
  | nil => rfl
  | last below _ => rw [findSome?_cons_or, findSome?_cons_or, Option.isSome_or, Option.isSome_or, one below]
  | @cons f _ _ _ _ _ below _ _ ih =>
    rw [findSome?_cons_or, findSome?_cons_or (a := f), Option.isSome_or, Option.isSome_or, one below, ih]

/-- A variable further down is the one of the text alone, or stands before the text. -/
theorem find? {fs fs' : List Frame} (below : FramesBelow k extra fs fs') (x : Name) :
    (fs'.findSome? fun f => f.names.lookup x) =
      (fs.findSome? fun f => f.names.lookup x).or (if fs = [] then none else extra.lookup x) := by
  induction below with
  | nil => rfl
  | last _ names => simp [findSome?_cons_or, names, List.lookup_append]
  | @cons f _ _ _ _ _ _ names _ ih =>
    rw [findSome?_cons_or, findSome?_cons_or (a := f), names, ih, Option.or_assoc]
    simp

end FramesBelow

/-- The number of variables that are visible at a label, or behind its block when that ends there. -/
def Level.visibleAt (l : Level) (last : Bool) : Nat :=
  if last then l.visible - (l.frames.head?.map fun f => f.names.length).getD 0 else l.visible

theorem Level.addLabel_eq_ok {l l₁ : Level} {x : Name} {last : Bool} {line : Nat} :
    l.addLabel x last line = .ok l₁ ↔ l.findLabel? x = none ∧
      ∃ l₂, l.settle x (l.visibleAt last) = .ok l₂ ∧
        l₁ = l₂.modifyTop fun f => { f with labels := (x, ⟨l.visibleAt last, line⟩) :: f.labels } := by
  rw [Level.addLabel]
  cases l.findLabel? x with
  | some known => simp
  | none =>
    simp only [true_and]
    rw [ScriptTools.bind_eq_ok]
    simp only [pure, Except.pure, Except.ok.injEq, eq_comm]
    rfl

/-- A block with the jumps that an inner one has left open. -/
def Frame.takeOver (waiting : List Pending) (visible : Nat) (f : Frame) : Frame :=
  { f with pending := (waiting.map fun p => { p with visible := min p.visible visible }) ++ f.pending }

/-- The jumps that go on when a block ends. -/
def Frame.waiting (f : Frame) : List Pending :=
  if f.loop then f.pending.filter fun p => p.label.isSome else f.pending

theorem Frame.Below.waiting {more : Nat} {f f' : Frame} (below : f.Below k more f') :
    f'.waiting = f.waiting.map (Pending.shift k more) := by
  rw [Frame.waiting, Frame.waiting, below.loop, below.pending]
  split
  · rw [List.filter_map]
    rfl
  · rfl

theorem Level.close_outer {l : Level} {f : Frame} (here : l.frames = [f]) :
    l.close = match f.waiting.getLast? with
      | none => .ok { l with frames := [] }
      | some p => .error p.fault := by
  simp only [Level.close, here]
  rfl

theorem Level.close_inner {l : Level} {f g : Frame} {fs : List Frame} (here : l.frames = f :: g :: fs) :
    l.close = .ok (Level.modifyTop { l with frames := g :: fs }
      (g := Frame.takeOver f.waiting (Level.visible { l with frames := g :: fs }))) := by
  simp only [Level.close, here, Level.modifyTop]
  rfl

namespace Level

theorem modifyTop_line (l : Level) (g : Frame → Frame) : (l.modifyTop g).line = l.line := by
  rw [modifyTop]
  split <;> rfl

theorem reserve_line {l m : Level} {x : Name} (run : l.reserve x = .ok m) : m.line = l.line := by
  rw [reserve] at run
  split at run
  · cases run
    rfl
  · cases run

theorem mark_line {l m : Level} {a : Attribute} (run : l.mark a = .ok m) : m.line = l.line := by
  rw [mark] at run
  split at run
  · cases run
    rfl
  · split at run
    · cases run
    · cases run
      rfl

theorem activate_line (l : Level) : l.activate.line = l.line := modifyTop_line l _

theorem addJump_line (l : Level) (label : Option Name) (line : Nat) : (l.addJump label line).line = l.line := by
  rw [addJump]
  split
  · rfl
  · exact modifyTop_line l _

theorem addLabel_line {l m : Level} {x : Name} {last : Bool} {line : Nat}
    (run : l.addLabel x last line = .ok m) : m.line = l.line := by
  obtain ⟨_, l₂, settled, rfl⟩ := addLabel_eq_ok.mp run
  rw [modifyTop_line]
  rw [settle] at settled
  split at settled
  · cases settled
    rfl
  · dsimp only at settled
    split at settled
    · cases settled
    · cases settled
      rfl

theorem close_line {l m : Level} (run : l.close = .ok m) : m.line = l.line := by
  cases here : l.frames with
  | nil =>
    simp only [close, here] at run
    cases run
    rfl
  | cons f fs =>
    cases fs with
    | nil =>
      rw [close_outer here] at run
      split at run <;> cases run
      rfl
    | cons g fs =>
      rw [close_inner here] at run
      cases run
      rfl

end Level

theorem lookup_plain {names : List (Name × Attribute)} (plain : ∀ v ∈ names, v.2 = .plain) (x : Name) :
    names.lookup x = none ∨ names.lookup x = some .plain := by
  induction names with
  | nil => exact .inl rfl
  | cons v names ih =>
    rw [List.lookup_cons]
    cases x == v.1 with
    | true => exact .inr (congrArg some (plain v (by simp)))
    | false => exact ih fun w member => plain w (by simp [member])

namespace Level.Below

theorem fresh (line : Option Nat) : Level.Below k [] { line := line, frames := [{ loop := false }] }
    { line := line.map (· + k), frames := [{ loop := false }] } :=
  ⟨rfl, rfl, rfl, .last ⟨rfl, .nil, rfl⟩ rfl⟩

variable {l l' : Level} (below : l.Below k extra l')
include below

theorem frames_eq_nil : l'.frames = [] ↔ l.frames = [] := by
  have frames := below.frames
  revert frames
  generalize l.frames = fs
  generalize l'.frames = fs'
  intro frames
  cases frames <;> simp

theorem visible (some : l.frames ≠ []) : l'.visible = l.visible + extra.length := by
  rw [visible_eq_length, visible_eq_length, below.frames.visible some]

theorem visible_le : l'.visible ≤ l.visible + extra.length := by
  by_cases none : l.frames = []
  · simp [visible_eq_length, none, below.frames_eq_nil.mpr none]
  · exact Nat.le_of_eq (below.visible none)

theorem modifyTop (g g' : Frame → Frame)
    (loops : ∀ f f', f.Below k extra.length f' → (g f).Below k extra.length (g' f'))
    (names : ∀ f f' more, f'.names = f.names ++ more → (g' f').names = (g f).names ++ more) :
    (l.modifyTop g).Below k extra (l'.modifyTop g') := by
  obtain ⟨line, varargs, reserved, frames⟩ := below
  obtain ⟨ln, va, fs, rs⟩ := l
  obtain ⟨ln', va', fs', rs'⟩ := l'
  cases frames with
  | nil => exact ⟨line, varargs, reserved, .nil⟩
  | last one same => exact ⟨line, varargs, reserved, .last (loops _ _ one) (names _ _ _ same)⟩
  | cons one same rest =>
    refine ⟨line, varargs, reserved, .cons (loops _ _ one) ?_ rest⟩
    simpa using names _ _ [] (by simpa using same)

theorem reserve {x : Name} {l₁ : Level} (run : l.reserve x = .ok l₁) :
    (∃ l₁', l'.reserve x = .ok l₁' ∧ l₁.Below k extra l₁') ∨
      (extra ≠ [] ∧ l'.reserve x = .error (.tooManyVariables l'.line)) := by
  rw [Level.reserve] at run
  split at run
  · rename_i room
    cases run
    by_cases room' : l'.visible + l'.reserved.length < variableLimit
    · refine .inl ⟨_, if_pos room', ?_⟩
      exact ⟨below.line, below.varargs, by rw [below.reserved], below.frames⟩
    · refine .inr ⟨?_, if_neg room'⟩
      rintro rfl
      have near : l'.visible ≤ l.visible := below.visible_le
      rw [below.reserved] at room'
      omega
  · cases run

theorem mark {a : Attribute} {l₁ : Level} (run : l.mark a = .ok l₁) :
    ∃ l₁', l'.mark a = .ok l₁' ∧ l₁.Below k extra l₁' := by
  have reserved := below.reserved
  rw [Level.mark] at run ⊢
  rw [reserved]
  split at run
  · rename_i empty
    cases run
    exact ⟨l', rfl, below⟩
  · split at run
    · cases run
    · rename_i x _ rest found once
      cases run
      exact ⟨_, if_neg once, below.line, below.varargs, rfl, below.frames⟩

theorem activate : l.activate.Below k extra l'.activate := by
  have moved := below.modifyTop (fun f => { f with names := l.reserved ++ f.names })
    (fun f => { f with names := l'.reserved ++ f.names })
    (fun f f' one => ⟨one.loop, one.labels, one.pending⟩)
    (fun f f' more same => by simp [same, below.reserved])
  exact ⟨moved.line, moved.varargs, rfl, moved.frames⟩

theorem findLabel? (x : Name) : (l'.findLabel? x).isSome = (l.findLabel? x).isSome :=
  below.frames.findLabel? x

theorem addJump (label : Option Name) (line : Nat) :
    (l.addJump label line).Below k extra (l'.addJump label (line + k)) := by
  have known : (label.bind l'.findLabel?).isSome = (label.bind l.findLabel?).isSome := by
    cases label with
    | none => rfl
    | some x => exact below.findLabel? x
  rw [Level.addJump, Level.addJump, known]
  split
  · exact below
  · by_cases none : l.frames = []
    · rw [Level.modifyTop, Level.modifyTop, none, below.frames_eq_nil.mpr none]
      exact below
    · refine below.modifyTop _ _ (fun f f' one => ⟨one.loop, one.labels, ?_⟩) fun f f' more same => same
      simp [one.pending, Pending.shift, below.visible none]

/-- Jumps that enter no scope in the text alone enter none further down. -/
theorem settle {x : Name} {v v' : Nat} {l₁ : Level} (near : v' ≤ v + extra.length)
    (run : l.settle x v = .ok l₁) : ∃ l₁', l'.settle x v' = .ok l₁' ∧ l₁.Below k extra l₁' := by
  have other {f f' : Frame} (one : f.Below k extra.length f') (p : Option Name → Bool) :
      f'.pending.filter (fun j => p j.label) =
        (f.pending.filter fun j => p j.label).map (Pending.shift k extra.length) := by
    rw [one.pending, List.filter_map]
    rfl
  have frame {f f' : Frame} {fs fs' : List Frame} (one : f.Below k extra.length f')
      (here : l.frames = f :: fs) (here' : l'.frames = f' :: fs')
      (rest : ∀ g g', g.Below k extra.length g' → g.names = f.names → g'.names = f'.names →
        FramesBelow k extra (g :: fs) (g' :: fs')) :
      ∃ l₁', l'.settle x v' = .ok l₁' ∧ l₁.Below k extra l₁' := by
    simp only [Level.settle, here, List.partition_eq_filter_filter] at run
    split at run
    · cases run
    · rename_i outside
      cases run
      have outside' : (f'.pending.filter fun p => p.label == some x).reverse.find?
          (fun p => p.visible < v') = none := by
        rw [List.find?_eq_none] at outside ⊢
        rw [other one fun label => label == some x]
        intro p member
        obtain ⟨p, found, rfl⟩ := List.mem_map.mp (List.mem_reverse.mp member)
        have waits := outside p (List.mem_reverse.mpr found)
        rw [decide_eq_true_eq] at waits ⊢
        change ¬ p.visible + extra.length < v'
        omega
      refine ⟨{ l' with frames := { f' with pending := f'.pending.filter fun p => !(p.label == some x) } :: fs' },
        ?_, below.line, below.varargs, below.reserved, ?_⟩
      · simp only [Level.settle, here', List.partition_eq_filter_filter, outside']
        rfl
      · exact rest _ _ ⟨one.loop, one.labels, other one fun label => !(label == some x)⟩ rfl rfl
  have frames := below.frames
  generalize here : l.frames = fs at frames
  generalize here' : l'.frames = fs' at frames
  cases frames with
  | nil =>
    simp only [Level.settle, here] at run
    cases run
    exact ⟨l', by simp only [Level.settle, here'], below⟩
  | last one names => exact frame one here here' fun g g' one' same same' => .last one' (by rw [same, same', names])
  | cons one names others =>
    exact frame one here here' fun g g' one' same same' => .cons one' (by rw [same, same', names]) others

theorem visibleAt_le (last : Bool) : l'.visibleAt last ≤ l.visibleAt last + extra.length := by
  have near := below.visible_le
  have frames := below.frames
  rw [Level.visibleAt, Level.visibleAt]
  cases last with
  | false => exact near
  | true =>
    simp only [if_true]
    revert frames
    generalize l.frames = fs
    generalize l'.frames = fs'
    intro frames
    cases frames with
    | nil => simpa using near
    | last _ names => simp [names]; omega
    | cons _ names _ => simp [names]; omega

theorem addLabel {x : Name} {last : Bool} {line : Nat} {l₁ : Level} (run : l.addLabel x last line = .ok l₁) :
    ∃ l₁', l'.addLabel x last (line + k) = .ok l₁' ∧ l₁.Below k extra l₁' := by
  obtain ⟨unknown, l₂, settled, rfl⟩ := addLabel_eq_ok.mp run
  have unknown' : l'.findLabel? x = none := by
    have same := below.findLabel? x
    rw [unknown] at same
    simpa using same
  obtain ⟨l₂', settled', after⟩ := below.settle (below.visibleAt_le last) settled
  refine ⟨_, addLabel_eq_ok.mpr ⟨unknown', l₂', settled', rfl⟩, after.modifyTop _ _ ?_ ?_⟩
  · exact fun f f' one => ⟨one.loop, .cons ⟨rfl, rfl⟩ one.labels, one.pending⟩
  · exact fun f f' more same => same

/-- The outermost block may end, and then nothing stands before the text any more. -/
theorem close {l₁ : Level} (run : l.close = .ok l₁) :
    ∃ l₁' more, l'.close = .ok l₁' ∧ (more = extra ∨ more = []) ∧ l₁.Below k more l₁' := by
  have frames := below.frames
  generalize here : l.frames = fs at frames
  generalize here' : l'.frames = fs' at frames
  cases frames with
  | nil =>
    simp only [Level.close, here] at run
    cases run
    exact ⟨l', extra, by simp only [Level.close, here'], .inl rfl, below⟩
  | last one names =>
    rw [Level.close_outer here] at run
    split at run
    · rename_i none
      cases run
      refine ⟨{ l' with frames := [] }, [], ?_, .inr rfl, below.line, below.varargs, below.reserved, .nil⟩
      rw [Level.close_outer here', one.waiting, List.getLast?_map, none]
      rfl
    · cases run
  | @cons f f' g g' fs fs' one names others =>
    rw [Level.close_inner here] at run
    cases run
    have outer : (Level.Below k extra { l with frames := g :: fs } { l' with frames := g' :: fs' }) :=
      ⟨below.line, below.varargs, below.reserved, others⟩
    refine ⟨_, extra, Level.close_inner here', .inl rfl, outer.modifyTop _ _ ?_ fun _ _ _ same => same⟩
    intro h h' two
    refine ⟨two.loop, two.labels, ?_⟩
    rw [outer.visible (by simp), one.waiting]
    simp only [Frame.takeOver, two.pending, List.map_append, List.map_map]
    congr 1
    refine List.map_congr_left fun p _ => ?_
    simp [Pending.shift, Nat.add_min_add_right]

theorem openBlock (loop : Bool) : ∃ more, (more = extra ∨ more = []) ∧
    Level.Below k more { l with frames := { loop } :: l.frames } { l' with frames := { loop } :: l'.frames } := by
  have frames := below.frames
  generalize here : l.frames = fs at frames
  generalize here' : l'.frames = fs' at frames
  have empty (more : Nat) : Frame.Below k more { loop } { loop } := ⟨rfl, .nil, rfl⟩
  cases frames with
  | nil => exact ⟨[], .inr rfl, below.line, below.varargs, below.reserved, .last (empty _) rfl⟩
  | last one names =>
    exact ⟨extra, .inl rfl, below.line, below.varargs, below.reserved, .cons (empty _) rfl (.last one names)⟩
  | cons one names rest =>
    exact ⟨extra, .inl rfl, below.line, below.varargs, below.reserved,
      .cons (empty _) rfl (.cons one names rest)⟩

end Level.Below

theorem step_assign_eq_ok {l : Level} {ls ls₁ : Levels} {x : Name} :
    step (l :: ls) (.assign x) = .ok ls₁ ↔
      ls₁ = l :: ls ∧ ∀ a, find? (l :: ls) x = some a → a = .plain := by
  rw [step]
  · cases find? (l :: ls) x with
    | none => simp [eq_comm]
    | some a => cases a <;> simp [eq_comm]
  · nofun

/-! Events one after the other -/

theorem firstFault?_of_ok {ls ls' : Levels} {e : ScopeEvent} {t : Lexeme} {events : List (ScopeEvent × Lexeme)}
    (run : step ls e = .ok ls') : firstFault? ls ((e, t) :: events) = firstFault? ls' events := by
  rw [firstFault?, run]

theorem firstFault?_of_error {ls : Levels} {e : ScopeEvent} {t : Lexeme} {events : List (ScopeEvent × Lexeme)}
    {fault : ScopeFault} (run : step ls e = .error fault) : firstFault? ls ((e, t) :: events) = some (t, fault) := by
  rw [firstFault?, run]

namespace LevelsBelow

theorem find? {ls ls' : Levels} (below : LevelsBelow k ls ls') (x : Name) :
    find? ls' x = find? ls x ∨ find? ls x = none ∧ find? ls' x = some .plain := by
  have inner {l l' : Level} (one : l.Below k [] l') : l'.find? x = l.find? x := by
    have same := one.frames.find? x
    simpa [Level.find?] using same
  induction below with
  | nil => exact .inl rfl
  | @script extra l l' plain _ one =>
    have same : l'.find? x = (l.find? x).or (if l.frames = [] then none else extra.lookup x) :=
      one.frames.find? x
    rw [Scope.find?, Scope.find?, findSome?_cons_or, findSome?_cons_or (a := l), same]
    cases l.find? x with
    | some a => exact .inl rfl
    | none =>
      split
      · exact .inl rfl
      · rcases lookup_plain plain x with none | some
        · exact .inl (by rw [none]; rfl)
        · exact .inr ⟨rfl, by rw [some]; rfl⟩
  | @function l l' _ _ _ _ one _ ih =>
    rw [Scope.find?, Scope.find?, findSome?_cons_or, findSome?_cons_or (a := l), inner one]
    cases l.find? x with
    | none => exact ih
    | some a => exact .inl rfl

theorem exists_cons {l : Level} {ls ls' : Levels} (below : LevelsBelow k (l :: ls) ls') :
    ∃ l' rest', ls' = l' :: rest' := by
  cases below with
  | script => exact ⟨_, _, rfl⟩
  | function => exact ⟨_, _, rfl⟩

/-- What happens to the innermost function happens further down, unless there are too many variables. -/
theorem top {l m : Level} {ls ls' : Levels} (below : LevelsBelow k (l :: ls) ls') (line : m.line = l.line)
    {g : Level → Except ScopeFault Level}
    (one : ∀ extra l', l.Below k extra l' →
      (∃ m' more, g l' = .ok m' ∧ (more = extra ∨ more = []) ∧ m.Below k more m') ∨
        extra ≠ [] ∧ g l' = .error (.tooManyVariables l'.line)) :
    ∃ l' rest', ls' = l' :: rest' ∧
      ((∃ m', g l' = .ok m' ∧ LevelsBelow k (m :: ls) (m' :: rest')) ∨
        g l' = .error (.tooManyVariables none)) := by
  cases below with
  | @script extra _ l' plain outer here =>
    refine ⟨l', [], rfl, ?_⟩
    rcases one extra l' here with ⟨m', more, run', kept, after⟩ | ⟨some, fault⟩
    · refine .inl ⟨m', run', ?_⟩
      rcases kept with rfl | rfl
      · exact .script plain (fun some => line.trans (outer some)) after
      · exact .script (by simp) (fun some => absurd rfl some) after
    · rw [here.line, outer some] at fault
      exact .inr fault
  | @function _ l' n n' ns ns' here rest =>
    refine ⟨l', n' :: ns', rfl, .inl ?_⟩
    rcases one [] l' here with ⟨m', more, run', kept, after⟩ | ⟨none, _⟩
    · obtain rfl : more = [] := by simpa using kept
      exact ⟨m', run', .function after rest⟩
    · exact absurd rfl none

/-- A change of the innermost function that may fail. -/
theorem change {l m : Level} {ls ls' : Levels} (below : LevelsBelow k (l :: ls) ls') (line : m.line = l.line)
    {g : Level → Except ScopeFault Level}
    (one : ∀ extra l', l.Below k extra l' →
      (∃ m' more, g l' = .ok m' ∧ (more = extra ∨ more = []) ∧ m.Below k more m') ∨
        extra ≠ [] ∧ g l' = .error (.tooManyVariables l'.line))
    {e : ScopeEvent} (does : ∀ l' rest', Scope.step (l' :: rest') e = (g l').map (· :: rest')) :
    (∃ ls₁', Scope.step ls' e = .ok ls₁' ∧ LevelsBelow k (m :: ls) ls₁') ∨
      Scope.step ls' e = .error (.tooManyVariables none) := by
  obtain ⟨l', rest', rfl, ⟨m', run, after⟩ | fault⟩ := below.top line one
  · exact .inl ⟨m' :: rest', by rw [does, run]; rfl, after⟩
  · exact .inr (by rw [does, fault]; rfl)

/-- A change of the innermost function that cannot fail. -/
theorem plainChange {l m : Level} {ls ls' : Levels} (below : LevelsBelow k (l :: ls) ls')
    (line : m.line = l.line) {g : Level → Level}
    (one : ∀ extra l', l.Below k extra l' → ∃ more, (more = extra ∨ more = []) ∧ m.Below k more (g l'))
    {e : ScopeEvent} (does : ∀ l' rest', Scope.step (l' :: rest') e = .ok (g l' :: rest')) :
    (∃ ls₁', Scope.step ls' e = .ok ls₁' ∧ LevelsBelow k (m :: ls) ls₁') ∨
      Scope.step ls' e = .error (.tooManyVariables none) := by
  refine below.change (g := fun l' => .ok (g l')) line (fun extra l' here => ?_) does
  obtain ⟨more, kept, after⟩ := one extra l' here
  exact .inl ⟨g l', more, rfl, kept, after⟩

/-- An event further down is in order if it is in the text alone, unless there are too many variables. -/
theorem step {ls ls' ls₁ : Levels} (below : LevelsBelow k ls ls') {e : ScopeEvent}
    (run : step ls e = .ok ls₁) :
    (∃ ls₁', step ls' (shift k e) = .ok ls₁' ∧ LevelsBelow k ls₁ ls₁') ∨
      step ls' (shift k e) = .error (.tooManyVariables none) := by
  cases ls with
  | nil =>
    cases below
    cases e with
    | openFunction line =>
      cases run
      have none : ∀ v ∈ ([] : List (Name × Attribute)), v.2 = .plain := nofun
      exact .inl ⟨_, rfl, .script none (by simp) (.fresh line)⟩
    | _ =>
      cases run
      exact .inl ⟨[], rfl, .nil⟩
  | cons l ls =>
    cases e with
    | openFunction line =>
      cases run
      obtain ⟨l', rest', rfl⟩ := below.exists_cons
      exact .inl ⟨_, rfl, .function (.fresh line) below⟩
    | takeVarargs =>
      cases run
      exact below.plainChange (e := .takeVarargs) (m := { l with varargs := true }) (g := fun l' => { l' with varargs := true }) rfl
        (fun extra l' here => ⟨extra, .inl rfl, here.line, rfl, here.reserved, here.frames⟩) fun _ _ => rfl
    | closeFunction =>
      obtain ⟨m, close, rfl⟩ := map_eq_ok.mp run
      cases below with
      | script _ _ here =>
        obtain ⟨m', _, close', _, _⟩ := here.close close
        exact .inl ⟨[], map_eq_ok.mpr ⟨m', close', rfl⟩, .nil⟩
      | function here rest =>
        obtain ⟨m', _, close', _, _⟩ := here.close close
        exact .inl ⟨_, map_eq_ok.mpr ⟨m', close', rfl⟩, rest⟩
    | openBlock loop =>
      cases run
      refine below.plainChange (e := .openBlock loop) (m := { l with frames := { loop } :: l.frames })
        (g := fun l' => { l' with frames := { loop } :: l'.frames }) rfl
        (fun extra l' here => ?_) fun _ _ => rfl
      exact here.openBlock loop
    | closeBlock =>
      obtain ⟨m, close, rfl⟩ := map_eq_ok.mp run
      refine below.change (Level.close_line close) (fun extra l' here => .inl ?_) fun _ _ => rfl
      obtain ⟨m', more, close', kept, after⟩ := here.close close
      exact ⟨m', more, close', kept, after⟩
    | reserve x =>
      obtain ⟨m, reserve, rfl⟩ := map_eq_ok.mp run
      refine below.change (Level.reserve_line reserve) (fun extra l' here => ?_) fun _ _ => rfl
      rcases here.reserve reserve with ⟨m', reserve', after⟩ | fault
      · exact .inl ⟨m', extra, reserve', .inl rfl, after⟩
      · exact .inr fault
    | mark a =>
      obtain ⟨m, mark, rfl⟩ := map_eq_ok.mp run
      refine below.change (Level.mark_line mark) (fun extra l' here => .inl ?_) fun _ _ => rfl
      obtain ⟨m', mark', after⟩ := here.mark mark
      exact ⟨m', extra, mark', .inl rfl, after⟩
    | badAttribute x => cases run
    | activate =>
      cases run
      exact below.plainChange (Level.activate_line l) (fun extra l' here => ⟨extra, .inl rfl, here.activate⟩)
        fun _ _ => rfl
    | assign x =>
      obtain ⟨rfl, free⟩ := step_assign_eq_ok.mp run
      obtain ⟨l', rest', rfl⟩ := below.exists_cons
      refine .inl ⟨l' :: rest', step_assign_eq_ok.mpr ⟨rfl, fun a known => ?_⟩, below⟩
      rcases below.find? x with same | ⟨_, plain⟩
      · exact free a (same ▸ known)
      · rw [plain] at known
        cases known
        rfl
    | useVarargs =>
      rw [Scope.step] at run
      split at run
      · rename_i varargs
        cases run
        refine below.change rfl (g := fun l' => if l'.varargs then .ok l' else .error .noVarargs)
          (fun extra l' here => .inl ⟨l', extra, ?_, .inl rfl, here⟩) fun l' rest' => ?_
        · rw [here.varargs, if_pos varargs]
        · change (if l'.varargs then Except.ok (l' :: rest') else .error ScopeFault.noVarargs) = _
          split <;> rfl
      · cases run
    | label x last line =>
      obtain ⟨m, label, rfl⟩ := map_eq_ok.mp run
      refine below.change (Level.addLabel_line label) (fun extra l' here => .inl ?_) fun _ _ => rfl
      obtain ⟨m', label', after⟩ := here.addLabel label
      exact ⟨m', extra, label', .inl rfl, after⟩
    | goto x line =>
      cases run
      exact below.plainChange (Level.addJump_line l _ _)
        (fun extra l' here => ⟨extra, .inl rfl, here.addJump (some x) line⟩) fun _ _ => rfl
    | «break» line =>
      cases run
      exact below.plainChange (Level.addJump_line l _ _)
        (fun extra l' here => ⟨extra, .inl rfl, here.addJump none line⟩) fun _ _ => rfl

end LevelsBelow

theorem LevelsBelow.firstFault? {ls ls' : Levels} (below : LevelsBelow k ls ls')
    (events : List (ScopeEvent × Lexeme)) (sound : firstFault? ls events = none) :
    firstFault? ls' (shift k events) = none ∨
      ∃ t, firstFault? ls' (shift k events) = some (t, .tooManyVariables none) := by
  induction events generalizing ls ls' with
  | nil => exact .inl rfl
  | cons event events ih =>
    obtain ⟨e, t⟩ := event
    rw [Scope.firstFault?] at sound
    split at sound
    · rename_i run
      change Scope.firstFault? ls' ((shift k e, shift k t) :: shift k events) = none ∨
        ∃ u, Scope.firstFault? ls' ((shift k e, shift k t) :: shift k events) = some (u, .tooManyVariables none)
      rcases below.step run with ⟨ls₁', run', after⟩ | fault
      · rw [Scope.firstFault?_of_ok run']
        exact ih after sound
      · exact .inr ⟨_, Scope.firstFault?_of_error fault⟩
    · cases sound

end ScriptTools.Guest.Scope
