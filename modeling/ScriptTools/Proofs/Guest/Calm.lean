import Mathlib.Data.List.Basic
import ScriptTools.Guest.Script

/-!
States in which no call can come about by itself: the table of globals has no metatable, and no handler waits for
errors. What does not call a function ends there with a value and leaves such a state behind, with the world as it
was; where the memory and the time have limits, it can also fail.
-/

namespace ScriptTools.Guest

variable {World α β : Type}

/-! Metatables -/

namespace Table

theorem place_metatable (t : Table) (e : Key × Value) : (t.place e).metatable = t.metatable := by
  rw [place]
  split <;> rfl

theorem foldl_place_metatable (t : Table) (es : List (Key × Value)) :
    (es.foldl place t).metatable = t.metatable := by
  induction es generalizing t with
  | nil => rfl
  | cons e es ih => exact (ih (t.place e)).trans (t.place_metatable e)

theorem rearrange_metatable (t : Table) (k : Key) : (t.rearrange k).metatable = t.metatable :=
  foldl_place_metatable _ _

/-- Entries of a table are no part of its metatable. -/
theorem set_metatable (t : Table) (k : Key) (v : Value) : (t.set k v).metatable = t.metatable := by
  rw [set]
  split
  · rfl
  · split
    · rfl
    · split
      · rfl
      · rw [insertNew]
        split
        · rfl
        · exact (place_metatable _ _).trans (t.rearrange_metatable k)

theorem ofFields_metatable (fields : List (String × Value)) : (ofFields fields).metatable = none := by
  have from_ (t : Table) : (fields.foldl (fun t f => t.setText f.1 f.2) t).metatable = t.metatable := by
    induction fields generalizing t with
    | nil => rfl
    | cons f fields ih => exact (ih (t.setText f.1 f.2)).trans (t.set_metatable _ _)
  exact from_ _

end Table

/-! Quiet states -/

/-- A state in which reading and setting global variables calls nothing and neither does an error, with some functions
under way. -/
structure Quiet (depth nested : Nat) (s : State World) : Prop where
  globals : (s.tables[s.globals]?.getD {}).metatable = none
  guards : s.guards = []
  depth : s.depth = depth
  nested : s.nested = nested

/-- Neither the memory nor the time runs out. -/
structure State.Unlimited (s : State World) : Prop where
  memory : s.memory.limit = none
  deadline : s.clock.deadline = none
  expired : s.clock.expired = false
  paused : s.clock.paused = false

/-- A quiet state in which nothing runs out. -/
structure Calm (depth nested : Nat) (s : State World) : Prop extends Quiet depth nested s, State.Unlimited s

/-- A state after another one, with nothing called in between. -/
structure State.Follows (s' s : State World) : Prop where
  world : s'.world = s.world
  quiet : ∀ {depth nested}, Quiet depth nested s → Quiet depth nested s'
  unlimited : s.Unlimited → s'.Unlimited

variable {depth nested : Nat} {s s' s'' : State World}

theorem State.Follows.refl (s : State World) : s.Follows s := ⟨rfl, id, id⟩

theorem State.Follows.trans (later : s''.Follows s') (first : s'.Follows s) : s''.Follows s :=
  ⟨later.world.trans first.world, fun quiet => later.quiet (first.quiet quiet),
    fun unlimited => later.unlimited (first.unlimited unlimited)⟩

theorem State.Follows.calm (follows : s'.Follows s) (calm : Calm depth nested s) : Calm depth nested s' :=
  ⟨follows.quiet calm.toQuiet, follows.unlimited calm.toUnlimited⟩

theorem bare_initial (w : World) : ((State.initial w).tables[(State.initial w).globals]?.getD {}).metatable = none := by
  rw [State.initial]
  dsimp only
  rw [List.getElem?_toArray, List.getElem?_cons_zero, Option.getD_some]
  exact Table.ofFields_metatable _

theorem calm_initial (w : World) : Calm 0 0 (State.initial w) :=
  ⟨⟨bare_initial w, rfl, rfl, rfl⟩, ⟨rfl, rfl, rfl, rfl⟩⟩

/-- A new table without a metatable. -/
theorem State.follows_push (s : State World) {t : Table} (bare : t.metatable = none) :
    State.Follows { s with tables := s.tables.push t } s := by
  refine ⟨rfl, fun quiet => { quiet with globals := ?_ }, fun unlimited => { unlimited with }⟩
  dsimp only
  rw [Array.getElem?_push]
  split
  · exact bare
  · exact quiet.globals

/-- An entry of a table changes. -/
theorem State.follows_set (s : State World) (id : Nat) (k : Key) (v : Value) :
    State.Follows { s with tables := s.tables.modify id fun t => t.set k v } s := by
  refine ⟨rfl, fun quiet => { quiet with globals := ?_ }, fun unlimited => { unlimited with }⟩
  have before := quiet.globals
  dsimp only
  rw [Array.getElem?_modify]
  split
  · cases here : s.tables[s.globals]? with
    | none => rfl
    | some t =>
      rw [here] at before
      exact (t.set_metatable k v).trans before
  · exact before

namespace Eval

theorem bind_of_done {m : Eval World α} {f : α → Eval World β} {a : α} {s' : State World} (run : m s = .done a s') :
    (m >>= f) s = f a s' := by
  change Eval.bind m f s = _
  rw [Eval.bind, run]

theorem bind_of_raise {m : Eval World α} {f : α → Eval World β} {e : Failure} {s' : State World}
    (run : m s = .raise e s') : (m >>= f) s = .raise e s' := by
  change Eval.bind m f s = _
  rw [Eval.bind, run]
  rfl

/-- A computation that calls nothing in a quiet state. It ends with a value in a state that follows, or fails because
there are limits. -/
def Steady (m : Eval World α) (P : α → Prop) : Prop :=
  ∀ ⦃depth nested : Nat⦄ ⦃s : State World⦄, Quiet depth nested s →
    (∃ a s', m s = .done a s' ∧ s'.Follows s ∧ P a) ∨ ¬ s.Unlimited ∧ ∃ e s', m s = .raise e s'

variable {P Q : α → Prop} {R : β → Prop}

theorem Steady.pure {a : α} (holds : P a) : Steady (Pure.pure a : Eval World α) P :=
  fun _ _ s _ => .inl ⟨a, s, rfl, .refl s, holds⟩

theorem Steady.bind {m : Eval World α} {f : α → Eval World β} (first : Steady m P) (next : ∀ a, P a → Steady (f a) R) :
    Steady (m >>= f) R := by
  intro depth nested s quiet
  rcases first quiet with ⟨a, s', run, follows, holds⟩ | ⟨limited, e, s', run⟩
  · rw [bind_of_done run]
    rcases next a holds (follows.quiet quiet) with ⟨b, s'', run', follows', holds'⟩ | ⟨limited, fails⟩
    · exact .inl ⟨b, s'', run', follows'.trans follows, holds'⟩
    · exact .inr ⟨fun unlimited => limited (follows.unlimited unlimited), fails⟩
  · exact .inr ⟨limited, e, s', bind_of_raise run⟩

theorem Steady.weaken {m : Eval World α} (steady : Steady m P) (weaker : ∀ a, P a → Q a) : Steady m Q := by
  intro depth nested s quiet
  refine (steady quiet).imp_left ?_
  rintro ⟨a, s', run, follows, holds⟩
  exact ⟨a, s', run, follows, weaker a holds⟩

/-- What is done at once, and leads to a state that follows. -/
theorem steady_of_done {m : Eval World α} (does : ∀ s, ∃ a s', m s = .done a s' ∧ s'.Follows s ∧ P a) : Steady m P :=
  fun _ _ s _ => .inl (does s)

theorem steady_look (f : State World → α) : Steady (look f) fun _ => True :=
  steady_of_done fun s => ⟨f s, s, rfl, .refl s, trivial⟩

theorem steady_allocate (bytes : Nat) : Steady (allocate bytes : Eval World Unit) fun _ => True := by
  intro depth nested s quiet
  unfold allocate
  split
  · exact .inl ⟨(), s, rfl, .refl s, trivial⟩
  next limit here =>
    have limited : ¬ s.Unlimited := fun unlimited => by cases here.symm.trans unlimited.memory
    have taken (used : Nat) : State.Follows { s with memory := { s.memory with used } } s :=
      ⟨rfl, fun quiet => { quiet with }, fun unlimited => absurd unlimited limited⟩
    dsimp only
    split
    · exact .inl ⟨(), _, rfl, taken _, trivial⟩
    · split
      · exact .inr ⟨limited, _, _, rfl⟩
      · split
        · exact .inl ⟨(), _, rfl, taken _, trivial⟩
        · exact .inr ⟨limited, _, _, rfl⟩

/-- In a quiet state the deadline ends a computation at once. -/
theorem deadlineError_of_quiet (quiet : Quiet depth nested s) :
    ∃ e s', (deadlineError : Eval World α) s = .raise e s' := by
  let fault : Value := .ref (.fault s.faults.size)
  let paused : State World := { s with faults := s.faults.push .deadline, clock := { s.clock with paused := true } }
  have raised : (error fault : Eval World α) paused = .raise (.raised fault) paused := by
    rw [error, show paused.guards = [] from quiet.guards]
  have caught : protect (error fault : Eval World α) paused = .done (.error (.raised fault)) paused := by
    rw [protect, raised]
    rfl
  refine ⟨.raised fault, { paused with clock := { paused.clock with paused := false } }, ?_⟩
  change (protect (error fault : Eval World α) >>= _) paused = _
  rw [bind_of_done caught]
  rfl

theorem steady_tick : Steady (tick : Eval World Unit) fun _ => True := by
  intro depth nested s quiet
  unfold tick
  split
  · exact .inl ⟨(), s, rfl, .refl s, trivial⟩
  · split
    next expired =>
      exact .inr ⟨fun unlimited => (by cases expired.symm.trans unlimited.expired), deadlineError_of_quiet quiet⟩
    · split
      · exact .inl ⟨(), s, rfl, .refl s, trivial⟩
      next d here =>
        have limited : ¬ s.Unlimited := fun unlimited => by cases here.symm.trans unlimited.deadline
        dsimp only
        split
        · exact .inr ⟨limited, deadlineError_of_quiet { quiet with }⟩
        · exact .inl ⟨(), _, rfl, ⟨rfl, fun quiet => { quiet with }, fun unlimited => absurd unlimited limited⟩, trivial⟩

theorem steady_newTable {t : Table} (bare : t.metatable = none) :
    Steady (newTable t : Eval World Value) fun v => ∃ id, v = .table id := by
  refine .bind (steady_allocate _) fun _ _ => ?_
  exact steady_of_done fun s => ⟨_, _, rfl, s.follows_push bare, s.tables.size, rfl⟩

theorem steady_newClosure (f : Closure) : Steady (newClosure f : Eval World Value) fun _ => True := by
  refine .bind (steady_allocate _) fun _ _ => ?_
  exact steady_of_done fun s => ⟨_, _, rfl, ⟨rfl, fun quiet => { quiet with }, fun unlimited => { unlimited with }⟩, trivial⟩

theorem steady_newCell (v : Value) : Steady (newCell v : Eval World Nat) fun _ => True :=
  steady_of_done fun _ => ⟨_, _, rfl, ⟨rfl, fun quiet => { quiet with }, fun unlimited => { unlimited with }⟩, trivial⟩

theorem steady_dropCells (mark : Nat) : Steady (dropCells mark : Eval World Unit) fun _ => True :=
  steady_of_done fun _ => ⟨_, _, rfl, ⟨rfl, fun quiet => { quiet with }, fun unlimited => { unlimited with }⟩, trivial⟩

theorem steady_writeCell (id : Nat) (v : Value) : Steady (writeCell id v : Eval World Unit) fun _ => True :=
  steady_of_done fun _ => ⟨_, _, rfl, ⟨rfl, fun quiet => { quiet with }, fun unlimited => { unlimited with }⟩, trivial⟩

theorem steady_rawSet (id : Nat) (k : Key) (v : Value) : Steady (rawSet id k v : Eval World Unit) fun _ => True := by
  intro depth nested s quiet
  have after := s.follows_set id k v
  rw [rawSet]
  dsimp only
  split
  · rcases steady_allocate _ (after.quiet quiet) with ⟨a, s', run, follows, holds⟩ | ⟨limited, fails⟩
    · exact .inl ⟨a, s', run, follows.trans after, holds⟩
    · exact .inr ⟨fun unlimited => limited (after.unlimited unlimited), fails⟩
  · exact .inl ⟨_, _, rfl, after, trivial⟩

/-! Global variables -/

/-- A global variable is read from the table of globals alone. -/
theorem index_globals (quiet : Quiet depth nested s) (site : Site) (d : Designation) (k : Name) :
    ∃ v, index site d (.table s.globals) (.string k) s = .done v s := by
  change ∃ v, indexChain site d (.string k) (1999 + 1) (.ref (.table s.globals)) s = .done v s
  rw [indexChain]
  have own : rawGet s.globals (.string k) s = .done ((s.tables[s.globals]?.getD {}).get (.string k)) s := rfl
  have bare : lookTable s.globals (fun t => t.metatable) s = .done none s := congrArg (Progress.done · s) quiet.globals
  change ∃ v, (rawGet s.globals (.string k) >>= _) s = _
  rw [bind_of_done own]
  dsimp only
  split
  · exact ⟨_, rfl⟩
  · rw [bind_of_done bare]
    exact ⟨_, rfl⟩

/-- A global variable is set in the table of globals itself. -/
theorem setIndex_globals (quiet : Quiet depth nested s) (site : Site) (d : Designation) (k : Name) (v : Value) :
    setIndex site d (.table s.globals) (.string k) v s = rawSet s.globals (.string k) v s := by
  change setIndexChain site d (.string k) v (1999 + 1) (.ref (.table s.globals)) s = _
  rw [setIndexChain]
  have bare : lookTable s.globals (fun t => t.metatable) s = .done none s := congrArg (Progress.done · s) quiet.globals
  dsimp only
  rw [bind_of_done bare]
  rfl

end Eval

end ScriptTools.Guest
