import ScriptTools.Guest.Machine

/-!
What the code of a script may ask for once its time is over. Time is noticed wherever a call returns to a
script, so that its code goes on only while there is time left, or while time stands still for a handler of
the deadline. All that it can still have done is that a message handler sees an error, or that a variable is
closed.
-/

namespace ScriptTools.Guest

variable {World α β : Type}

/-- The deadline was not noticed yet, or a handler of its error is under way. -/
def Clock.InTime (c : Clock) : Prop := c.expired = false ∨ c.paused = true

def State.InTime (s : State World) : Prop := s.clock.InTime

/-- A place from which a script calls what it did not ask for: a message handler, or the metamethod that closes a
variable. -/
def Site.IsLeaving : Site → Prop
  | .native => True
  | .line _ _ (.metamethod event) => event = "close"
  | .line .. => False

/-- The latest call is that of a message handler or closes a variable. -/
def State.IsLeaving (s : State World) : Prop := ∃ site ∈ s.sites.head?, site.IsLeaving

def Task.isCall : Task → Bool
  | .apply .. => true
  | _ => false

/-- What a script may have done: anything in time, later only calls that it did not ask for. -/
def Task.Allowed (t : Task) (s : State World) : Prop := s.InTime ∨ t.isCall = true ∧ s.IsLeaving

/-- How a task has ended, if one has: its values or its error, and the time and the faults that there were then. -/
abbrev Reply := Option (Except Failure (List Value) × Clock × Array Fault)

def reply (r : Except Failure Flow) (s : State World) : Reply := some (r.map Flow.values, s.clock, s.faults)

/-! Errors -/

/-- The error that the deadline raises. -/
def Failure.IsDeadline (e : Failure) (faults : Array Fault) : Prop :=
  ∃ id, e = .raised (.ref (.fault id)) ∧ faults[id]? = some .deadline

/-- The error of another limit: of the memory, or of how many calls may be under way. -/
def Failure.IsExhaustion (e : Failure) : Prop :=
  e = .memory ∨ ∃ (site : Site) (message : String),
    message ∈ ["stack overflow", "C stack overflow", "error in error handling"] ∧
      e = .raised (.text (site.prefixText ++ message))

theorem isExhaustion_handling : (Failure.raised (.text "error in error handling")).IsExhaustion :=
  .inr ⟨.native, "error in error handling", by simp, rfl⟩

/-- How the code of a script fails, after the latest reply. Late it fails with the error of the deadline or of
another limit, with what the latest task has ended with, or once a handler or a closing was called late. -/
inductive Fails (left : Prop) (last : Reply) (e : Failure) (s : State World) : Prop
  | early (inTime : s.InTime)
  | left (known : left)
  | deadline (is : e.IsDeadline s.faults)
  | exhausted (is : e.IsExhaustion)
  | reply (failed : last = some (.error e, s.clock, s.faults))
  | answer (vs : List Value) (given : last = some (.ok vs, s.clock, s.faults)) (first : e = .raised (firstValue vs))

/-- The computation has only allowed tasks done, whatever calls do to the state; loops are known to end in time.
When it ends with a value, that fits the latest reply and the state. The first argument is what is known once a
handler or a closing was called late. -/
def Progress.Sober (left : Prop) (Q : Reply → α → State World → Prop) : Progress World α → Reply → Prop
  | .done a s, last => Q last a s
  | .raise e s, last => Fails left last e s
  | .call t s resume, _ =>
    t.Allowed s ∧ ((s.clock.expired = true → s.IsLeaving → left) → ∀ r s',
      (t.isCall = false → r.isOk = true → s'.InTime) → Sober left Q (resume r s') (reply r s'))

namespace Progress

variable {left : Prop} {Q R : Reply → α → State World → Prop} {S : Reply → β → State World → Prop}
  {p : Progress World α} {last : Reply}

theorem Sober.weaken (sober : p.Sober left Q last) (weaker : ∀ last a s, Q last a s → R last a s) :
    p.Sober left R last := by
  induction p generalizing last with
  | done a s => exact weaker last a s sober
  | raise e s => exact sober
  | call t s resume ih => exact ⟨sober.1, fun known r s' inTime => ih r s' (sober.2 known r s' inTime)⟩

theorem Sober.bind (sober : p.Sober left Q last) {f : α → State World → Progress World β}
    (next : ∀ last a s, Q last a s → (f a s).Sober left S last) : (p.bind f).Sober left S last := by
  induction p generalizing last with
  | done a s => exact next last a s sober
  | raise e s => exact sober
  | call t s resume ih => exact ⟨sober.1, fun known r s' inTime => ih r s' (sober.2 known r s' inTime)⟩

/-- Where failures are results, they come about as failures do. -/
theorem Sober.protect (sober : p.Sober left Q last) :
    p.protect.Sober left (fun last r s => (∀ a, r = .ok a → Q last a s) ∧ ∀ e, r = .error e → Fails left last e s)
      last := by
  induction p generalizing last with
  | done a s =>
    refine ⟨?_, nofun⟩
    rintro _ ⟨⟩
    exact sober
  | raise e s =>
    refine ⟨nofun, ?_⟩
    rintro _ ⟨⟩
    exact sober
  | call t s resume ih => exact ⟨sober.1, fun known r s' inTime => ih r s' (sober.2 known r s' inTime)⟩

end Progress

namespace Eval

theorem bind_apply (m : Eval World α) (f : α → Eval World β) (s : State World) : (m >>= f) s = (m s).bind f := by
  change Eval.bind m f s = _
  rw [Eval.bind]
  cases m s <;> rfl

/-- Code of a script that starts in time: whenever it ends with a value, there is still time. -/
def Awake (m : Eval World α) : Prop :=
  ∀ (left : Prop) (s : State World) (last : Reply), s.InTime → (m s).Sober left (fun _ _ s => s.InTime) last

/-- Code that may start at any time and ends with a value in time. -/
def Wakes (m : Eval World α) : Prop :=
  ∀ (left : Prop) (s : State World) (last : Reply), (m s).Sober left (fun _ _ s => s.InTime) last

variable {m : Eval World α} {f : α → Eval World β}

theorem Awake.pure {a : α} : Awake (Pure.pure a : Eval World α) := fun _ _ _ inTime => inTime

theorem Awake.bind (first : Awake m) (next : ∀ a, Awake (f a)) : Awake (m >>= f) := fun left s last inTime => by
  rw [bind_apply]
  exact (first left s last inTime).bind fun last a s inTime => next a left s last inTime

theorem Wakes.bind (first : Wakes m) (next : ∀ a, Awake (f a)) : Wakes (m >>= f) := fun left s last => by
  rw [bind_apply]
  exact (first left s last).bind fun last a s inTime => next a left s last inTime

theorem Awake.ite {p : Prop} [Decidable p] {m n : Eval World α} (yes : Awake m) (no : Awake n) :
    Awake (if p then m else n) := by
  split
  · exact yes
  · exact no

/-- What only looks at the state, or changes it but for the clock. It fails where there is no memory left. -/
def Still (m : Eval World α) : Prop :=
  ∀ s, (∃ a s', m s = .done a s' ∧ s'.clock = s.clock) ∨ ∃ s', m s = .raise .memory s'

theorem Still.awake (still : Still m) : Awake m := by
  intro left s last inTime
  rcases still s with ⟨a, s', run, same⟩ | ⟨s', run⟩
  · rw [run]
    change s'.InTime
    rwa [State.InTime, same]
  · rw [run]
    exact .exhausted (.inl rfl)

theorem Still.wakes_bind (still : Still m) (next : ∀ a, Wakes (f a)) : Wakes (m >>= f) := by
  intro left s last
  rw [bind_apply]
  rcases still s with ⟨a, s', run, -⟩ | ⟨s', run⟩
  · rw [run]
    exact next a left s' last
  · rw [run]
    exact .exhausted (.inl rfl)

theorem Still.pure {a : α} : Still (Pure.pure a : Eval World α) := fun s => .inl ⟨a, s, rfl, rfl⟩

theorem Still.bind (first : Still m) (next : ∀ a, Still (f a)) : Still (m >>= f) := by
  intro s
  rw [bind_apply]
  rcases first s with ⟨a, s', run, same⟩ | ⟨s', run⟩
  · rw [run]
    rcases next a s' with ⟨b, s'', run', same'⟩ | fails
    · exact .inl ⟨b, s'', run', same'.trans same⟩
    · exact .inr fails
  · rw [run]
    exact .inr ⟨s', rfl⟩

theorem still_look (f : State World → α) : Still (look f) := fun s => .inl ⟨f s, s, rfl, rfl⟩

theorem still_modify {f : State World → State World} (same : ∀ s, (f s).clock = s.clock) : Still (modify f) :=
  fun s => .inl ⟨(), f s, rfl, same s⟩

theorem still_allocate (bytes : Nat) : Still (allocate bytes : Eval World Unit) := by
  intro s
  unfold allocate
  split
  · exact .inl ⟨_, _, rfl, rfl⟩
  · dsimp only
    split
    · exact .inl ⟨_, _, rfl, rfl⟩
    · split
      · exact .inr ⟨_, rfl⟩
      · split
        · exact .inl ⟨_, _, rfl, rfl⟩
        · exact .inr ⟨_, rfl⟩

/-! Calls and errors -/

variable {left : Prop} {s : State World} {last : Reply}

theorem sober_perform {site : Site} (allowed : s.InTime ∨ site.IsLeaving) (f : Value) (args : List Value) (last : Reply) :
    (perform site f args s).Sober left (fun last vs s' => last = some (.ok vs, s'.clock, s'.faults)) last := by
  refine ⟨allowed.imp id fun leaving => ⟨rfl, site, rfl, leaving⟩, fun _ r s' _ => ?_⟩
  cases r with
  | ok flow => rfl
  | error e => exact .reply rfl

/-- An error never ends with a value, whatever a handler does. -/
theorem sober_error {v : Value} (fails : Fails left last (.raised v) s) :
    ((error v : Eval World α) s).Sober left (fun _ _ _ => False) last := by
  unfold error
  split
  · split
    · exact .exhausted isExhaustion_handling
    · rw [bind_apply]
      have leaving : Site.native.IsLeaving := trivial
      exact (sober_perform (.inr leaving) _ _ last).bind fun last vs s given => .answer vs given rfl
  · exact fails

theorem awake_error (v : Value) : Awake (error v : Eval World α) :=
  fun _ _ _ inTime => (sober_error (.early inTime)).weaken fun _ _ _ => False.elim

theorem sober_call {site : Site} (allowed : s.InTime ∨ site.IsLeaving) (f : Value) (args : List Value) (last : Reply) :
    (call site f args s).Sober left (fun last vs s' => last = some (.ok vs, s'.clock, s'.faults)) last := by
  have failed {message : String} (limit : message ∈ ["stack overflow", "C stack overflow", "error in error handling"]) :
      ((errorAt site message : Eval World (List Value)) s).Sober left
        (fun last vs s' => last = some (.ok vs, s'.clock, s'.faults)) last :=
    (sober_error (.exhausted (.inr ⟨site, message, limit, rfl⟩))).weaken fun _ _ _ => False.elim
  unfold call
  split
  · exact failed (by simp)
  · split
    · exact .exhausted isExhaustion_handling
    · split
      · exact failed (by simp)
      · exact sober_perform allowed f args last

/-- The error of the deadline is raised, unless a handler sees it, which is called late. -/
theorem sober_deadlineError (expired : s.clock.expired = true) (last : Reply) :
    ((deadlineError : Eval World α) s).Sober left (fun _ _ _ => False) last := by
  simp only [deadlineError, bind_apply, newFault, modify, protect, Progress.bind]
  unfold error
  dsimp only
  split
  · split
    · exact .exhausted isExhaustion_handling
    · refine ⟨.inl (.inr rfl), fun known r s' _ => ?_⟩
      have late : left := known expired ⟨.native, rfl, trivial⟩
      cases r <;> exact .left late
  · exact .deadline ⟨s.faults.size, rfl, by simp⟩

/-- After a step there is time, or the script is left. -/
theorem wakes_tick : Wakes (tick : Eval World Unit) := by
  intro left s last
  have late {s : State World} (expired : s.clock.expired = true) :
      ((deadlineError : Eval World Unit) s).Sober left (fun _ _ s => s.InTime) last :=
    (sober_deadlineError expired last).weaken fun _ _ _ => False.elim
  unfold tick
  split
  next paused => exact .inr paused
  next running =>
    split
    next expired => exact late expired
    next expired =>
      have inTime : s.InTime := .inl (by simpa using expired)
      split
      · exact inTime
      · dsimp only
        split
        · exact late rfl
        · exact inTime

theorem sober_callFromScript {site : Site} (allowed : s.InTime ∨ site.IsLeaving) (f : Value) (args : List Value)
    (last : Reply) :
    (callFromScript site f args s).Sober left (fun _ _ s => s.InTime) last := by
  unfold callFromScript
  rw [bind_apply]
  refine (sober_call allowed f args last).bind fun last vs s' _ => ?_
  exact (wakes_tick.bind fun _ => .pure) left s' last

theorem awake_callFromScript (site : Site) (f : Value) (args : List Value) :
    Awake (callFromScript site f args : Eval World (List Value)) :=
  fun _ _ last inTime => sober_callFromScript (.inl inTime) f args last

end Eval

end ScriptTools.Guest
