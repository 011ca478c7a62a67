import ScriptTools.Proofs.Guest.Deadline.Statements

/-!
How a task ends, by who does it. A loop and a function of a script go on only while there is time; late, a function
of a script can only end with the values of a call that it left its results to. Of a function that is no script
nothing is known, but that it does not go on as another task.
-/

namespace ScriptTools.Guest

variable {World α β : Type}

/-- What does a task, or has it done: code of a script, or a function that is none. -/
inductive Doer where
  | script
  | native
deriving DecidableEq

/-- What does a task. Loops and blocks are done by the code that has them done. -/
def Task.doer (caller : Doer) (s : State World) : Task → Doer
  | .apply (.ref (.closure id)) _ => if s.closures[id]?.isSome then .script else .native
  | .apply _ _ => .native
  | _ => caller

/-- How code of a script ends a step of a call or a loop: in time, or with the values of the latest reply. -/
def Ends (call : Bool) (last : Reply) (o : Outcome) (s : State World) : Prop :=
  match o with
  | .finished flow => s.InTime ∨ call = true ∧ last = some (.ok flow.values, s.clock, s.faults)
  | .again t => s.InTime ∧ t.isCall = call

/-- A task may be started: a function that is no script may have anything done. -/
def Permits (caller : Doer) (t : Task) (s : State World) : Prop := caller = .native ∨ t.Allowed s

/-- A function that is no script goes on at most as another call, that may be started. -/
def Passes (caller : Doer) (o : Outcome) (s : State World) : Prop :=
  match o with
  | .finished _ => True
  | .again t => t.isCall = true ∧ Permits caller t s

/-- Wherever the computation ends with a value, whatever the tasks have done that it asks for, a property holds. -/
def Progress.Finishes (P : α → State World → Prop) : Progress World α → Prop
  | .done a s => P a s
  | .raise _ _ => True
  | .call _ _ resume => ∀ r s, Finishes P (resume r s)

theorem Progress.finishes_bind {P : β → State World → Prop} {p : Progress World α}
    {f : α → State World → Progress World β} (next : ∀ a s, (f a s).Finishes P) : (p.bind f).Finishes P := by
  induction p with
  | done a s => exact next a s
  | raise e s => trivial
  | call t s resume ih => exact ih

/-- What is known of a task under way, that something had started: who does it, and the latest reply that it got. -/
def Proper (left : Prop) (caller : Doer) (call : Bool) (doer : Doer) (p : Progress World Outcome) (last : Reply) : Prop :=
  match doer, call with
  | .script, call => p.Sober left (Ends call) last
  | .native, true => p.Finishes (Passes caller)
  | .native, false => caller = .native

namespace Eval

variable {left : Prop} {m : Eval World α} {f : α → Eval World β} {Q : Reply → β → State World → Prop}
  {s : State World}

theorem Awake.sober_bind (awake : Awake m) (inTime : s.InTime)
    (next : ∀ a s last, s.InTime → (f a s).Sober left Q last) (last : Reply) : ((m >>= f) s).Sober left Q last := by
  rw [bind_apply]
  exact (awake left s last inTime).bind fun last a s inTime => next a s last inTime

theorem Wakes.sober_bind (wakes : Wakes m) (next : ∀ a s last, s.InTime → (f a s).Sober left Q last) (last : Reply) :
    ((m >>= f) s).Sober left Q last := by
  rw [bind_apply]
  exact (wakes left s last).bind fun last a s inTime => next a s last inTime

/-! Functions of scripts -/

/-- A function of a script may be called at any time, but late it fails at its first step. -/
theorem sober_enter (c : Closure) (args : List Value) (s : State World) (last : Reply) :
    (enter c args s).Sober left (Ends true) last := by
  refine wakes_tick.sober_bind (fun _ s last inTime => ?_) last
  refine (still_look _).awake.sober_bind inTime (fun mark s last inTime => ?_) last
  refine (still_declareNames _ _ _).awake.sober_bind inTime (fun env s last inTime => ?_) last
  refine (awake_runStats (awake_statements.2 _ _)).sober_bind inTime (fun flow s last inTime => ?_) last
  refine (still_dropCells _).awake.sober_bind inTime (fun _ s last inTime => ?_) last
  split
  · exact .inl inTime
  · exact ⟨inTime, rfl⟩
  · rw [bind_apply]
    exact (sober_call (.inl inTime) _ _ last).bind fun last vs s reply => .inr ⟨rfl, reply⟩
  · exact .inl inTime

/-! Loops -/

theorem sober_nextRound {next : Option Task} (loop : ∀ t ∈ next, t.isCall = false) (env : Env) (flow : Flow)
    (inTime : s.InTime) (last : Reply) : (nextRound env flow next s).Sober left (Ends false) last := by
  unfold nextRound
  split
  · refine wakes_tick.sober_bind (fun _ s last inTime => ?_) last
    split
    next t => exact ⟨inTime, loop t rfl⟩
    next => exact .inl inTime
  · exact .inl inTime
  · exact .inl inTime

theorem awake_countRound (env : Env) (x : Name) (v : Value) (body : Block) :
    Awake (countRound env x v body : Eval World Flow) :=
  (still_look _).awake.bind fun _ => (still_newCell _).awake.bind fun _ => (awake_evalBlock _).bind fun _ =>
    (still_leaveBlock _ _).awake

theorem sober_step {t : Task} (loop : t.isCall = false) (inTime : s.InTime) (last : Reply) :
    (step t s).Sober left (Ends false) last := by
  cases t with
  | apply => cases loop
  | «while» env condition body =>
    refine (awake_evalExpr _).sober_bind inTime (fun v s last inTime => ?_) last
    split
    · refine (awake_evalBlock _).sober_bind inTime (fun flow s last inTime => ?_) last
      exact sober_nextRound (by simp [Task.isCall]) _ _ inTime last
    · exact .inl inTime
  | countInt env x i left d body =>
    refine (awake_countRound _ _ _ _).sober_bind inTime (fun flow s last inTime => sober_nextRound ?_ _ _ inTime last) last
    split <;> simp [Task.isCall]
  | countFloat env x i j d body =>
    refine (awake_countRound _ _ _ _).sober_bind inTime (fun flow s last inTime => sober_nextRound ?_ _ _ inTime last) last
    split <;> simp [Task.isCall]
  | each env names iterator state control body line =>
    refine (awake_callFromScript _ _ _).sober_bind inTime (fun values s last inTime => ?_) last
    generalize firstValue values = v
    split
    · exact .inl inTime
    · refine (still_look _).awake.sober_bind inTime (fun mark s last inTime => ?_) last
      refine (still_declareNames _ _ _).awake.sober_bind inTime (fun inner s last inTime => ?_) last
      refine (awake_evalBlock _).sober_bind inTime (fun flow s last inTime => ?_) last
      refine (still_leaveBlock _ _).awake.sober_bind inTime (fun flow s last inTime => ?_) last
      exact sober_nextRound (by simp [Task.isCall]) _ _ inTime last
  | block env body rest entry =>
    refine (awake_statements.2 _ _).sober_bind inTime (fun flow s last inTime => ?_) last
    split
    next label env' =>
      cases afterLabel? label body with
      | none => exact .inl inTime
      | some found =>
        dsimp only
        generalize (env'.shrink (entry + found.2)).nextCell? = mark
        split
        · refine (still_dropCells _).awake.sober_bind inTime (fun _ s last inTime => ?_) last
          exact ⟨inTime, rfl⟩
        · exact ⟨inTime, rfl⟩
    next => exact .inl inTime

/-! Other functions -/

theorem finishes_error {P : α → State World → Prop} (v : Value) (s : State World) :
    ((error v : Eval World α) s).Finishes P := by
  unfold error
  split
  · split
    · trivial
    · rw [bind_apply]
      refine Progress.finishes_bind fun _ _ => ?_
      trivial
  · trivial

theorem finishes_typeFault {P : α → State World → Prop} (site : Site) (action : String) (v : Value) (d : Designation)
    (s : State World) : ((typeFault site action v d : Eval World α) s).Finishes P := by
  unfold typeFault
  rw [bind_apply]
  exact Progress.finishes_bind fun _ _ => finishes_error _ _

theorem metamethod_eq (v : Value) (event : String) (s : State World) : ∃ f, metamethod v event s = .done f s := by
  obtain ⟨m, found⟩ : ∃ m, metatable? v s = .done m s := by
    unfold metatable?
    split <;> exact ⟨_, rfl⟩
  unfold metamethod
  rw [bind_apply, found]
  cases m <;> exact ⟨_, rfl⟩

theorem finishes_return {caller : Doer} (m : Eval World (List Value)) (s : State World) :
    ((m >>= fun vs => Pure.pure (Outcome.finished (.return vs))) s).Finishes (Passes caller) := by
  rw [bind_apply]
  exact Progress.finishes_bind fun _ _ => trivial

theorem look_apply (f : State World → α) (s : State World) : look f s = .done (f s) s := rfl

/-- What a script does in a call is to enter a function. -/
theorem apply_script {caller : Doer} {v : Value} {args : List Value} (script : (Task.apply v args).doer caller s = .script) :
    ∃ c, apply v args s = enter c args s := by
  unfold Task.doer at script
  split at script
  next id _ eq =>
    cases eq
    cases found : s.closures[id]? with
    | none => simp [found] at script
    | some c =>
      refine ⟨c, ?_⟩
      simp only [apply, bind_apply, look_apply, found, Progress.bind]
  next => cases script
  next _ other => exact (other _ _ rfl).elim

/-- What is no function is called through its metatable, in the same state. -/
theorem finishes_apply {caller : Doer} {v : Value} {args : List Value} (native : (Task.apply v args).doer caller s = .native)
    (permits : Permits caller (.apply v args) s) : (apply v args s).Finishes (Passes caller) := by
  unfold apply
  split
  next id =>
    have missing : s.closures[id]? = none := by
      cases found : s.closures[id]? with
      | none => rfl
      | some c => simp [Task.doer, found] at native
    rw [bind_apply, look_apply, missing]
    trivial
  next b =>
    generalize b.run args = m
    exact finishes_return m s
  next id =>
    rw [bind_apply, look_apply]
    cases s.hosts[id]? with
    | none => trivial
    | some h => exact finishes_return _ s
  next id => exact finishes_return _ s
  next =>
    obtain ⟨f, found⟩ := metamethod_eq v "__call" s
    rw [bind_apply, found]
    simp only [Progress.bind]
    split
    · rw [bind_apply]
      exact Progress.finishes_bind fun _ _ => finishes_typeFault _ _ _ _ _
    next handler => exact ⟨rfl, permits⟩

/-- A call starts as it must, whoever does it. -/
theorem proper_step {caller : Doer} {t : Task} (permits : Permits caller t s) (last : Reply) :
    Proper left caller t.isCall (t.doer caller s) (step t s) last := by
  cases call : t.isCall with
  | true =>
    cases t with
    | apply v args =>
      cases doer : (Task.apply v args).doer caller s with
      | script =>
        obtain ⟨c, enters⟩ := apply_script doer
        change (apply v args s).Sober left (Ends true) last
        rw [enters]
        exact sober_enter c args s last
      | native => exact finishes_apply doer permits
    | _ => cases call
  | false =>
    have loop : t.doer caller s = caller := by cases t <;> first | rfl | cases call
    rw [loop]
    cases caller with
    | script =>
      have inTime : s.InTime := by simpa [Permits, Task.Allowed, call] using permits
      exact sober_step call inTime last
    | native => rfl

end Eval

end ScriptTools.Guest
