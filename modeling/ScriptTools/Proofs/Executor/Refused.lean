import ScriptTools.Executor
import ScriptTools.Proofs.Guest.Deadline.Outlived
import ScriptTools.Proofs.Sandbox.Setup

/-!
Calls that are refused before the code of the tool runs. Nothing has happened then: the sandbox was at most set up,
which calls no function of the host. Whatever error the code itself ends with is none of a refusal.
-/

namespace ScriptTools

open Guest (Event Failure Host State)

/-- The errors of calls that are refused: the tool or its arguments are not in order, no source comes of them, or the
source is no script. -/
def RunError.isRefusal : RunError → Bool
  | .tool _ | .argument _ | .source _ | .malformed _ => true
  | .failed _ | .noValue _ | .mismatch _ _ | .timeout _ | .setup _ => false

namespace Guest

variable {World α : Type} {s : State World}

/-- A function of the host is called. -/
def Event.isHostCall : Event World → Bool
  | .start _ (.apply (.ref (.host _)) _) _ => true
  | _ => false

/-- Whether no function of the host is called. -/
def Undisturbed (events : List (Event World)) : Prop := ∀ event ∈ events, event.isHostCall = false

theorem Undisturbed.nil : Undisturbed ([] : List (Event World)) := fun _ member => absurd member List.not_mem_nil

theorem Undisturbed.append {first later : List (Event World)} (undisturbed : Undisturbed first)
    (still : Undisturbed later) : Undisturbed (first ++ later) :=
  fun event member => (List.mem_append.mp member).elim (undisturbed event) (still event)

/-! What happens while the host runs something, the text of its error included -/

/-- What happens while the host finds out the text of an error. -/
def reportEvents : Nat → Failure → State World → List (Event World)
  | _, .memory, _ | _, .raised (.ref (.fault _)), _ | 0, .raised _, _ => []
  | n + 1, .raised v, s =>
    (Eval.watch (Eval.textOf v) s).2 ++
      match Eval.run (Eval.textOf v) s with
      | some (.error e, s) => reportEvents n e s
      | _ => []

/-- What happens while the host runs a computation. -/
def hostEvents (m : Eval World α) (s : State World) : List (Event World) :=
  (Eval.watch m s).2 ++
    match Eval.run m s with
    | some (.error e, s) => reportEvents errorTextLimit e s
    | _ => []

/-- What happens while the host runs a script. -/
def runEvents (script source : String) (s : State World) : List (Event World) :=
  match readScript script source with
  | .error _ => []
  | .ok body => hostEvents (callScript script body) s

theorem undisturbed_of_done {m : Eval World α} {a : α} {s' : State World} (run : m s = .done a s') :
    Undisturbed (hostEvents m s) := by
  unfold hostEvents Eval.watch Eval.run
  rw [run]
  exact .nil

/-- A script that ends at once calls nothing but its own function. -/
theorem Eval.Straightway.undisturbed {vs : List Value} {p : Progress World (List Value)}
    (way : Straightway s vs p) : Undisturbed (watchFinish p).2 := by
  have more : stepLimit = 4611686018427387903 + 1 := rfl
  cases way with
  | unmade limited => exact .nil
  | @gives id s₁ s₂ s' resume stepped resumed follows =>
    rw [watchFinish, stepped, more, watchDrive]
    dsimp only [noting]
    rw [resumed, watchFinish]
    simp [Undisturbed, Event.isHostCall]
  | @fails id s₁ s₂ s' e resume limited stepped resumed =>
    rw [watchFinish, stepped, more, watchDrive]
    dsimp only [noting]
    rw [resumed, watchFinish]
    simp [Undisturbed, Event.isHostCall]

theorem undisturbed_of_isStraight {script source : String} {body : Block} {s' : State World} {vs : List Value}
    (quiet : Quiet 0 0 s) (read : readScript script source = .ok body) (straight : body.all Stat.isStraight = true)
    (ran : runScript script source s = (.ok vs, s')) : Undisturbed (runEvents script source s) := by
  have way := Eval.straightway_callScript script quiet (hasLabel_of_isStraight straight)
    (steady_of_isStraight script straight)
  rw [runEvents, read]
  refine way.undisturbed.append ?_
  rw [runScript, read] at ran
  dsimp only at ran
  cases run : Eval.run (callScript script body) s with
  | none => exact .nil
  | some out =>
    obtain ⟨r, s''⟩ := out
    cases r with
    | ok values => exact .nil
    | error e =>
      rw [run] at ran
      cases ran

/-- No failure of what runs is reported as a fault of the text. -/
theorem report_ne_malformed (n : Nat) (failure : Failure) (s : State World) (message : String) :
    (report n failure s).1 ≠ .malformed message := by
  fun_induction report n failure s with
  | case7 n s v other e s' run ih => exact ih
  | _ => exact nofun

end Guest

open Guest

namespace Setup

variable {World : Type}

/-- What happens in a step of setting up. -/
def events : Setup World → State World → List (Event World)
  | .bind h, s => hostEvents (Sandbox.binding h) s
  | .exec script source _, s => runEvents script source s

/-- A step that succeeds calls no function of the host. -/
theorem undisturbed {b b' : Sandbox World} (step : Setup World) (quiet : b.Quiet) (ran : step.run.run b = (.ok (), b')) :
    Undisturbed (step.events b.state) := by
  cases step with
  | bind h =>
    rcases Sandbox.steady_binding h quiet with ⟨_, s, run, _, _⟩ | ⟨_, e, s, raised⟩
    · exact undisturbed_of_done run
    · obtain ⟨reason, c, fails⟩ := Sandbox.perform_of_raise raised
      cases ran.symm.trans fails
  | exec script source straight =>
    obtain ⟨body, read, straight⟩ := straight
    cases run : Guest.runScript script source b.state with
    | mk r s =>
      cases r with
      | ok vs => exact undisturbed_of_isStraight quiet (read script) straight run
      | error fault => cases ran.symm.trans (Sandbox.exec_of_fault run)

/-- A step either succeeds and calls no function of the host, or fails as a step of setting up. -/
theorem outcome (step : Setup World) {b : Sandbox World} (quiet : b.Quiet) :
    (∃ b', step.run.run b = (.ok (), b') ∧ b'.state.Follows b.state ∧ Undisturbed (step.events b.state)) ∨
      ∃ reason b', step.run.run b = (.error (.setup reason), b') := by
  rcases step.settles b quiet with ⟨b', run, follows⟩ | ⟨_, fails⟩
  · exact .inl ⟨b', run, follows, step.undisturbed quiet run⟩
  · exact .inr fails

end Setup

namespace Sandbox

variable {World : Type} {type : ScalarType} {source : String} {b : Sandbox World} {e : RunError}

theorem faultError_isRefusal {limits : Limits} {fault : ScriptFault} (proper : ∀ message, fault ≠ .malformed message) :
    (faultError limits fault).isRefusal = false := by
  cases fault with
  | malformed message => exact absurd rfl (proper message)
  | deadline =>
    rw [faultError]
    split <;> rfl
  | _ => rfl

theorem result_isRefusal {r : Except Guest.Bridge.Defect HostValue} (fails : result type r = .error e) :
    e.isRefusal = false := by
  unfold result at fails
  split at fails
  · cases fails
    rfl
  · cases fails
  · split at fails <;> cases fails
    rfl

/-- What happens while the script of a tool is run and its value read. -/
def evaluateEvents (source : String) (s : State World) : List (Event World) :=
  match readScript scriptName source with
  | .error _ => []
  | .ok body =>
    hostEvents (callScript scriptName body) s ++
      match Eval.run (callScript scriptName body) s with
      | some (.ok values, s) => hostEvents (toHost (firstValue values)) s
      | _ => []

/-- An error that the code raises is the error of the run, and no refusal. -/
theorem evaluate_of_raised {body : Block} {failure : Failure} {s : State World}
    (read : readScript scriptName source = .ok body)
    (raised : Eval.run (callScript scriptName body) b.state = some (.error failure, s)) :
    ∃ e, ((evaluate type source).run b).1 = .error e ∧ e.isRefusal = false := by
  have run : runScript scriptName source b.state =
      (.error (report errorTextLimit failure s).1, (report errorTextLimit failure s).2) := by
    rw [runScript, read]
    dsimp only
    rw [raised]
  rw [evaluate_of_fault run]
  exact ⟨_, rfl, faultError_isRefusal (report_ne_malformed _ _ _)⟩

theorem evaluate_of_values {vs : List Value} {s : State World} (run : runScript scriptName source b.state = (.ok vs, s)) :
    (evaluate type source).run b =
      ((match Eval.run (toHost (firstValue vs)) s with
        | some (.ok v, _) => result type v
        | _ => .ok none), { b with state := s }) := by
  have looked : (get : Sandboxed World (Sandbox World)).run b = (.ok b, b) := rfl
  rw [evaluate, Sandboxed.run_bind looked, run]
  dsimp only
  generalize Eval.run (toHost (firstValue vs)) s = out
  obtain _ | ⟨_ | v, s'⟩ := out
  · rfl
  · rfl
  · dsimp only
    cases result type v <;> rfl

/-- Only a text that is no script is refused, and then nothing has happened. -/
theorem evaluate_refused (fails : ((evaluate type source).run b).1 = .error e) (refusal : e.isRefusal = true) :
    (∃ fault, readScript scriptName source = .error fault) ∧ (evaluate type source).run b = (.error e, b) := by
  cases read : readScript scriptName source with
  | error fault =>
    have run : runScript scriptName source b.state = (.error fault, b.state) := by rw [runScript, read]
    have evaluated : (evaluate type source).run b = _ := evaluate_of_fault run
    rw [evaluated] at fails
    cases fails
    exact ⟨⟨fault, rfl⟩, evaluated⟩
  | ok body =>
    have ordinary : e.isRefusal = false := by
      cases raised : Eval.run (callScript scriptName body) b.state with
      | none =>
        have run : runScript scriptName source b.state = (.error .deadline, b.state) := by
          rw [runScript, read]
          dsimp only
          rw [raised]
        rw [evaluate_of_fault run] at fails
        cases fails
        exact faultError_isRefusal (by simp)
      | some out =>
        obtain ⟨_ | values, s⟩ := out
        · obtain ⟨e', evaluated, ordinary⟩ :
              ∃ e, ((evaluate type source).run b).1 = .error e ∧ e.isRefusal = false := evaluate_of_raised read raised
          cases evaluated.symm.trans fails
          exact ordinary
        · have run : runScript scriptName source b.state = (.ok values, s) := by
            rw [runScript, read]
            dsimp only
            rw [raised]
          rw [evaluate_of_values run] at fails
          dsimp only at fails
          split at fails
          · exact result_isRefusal fails
          · cases fails
    rw [ordinary] at refusal
    cases refusal

end Sandbox

namespace Executor

variable {x : Executor} {t : Tool} {bindings : List Binding} {type : ScalarType} {source : String} {e : RunError}

/-- The end of a session: the code is run, and must give a value. -/
def conclude (type : ScalarType) (source : String) : Sandboxed World Scalar := do
  match ← Sandbox.evaluate type source with
  | some v => return v
  | none => throw (.noValue type)

/-- What the executor does to a new sandbox before the code of a tool runs in it. -/
def setup (x : Executor) : List (Setup World) := x.capabilities.flatMap Capability.setup

theorem session_eq (x : Executor) (type : ScalarType) (source : String) :
    x.session type source = (do x.setup.forM Setup.run; conclude type source) := by
  have installs : x.capabilities.forM Capability.install = x.setup.forM Setup.run := by
    rw [setup]
    induction x.capabilities with
    | nil => rfl
    | cons c cs ih =>
      have first := c.install_eq
      simp only [List.forM_eq_forM] at first ih ⊢
      rw [List.forM_cons, first, ih, List.flatMap_cons, List.forM_append]
  rw [session, installs]
  rfl

/-- What happens in a session from some step of setting up on. -/
def sessionEvents (source : String) : List (Setup World) → Sandbox World → List (Event World)
  | [], b => Sandbox.evaluateEvents source b.state
  | step :: steps, b =>
    step.events b.state ++
      match step.run.run b with
      | (.ok _, b) => sessionEvents source steps b
      | (.error _, _) => []

theorem conclude_refused {b : Sandbox World} (fails : ((conclude type source).run b).1 = .error e)
    (refusal : e.isRefusal = true) :
    (∃ fault, readScript Sandbox.scriptName source = .error fault) ∧ ((conclude type source).run b).2 = b := by
  cases run : (Sandbox.evaluate type source).run b with
  | mk r b' =>
    cases r with
    | error e' =>
      have ends : (conclude type source).run b = (.error e', b') := Sandboxed.run_bind_error run
      rw [ends] at fails ⊢
      cases fails
      obtain ⟨unread, same⟩ := Sandbox.evaluate_refused (congrArg Prod.fst run) refusal
      cases run.symm.trans same
      exact ⟨unread, rfl⟩
    | ok v =>
      rw [conclude, Sandboxed.run_bind run] at fails
      cases v with
      | some v => cases fails
      | none =>
        cases fails
        cases refusal

/-- A session that ends with a refusal has called no function of the host, and its text is no script. -/
theorem session_refused {steps : List (Setup World)} {b : Sandbox World} (quiet : b.Quiet)
    (fails : ((do steps.forM Setup.run; conclude type source : Sandboxed World Scalar).run b).1 = .error e)
    (refusal : e.isRefusal = true) :
    (∃ fault, readScript Sandbox.scriptName source = .error fault) ∧
      ((do steps.forM Setup.run; conclude type source : Sandboxed World Scalar).run b).2.state.world = b.state.world ∧
      Undisturbed (sessionEvents source steps b) := by
  induction steps generalizing b with
  | nil =>
    obtain ⟨⟨fault, unread⟩, same⟩ := conclude_refused fails refusal
    refine ⟨⟨fault, unread⟩, congrArg (fun b => b.state.world) same, ?_⟩
    rw [sessionEvents, Sandbox.evaluateEvents, unread]
    exact .nil
  | cons step steps ih =>
    have split : (do (step :: steps).forM Setup.run; conclude type source : Sandboxed World Scalar) =
        (do step.run; steps.forM Setup.run; conclude type source) := by
      simp only [List.forM_eq_forM, List.forM_cons, bind_assoc]
    rw [split] at fails ⊢
    rcases step.outcome quiet with ⟨b', run, follows, undisturbed⟩ | ⟨reason, b', run⟩
    · rw [Sandboxed.run_bind run] at fails ⊢
      obtain ⟨unread, world, later⟩ := ih (follows.quiet quiet) fails
      refine ⟨unread, world.trans follows.world, ?_⟩
      rw [sessionEvents, run]
      exact undisturbed.append later
    · rw [Sandboxed.run_bind_error run] at fails
      cases fails
      cases refusal

/-- What happens in a run, the start of its sandbox included. -/
def events (x : Executor) (t : Tool) (bindings : List Binding) (w : World) : List (Event World) :=
  match prepare t bindings with
  | .error _ => []
  | .ok source =>
    runEvents "guard" Sandbox.guardPrelude (State.initial w) ++
      sessionEvents source x.setup (Sandbox.create x.limits w)

/-- What happens in a run with arguments as they come in a call. -/
def eventsJson (x : Executor) (t : Tool) (raw : List (String × Json)) (w : World) : List (Event World) :=
  match t.readArguments raw with
  | .error _ => []
  | .ok a => x.events t a.bindings w

/-- Whether a call comes to a script that can be run. -/
def HasScript (t : Tool) (bindings : List Binding) : Prop :=
  ∃ source body, prepare t bindings = .ok source ∧ readScript Sandbox.scriptName source = .ok body

/-- The guard calls nothing. -/
theorem undisturbed_guard (w : World) : Undisturbed (runEvents "guard" Sandbox.guardPrelude (State.initial w)) := by
  obtain ⟨body, read, straight⟩ := Sandbox.guardPrelude_isStraight
  have calm := calm_initial w
  rcases runScript_of_isStraight calm.toQuiet (read "guard") straight with ⟨s, run, _⟩ | ⟨limited, _⟩
  · exact undisturbed_of_isStraight calm.toQuiet (read "guard") straight run
  · exact absurd calm.toUnlimited limited

theorem run_refusal (w : World) (fails : (x.run t bindings w).1 = .error e) (refusal : e.isRefusal = true) :
    (x.run t bindings w).2 = w ∧ Undisturbed (x.events t bindings w) ∧ ¬ HasScript t bindings := by
  cases prepared : prepare t bindings with
  | error e' =>
    rw [run, events, prepared]
    refine ⟨rfl, .nil, ?_⟩
    rintro ⟨source, body, prepared', _⟩
    cases prepared.symm.trans prepared'
  | ok source =>
    obtain ⟨quiet, world⟩ := Sandbox.create_follows x.limits w
    have ran : x.run t bindings w =
        (((x.session t.returnType source).run (Sandbox.create x.limits w)).1,
          ((x.session t.returnType source).run (Sandbox.create x.limits w)).2.state.world) := by
      rw [run, prepared]
      rfl
    rw [ran, session_eq] at fails ⊢
    obtain ⟨⟨fault, unread⟩, same, undisturbed⟩ := session_refused quiet fails refusal
    refine ⟨same.trans world, ?_, ?_⟩
    · rw [events, prepared]
      exact (undisturbed_guard w).append undisturbed
    · rintro ⟨source', body, prepared', read⟩
      cases prepared.symm.trans prepared'
      cases unread.symm.trans read

/-- A call that is refused leaves the world as it was, and no function of the host is called, not even while the
sandbox is set up. A call that comes to a script is never refused; in particular, an error that the script raises is
the error of the run, and no refusal, whatever its value is. -/
theorem run_refused (x : Executor) (t : Tool) (w : World) :
    (∀ bindings e, (x.run t bindings w).1 = .error e → e.isRefusal = true →
      (x.run t bindings w).2 = w ∧ Undisturbed (x.events t bindings w) ∧ ¬ HasScript t bindings) ∧
    (∀ raw e, (x.runJson t raw w).1 = .error e → e.isRefusal = true →
      (x.runJson t raw w).2 = w ∧ Undisturbed (x.eventsJson t raw w) ∧
      ∀ a, t.readArguments raw = .ok a → ¬ HasScript t a.bindings) ∧
    ∀ (type : ScalarType) (source : String) (b : Sandbox World) body failure s,
      readScript Sandbox.scriptName source = .ok body →
      Eval.run (callScript Sandbox.scriptName body) b.state = some (.error failure, s) →
      ∃ e, ((Sandbox.evaluate type source).run b).1 = .error e ∧ e.isRefusal = false := by
  refine ⟨fun bindings e => run_refusal w, fun raw e fails refusal => ?_, fun type source b body failure s =>
    Sandbox.evaluate_of_raised⟩
  cases arguments : t.readArguments raw with
  | error e' =>
    rw [runJson, eventsJson, arguments]
    exact ⟨rfl, .nil, nofun⟩
  | ok a =>
    rw [runJson, arguments] at fails
    rw [runJson, eventsJson, arguments]
    obtain ⟨same, undisturbed, unread⟩ := run_refusal w fails refusal
    refine ⟨same, undisturbed, ?_⟩
    rintro _ ⟨⟩
    exact unread

/-- Where nothing runs out, a call is refused whose source is no script. -/
theorem run_of_malformed {message : String} (w : World) (unlimited : x.limits = .unlimited)
    (prepared : prepare t bindings = .ok source)
    (unread : readScript Sandbox.scriptName source = .error (.malformed message)) :
    (x.run t bindings w).1 = .error (.malformed message) := by
  obtain ⟨b, installed, -⟩ :=
    (Sandboxed.Settles.forM Capability.settles_install x.capabilities).calm (Sandbox.create_calm unlimited w)
  have run : runScript Sandbox.scriptName source b.state = (.error (.malformed message), b.state) := by
    rw [runScript, unread]
  rw [Executor.run, prepared]
  dsimp only
  rw [session, Sandboxed.run_bind installed, Sandboxed.run_bind_error (Sandbox.evaluate_of_fault run)]
  rfl

/-- A tool that would log, were its code a script. -/
def unclosed : Tool :=
  { id := default, name := "unclosed", code := "log.i('tag', 'message') return (", returnType := .string,
    createdAt := default, updatedAt := default }

def isMalformed : Except ScriptFault Block → Bool
  | .error (.malformed _) => true
  | _ => false

theorem exists_of_isMalformed {r : Except ScriptFault Block} (malformed : isMalformed r = true) :
    ∃ message, r = .error (.malformed message) := by
  unfold isMalformed at malformed
  split at malformed
  · exact ⟨_, rfl⟩
  · cases malformed

/-- Whether a script raises an error that it does not catch. -/
def raises (source : String) (s : State World) : Bool :=
  match readScript Sandbox.scriptName source with
  | .ok body =>
    match Eval.run (callScript Sandbox.scriptName body) s with
    | some (.error _, _) => true
    | _ => false
  | .error _ => false

theorem exists_of_raises {s : State World} (does : raises source s = true) :
    ∃ body failure s', readScript Sandbox.scriptName source = .ok body ∧
      Eval.run (callScript Sandbox.scriptName body) s = some (.error failure, s') := by
  unfold raises at does
  split at does
  next body read =>
    split at does
    next failure s' raised => exact ⟨body, failure, s', read, raised⟩
    next => cases does
  next => cases does

/-- The code of a tool that is no script, and a script that raises a table. -/
theorem run_refused_unclosed :
    (∃ message, ((⟨[.log true], .unlimited⟩ : Executor).run unclosed [] {}).1 = .error (.malformed message) ∧
      ((⟨[.log true], .unlimited⟩ : Executor).run unclosed [] {}).2 = {} ∧
      ((⟨[.log true], .unlimited⟩ : Executor).runJson unclosed [] {}).2 = {}) ∧
    ∃ e, ((Sandbox.evaluate .string "error(\x7b\x7d)").run ⟨.unlimited, State.initial ({} : World)⟩).1 = .error e ∧
      e.isRefusal = false := by
  have refused := run_refused ⟨[.log true], .unlimited⟩ unclosed {}
  constructor
  · have prepared : prepare unclosed [] = .ok "log.i('tag', 'message') return (" := rfl
    obtain ⟨message, unread⟩ := exists_of_isMalformed
      (by decide +kernel : isMalformed (readScript Sandbox.scriptName "log.i('tag', 'message') return (") = true)
    have run := run_of_malformed (x := ⟨[.log true], .unlimited⟩) {} rfl prepared unread
    exact ⟨message, run, (refused.1 [] _ run rfl).1, (refused.2.1 [] _ run rfl).1⟩
  · have raised : raises "error(\x7b\x7d)" (State.initial {}) = true := by decide +kernel
    obtain ⟨body, failure, s, read, raised⟩ := exists_of_raises raised
    exact refused.2.2 .string _ ⟨.unlimited, State.initial {}⟩ body failure s read raised

end Executor

end ScriptTools
