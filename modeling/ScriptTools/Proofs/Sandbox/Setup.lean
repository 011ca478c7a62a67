import ScriptTools.Capability.Basic
import ScriptTools.Proofs.Guest.Run
import ScriptTools.Proofs.Guest.Scan

/-!
What the host puts into sandboxes. It only declares and assigns, so that nothing is called and the world stays as it
is. Where nothing runs out it succeeds, and every capability can be put in, in any order and any number of times.
-/

namespace ScriptTools

open Guest (Eval State)

variable {World α β : Type}

/-- A sandbox with nothing under way. -/
def Sandbox.Quiet (b : Sandbox World) : Prop := Guest.Quiet 0 0 b.state

/-- A sandbox with nothing under way where nothing runs out. -/
def Sandbox.Calm (b : Sandbox World) : Prop := Guest.Calm 0 0 b.state

namespace Sandboxed

theorem run_bind {m : Sandboxed World α} {f : α → Sandboxed World β} {b b' : Sandbox World} {a : α}
    (run : m.run b = (.ok a, b')) : (m >>= f).run b = (f a).run b' := by
  change StateT.bind m (ExceptT.bindCont f) b = _
  rw [StateT.bind, show m b = (.ok a, b') from run]
  rfl

theorem run_bind_error {m : Sandboxed World α} {f : α → Sandboxed World β} {b b' : Sandbox World} {e : RunError}
    (run : m.run b = (.error e, b')) : (m >>= f).run b = (.error e, b') := by
  change StateT.bind m (ExceptT.bindCont f) b = _
  rw [StateT.bind, show m b = (.error e, b') from run]
  rfl

/-- What the host does to a sandbox without a call. It succeeds, or the sandbox is not set up because of a limit. -/
def Settles (m : Sandboxed World Unit) : Prop := ∀ b, b.Quiet →
  (∃ b', m.run b = (.ok (), b') ∧ b'.state.Follows b.state) ∨
    ¬ b.state.Unlimited ∧ ∃ reason b', m.run b = (.error (.setup reason), b')

theorem Settles.bind {m n : Sandboxed World Unit} (first : Settles m) (next : Settles n) :
    Settles (do m; n) := by
  intro b quiet
  rcases first b quiet with ⟨c, run, follows⟩ | ⟨limited, reason, c, run⟩
  · rw [run_bind run]
    rcases next c (follows.quiet quiet) with ⟨c', run', follows'⟩ | ⟨limited, fails⟩
    · exact .inl ⟨c', run', follows'.trans follows⟩
    · exact .inr ⟨fun unlimited => limited (follows.unlimited unlimited), fails⟩
  · exact .inr ⟨limited, reason, c, run_bind_error run⟩

theorem Settles.forM {f : α → Sandboxed World Unit} (each : ∀ a, Settles (f a)) (as : List α) :
    Settles (as.forM f) := by
  induction as with
  | nil => exact fun b _ => .inl ⟨b, rfl, .refl b.state⟩
  | cons a as ih => exact (each a).bind ih

/-- Where nothing runs out, it succeeds. -/
theorem Settles.calm {m : Sandboxed World Unit} (settles : Settles m) {b : Sandbox World} (calm : b.Calm) :
    ∃ b', m.run b = (.ok (), b') ∧ b'.Calm := by
  rcases settles b calm.toQuiet with ⟨b', run, follows⟩ | ⟨limited, _⟩
  · exact ⟨b', run, follows.calm calm⟩
  · exact absurd calm.toUnlimited limited

end Sandboxed

namespace Sandbox

open Sandboxed

theorem perform_of_raise {m : Eval World Unit} {b : Sandbox World} {e : Guest.Failure} {s : State World}
    (raised : m b.state = .raise e s) : ∃ reason b', (perform m).run b = (.error (.setup reason), b') := by
  have looked : (get : Sandboxed World (Sandbox World)).run b = (.ok b, b) := rfl
  rw [perform, run_bind looked, Eval.run, raised]
  exact ⟨_, _, rfl⟩

theorem settles_perform {m : Eval World Unit} (steady : Eval.Steady m fun _ => True) : Settles (perform m) := by
  intro b quiet
  rcases steady quiet with ⟨_, s, run, follows, _⟩ | ⟨limited, e, s, raised⟩
  · have looked : (get : Sandboxed World (Sandbox World)).run b = (.ok b, b) := rfl
    rw [perform, run_bind looked, Eval.run, run]
    exact .inl ⟨{ b with state := s }, rfl, follows⟩
  · exact .inr ⟨limited, perform_of_raise raised⟩

theorem steady_assign (name : String) (v : Guest.Value) :
    Eval.Steady (assign name v : Eval World Unit) fun _ => True := by
  intro depth nested s quiet
  have named : assign name v s = Eval.rawSet s.globals (.string name.toUTF8) v s :=
    Guest.Eval.setIndex_globals quiet .native .unnamed name.toUTF8 v
  rw [named]
  exact Guest.Eval.steady_rawSet _ _ _ quiet

/-- What gives scripts a function of the host. -/
def binding (h : Guest.Host World) : Eval World Unit := do
  Guest.Eval.allocate 64
  let f ← fun s => .done (.ref (.host s.hosts.size)) { s with hosts := s.hosts.push h }
  assign h.name f

theorem steady_binding (h : Guest.Host World) : Eval.Steady (binding h) fun _ => True := by
  refine .bind (Guest.Eval.steady_allocate 64) fun _ _ => ?_
  refine .bind (P := fun _ => True) (Guest.Eval.steady_of_done fun s => ?_) fun f _ => steady_assign h.name f
  exact ⟨_, _, rfl, ⟨rfl, fun quiet => { quiet with }, fun unlimited => { unlimited with }⟩, trivial⟩

theorem settles_bind (h : Guest.Host World) : Settles (bind h) := settles_perform (steady_binding h)

/-- Whether a text is a script that only declares and assigns. -/
def IsStraight (source : String) : Prop :=
  ∃ body, (∀ script, Guest.readScript script source = .ok body) ∧ body.all Guest.Stat.isStraight = true

theorem isStraight_of_scanned {source : String} {cs : List Char} (text : source = String.ofList cs)
    (plain : (cs.head? == some '\x1b') = false)
    (run : (Guest.scanned cs).any (·.all Guest.Stat.isStraight) = true) : IsStraight source := by
  obtain ⟨body, scanned, straight⟩ := (Option.any_eq_true _ _).mp run
  refine ⟨body, fun script => ?_, straight⟩
  refine Guest.readScript_of_compile ?_ (Guest.compile_of_scanned text scanned)
  rwa [text, String.toList_ofList]

theorem exec_of_gives {script source : String} {b : Sandbox World} {vs : List Guest.Value} {s : State World}
    (run : Guest.runScript script source b.state = (.ok vs, s)) :
    (exec script source).run b = (.ok (), { b with state := s }) := by
  have looked : (get : Sandboxed World (Sandbox World)).run b = (.ok b, b) := rfl
  rw [exec, run_bind looked, run]
  rfl

theorem exec_of_fault {script source : String} {b : Sandbox World} {fault : Guest.ScriptFault} {s : State World}
    (run : Guest.runScript script source b.state = (.error fault, s)) :
    (exec script source).run b = (.error (.setup (script ++ ": " ++ fault.message)), { b with state := s }) := by
  have looked : (get : Sandboxed World (Sandbox World)).run b = (.ok b, b) := rfl
  rw [exec, run_bind looked, run]
  rfl

theorem settles_exec {source : String} (script : String) (straight : IsStraight source) :
    Settles (exec script source : Sandboxed World Unit) := by
  intro b quiet
  obtain ⟨body, read, straight⟩ := straight
  rcases Guest.runScript_of_isStraight quiet (read script) straight with ⟨s, run, follows⟩ | ⟨limited, fault, s, run⟩
  · exact .inl ⟨_, exec_of_gives run, follows⟩
  · exact .inr ⟨limited, _, _, exec_of_fault run⟩

end Sandbox

/-- One thing that the host does to a sandbox before the code of a tool runs in it. Its own scripts only declare and
assign. -/
inductive Setup (World : Type) where
  | bind (h : Guest.Host World)
  | exec (script source : String) (straight : Sandbox.IsStraight source)

namespace Setup

def run : Setup World → Sandboxed World Unit
  | .bind h => Sandbox.bind h
  | .exec script source _ => Sandbox.exec script source

theorem settles (step : Setup World) : Sandboxed.Settles step.run := by
  cases step with
  | bind h => exact Sandbox.settles_bind h
  | exec script source straight => exact Sandbox.settles_exec script straight

/-- Nothing is done after the last step. -/
theorem forM_concat (steps : List (Setup World)) (last : Setup World) :
    (steps ++ [last]).forM run = (do steps.forM run; last.run) := by
  simp only [List.forM_eq_forM, List.forM_append, List.forM_cons, List.forM_nil, bind_pure_unit]

end Setup

namespace Sandbox

/-! New sandboxes -/

set_option maxRecDepth 10000 in
theorem guardPrelude_isStraight : IsStraight guardPrelude :=
  isStraight_of_scanned rfl rfl (by decide +kernel)

/-- A new sandbox is the state after the guard with the limits put in. -/
theorem create_eq {limits : Limits} {w : World} {r : Except Guest.ScriptFault (List Guest.Value)} {s : State World}
    (run : Guest.runScript "guard" guardPrelude (State.initial w) = (r, s)) :
    create limits w = ⟨limits, { s with
      memory := { s.memory with limit := limits.cap?.map (· - emptyBytes) }
      clock := { deadline := limits.deadline.map stepsIn } }⟩ := by
  have after : (Guest.runScript "guard" guardPrelude (State.initial w)).2 = s := congrArg Prod.snd run
  rw [create, after]

/-- In a new sandbox nothing is under way, and the world is as it was. -/
theorem create_follows (limits : Limits) (w : World) : (create limits w).Quiet ∧ (create limits w).state.world = w := by
  obtain ⟨body, read, straight⟩ := guardPrelude_isStraight
  have calm := Guest.calm_initial w
  rcases Guest.runScript_of_isStraight calm.toQuiet (read "guard") straight with ⟨s, run, follows⟩ | ⟨limited, _⟩
  · rw [create_eq run]
    exact ⟨{ follows.quiet calm.toQuiet with }, follows.world⟩
  · exact absurd calm.toUnlimited limited

theorem create_calm {limits : Limits} (unlimited : limits = .unlimited) (w : World) : (create limits w).Calm := by
  refine ⟨(create_follows limits w).1, ?_⟩
  subst unlimited
  exact ⟨rfl, rfl, rfl, rfl⟩

end Sandbox

namespace Capability

open Sandbox Sandboxed

set_option maxRecDepth 10000 in
theorem Files.prelude_isStraight : IsStraight Files.prelude := isStraight_of_scanned rfl rfl (by decide +kernel)

set_option maxRecDepth 10000 in
theorem Network.prelude_isStraight : IsStraight Network.prelude := isStraight_of_scanned rfl rfl (by decide +kernel)

set_option maxRecDepth 10000 in
theorem Log.prelude_isStraight : IsStraight Log.prelude := isStraight_of_scanned rfl rfl (by decide +kernel)

/-- What putting in a capability consists of: functions are bound, and its script is run. -/
def setup : Capability → List (Setup ScriptTools.World)
  | .files a =>
    [.bind (Files.read a), .bind (Files.write a), .bind (Files.delete a), .bind (Files.isThere a), .bind (Files.list a)]
      ++ [.exec "fs" Files.prelude Files.prelude_isStraight]
  | .network a =>
    [.bind (Network.get a), .bind (Network.post a)] ++ [.exec "network" Network.prelude Network.prelude_isStraight]
  | .log keep => [.bind (Log.write keep)] ++ [.exec "log" Log.prelude Log.prelude_isStraight]

theorem install_eq (c : Capability) : c.install = c.setup.forM Setup.run := by
  cases c with
  | _ =>
    rw [setup, Setup.forM_concat]
    simp only [List.forM_eq_forM, List.forM_cons, List.forM_nil, bind_assoc, pure_bind]
    rfl

/-- Every capability can be put in. -/
theorem settles_install (c : Capability) : Settles c.install :=
  c.install_eq ▸ .forM Setup.settles c.setup

end Capability

end ScriptTools
