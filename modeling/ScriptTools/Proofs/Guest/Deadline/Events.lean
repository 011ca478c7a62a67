import ScriptTools.Guest.Script
import ScriptTools.Proofs.Guest.Deadline.Tasks

/-!
Runs while it is written down which tasks are started, on whose behalf, and how they end. Every task of a run is
one that its caller may have done, and values that are given late come from a function that is no script.
-/

namespace ScriptTools.Guest

variable {World α : Type}

inductive Event (World : Type) where
  | start (caller : Doer) (t : Task) (s : State World)
  | stop (doer : Doer) (r : Except Failure Flow) (s : State World)

/-- A frame, and who does the task that goes on there. -/
abbrev Waiting (World : Type) := Doer × Eval.Frame World

/-- On whose behalf a task is done. Where nothing else waits for it that is the host, which has no more done than a
script. -/
def callerOf : List (Waiting World) → Doer
  | [] => .script
  | (doer, _) :: _ => doer

/-- A result with the events that led to it, after one more. -/
def noting {ρ : Type} (e : Event World) (out : ρ × List (Event World)) : ρ × List (Event World) := (out.1, e :: out.2)

namespace Eval

/-- Does a task with all that it asks for, and writes down what happens. -/
def watchDrive : Nat → Doer → Progress World Outcome → List (Waiting World) →
    Option (Except Failure Flow × State World) × List (Event World)
  | 0, _, _, _ => (none, [])
  | n + 1, doer, .call t s resume, waiting =>
    noting (.start doer t s) (watchDrive n (t.doer doer s) (step t s) ((doer, resume) :: waiting))
  | n + 1, _, .done (.again t) s, waiting =>
    noting (.start (callerOf waiting) t s) (watchDrive n (t.doer (callerOf waiting) s) (step t s) waiting)
  | n + 1, doer, .done (.finished flow) s, waiting =>
    noting (.stop doer (.ok flow) s) <|
      match waiting with
      | [] => (some (.ok flow, s), [])
      | (doer, frame) :: waiting => watchDrive n doer (frame (.ok flow) s) waiting
  | n + 1, doer, .raise e s, waiting =>
    noting (.stop doer (.error e) s) <|
      match waiting with
      | [] => (some (.error e, s), [])
      | (doer, frame) :: waiting => watchDrive n doer (frame (.error e) s) waiting

/-- Does all that a computation of the host asks for, and writes down what happens. -/
def watchFinish : Progress World α → Option (Except Failure α × State World) × List (Event World)
  | .done a s => (some (.ok a, s), [])
  | .raise e s => (some (.error e, s), [])
  | .call t s resume =>
    noting (.start .script t s) <|
      match watchDrive stepLimit (t.doer .script s) (step t s) [] with
      | (some (r, s), events) =>
        let out := watchFinish (resume r s)
        (out.1, events ++ out.2)
      | (none, events) => (none, events)

/-- Runs a computation of the host, and writes down what happens. -/
def watch (m : Eval World α) (s : State World) : Option (Except Failure α × State World) × List (Event World) :=
  watchFinish (m s)

theorem watchDrive_fst (n : Nat) (doer : Doer) (p : Progress World Outcome) (waiting : List (Waiting World)) :
    (watchDrive n doer p waiting).1 = drive n p (waiting.map (·.2)) := by
  induction n generalizing doer p waiting with
  | zero => rfl
  | succ n ih =>
    cases p with
    | call t s resume => exact ih _ _ _
    | done o s =>
      cases o with
      | again t => exact ih _ _ _
      | finished flow =>
        cases waiting with
        | nil => rfl
        | cons frame waiting => exact ih _ _ _
    | raise e s =>
      cases waiting with
      | nil => rfl
      | cons frame waiting => exact ih _ _ _

theorem watchFinish_fst (p : Progress World α) : (watchFinish p).1 = finish p := by
  induction p with
  | done a s => rfl
  | raise e s => rfl
  | call t s resume ih =>
    have same := watchDrive_fst stepLimit (t.doer .script s) (step t s) []
    rw [List.map_nil] at same
    unfold watchFinish finish
    rw [← same]
    cases out : watchDrive stepLimit (t.doer .script s) (step t s) [] with
    | mk r events =>
      cases r with
      | none => rfl
      | some end_ => exact ih _ _

/-- Nothing changes where events are written down. -/
theorem watch_fst (m : Eval World α) (s : State World) : (watch m s).1 = run m s := watchFinish_fst _

end Eval

end ScriptTools.Guest
