import ScriptTools.Proofs.Guest.Scan
import ScriptTools.Proofs.Guest.Straight

/-!
Whole scripts in quiet states. A script whose statements call nothing gives what they return, in a state that follows,
unless it meets a limit.
-/

namespace ScriptTools.Guest

variable {World : Type} {depth nested : Nat} {s : State World}

/-- The results of a script whose statements lead to a flow. -/
def Flow.Gives (vs : List Value) (flow : Flow) : Prop := flow = .return vs ∨ vs = [] ∧ ∃ env, flow = .next env

namespace Eval

theorem steady_enter {script : String} {body : Block} {vs : List Value} (unlabelled : hasLabel body = false)
    (does : Steady (evalStats { script } body : Eval World Flow) (Flow.Gives vs)) :
    Steady (enter { params := [], varargs := true, body, env := { script } } [] : Eval World Outcome)
      (· = .finished (.return vs)) := by
  have statements : Steady (runStats { script } body (evalStats { script } body) : Eval World Flow) (Flow.Gives vs) := by
    rw [runStats, unlabelled, if_neg nofun]
    exact does
  refine .bind steady_tick fun _ _ => .bind (steady_look _) fun mark _ => ?_
  refine .bind (.pure rfl : Steady _ (· = { script })) fun env same => ?_
  subst env
  refine .bind statements fun flow gives => .bind (steady_dropCells mark) fun _ _ => ?_
  rcases gives with rfl | ⟨rfl, env, rfl⟩
  · exact .pure rfl
  · exact .pure rfl

/-- How a script whose statements call nothing is run: its function is made, called by no script, and ends at once,
unless a limit is met. -/
inductive Straightway (s : State World) (vs : List Value) : Progress World (List Value) → Prop
  | unmade {e : Failure} {s' : State World} (limited : ¬ s.Unlimited) : Straightway s vs (.raise e s')
  | gives {id : Nat} {s₁ s₂ s' : State World} {resume : Except Failure Flow → State World → Progress World (List Value)}
      (stepped : step (.apply (.ref (.closure id)) []) s₁ = .done (.finished (.return vs)) s₂)
      (resumed : resume (.ok (.return vs)) s₂ = .done vs s') (follows : s'.Follows s) :
      Straightway s vs (.call (.apply (.ref (.closure id)) []) s₁ resume)
  | fails {id : Nat} {s₁ s₂ s' : State World} {e : Failure}
      {resume : Except Failure Flow → State World → Progress World (List Value)} (limited : ¬ s.Unlimited)
      (stepped : step (.apply (.ref (.closure id)) []) s₁ = .raise e s₂)
      (resumed : resume (.error e) s₂ = .raise e s') : Straightway s vs (.call (.apply (.ref (.closure id)) []) s₁ resume)

theorem straightway_callScript (script : String) {body : Block} {vs : List Value} (quiet : Quiet 0 0 s)
    (unlabelled : hasLabel body = false)
    (does : Steady (evalStats { script } body : Eval World Flow) (Flow.Gives vs)) :
    Straightway s vs (callScript script body s) := by
  let c : Closure := { params := [], varargs := true, body, env := { script } }
  rcases steady_allocate 64 quiet with ⟨_, s₀, taken, follows, -⟩ | ⟨limited, e, s', failed⟩
  · let s₁ : State World := { s₀ with closures := s₀.closures.push c, pinned := s₀.cells.size }
    have made : newClosure c s = .done (.ref (.closure s₀.closures.size)) s₁ := bind_of_done taken
    have kept : s₁.Follows s₀ := ⟨rfl, fun quiet => { quiet with }, fun unlimited => { unlimited with }⟩
    have follows := kept.trans follows
    have quiet₁ := follows.quiet quiet
    let inside : State World := { s₁ with sites := .native :: s₁.sites, depth := s₁.depth + 1, nested := s₁.nested + 1 }
    have under : Quiet 1 1 inside :=
      { quiet₁ with depth := congrArg (· + 1) quiet₁.depth, nested := congrArg (· + 1) quiet₁.nested }
    have called : call .native (.ref (.closure s₀.closures.size)) [] s₁ =
        perform .native (.ref (.closure s₀.closures.size)) [] s₁ := by
      rw [call, quiet₁.nested, quiet₁.depth]
      rfl
    have applied : step (.apply (.ref (.closure s₀.closures.size)) []) inside = enter c [] inside := by
      have there : inside.closures[s₀.closures.size]? = some c := Array.getElem?_push_size
      have looked : look (fun t => t.closures[s₀.closures.size]?) inside = .done (some c) inside :=
        congrArg (Progress.done · inside) there
      exact bind_of_done looked
    rw [callScript, bind_of_done made, called]
    rcases steady_enter unlabelled does under with ⟨_, s₂, entered, after, rfl⟩ | ⟨limited, e, s₂, entered⟩
    · refine .gives (applied.trans entered) rfl ⟨after.world.trans follows.world, fun quiet => ?_, fun unlimited => ?_⟩
      · exact { after.quiet under with depth := (follows.quiet quiet).depth, nested := (follows.quiet quiet).nested }
      · have unlimited₂ := after.unlimited { follows.unlimited unlimited with }
        exact { unlimited₂ with }
    · refine .fails (fun unlimited => limited ?_) (applied.trans entered) rfl
      exact { follows.unlimited unlimited with }
  · have failed : newClosure c s = .raise e s' := bind_of_raise failed
    rw [callScript, bind_of_raise failed]
    exact .unmade limited

variable {vs : List Value} {p : Progress World (List Value)}

theorem Straightway.finish (way : Straightway s vs p) :
    (∃ s', finish p = some (.ok vs, s') ∧ s'.Follows s) ∨ ¬ s.Unlimited ∧ ∃ e s', Eval.finish p = some (.error e, s') := by
  have more : stepLimit = 4611686018427387903 + 1 := rfl
  cases way with
  | unmade limited => exact .inr ⟨limited, _, _, rfl⟩
  | @gives id s₁ s₂ s' resume stepped resumed follows =>
    refine .inl ⟨s', ?_, follows⟩
    rw [Eval.finish, stepped, more, drive]
    dsimp only
    rw [resumed, Eval.finish]
  | @fails id s₁ s₂ s' e resume limited stepped resumed =>
    refine .inr ⟨limited, e, s', ?_⟩
    rw [Eval.finish, stepped, more, drive]
    dsimp only
    rw [resumed, Eval.finish]

end Eval

open Eval

/-- A script whose statements call nothing. -/
theorem runScript_of_steady {script source : String} {body : Block} {vs : List Value} (quiet : Quiet 0 0 s)
    (read : readScript script source = .ok body) (unlabelled : hasLabel body = false)
    (does : Steady (evalStats { script } body : Eval World Flow) (Flow.Gives vs)) :
    (∃ s', runScript script source s = (.ok vs, s') ∧ s'.Follows s) ∨
      ¬ s.Unlimited ∧ ∃ fault s', runScript script source s = (.error fault, s') := by
  unfold runScript run
  rw [read]
  dsimp only
  rcases (straightway_callScript script quiet unlabelled does).finish with ⟨s', done, follows⟩ | ⟨limited, e, s', failed⟩
  · rw [done]
    exact .inl ⟨s', rfl, follows⟩
  · rw [failed]
    exact .inr ⟨limited, _, _, rfl⟩

/-- A text that does not begin as a compiled script does. -/
theorem readScript_of_compile {script source : String} {body : Block}
    (plain : (source.toList.head? == some '\x1b') = false) (run : compile source = .ok body) :
    readScript script source = .ok body := by
  rw [readScript, plain, if_neg nofun, run]

/-- What a script that only declares and assigns does. -/
theorem steady_of_isStraight {body : Block} (script : String) (straight : body.all Stat.isStraight = true) :
    Steady (evalStats { script } body : Eval World Flow) (Flow.Gives []) := by
  have ordinary : ({ script } : Env).Ordinary := fun x id place member => absurd member List.not_mem_nil
  exact (steady_evalStats ordinary straight).weaken fun flow next => .inr ⟨rfl, next⟩

/-- A script that only declares and assigns gives no values. -/
theorem runScript_of_isStraight {script source : String} {body : Block} (quiet : Quiet 0 0 s)
    (read : readScript script source = .ok body) (straight : body.all Stat.isStraight = true) :
    (∃ s', runScript script source s = (.ok [], s') ∧ s'.Follows s) ∨
      ¬ s.Unlimited ∧ ∃ fault s', runScript script source s = (.error fault, s') :=
  runScript_of_steady quiet read (hasLabel_of_isStraight straight) (steady_of_isStraight script straight)

end ScriptTools.Guest
