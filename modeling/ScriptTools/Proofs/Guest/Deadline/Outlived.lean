import ScriptTools.Proofs.Guest.Deadline.Events
import ScriptTools.Proofs.Sandbox.Setup

/-!
What still happens in a run after the deadline was noticed. A function of the host may still be called, while time
stands still for a handler of the deadline, by a function that is no script, or on the way out of what the deadline
has ended; and a run gives values only where such a function gives them.
-/

namespace ScriptTools.Guest

variable {World α : Type}

/-- A result that a task passes on: its own, or its first value as an error. -/
def Passed (own : Except Failure Flow) (r : Except Failure (List Value)) : Prop :=
  r = own.map Flow.values ∨ ∃ flow, own = .ok flow ∧ r = .error (.raised (firstValue flow.values))

/-- Where a result comes from that a script has: from a time when there was time left, from a function that is no
script and has ended at that time, or it is the error of the deadline or of another limit. Nothing is said of errors
once a handler or a closing was called late. -/
inductive Origin (left : Prop) (events : List (Event World)) (c : Clock) (faults : Array Fault) :
    Except Failure (List Value) → Prop
  | early {r : Except Failure (List Value)} (inTime : c.InTime) : Origin left events c faults r
  | native (own : Except Failure Flow) (s : State World) {r : Except Failure (List Value)}
    (mem : .stop .native own s ∈ events) (same : s.clock = c) (passed : Passed own r) : Origin left events c faults r
  | deadline {e : Failure} (is : e.IsDeadline faults) : Origin left events c faults (.error e)
  | exhausted {e : Failure} (is : e.IsExhaustion) : Origin left events c faults (.error e)
  | left {e : Failure} (known : left) : Origin left events c faults (.error e)

/-- The origin of the latest reply is known. -/
def Explained (left : Prop) (events : List (Event World)) (last : Reply) : Prop :=
  ∀ r c faults, last = some (r, c, faults) → Origin left events c faults r

section
variable {left : Prop} {events : List (Event World)} {c : Clock} {faults : Array Fault}
  {r : Except Failure (List Value)} {last : Reply}

theorem Origin.append (origin : Origin left events c faults r) (more : List (Event World)) :
    Origin left (events ++ more) c faults r := by
  cases origin with
  | early inTime => exact .early inTime
  | native own s mem same passed => exact .native own s (List.mem_append_left _ mem) same passed
  | deadline is => exact .deadline is
  | exhausted is => exact .exhausted is
  | left known => exact .left known

theorem Explained.append (explained : Explained left events last) (more : List (Event World)) :
    Explained left (events ++ more) last :=
  fun r c faults eq => (explained r c faults eq).append more

/-- The first value of a reply may be raised as an error, as the answer of a handler. -/
theorem Origin.answer {vs : List Value} (origin : Origin left events c faults (.ok vs)) :
    Origin left events c faults (.error (.raised (firstValue vs))) := by
  cases origin with
  | early inTime => exact .early inTime
  | native own s mem same passed =>
    refine .native own s mem same (.inr ?_)
    rcases passed with given | ⟨flow, _, impossible⟩
    · cases own with
      | ok flow =>
        cases given
        exact ⟨flow, rfl, rfl⟩
      | error e => cases given
    · cases impossible

theorem Origin.of_fails {e : Failure} {s : State World} (fails : Fails left last e s)
    (explained : Explained left events last) :
    Origin left events s.clock s.faults (.error e) := by
  cases fails with
  | early inTime => exact .early inTime
  | left known => exact .left known
  | deadline is => exact .deadline is
  | exhausted is => exact .exhausted is
  | reply failed => exact explained _ _ _ failed
  | answer vs given first => exact first ▸ (explained _ _ _ given).answer

end

/-- Whoever waits takes up its computation as it must, once the task above has ended. The flags tell whether the
lowest task is a call, and whether the one above is. -/
def Waits (left : Prop) (lowest : Bool) : Bool → List (Waiting World) → Prop
  | above, [] => above = lowest
  | above, (doer, frame) :: rest => ∃ call, Waits left lowest call rest ∧ ∀ r s,
    (doer = .script → above = false → r.isOk = true → s.InTime) →
      Proper left (callerOf rest) call doer (frame r s) (reply r s)

theorem Waits.of_native {left : Prop} {lowest above : Bool} {waiting : List (Waiting World)}
    (waits : Waits left lowest above waiting) (native : callerOf waiting = .native) (other : Bool) :
    Waits left lowest other waiting := by
  cases waiting with
  | nil => cases native
  | cons frame rest =>
    obtain ⟨doer, frame⟩ := frame
    obtain rfl : doer = .native := native
    obtain ⟨call, waits, goesOn⟩ := waits
    exact ⟨call, waits, fun r s _ => goesOn r s nofun⟩

/-- A run after some events has only permitted tasks started, and the origin of its result is known. -/
def Sound {ρ : Type} (left : Prop) (Q : ρ → Reply → Prop) (past : List (Event World))
    (out : Option ρ × List (Event World)) : Prop :=
  (∀ caller t s, .start caller t s ∈ out.2 → s.clock.expired = true → s.IsLeaving → left) →
    (∀ caller t s, .start caller t s ∈ out.2 → Permits caller t s) ∧
    ∀ r, out.1 = some r → ∃ last, Q r last ∧ Explained left (past ++ out.2) last

section
variable {ρ σ : Type} {left : Prop} {Q : ρ → Reply → Prop} {R : σ → Reply → Prop}
  {past events : List (Event World)} {out : Option ρ × List (Event World)}

theorem Sound.none : Sound left Q past (.none, []) := fun _ => by simp

theorem Sound.some {r : ρ} {last : Reply} (fits : Q r last) (explained : Explained left past last) :
    Sound left Q past (.some r, []) := by
  refine fun _ => ⟨by simp, ?_⟩
  rintro _ ⟨⟩
  exact ⟨last, fits, by simpa using explained⟩

theorem Sound.append {r : σ} (first : Sound left R past (.some r, events))
    (next : ∀ last, R r last → Explained left (past ++ events) last → Sound left Q (past ++ events) out) :
    Sound left Q past (out.1, events ++ out.2) := by
  intro known
  obtain ⟨permits, result⟩ := first fun caller t s mem => known caller t s (List.mem_append_left _ mem)
  obtain ⟨last, fits, explained⟩ := result r rfl
  obtain ⟨permits', result'⟩ := next last fits explained fun caller t s mem =>
    known caller t s (List.mem_append_right _ mem)
  refine ⟨fun caller t s mem => ?_, fun r' eq => ?_⟩
  · rcases List.mem_append.mp mem with mem | mem
    · exact permits caller t s mem
    · exact permits' caller t s mem
  · obtain ⟨last', fits', explained'⟩ := result' r' eq
    rw [List.append_assoc] at explained'
    exact ⟨last', fits', explained'⟩

theorem Sound.start {caller : Doer} {t : Task} {s : State World} {last : Reply} (permits : Permits caller t s)
    (explained : Explained left past last)
    (sound : (s.clock.expired = true → s.IsLeaving → left) → Explained left (past ++ [.start caller t s]) last →
      Sound left Q (past ++ [.start caller t s]) out) : Sound left Q past (noting (.start caller t s) out) := by
  intro known
  have here : s.clock.expired = true → s.IsLeaving → left := known caller t s List.mem_cons_self
  have first : Sound left (fun _ r => r = last) past (.some (), [.start caller t s]) := fun _ =>
    ⟨fun _ _ _ mem => (by cases List.mem_singleton.mp mem; exact permits),
      fun _ _ => ⟨last, rfl, explained.append _⟩⟩
  exact first.append (fun _ same explained => sound here (same ▸ explained)) known

theorem Sound.stop {doer : Doer} {own : Except Failure Flow} {s : State World} {last : Reply}
    (explained : Explained left (past ++ [.stop doer own s]) last)
    (sound : Explained left (past ++ [.stop doer own s]) last → Sound left Q (past ++ [.stop doer own s]) out) :
    Sound left Q past (noting (.stop doer own s) out) := by
  have first : Sound left (fun _ r => r = last) past (.some (), [.stop doer own s]) := fun _ =>
    ⟨fun _ _ _ mem => (by cases List.mem_singleton.mp mem), fun _ _ => ⟨last, rfl, explained⟩⟩
  exact first.append fun _ same explained => sound (same ▸ explained)

end

namespace Eval

variable {left : Prop} {waiting : List (Waiting World)} {lowest call : Bool} {doer : Doer} {flow : Flow} {s : State World}
  {last : Reply} {past : List (Event World)}

/-- The result of a task, as the reply to whoever had it done; there is time after a loop. -/
def Replied (call : Bool) (r : Except Failure Flow × State World) (last : Reply) : Prop :=
  last = reply r.1 r.2 ∧ (call = false → r.1.isOk = true → r.2.InTime)

/-- The origin of what a task ends with is known, whoever does it. -/
theorem explained_finished (proper : Proper left (callerOf waiting) call doer (.done (.finished flow) s) last)
    (explained : Explained left past last) : Explained left (past ++ [.stop doer (.ok flow) s]) (reply (.ok flow) s) := by
  rintro _ _ _ ⟨⟩
  cases doer with
  | script =>
    rcases proper with inTime | ⟨-, eq⟩
    · exact .early inTime
    · exact (explained _ _ _ eq).append _
  | native => exact .native _ s (by simp) rfl (.inl rfl)

theorem explained_failed {e : Failure} (proper : Proper left (callerOf waiting) call doer (.raise e s) last)
    (explained : Explained left past last) : Explained left (past ++ [.stop doer (.error e) s]) (reply (.error e) s) := by
  rintro _ _ _ ⟨⟩
  cases doer with
  | script => exact (Origin.of_fails proper explained).append _
  | native => exact .native _ s (by simp) rfl (.inl rfl)

/-- Where a loop of a script has ended with a result, there is time. -/
theorem inTime_finished (proper : Proper left (callerOf waiting) call doer (.done (.finished flow) s) last)
    (script : callerOf waiting = .script) (loop : call = false) : s.InTime := by
  subst loop
  cases doer with
  | script =>
    rcases proper with inTime | ⟨⟨⟩, -⟩
    exact inTime
  | native =>
    rw [show callerOf waiting = .native from proper] at script
    cases script

/-- The invariant of the machine: what is under way and what waits for it are proper, and the origin of the latest
reply is known. -/
theorem watchDrive_sound (n : Nat) {p : Progress World Outcome} (proper : Proper left (callerOf waiting) call doer p last)
    (waits : Waits left lowest call waiting) (explained : Explained left past last) :
    Sound left (Replied lowest) past (watchDrive n doer p waiting) := by
  induction n generalizing doer p waiting call last past with
  | zero => exact .none
  | succ n ih =>
    cases p with
    | call t s resume =>
      have permits : Permits doer t s := by
        cases doer with
        | script => exact .inr proper.1
        | native => exact .inl rfl
      refine Sound.start permits explained fun known explained => ?_
      refine ih (proper_step permits last) ⟨call, waits, fun r s' inTime => ?_⟩ explained
      cases doer with
      | script => exact proper.2 known r s' (inTime rfl)
      | native =>
        cases call with
        | true => exact proper r s'
        | false => exact proper
    | done o s =>
      cases o with
      | again t =>
        obtain ⟨permits, waits⟩ : Permits (callerOf waiting) t s ∧ Waits left lowest t.isCall waiting := by
          cases doer with
          | script =>
            obtain ⟨inTime, rfl⟩ := proper
            exact ⟨.inr (.inl inTime), waits⟩
          | native =>
            cases call with
            | true =>
              obtain ⟨isCall, permits⟩ := proper
              exact ⟨permits, isCall ▸ waits⟩
            | false => exact ⟨.inl proper, waits.of_native proper _⟩
        exact Sound.start permits explained fun _ explained => ih (proper_step permits last) waits explained
      | finished flow =>
        refine Sound.stop (explained_finished proper explained) fun explained => ?_
        cases waiting with
        | nil => exact .some ⟨rfl, fun loop _ => inTime_finished proper rfl (waits.trans loop)⟩ explained
        | cons frame waiting =>
          obtain ⟨call', waits, goesOn⟩ := waits
          exact ih (goesOn (.ok flow) s fun script loop _ => inTime_finished proper script loop) waits explained
    | raise e s =>
      refine Sound.stop (explained_failed proper explained) fun explained => ?_
      cases waiting with
      | nil => exact .some ⟨rfl, fun _ ok => by cases ok⟩ explained
      | cons frame waiting =>
        obtain ⟨call', waits, goesOn⟩ := waits
        exact ih (goesOn (.error e) s fun _ _ ok => by cases ok) waits explained

/-- How what the host has done ends, as the code of a script does. -/
def Ended (left : Prop) (Q : Reply → α → State World → Prop) (r : Except Failure α × State World) (last : Reply) :
    Prop :=
  (∀ a, r.1 = .ok a → Q last a r.2) ∧ ∀ e, r.1 = .error e → Fails left last e r.2

/-- What the host has done goes on as what a script has done. -/
theorem watchFinish_sound {Q : Reply → α → State World → Prop} {p : Progress World α} (sober : p.Sober left Q last)
    (explained : Explained left past last) : Sound left (Ended left Q) past (watchFinish p) := by
  induction p generalizing last past with
  | done a s =>
    refine .some ⟨?_, fun _ impossible => by cases impossible⟩ explained
    rintro _ ⟨⟩
    exact sober
  | raise e s =>
    refine .some ⟨fun _ impossible => (by cases impossible), ?_⟩ explained
    rintro _ ⟨⟩
    exact sober
  | call t s resume ih =>
    unfold watchFinish
    have permits : Permits .script t s := .inr sober.1
    refine Sound.start permits explained fun known explained => ?_
    have driven : Sound left (Replied t.isCall) (past ++ [.start .script t s])
        (watchDrive stepLimit (t.doer .script s) (step t s) []) :=
      watchDrive_sound stepLimit (proper_step permits last) rfl explained
    generalize watchDrive stepLimit (t.doer .script s) (step t s) [] = out at driven ⊢
    obtain ⟨_ | ⟨r, s'⟩, events⟩ := out
    · exact fun known => ⟨(driven known).1, fun _ impossible => by cases impossible⟩
    · refine driven.append fun last replied explained => ?_
      obtain ⟨rfl, inTime⟩ := replied
      exact ih r s' (sober.2 known r s' inTime) explained

end Eval

namespace Eval

/-- The values of a script are those of the call of its function. -/
theorem sober_callScript (left : Prop) (script : String) (body : Block) (s : State World) (last : Reply) :
    (callScript script body s).Sober left (fun last values s => last = some (.ok values, s.clock, s.faults)) last := by
  unfold callScript
  rw [bind_apply]
  rcases still_newClosure { params := [], varargs := true, body, env := { script } } s with
    ⟨f, s', run, -⟩ | ⟨s', run⟩
  · rw [run]
    have leaving : Site.native.IsLeaving := trivial
    exact sober_call (.inr leaving) f [] last
  · rw [run]
    exact .exhausted (.inl rfl)

end Eval

/-- A message handler or the closing of a variable is called after the deadline was noticed. -/
def IsLeftLate (events : List (Event World)) : Prop :=
  ∃ caller t s, .start caller t s ∈ events ∧ s.clock.expired = true ∧ s.IsLeaving

/-- What happens while a script runs. -/
def scriptEvents (script source : String) (s : State World) : List (Event World) :=
  match readScript script source with
  | .error _ => []
  | .ok body => (Eval.watch (callScript script body) s).2

section
variable {script source : String} {body : Block} {s s' : State World} {r : Except Failure (List Value)}

/-- A script has only permitted tasks done, and the origin of its result is known. -/
theorem scriptEvents_sound (read : readScript script source = .ok body) :
    (∀ caller t st, .start caller t st ∈ scriptEvents script source s → Permits caller t st) ∧
    ∀ r s', Eval.run (callScript script body) s = some (r, s') →
      Origin (IsLeftLate (scriptEvents script source s)) (scriptEvents script source s) s'.clock s'.faults r := by
  have happened : scriptEvents script source s = (Eval.watch (callScript script body) s).2 := by rw [scriptEvents, read]
  rw [happened]
  let left := IsLeftLate (Eval.watch (callScript script body) s).2
  have explained : Explained left ([] : List (Event World)) none := fun _ _ _ eq => by cases eq
  have sober := Eval.sober_callScript left script body s none
  obtain ⟨permits, result⟩ := Eval.watchFinish_sound sober explained fun caller t st mem expired leaving =>
    ⟨caller, t, st, mem, expired, leaving⟩
  refine ⟨permits, fun r s' ran => ?_⟩
  obtain ⟨last, ended, explained⟩ := result (r, s') ((Eval.watch_fst _ s).trans ran)
  cases r with
  | ok values => exact explained _ _ _ (ended.1 values rfl)
  | error e => exact Origin.of_fails (ended.2 e rfl) explained

theorem scriptEvents_permits {caller : Doer} {t : Task} {st : State World}
    (mem : .start caller t st ∈ scriptEvents script source s) : Permits caller t st := by
  cases read : readScript script source with
  | error e => simp [scriptEvents, read] at mem
  | ok body => exact (scriptEvents_sound read).1 caller t st mem

/-- The host learns of the deadline where a script ends with its error. -/
theorem runScript_of_deadline {e : Failure} (read : readScript script source = .ok body)
    (ran : Eval.run (callScript script body) s = some (.error e, s')) (is : e.IsDeadline s'.faults) :
    runScript script source s = (.error .deadline, s') := by
  obtain ⟨id, rfl, there⟩ := is
  have reported : report errorTextLimit (.raised (.ref (.fault id))) s' = (.deadline, s') := by
    simp [report, there]
  rw [runScript, read]
  dsimp only
  rw [ran]
  dsimp only
  rw [reported]

end

end ScriptTools.Guest

namespace ScriptTools.Sandbox

open Guest

variable {World : Type}

theorem evaluate_of_fault {type : ScalarType} {source : String} {b : Sandbox World} {fault : ScriptFault} {s : State World}
    (run : runScript scriptName source b.state = (.error fault, s)) :
    (evaluate type source).run b = (.error (faultError b.limits fault), { b with state := s }) := by
  have looked : (get : Sandboxed World (Sandbox World)).run b = (.ok b, b) := rfl
  rw [evaluate, Sandboxed.run_bind looked, run]
  rfl

/-- After the deadline was noticed, functions of the host are called only while time stands still for a handler of
it, by functions that are no scripts, or on the way out of what the deadline has ended. A script that ends then gives
the error of the deadline, unless its result is that of a function that is no script, or its error that of another
limit or changed on the way out. -/
theorem evaluate_late (type : ScalarType) (source : String) (b : Sandbox World) :
    (∀ caller id args s, .start caller (.apply (.ref (.host id)) args) s ∈ scriptEvents scriptName source b.state →
      s.clock.expired = true → s.clock.paused = true ∨ caller = .native ∨ s.IsLeaving) ∧
    ∀ body r s', readScript scriptName source = .ok body →
      Eval.run (callScript scriptName body) b.state = some (r, s') →
      s'.clock.expired = true →
        s'.clock.paused = true ∨ ((evaluate type source).run b).1 = .error (faultError b.limits .deadline) ∨
        (∃ own s, .stop .native own s ∈ scriptEvents scriptName source b.state ∧
          s.clock = s'.clock ∧ Passed own r) ∨
        ∃ e, r = .error e ∧ (e.IsExhaustion ∨ IsLeftLate (scriptEvents scriptName source b.state)) := by
  refine ⟨fun caller id args s mem expired => ?_, fun body r s' read ran expired => ?_⟩
  · rcases scriptEvents_permits mem with native | (running | paused) | ⟨-, leaving⟩
    · exact .inr (.inl native)
    · rw [expired] at running
      cases running
    · exact .inl paused
    · exact .inr (.inr leaving)
  · cases (scriptEvents_sound read).2 r s' ran with
    | early inTime =>
      rcases inTime with running | paused
      · rw [expired] at running
        cases running
      · exact .inl paused
    | native own s mem same passed => exact .inr (.inr (.inl ⟨own, s, mem, same, passed⟩))
    | deadline is => exact .inr (.inl (by rw [evaluate_of_fault (runScript_of_deadline read ran is)]))
    | exhausted is => exact .inr (.inr (.inr ⟨_, rfl, .inl is⟩))
    | left late => exact .inr (.inr (.inr ⟨_, rfl, .inr late⟩))

/-- A host that counts the calls of its function `log`, and gives a script ten microseconds. -/
def countingSandbox : Sandbox Nat :=
  let s := State.initial 0
  let limit := Duration.ofMicros 10
  { limits := { deadline := some limit }
    state :=
      { s with
        tables := s.tables.modify s.globals fun t => t.setText "log" (.ref (.host 0))
        hosts := #[{ name := "log", run := fun _ calls => (.ok .nil, calls + 1) }]
        clock := { deadline := some (stepsIn limit) } } }

/-- A script that leaves its result to a call whose handler sees the deadline. -/
def outlivingScript : String := "return xpcall(function() while true do end end, function() log() end)"

/-- A call of a function of the host after the deadline was noticed. -/
def isLateCall : Event World → Bool
  | .start _ (.apply (.ref (.host _)) _) s => s.clock.expired
  | _ => false

def isFalse : Except RunError (Option Scalar) → Bool
  | .ok (some (.boolean false)) => true
  | _ => false

theorem exists_of_isLateCall {e : Event World} (late : isLateCall e = true) :
    ∃ caller id args s, e = .start caller (.apply (.ref (.host id)) args) s ∧ s.clock.expired = true := by
  unfold isLateCall at late
  split at late
  · exact ⟨_, _, _, _, rfl, late⟩
  · cases late

theorem eq_of_isFalse {r : Except RunError (Option Scalar)} (no : isFalse r = true) : r = .ok (some (.boolean false)) := by
  unfold isFalse at no
  split at no
  · rfl
  · cases no

/-- The deadline is outlived by a call from the handler of its error, and by the result of the call that has caught it. -/
theorem evaluate_late_handler :
    (∃ caller id args s, s.clock.expired = true ∧
      .start caller (.apply (.ref (.host id)) args) s ∈ scriptEvents scriptName outlivingScript countingSandbox.state) ∧
    ∃ b', (evaluate .boolean outlivingScript).run countingSandbox = (.ok (some (.boolean false)), b') ∧
      b'.state.clock.expired = true ∧ b'.state.world = 1 := by
  constructor
  · have late : (scriptEvents scriptName outlivingScript countingSandbox.state).any isLateCall = true := by decide +kernel
    obtain ⟨e, mem, late⟩ := List.any_eq_true.mp late
    obtain ⟨caller, id, args, s, rfl, expired⟩ := exists_of_isLateCall late
    exact ⟨caller, id, args, s, expired, mem⟩
  · have ends : isFalse ((evaluate .boolean outlivingScript).run countingSandbox).1 = true ∧
        ((evaluate .boolean outlivingScript).run countingSandbox).2.state.clock.expired = true ∧
        ((evaluate .boolean outlivingScript).run countingSandbox).2.state.world = 1 := by decide +kernel
    generalize (evaluate .boolean outlivingScript).run countingSandbox = out at ends ⊢
    obtain ⟨r, b'⟩ := out
    obtain rfl : r = .ok (some (.boolean false)) := eq_of_isFalse ends.1
    exact ⟨b', rfl, ends.2⟩

end ScriptTools.Sandbox
