import Mathlib
import ScriptTools.Config
import ScriptTools.Proofs.Result

/-!
The limits that settings describe, as an executor keeps them. Reading the settings leaves out a deadline of zero only;
a large limit of memory goes past a word, and a long deadline past what the clock can count.
-/

namespace ScriptTools

/-! Moments -/

namespace Instant

/-- The whole seconds of a reading. -/
def seconds (now : Instant) : Nat := now.nanos / 1000000000

theorem after?_isSome {now : Instant} {d : Duration} : (now.after? d).isSome = true ↔ now.nanos + d.nanos < horizon := by
  rw [after?, ofNanos?]
  split <;> simp [*]

theorem after?_ofSeconds_isSome {now : Instant} {n : Nat} :
    (now.after? (.ofSeconds n)).isSome = true ↔ now.seconds + n < 2 ^ 63 := by
  rw [after?_isSome, horizon, Duration.ofSeconds, seconds]
  change now.nanos + n * 1000000000 < 2 ^ 63 * 1000000000 ↔ _
  omega

end Instant

theorem Sandbox.start_eq {World : Type} {limits : Limits} {now : Instant} {d : Duration}
    (deadline : limits.deadline = some d) (w : World) :
    start limits now w = if (now.after? d).isSome then some (create limits w) else none := by
  have expiry : limits.expiry? now = (now.after? d).map some := by rw [Limits.expiry?, deadline]
  rw [start, expiry]
  cases now.after? d <;> rfl

namespace Executor

variable {x : Executor} {now : Instant}

/-- A run that has a sandbox is one that the clock has no part in. -/
theorem runAt_of_start (starts : ∀ w : World, Sandbox.start x.limits now w = some (Sandbox.create x.limits w)) :
    x.runAt now = x.run := by
  funext t bindings w
  rw [runAt, run, starts]

theorem runAt_of_no_start {t : Tool} {bindings : List Binding} {source : String} {w : World}
    (prepared : prepare t bindings = .ok source) (none : Sandbox.start x.limits now w = none) :
    x.runAt now t bindings w = (.error taskFault, w) := by
  rw [runAt, prepared]
  simp only [none]

end Executor

namespace Config

open Files (Disk DiskError Path)

/-! Settings -/

variable {c : Config} {toml : String} {directory : Path} {disk disk' : Disk} {x : Executor} {now : Instant}

theorem deadline_pos_of_load (accepted : load toml = .ok c) : 0 < c.deadlineSeconds := by
  have valid (d : Config) (valid : d.validate = .ok c) : 0 < c.deadlineSeconds := by
    unfold validate at valid
    split at valid
    · cases valid
    · split_ifs at valid with zero
      cases valid
      exact Nat.pos_of_ne_zero zero
  unfold load at accepted
  split at accepted
  · cases accepted
  · exact valid _ accepted

theorem limits_of_executor (built : c.executor directory disk = (disk', .ok x)) : x.limits = c.limits := by
  unfold executor at built
  split at built
  · cases built
  · obtain ⟨_, made⟩ := Prod.mk.inj built
    obtain ⟨files, _, rfl⟩ := map_eq_ok.mp made
    rfl

/-- There is an executor where the root can be made or is there. -/
theorem exists_executor {a : Files.Access} (named : c.root ≠ "")
    (made : Files.Access.create disk (Disk.place directory c.root) c.policy = (disk', .ok a)) :
    ∃ x, c.executor directory disk = (disk', .ok x) := by
  rw [executor, if_neg named, made]
  exact ⟨_, rfl⟩

theorem memory_eq (some : 0 < c.memoryMegabytes) :
    c.limits.memory = .some (c.memoryMegabytes * 2 ^ 20 % 2 ^ 64) := by
  have product : c.memoryMegabytes * 1024 * 1024 = c.memoryMegabytes * 2 ^ 20 := by omega
  have nonzero : c.memoryMegabytes ≠ 0 := by omega
  calc c.limits.memory = .some (c.memoryMegabytes * 1024 * 1024 % Nat.pow 2 64) := if_neg nonzero
    _ = .some (c.memoryMegabytes * 2 ^ 20 % 2 ^ 64) := congrArg (fun n => Option.some (n % 2 ^ 64)) product

theorem memory_exact_iff (some : 0 < c.memoryMegabytes) :
    c.limits.memory = .some (c.memoryMegabytes * 2 ^ 20) ↔ c.memoryMegabytes < 2 ^ 44 := by
  rw [memory_eq some, Option.some_inj, Nat.mod_eq_iff_lt (by decide)]
  omega

/-- What settings should come to in the executor made from them: the limit of memory is the product without a bound,
and at the moment of a call there is a sandbox, in which the call is run. -/
structure Keeps (c : Config) (x : Executor) (now : Instant) : Prop where
  memory : 0 < c.memoryMegabytes → x.limits.memory = some (c.memoryMegabytes * 2 ^ 20)
  starts : ∀ w : World, ∃ b, Sandbox.start x.limits now w = some b
  runs : x.runAt now = x.run

theorem start_eq (built : c.executor directory disk = (disk', .ok x)) (now : Instant) (w : World) :
    Sandbox.start x.limits now w =
      if now.seconds + c.deadlineSeconds < 2 ^ 63 then some (Sandbox.create x.limits w) else none := by
  have deadline : x.limits.deadline = some (.ofSeconds c.deadlineSeconds) := by rw [limits_of_executor built, limits]
  rw [Sandbox.start_eq deadline]
  exact if_congr Instant.after?_ofSeconds_isSome rfl rfl

/-- Settings come to what they should in exactly the range in which the product fits a word and the clock can count as
far as the deadline. Past a word, only the rest of the product is left of the limit; past what the clock can count,
every call that is in order breaks off. -/
theorem keeps_iff (accepted : load toml = .ok c) (built : c.executor directory disk = (disk', .ok x)) (now : Instant) :
    (c.Keeps x now ↔ c.memoryMegabytes < 2 ^ 44 ∧ now.seconds + c.deadlineSeconds < 2 ^ 63) ∧
      (0 < c.memoryMegabytes → x.limits.memory = some (c.memoryMegabytes * 2 ^ 20 % 2 ^ 64)) ∧ 0 < c.deadlineSeconds ∧
      (2 ^ 63 ≤ now.seconds + c.deadlineSeconds → ∀ t bindings source w, Executor.prepare t bindings = .ok source →
        x.runAt now t bindings w = (.error Executor.taskFault, w)) := by
  have same := limits_of_executor built
  have starts := start_eq built now
  refine ⟨⟨fun keeps => ⟨?_, ?_⟩, fun ⟨fits, counted⟩ => ?_⟩, fun some => same ▸ memory_eq some,
    deadline_pos_of_load accepted, fun long t bindings source w prepared => ?_⟩
  · by_contra large
    have some : 0 < c.memoryMegabytes := by omega
    exact large ((memory_exact_iff some).mp (same ▸ keeps.memory some))
  · by_contra long
    obtain ⟨b, here⟩ := keeps.starts {}
    rw [starts, if_neg long] at here
    cases here
  · have begins (w : World) : Sandbox.start x.limits now w = some (Sandbox.create x.limits w) := by
      rw [starts, if_pos counted]
    exact ⟨fun some => same ▸ (memory_exact_iff some).mpr fits, fun w => ⟨_, begins w⟩, Executor.runAt_of_start begins⟩
  · exact Executor.runAt_of_no_start prepared (by rw [starts, if_neg (by omega)])

/-- Settings with a root that can be made. -/
def rooted (deadline memory : Nat) : Config := { root := "r", deadlineSeconds := deadline, memoryMegabytes := memory }

theorem rooted_executor (deadline memory : Nat) : ∃ disk x, (rooted deadline memory).executor [] {} = (disk, .ok x) := by
  have created : Files.Access.create {} ["r"] .restrictive = ({ nodes := [(["r"], .dir)] }, .ok ⟨["r"], .restrictive⟩) := by
    cbv
  have place : Disk.place [] (rooted deadline memory).root = ["r"] := by
    change Disk.place [] "r" = ["r"]
    decide +kernel
  rw [← place] at created
  exact ⟨_, exists_executor (by decide : "r" ≠ "") created⟩

/-- The most memory and the longest deadline that are kept a second after the clock was started. -/
theorem keeps_iff_largest :
    ∃ c disk x, load "[sandbox]\nroot = 'r'\ndeadline_secs = 9223372036854775806\nmemory_limit_mb = 17592186044415" = .ok c ∧
      c.executor [] {} = (disk, .ok x) ∧ c.Keeps x ⟨1999999999, by decide⟩ := by
  have accepted : load "[sandbox]\nroot = 'r'\ndeadline_secs = 9223372036854775806\nmemory_limit_mb = 17592186044415" =
      .ok (rooted 9223372036854775806 17592186044415) := by decide +kernel
  obtain ⟨disk, x, built⟩ := rooted_executor 9223372036854775806 17592186044415
  exact ⟨_, disk, x, accepted, built, (keeps_iff accepted built _).1.mpr ⟨by decide, by decide⟩⟩

/-- One megabyte more leaves nothing of the limit, and the interpreter without one. -/
theorem not_keeps_largeMemory :
    ∃ c disk x, load "[sandbox]\nroot = 'r'\nmemory_limit_mb = 17592186044416" = .ok c ∧ c.executor [] {} = (disk, .ok x) ∧
      x.limits.memory = some 0 ∧ x.limits.cap? = none ∧ ∀ now, ¬ c.Keeps x now := by
  have accepted : load "[sandbox]\nroot = 'r'\nmemory_limit_mb = 17592186044416" =
      .ok (rooted 30 17592186044416) := by decide +kernel
  obtain ⟨disk, x, built⟩ := rooted_executor 30 17592186044416
  have memory : x.limits.memory = some 0 := by
    rw [limits_of_executor built]
    rfl
  refine ⟨_, disk, x, accepted, built, memory, by rw [Limits.cap?, memory]; rfl, fun now keeps => ?_⟩
  cases memory.symm.trans (keeps.memory (by decide))

end Config

end ScriptTools
