import ScriptTools.HostError

/-!
What a policy allows. The decision depends on which entries its lists have and not on how they stand there, and it turns
from a refusal only when an entry is added or a denied kind is taken away.
-/

namespace ScriptTools.Policy

variable {p q : Policy} {r : Request}

theorem check_eq_ok : p.check r = .ok () ↔ r.access ∉ p.denied ∧ p.listed r = true := by
  rw [check]
  split
  · simp_all
  · split <;> simp_all

theorem require_eq_ok : p.require r = .ok () ↔ p.check r = .ok () := by
  rw [require]
  cases p.check r <;> simp

/-- The allowed entries for a kind of access. -/
def entries (p : Policy) : Access → List String
  | .fsRead => p.fsRead
  | .fsWrite => p.fsWrite
  | .netHttp => p.netHttp

/-- Whether the entries of a kind cover what is asked for; without a scope any entry does. -/
theorem listed_iff : p.listed r = true ↔ ∃ e ∈ p.entries r.access, ∀ scope, r.scope = some scope →
    (if r.access = .netHttp then hostCovers e scope else patternCovers e scope) = true := by
  obtain ⟨access, _ | scope⟩ := r <;> cases access <;>
    simp [listed, pathAllowed, hostAllowed, entries, List.eq_nil_iff_forall_not_mem]

/-- What is allowed stays allowed when entries are added and denied kinds are taken away. -/
theorem check_mono (more : ∀ access, p.entries access ⊆ q.entries access) (fewer : q.denied ⊆ p.denied)
    (allowed : p.check r = .ok ()) : q.check r = .ok () := by
  rw [check_eq_ok, listed_iff] at allowed ⊢
  obtain ⟨free, e, member, covers⟩ := allowed
  exact ⟨fun denied => free (fewer denied), e, more _ member, covers⟩

/-- Policies with the same entries and the same denied kinds decide alike. -/
theorem check_congr (same : ∀ access e, e ∈ p.entries access ↔ e ∈ q.entries access)
    (denied : ∀ access, access ∈ p.denied ↔ access ∈ q.denied) (r : Request) : p.check r = q.check r := by
  have kinds : p.denied.contains r.access = q.denied.contains r.access := by
    rw [Bool.eq_iff_iff, List.contains_iff_mem, List.contains_iff_mem, denied]
  have lists : p.listed r = q.listed r := by
    rw [Bool.eq_iff_iff, listed_iff, listed_iff]
    simp only [same]
  rw [check, check, kinds, lists]

end ScriptTools.Policy
