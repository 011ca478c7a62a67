import Mathlib.Data.List.Perm.Basic

/-!
Results in sequence.
-/

namespace ScriptTools

theorem bind_eq_ok {ε α β : Type} {x : Except ε α} {f : α → Except ε β} {b : β} :
    x >>= f = .ok b ↔ ∃ a, x = .ok a ∧ f a = .ok b := by
  cases x with
  | error e => simp [bind, Except.bind]
  | ok a => simp [bind, Except.bind]

theorem map_eq_ok {ε α β : Type} {x : Except ε α} {f : α → β} {b : β} :
    x.map f = .ok b ↔ ∃ a, x = .ok a ∧ f a = b := by
  cases x <;> simp [Except.map]

theorem exists_of_isOk {ε α : Type} {x : Except ε α} (ok : x.isOk = true) : ∃ a, x = .ok a := by
  cases x with
  | error e => cases ok
  | ok a => exact ⟨a, rfl⟩

/-! Lists of results -/

section Lists

variable {ε α β : Type}

theorem mapM_eq_ok_iff {f : α → Except ε β} {as : List α} {bs : List β} :
    as.mapM f = .ok bs ↔ List.Forall₂ (fun a b => f a = .ok b) as bs := by
  induction as generalizing bs with
  | nil => cases bs <;> simp [pure, Except.pure]
  | cons a as ih =>
    rw [List.mapM_cons, bind_eq_ok]
    simp only [bind_eq_ok, ih]
    cases bs with
    | nil => simp [pure, Except.pure]
    | cons b bs => simp [pure, Except.pure, and_comm]

theorem mapM_eq_some_iff {f : α → Option β} {as : List α} {bs : List β} :
    as.mapM f = some bs ↔ List.Forall₂ (fun a b => f a = some b) as bs := by
  induction as generalizing bs with
  | nil => cases bs <;> simp
  | cons a as ih => cases bs <;> simp [List.mapM_cons, Option.bind_eq_some_iff, ih, and_comm]

theorem exists_of_forall₂ {R : α → β → Prop} {as : List α} {bs : List β} (each : List.Forall₂ R as bs) :
    ∀ a ∈ as, ∃ b, R a b := by
  induction each with
  | nil => nofun
  | cons here _ ih => exact List.forall_mem_cons.mpr ⟨⟨_, here⟩, ih⟩

theorem exists_mem_of_forall₂ {R : α → β → Prop} {as : List α} {bs : List β} (each : List.Forall₂ R as bs) :
    ∀ b ∈ bs, ∃ a ∈ as, R a b := by
  induction each with
  | nil => nofun
  | cons here _ ih =>
    refine List.forall_mem_cons.mpr ⟨⟨_, .head _, here⟩, fun b member => ?_⟩
    obtain ⟨a, inside, related⟩ := ih b member
    exact ⟨a, .tail _ inside, related⟩

theorem forall₂_zip {γ : Type} {R : α → β → Prop} {S : α → γ → Prop} {as : List α} {bs : List β} {cs : List γ}
    (first : List.Forall₂ R as bs) (second : List.Forall₂ S as cs) :
    List.Forall₂ (fun a p => R a p.1 ∧ S a p.2) as (bs.zip cs) := by
  induction first generalizing cs with
  | nil => exact .nil
  | cons here _ ih =>
    cases second with
    | cons there rest => exact .cons ⟨here, there⟩ (ih rest)

/-- What is related element by element stays so in another order. -/
theorem forall₂_perm {R : α → β → Prop} {as : List α} {bs bs' : List β} (each : List.Forall₂ R as bs)
    (perm : bs'.Perm bs) : ∃ as', as'.Perm as ∧ List.Forall₂ R as' bs' := by
  obtain ⟨as', each', perm'⟩ := List.perm_comp_forall₂ perm each.flip
  exact ⟨as', perm', each'.flip⟩

theorem mapM_cons_eq_error {f : α → Except ε β} {a : α} {as : List α} {e : ε} :
    (a :: as).mapM f = .error e ↔ f a = .error e ∨ (∃ b, f a = .ok b) ∧ as.mapM f = .error e := by
  rw [List.mapM_cons]
  cases f a <;> cases as.mapM f <;> simp [bind, Except.bind, pure, Except.pure]

/-- A list of results fails with the error of its first failure. -/
theorem mapM_eq_error_iff {f : α → Except ε β} {as : List α} {e : ε} :
    as.mapM f = .error e ↔
      ∃ before a after, as = before ++ a :: after ∧ (∀ b ∈ before, ∃ c, f b = .ok c) ∧ f a = .error e := by
  induction as with
  | nil => simp [pure, Except.pure]
  | cons a as ih =>
    rw [mapM_cons_eq_error, ih]
    constructor
    · rintro (fails | ⟨fine, before, b, after, rfl, others, fails⟩)
      · exact ⟨[], a, as, rfl, by simp, fails⟩
      · exact ⟨a :: before, b, after, rfl, List.forall_mem_cons.mpr ⟨fine, others⟩, fails⟩
    · rintro ⟨before, b, after, split, fine, fails⟩
      cases before with
      | nil =>
        cases split
        exact .inl fails
      | cons c before =>
        cases split
        obtain ⟨here, others⟩ := List.forall_mem_cons.mp fine
        exact .inr ⟨here, before, b, after, rfl, others, fails⟩

/-- A list of results fails when one of them does. -/
theorem exists_mapM_eq_error_iff {f : α → Except ε β} {as : List α} :
    (∃ e, as.mapM f = .error e) ↔ ∃ a ∈ as, ∃ e, f a = .error e := by
  constructor
  · rintro ⟨e, fails⟩
    obtain ⟨before, a, after, rfl, _, here⟩ := mapM_eq_error_iff.mp fails
    exact ⟨a, by simp, e, here⟩
  · rintro ⟨a, member, e, here⟩
    cases run : as.mapM f with
    | error e' => exact ⟨e', rfl⟩
    | ok bs =>
      obtain ⟨b, ok⟩ := exists_of_forall₂ (mapM_eq_ok_iff.mp run) a member
      cases here.symm.trans ok

theorem mapM_congr {f g : α → Except ε β} {as : List α} (each : ∀ a ∈ as, f a = g a) : as.mapM f = as.mapM g := by
  induction as with
  | nil => rfl
  | cons a as ih =>
    obtain ⟨first, others⟩ := List.forall_mem_cons.mp each
    rw [List.mapM_cons, List.mapM_cons, first, ih others]

/-- Two ways to go through a list that differ at one place, where both fail alike or none does. -/
theorem mapM_replaced {f g : α → Except ε β} {before after : List α} {a : α} (front : ∀ b ∈ before, f b = g b)
    (back : ∀ b ∈ after, f b = g b) (here : ∀ e, f a = .error e ↔ g a = .error e) :
    (∃ e, (before ++ a :: after).mapM f = .error e ∧ (before ++ a :: after).mapM g = .error e) ∨
      ∃ xs x y ys, before.mapM f = .ok xs ∧ f a = .ok x ∧ g a = .ok y ∧ after.mapM f = .ok ys ∧
        (before ++ a :: after).mapM f = .ok (xs ++ x :: ys) ∧ (before ++ a :: after).mapM g = .ok (xs ++ y :: ys) := by
  rw [List.mapM_append, List.mapM_append, List.mapM_cons, List.mapM_cons, ← mapM_congr front, ← mapM_congr back]
  cases before.mapM f with
  | error e => exact .inl ⟨e, rfl, rfl⟩
  | ok xs =>
    cases first : f a with
    | error e =>
      rw [(here e).mp first]
      exact .inl ⟨e, rfl, rfl⟩
    | ok x =>
      cases second : g a with
      | error e => cases first.symm.trans ((here e).mpr second)
      | ok y =>
        cases after.mapM f with
        | error e => exact .inl ⟨e, rfl, rfl⟩
        | ok ys => exact .inr ⟨xs, x, y, ys, rfl, rfl, rfl, rfl, rfl, rfl⟩

theorem forM_eq_ok {f : α → Except ε Unit} {as : List α} (each : ∀ a ∈ as, f a = .ok ()) : as.forM f = .ok () := by
  induction as with
  | nil => rfl
  | cons a as ih =>
    obtain ⟨here, others⟩ := List.forall_mem_cons.mp each
    exact bind_eq_ok.mpr ⟨(), here, ih others⟩

end Lists

end ScriptTools
