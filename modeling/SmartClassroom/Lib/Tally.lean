/-
  Sums along a run.

  `Tally V C f s s' x`: a run from `s` to `s'` whose steps are charged `x`
  together, by `f`.  `Tally.inv` relates the sum to the state by what each step
  adds to both; `tally` computes it for an executed run.
-/
import Mathlib.Algebra.Group.Defs
import SmartClassroom.Lib.Interleave

namespace Txn

variable {T N A : Type} {D : Db T N} {J ε α : Type} [LinearOrder T] [AddMonoid A]

section
variable (V : Service D J ε α) (C : Sys D J ε α → Label J T N → Prop)
  (f : Sys D J ε α → Label J T N → A)

inductive Tally (s : Sys D J ε α) : Sys D J ε α → A → Prop where
  | refl : Tally s s 0
  | tail {s₁ s₂ : Sys D J ε α} {x : A} {l : Label J T N} (h : Tally s s₁ x) (hl : C s₁ l)
      (hst : step V s₁ l = some s₂) : Tally s s₂ (x + f s₁ l)

end

variable {V : Service D J ε α} {C : Sys D J ε α → Label J T N → Prop}
  {f : Sys D J ε α → Label J T N → A} {s s' : Sys D J ε α}

theorem Tally.reach {x : A} (h : Tally V C f s s' x) : Reach V C s s' := by
  induction h with
  | refl => exact .refl
  | tail _ hl hst ih => exact ih.tail ⟨_, hl, hst⟩

/-- A relation between the state and the sum that every step keeps. -/
theorem Tally.inv {P : Sys D J ε α → A → Prop} (h0 : P s 0)
    (hstep : ∀ s₁ x l s₂, Reach V C s s₁ → C s₁ l → Step V s₁ l s₂ → P s₁ x → P s₂ (x + f s₁ l))
    {x : A} (h : Tally V C f s s' x) : P s' x := by
  induction h with
  | refl => exact h0
  | tail h hl hst ih => exact hstep _ _ _ _ h.reach hl (step_cases hst) ih

/-! ## Executed runs -/

section
variable (V C f) [∀ s l, Decidable (C s l)]

/-- `stepIf` with the sum. -/
def addStep (l : Label J T N) (p : Sys D J ε α × A) : Option (Sys D J ε α × A) :=
  (stepIf V C p.1 l).map (·, p.2 + f p.1 l)

/-- `drive` with the sum. -/
def addDrive (i : ℕ) (n : N) : ℕ → Sys D J ε α × A → Sys D J ε α × A
  | 0, p => p
  | count + 1, p =>
    match (p.1.reqs[i]?.bind (Req.next n)).bind fun a => addStep V C f (.act i a) p with
    | none => p
    | some p' => addDrive i n count p'

/-- `play` with the sum. -/
def tally (p : Sys D J ε α × A) : List (Turn J T N) → Option (Sys D J ε α × A)
  | [] => some p
  | .arrive j :: ts => (addStep V C f (.arrive j) p).bind (tally · ts)
  | .tick t :: ts => (addStep V C f (.tick t) p).bind (tally · ts)
  | .steps i n count :: ts => tally (addDrive V C f i n count p) ts

variable {V C f} {p p' : Sys D J ε α × A}

theorem Tally.of_addStep {l : Label J T N} (h : Tally V C f s p.1 p.2)
    (hp : addStep V C f l p = some p') : Tally V C f s p'.1 p'.2 := by
  obtain ⟨s', hs', rfl⟩ := Option.map_eq_some_iff.mp hp
  unfold stepIf at hs'
  split_ifs at hs' with hC
  exact h.tail hC hs'

theorem Tally.of_addDrive (i : ℕ) (n : N) : ∀ (count : ℕ) (p : Sys D J ε α × A),
    Tally V C f s p.1 p.2 →
      Tally V C f s (addDrive V C f i n count p).1 (addDrive V C f i n count p).2
  | 0, _, h => h
  | count + 1, p, h => by
    unfold addDrive
    split
    · exact h
    · rename_i p' hp'
      obtain ⟨a, -, ha⟩ := Option.bind_eq_some_iff.mp hp'
      exact Tally.of_addDrive i n count p' (h.of_addStep ha)

/-- The sum of an executed run. -/
theorem Tally.of_tally : ∀ {ts : List (Turn J T N)} {p : Sys D J ε α × A},
    Tally V C f s p.1 p.2 → tally V C f p ts = some p' → Tally V C f s p'.1 p'.2
  | [], _, h, hp => Option.some.inj hp ▸ h
  | t :: ts, p, h, hp => by
    cases t with
    | arrive j | tick t =>
      obtain ⟨p₁, h1, h2⟩ := Option.bind_eq_some_iff.mp hp
      exact Tally.of_tally (h.of_addStep h1) h2
    | steps i n count => exact Tally.of_tally (Tally.of_addDrive i n count p h) hp

end

end Txn
