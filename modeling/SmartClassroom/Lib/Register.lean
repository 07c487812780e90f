/-
  A register of reservations.

  Under a number somebody enters a room for a span of time; an entry may be
  struck out by whom it belongs to or by a manager.

  * `Step a b b'`: the action `a` leads from the register `b` to `b'`.
  * `Sound`: no two entries in force collide, and none is empty; every run keeps
    it (`Runs.sound`).
  * An entry stays under its number (`Runs.entry`), and one that is not in force
    any more was struck out by somebody entitled to (`Runs.exists_strike`).
-/
import Mathlib.Logic.Function.Basic
import Mathlib.Logic.Relation
import Mathlib.Order.Defs.LinearOrder

structure RegisterEntry (Room Who Time : Type) where
  room : Room
  who : Who
  from_ : Time
  until_ : Time
  inForce : Bool

/-- What is entered under each number. -/
abbrev Register (Id Room Who Time : Type) := Id → Option (RegisterEntry Room Who Time)

namespace Register

open Relation

variable {Id Room Who Time : Type}

inductive Action (Id Room Who Time : Type) where
  | enter (id : Id) (room : Room) (who : Who) (from_ until_ : Time)
  /-- `manager`: whether `who` may strike out the entries of others. -/
  | strike (id : Id) (who : Who) (manager : Bool)

/-- The entry, struck out. -/
def struck (e : RegisterEntry Room Who Time) : RegisterEntry Room Who Time := { e with inForce := false }

section
variable [LT Time]

/-- Both hold the room at the same time. -/
def Collide (e e' : RegisterEntry Room Who Time) : Prop :=
  e.inForce = true ∧ e'.inForce = true ∧ e.room = e'.room ∧ e.from_ < e'.until_ ∧ e'.from_ < e.until_

theorem Collide.symm {e e' : RegisterEntry Room Who Time} (h : Collide e e') : Collide e' e :=
  ⟨h.2.1, h.1, h.2.2.1.symm, h.2.2.2.2, h.2.2.2.1⟩

theorem not_collide_struck (e e' : RegisterEntry Room Who Time) : ¬Collide (struck e) e' :=
  fun h => Bool.false_ne_true h.1

/-- No two entries in force collide, and none is empty. -/
structure Sound (b : Register Id Room Who Time) : Prop where
  apart : ∀ id id' e e', id ≠ id' → b id = some e → b id' = some e' → ¬Collide e e'
  nonempty : ∀ id e, b id = some e → e.from_ < e.until_

variable [DecidableEq Id]

/-- The steps of a register. -/
def Step : Action Id Room Who Time → Register Id Room Who Time → Register Id Room Who Time → Prop
  | .enter id room who from_ until_, b, b' =>
    b id = none ∧ from_ < until_ ∧
      (∀ id' e, b id' = some e → ¬Collide ⟨room, who, from_, until_, true⟩ e) ∧
      b' = Function.update b id (some ⟨room, who, from_, until_, true⟩)
  | .strike id who manager, b, b' =>
    ∃ e, b id = some e ∧ e.inForce = true ∧ (manager = true ∨ e.who = who) ∧
      b' = Function.update b id (some (struck e))

variable {a : Action Id Room Who Time} {b b' : Register Id Room Who Time}

theorem Sound.update (hb : Sound b) {id : Id} {e : RegisterEntry Room Who Time} (hlt : e.from_ < e.until_)
    (hfree : ∀ id' e', b id' = some e' → id' ≠ id → ¬Collide e e') :
    Sound (Function.update b id (some e)) := by
  refine ⟨fun i j x y hij hx hy => ?_, fun i x hx => ?_⟩
  · simp only [Function.update_apply] at hx hy
    split_ifs at hx hy with hi hj hj
    · exact absurd (hi.trans hj.symm) hij
    · exact Option.some.inj hx ▸ hfree j y hy hj
    · exact fun hc => hfree i x hx hi (Option.some.inj hy ▸ hc.symm)
    · exact hb.apart i j x y hij hx hy
  · simp only [Function.update_apply] at hx
    split_ifs at hx with hi
    · exact Option.some.inj hx ▸ hlt
    · exact hb.nonempty i x hx

/-- Every step keeps the entries apart. -/
theorem Step.sound (hb : Sound b) (h : Step a b b') : Sound b' := by
  cases a with
  | enter id room who from_ until_ =>
    obtain ⟨-, hlt, hfree, rfl⟩ := h
    exact hb.update hlt fun id' e he _ => hfree id' e he
  | strike id who manager =>
    obtain ⟨e, he, -, -, rfl⟩ := h
    exact hb.update (e := struck e) (hb.nonempty id e he) fun _ e' _ _ => not_collide_struck e e'

/-- What stays of an entry: all but that it is in force. -/
def Keeps (e e' : RegisterEntry Room Who Time) : Prop := e' = e ∨ e' = struck e

omit [LT Time] in
theorem Keeps.trans {e e' e'' : RegisterEntry Room Who Time} (h : Keeps e e') (h' : Keeps e' e'') : Keeps e e'' := by
  rcases h with rfl | rfl
  · exact h'
  · exact .inr (h'.elim id id)

theorem Step.entry (h : Step a b b') {id : Id} {e : RegisterEntry Room Who Time} (he : b id = some e) :
    ∃ e', b' id = some e' ∧ Keeps e e' := by
  cases a with
  | enter id' room who from_ until_ =>
    obtain ⟨hnew, -, -, rfl⟩ := h
    have hne : id ≠ id' := fun h => by simp [h, hnew] at he
    exact ⟨e, by simp [hne, he], .inl rfl⟩
  | strike id' who manager =>
    obtain ⟨e', he', -, -, rfl⟩ := h
    by_cases hid : id = id'
    · subst hid
      obtain rfl := Option.some.inj (he.symm.trans he')
      exact ⟨struck e, by simp, .inr rfl⟩
    · exact ⟨e, by simp [hid, he], .inl rfl⟩

/-! ## Runs -/

/-- A run of actions in `P`. -/
abbrev Runs (P : Action Id Room Who Time → Prop) : Register Id Room Who Time → Register Id Room Who Time → Prop :=
  ReflTransGen fun b b' => ∃ a, P a ∧ Step a b b'

variable {P : Action Id Room Who Time → Prop}

theorem Runs.sound (h : Runs P b b') (hb : Sound b) : Sound b' := by
  induction h with
  | refl => exact hb
  | tail _ hst ih =>
    obtain ⟨a, -, hst⟩ := hst
    exact hst.sound ih

/-- No entry is lost, and none comes into force again. -/
theorem Runs.entry (h : Runs P b b') {id : Id} {e : RegisterEntry Room Who Time} (he : b id = some e) :
    ∃ e', b' id = some e' ∧ Keeps e e' := by
  induction h with
  | refl => exact ⟨e, he, .inl rfl⟩
  | tail _ hst ih =>
    obtain ⟨a, -, hst⟩ := hst
    obtain ⟨e₁, he₁, hk⟩ := ih
    obtain ⟨e₂, he₂, hk₂⟩ := hst.entry he₁
    exact ⟨e₂, he₂, hk.trans hk₂⟩

/-- An entry that is not in force any more was struck out, by whom it belongs to
    or by a manager. -/
theorem Runs.exists_strike (h : Runs P b b') {id : Id} {e e' : RegisterEntry Room Who Time} (he : b id = some e)
    (hforce : e.inForce = true) (he' : b' id = some e') (hout : e'.inForce = false) :
    ∃ who manager, P (.strike id who manager) ∧ (manager = true ∨ e.who = who) := by
  induction h generalizing e' with
  | refl =>
    obtain rfl := Option.some.inj (he.symm.trans he')
    simp [hforce] at hout
  | @tail b₁ b₂ h hst ih =>
    obtain ⟨a, ha, hst⟩ := hst
    obtain ⟨e₁, he₁, hk⟩ := Runs.entry h he
    by_cases hout₁ : e₁.inForce = false
    · exact ih he₁ hout₁
    obtain rfl : e₁ = e := hk.resolve_right fun h => hout₁ (h ▸ rfl)
    cases a with
    | enter id' room who from_ until_ =>
      obtain ⟨hnew, -, -, rfl⟩ := hst
      have hne : id ≠ id' := fun h => by simp [h, hnew] at he₁
      rw [Function.update_of_ne hne, he₁] at he'
      obtain rfl := Option.some.inj he'
      exact absurd hout hout₁
    | strike id' who manager =>
      obtain ⟨x, hx, -, hmay, rfl⟩ := hst
      by_cases hid : id = id'
      · subst hid
        obtain rfl := Option.some.inj (he₁.symm.trans hx)
        exact ⟨who, manager, ha, hmay⟩
      · rw [Function.update_of_ne hid, he₁] at he'
        obtain rfl := Option.some.inj he'
        exact absurd hout hout₁

end

end Register
