/-
  Progress of interleaved requests.

  A statement waits for transactions that hold a row it wants.  The locks are
  taken in order (`Ranked`) if a statement waits only for writes of its own
  rank, and its transaction holds writes of lower ranks only.

  * A request that waits does so for one that can go on, or that waits at a
    statement of a higher rank: some request can go on (`Ranked.exists_step`).
  * A step takes a request to a smaller rest of its program: without arrivals,
    every run ends (`wellFounded_acts`).
  * Hence all requests under way come to their ends, whoever steps first
    (`Ranked.completes`).
-/
import Mathlib.Logic.Hydra
import SmartClassroom.Lib.Interleave

namespace Txn

open Relation

variable {T N : Type} {D : Db T N} {J ε α : Type}

/-- The requests under way step. -/
def Acts : Sys D J ε α → Label J T N → Prop
  | _, .act .. => True
  | _, _ => False

/-- The requests under way step, and the database fails none of them. -/
def Going : Sys D J ε α → Label J T N → Prop
  | _, .act _ .fail => False
  | _, .act .. => True
  | _, _ => False

theorem Going.acts {s : Sys D J ε α} {l : Label J T N} (h : Going s l) : Acts s l := by
  cases l with
  | act => trivial
  | arrive | tick => exact h

/-! ## Every run ends -/

/-- What is left of a program after one event. -/
inductive Prog.Rest : Prog D ε α → Prog D ε α → Prop
  | now (k : T → Prog D ε α) (t : T) : Rest (k t) (.now k)
  | draw (k : N → Prog D ε α) (n : N) : Rest (k n) (.draw k)
  | stmt (s : D.Stmt) (k : D.Res s → Prog D ε α) (a : D.Res s) : Rest (k a) (.stmt s k)
  | commit (k : Prog D ε α) : Rest k (.commit k)
  | rollback (k : Prog D ε α) : Rest k (.rollback k)

/-- Programs are trees without infinite branches. -/
theorem Prog.wellFounded_rest : WellFounded (Prog.Rest (D := D) (ε := ε) (α := α)) := by
  refine ⟨fun p => ?_⟩
  induction p with
  | ret a | raise e => exact ⟨_, fun q h => by cases h⟩
  | now k ih => exact ⟨_, fun q h => by cases h with | now _ t => exact ih t⟩
  | draw k ih => exact ⟨_, fun q h => by cases h with | draw _ n => exact ih n⟩
  | stmt s k ih => exact ⟨_, fun q h => by cases h with | stmt _ _ a => exact ih a⟩
  | commit k ih => exact ⟨_, fun q h => by cases h with | commit => exact ih⟩
  | rollback k ih => exact ⟨_, fun q h => by cases h with | rollback => exact ih⟩

/-- A step starts a statement, goes on in the program, or ends it. -/
theorem Move.rest {lost : ε} {s : Sys D J ε α} {i : ℕ} {r r' : Req D J ε α} {db' aux'}
    (h : Move lost s i r r' db' aux') :
    (r'.prog = r.prog ∧ r.running = none ∧ r'.running.isSome) ∨ r'.prog.Rest r.prog ∨ r'.ended = true := by
  cases h with
  | start _ hn => exact .inl ⟨rfl, hn, rfl⟩
  | finish hp => exact .inr (.inl (hp ▸ .stmt _ _ _))
  | now hp => exact .inr (.inl (hp ▸ .now _ _))
  | draw n hp => exact .inr (.inl (hp ▸ .draw _ n))
  | commit hp => exact .inr (.inl (hp ▸ .commit _))
  | rollback hp => exact .inr (.inl (hp ▸ .rollback _))
  | fail => exact .inr (.inr rfl)

/-- A request and what one step makes of it. -/
def Req.Less (r' r : Req D J ε α) : Prop := ∃ lost s i db aux, Move lost s i r r' db aux

theorem Req.acc_of_ended {r : Req D J ε α} (h : r.ended = true) : Acc Req.Less r := by
  refine ⟨_, fun r' hr' => ?_⟩
  obtain ⟨_, _, _, _, _, hm⟩ := hr'
  simp [hm.later.1] at h

theorem Req.wellFounded_less : WellFounded (Req.Less (D := D) (J := J) (ε := ε) (α := α)) := by
  refine ⟨fun r => ?_⟩
  generalize hp : r.prog = p
  induction p using Prog.wellFounded_rest.induction generalizing r with
  | _ p ih =>
    subst hp
    -- a running statement is finished next
    have hrun : ∀ q : Req D J ε α, q.prog = r.prog → q.running.isSome → Acc Req.Less q := by
      intro q hq hsome
      refine ⟨_, fun q' hq' => ?_⟩
      obtain ⟨_, _, _, _, _, hm⟩ := hq'
      rcases hm.rest with ⟨-, hnone, -⟩ | hrest | hend
      · simp [hnone] at hsome
      · exact ih _ (hq ▸ hrest) q' rfl
      · exact acc_of_ended hend
    refine ⟨_, fun r' hr' => ?_⟩
    obtain ⟨_, _, _, _, _, hm⟩ := hr'
    rcases hm.rest with ⟨hsame, -, hsome⟩ | hrest | hend
    · exact hrun r' hsame hsome
    · exact ih _ hrest r' rfl
    · exact acc_of_ended hend

/-- Replacing one element of a list by a smaller one. -/
theorem cutExpand_set {A : Type} {r : A → A → Prop} {as : List A} {i : ℕ} {a a' : A} (ha : as[i]? = some a)
    (h : r a' a) : CutExpand r (as.set i a' : Multiset A) (as : Multiset A) := by
  refine ⟨{a'}, a, by simpa using h, ?_⟩
  obtain ⟨hi, rfl⟩ := List.getElem?_eq_some_iff.mp ha
  have hset : (as.set i a').Perm (a' :: as.eraseIdx i) := List.set_perm_cons_eraseIdx hi a'
  have hget : as.Perm (as[i] :: as.eraseIdx i) := (List.getElem_cons_eraseIdx_perm hi).symm
  rw [Multiset.coe_eq_coe.mpr hset, Multiset.coe_eq_coe.mpr hget]
  simp only [← Multiset.cons_coe, ← Multiset.singleton_add]
  ac_rfl

section
variable [LinearOrder T]

/-- **Without arrivals, every run ends.** -/
theorem wellFounded_acts (V : Service D J ε α) :
    WellFounded fun s' s : Sys D J ε α => ∃ l, Acts s l ∧ step V s l = some s' := by
  have hwf := InvImage.wf (fun s : Sys D J ε α => (Multiset.ofList s.reqs)) Req.wellFounded_less.cutExpand
  refine Subrelation.wf (fun {s' s} h => ?_) hwf
  obtain ⟨l, hl, hst⟩ := h
  cases step_cases hst with
  | arrive | tick => exact hl.elim
  | act hr _ hm => exact cutExpand_set hr ⟨_, _, _, _, _, hm⟩

end

/-! ## No request waits forever -/

/-- The ranks of statements and writes: a statement waits for writes of its rank,
    while its transaction holds writes of lower ranks. -/
structure Ranked (W : J → Rules D ε) (top : ℕ) (stmtRank : D.Stmt → ℕ) (writeRank : D.Write → ℕ) : Prop where
  waits : ∀ {st aux snap cur ws}, D.blocks st aux snap cur ws = true → ∃ w ∈ ws, writeRank w = stmtRank st
  holds : ∀ {j h st}, (W j).stmt h st → ∀ w ∈ pendOf h, writeRank w < stmtRank st
  le_top : ∀ st, stmtRank st ≤ top

theorem Sys.exists_of_blocked {s : Sys D J ε α} {i : ℕ} {ws : List D.Write} {st : D.Stmt} {snap : D.Store}
    (h : s.blocked i ws st snap = true) : ∃ (j : ℕ) (q : Req D J ε α), s.reqs[j]? = some q ∧
      D.blocks st s.aux (D.applyAll snap ws) (D.applyAll s.db ws) q.pend = true := by
  obtain ⟨q, hq, hb⟩ := List.any_eq_true.mp h
  obtain ⟨j, hj⟩ := List.mem_iff_getElem?.mp (List.mem_of_mem_eraseIdx hq)
  exact ⟨j, q, hj, hb⟩

/-- A request that has not ended can step, unless its statement waits. -/
theorem Req.move_or_blocked [Nonempty N] (lost : ε) (s : Sys D J ε α) (i : ℕ) {r : Req D J ε α}
    (hr : r.ended = false) : (∃ a m, Going s (.act (T := T) (J := J) i a) ∧ r.move lost s i a = some m) ∨
      ∃ st k snap, r.prog = .stmt st k ∧ s.blocked i (pendOf r.log) st snap = true := by
  cases hp : r.prog with
  | ret | raise => simp [Req.ended, hp] at hr
  | now k => exact .inl ⟨.now, _, trivial, by rw [Req.move, hp]⟩
  | draw k => exact .inl ⟨.draw (Classical.arbitrary N), _, trivial, by rw [Req.move, hp]⟩
  | commit k => exact .inl ⟨.commit, _, trivial, by rw [Req.move, hp]⟩
  | rollback k => exact .inl ⟨.rollback, _, trivial, by rw [Req.move, hp]⟩
  | stmt st k =>
    cases hrun : r.running with
    | none => exact .inl ⟨.start, _, trivial, by rw [Req.move, hp, hrun]⟩
    | some snap =>
      by_cases hb : s.blocked i (pendOf r.log) st snap = true
      · exact .inr ⟨st, k, snap, rfl, hb⟩
      · exact .inl ⟨.finish, _, trivial, by rw [Req.move, hp, hrun]; exact if_neg hb⟩

section
variable [LinearOrder T] [Nonempty N] {V : Service D J ε α} {I : D.Store → Prop} {W : J → Rules D ε}
  {Q : J → List (Ev D) → α → Prop} {E : D.Store → D.Store → Prop} {top : ℕ} {stmtRank : D.Stmt → ℕ}
  {writeRank : D.Write → ℕ} {s s' : Sys D J ε α}

/-- **No deadlock**: while a request has not ended, some request can go on. -/
theorem Ranked.exists_step (hR : Ranked W top stmtRank writeRank) (hs : s.Sound I W Q E)
    (hne : ∃ r ∈ s.reqs, r.ended = false) : ∃ l s', Going s l ∧ step V s l = some s' := by
  by_contra hstuck
  have waits : ∀ (i : ℕ) r, s.reqs[i]? = some r → r.ended = false →
      ∃ st k snap, r.prog = .stmt st k ∧ s.blocked i (pendOf r.log) st snap = true := by
    intro i r hr he
    refine (Req.move_or_blocked V.lost s i he).resolve_left fun ⟨a, m, hgo, hm⟩ => hstuck ?_
    exact ⟨.act i a, ⟨m.2.1, m.2.2, s.clock, s.reqs.set i m.1⟩, hgo, by simp [step, hr, hm]⟩
  -- from a waiting request to the one it waits for, the rank grows
  have climbs : ∀ n, ∃ (i : ℕ) (r : _) (st : _) (k : _) (snap : _), s.reqs[i]? = some r ∧ r.prog = .stmt st k ∧
      s.blocked i (pendOf r.log) st snap = true ∧ n ≤ stmtRank st := by
    intro n
    induction n with
    | zero =>
      obtain ⟨r, hr, he⟩ := hne
      obtain ⟨i, hi⟩ := List.mem_iff_getElem?.mp hr
      obtain ⟨st, k, snap, hp, hb⟩ := waits i r hi he
      exact ⟨i, r, st, k, snap, hi, hp, hb, Nat.zero_le _⟩
    | succ n ih =>
      obtain ⟨i, r, st, k, snap, -, -, hb, hn⟩ := ih
      obtain ⟨j, q, hq, hb⟩ := Sys.exists_of_blocked hb
      obtain ⟨w, hw, hrank⟩ := hR.waits hb
      have he : q.ended = false := Bool.eq_false_iff.mpr fun he => by simp [Req.pend, he] at hw
      obtain ⟨st', k', snap', hp, hb'⟩ := waits j q hq he
      have hok := (hs.req j q hq).ok
      rw [hp] at hok
      have hlt := hR.holds hok.1 w (Req.pend_of_not_ended he ▸ hw)
      exact ⟨j, q, st', k', snap', hq, hp, hb', by omega⟩
  obtain ⟨_, _, st, _, _, -, -, -, hn⟩ := climbs (top + 1)
  have := hR.le_top st
  omega

/-- **All requests under way come to their ends.** -/
theorem Ranked.completes (hR : Ranked W top stmtRank writeRank) (hV : Keeps V I W Q) (hE : Grows E)
    (hs : s.Sound I W Q E) : ∃ s', Reach V Going s s' ∧ ∀ r ∈ s'.reqs, r.ended = true := by
  induction s using (wellFounded_acts V).induction with
  | _ s ih =>
    by_cases hne : ∃ r ∈ s.reqs, r.ended = false
    · obtain ⟨l, s₁, hl, hst⟩ := hR.exists_step (V := V) hs hne
      obtain ⟨s', hreach, hend⟩ := ih s₁ ⟨l, hl.acts, hst⟩ ((step_cases hst).sound hV hE hs)
      exact ⟨s', ReflTransGen.head ⟨l, hl, hst⟩ hreach, hend⟩
    · exact ⟨s, .refl, fun r hr => by simpa using fun he => hne ⟨r, hr, he⟩⟩

end

end Txn
