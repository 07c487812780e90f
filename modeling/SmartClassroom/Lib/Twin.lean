/-
  Two runs side by side.

  `Twin E R R' Q F p p'`: under the same inputs, and from states that `R`
  relates, `p` and `p'` end alike, both with answers that `Q` relates or both
  with exceptions that `F` relates, in states that `R'` relates.  There is a
  rule for each construct of programs.
-/
import SmartClassroom.Lib.Prog

namespace Txn

variable {T N : Type} {D : Db T N} {ε α β : Type}

/-- Two runs that end alike. -/
inductive Ends (Q : α → α → Prop) (F : ε → ε → Prop) (R : Ctx D → Ctx D → Prop) :
    Except ε α × Ctx D → Except ε α × Ctx D → Prop where
  | ok {a a' : α} {c c' : Ctx D} (ha : Q a a') (hc : R c c') : Ends Q F R (.ok a, c) (.ok a', c')
  | error {e e' : ε} {c c' : Ctx D} (he : F e e') (hc : R c c') :
    Ends Q F R (.error e, c) (.error e', c')

/-- What the runs end with is the same, if `Q` and `F` are equality. -/
theorem Ends.fst_eq {R : Ctx D → Ctx D → Prop} {x x' : Except ε α × Ctx D}
    (h : Ends (· = ·) (· = ·) R x x') : x.1 = x'.1 := by
  cases h with
  | ok ha => exact congrArg Except.ok ha
  | error he => exact congrArg Except.error he

theorem Ends.snd {Q : α → α → Prop} {F : ε → ε → Prop} {R : Ctx D → Ctx D → Prop}
    {x x' : Except ε α × Ctx D} (h : Ends Q F R x x') : R x.2 x'.2 := by
  cases h <;> assumption

def Twin (E : Env T N) (R R' : Ctx D → Ctx D → Prop) (Q : α → α → Prop) (F : ε → ε → Prop)
    (p p' : Prog D ε α) : Prop :=
  ∀ c c', R c c' → Ends Q F R' (p.run E c) (p'.run E c')

section
variable {E : Env T N} {R R₁ R' S S' : Ctx D → Ctx D → Prop} {Q Q' : α → α → Prop} {F : ε → ε → Prop}

namespace Twin

theorem mono {F' : ε → ε → Prop} {p p' : Prog D ε α} (h : Twin E R R' Q F p p')
    (hS : ∀ c c', S c c' → R c c') (hS' : ∀ c c', R' c c' → S' c c')
    (hQ : ∀ a a', Q a a' → Q' a a') (hF : ∀ e e', F e e' → F' e e') : Twin E S S' Q' F' p p' := by
  intro c c' hc
  have he := h c c' (hS c c' hc)
  revert he
  generalize p.run E c = x
  generalize p'.run E c' = x'
  rintro (⟨ha, hc⟩ | ⟨he, hc⟩)
  · exact .ok (hQ _ _ ha) (hS' _ _ hc)
  · exact .error (hF _ _ he) (hS' _ _ hc)

theorem pure {a a' : α} (h : Q a a') :
    Twin E R R Q F (Pure.pure a : Prog D ε α) (Pure.pure a') :=
  fun _ _ hc => .ok h hc

theorem throw {e e' : ε} (h : F e e') :
    Twin E R R Q F (MonadExcept.throw e : Prog D ε α) (MonadExcept.throw e') :=
  fun _ _ hc => .error h hc

/-- The same pure computation in both. -/
theorem lift {x : Except ε α} (hQ : ∀ a, x = .ok a → Q a a) (hF : ∀ e, F e e) :
    Twin E R R Q F (Prog.lift x) (Prog.lift x) := by
  cases x with
  | ok a => exact .pure (hQ a rfl)
  | error e => exact .throw (hF e)

/-- One after the other; what an exception leaves behind is related as well. -/
theorem bind {Q' : β → β → Prop} {p p' : Prog D ε α} {f f' : α → Prog D ε β}
    (hp : Twin E R R₁ Q F p p') (hf : ∀ a a', Q a a' → Twin E R₁ R' Q' F (f a) (f' a'))
    (hR : ∀ c c', R₁ c c' → R' c c') : Twin E R R' Q' F (p >>= f) (p' >>= f') := by
  intro c c' hc
  rw [Prog.run_bind, Prog.run_bind]
  have he := hp c c' hc
  revert he
  generalize p.run E c = x
  generalize p'.run E c' = x'
  rintro (⟨ha, hc⟩ | ⟨he, hc⟩)
  · exact hf _ _ ha _ _ hc
  · exact .error he (hR _ _ hc)

/-- The handlers answer related exceptions alike. -/
theorem tryCatch {F' : ε → ε → Prop} {p p' : Prog D ε α} {h h' : ε → Prog D ε α}
    (hp : Twin E R R' Q F p p') (hh : ∀ e e', F e e' → Twin E R' R' Q F' (h e) (h' e')) :
    Twin E R R' Q F' (MonadExcept.tryCatch p h) (MonadExcept.tryCatch p' h') := by
  intro c c' hc
  have hrun := Prog.run_tryCatch E p h c
  have hrun' := Prog.run_tryCatch E p' h' c'
  have he := hp c c' hc
  revert hrun hrun' he
  generalize p.run E c = x
  generalize p'.run E c' = x'
  rintro hrun hrun' (⟨ha, hc⟩ | ⟨he, hc⟩)
  · exact hrun ▸ hrun' ▸ .ok ha hc
  · exact hrun ▸ hrun' ▸ hh _ _ he _ _ hc

/-- Related runs have read the clock equally often. -/
theorem clock (hR : ∀ c c', R c c' → c.reads = c'.reads ∧
      R { c with reads := c.reads + 1 } { c' with reads := c'.reads + 1 }) :
    Twin E R R (· = ·) F (Prog.clock : Prog D ε T) Prog.clock := by
  intro c c' hc
  obtain ⟨hreads, hc⟩ := hR c c' hc
  exact .ok (congrArg E.now hreads) hc

theorem draw {p p' : N → Prog D ε α} (hR : ∀ c c', R c c' → c.draws = c'.draws ∧
      R { c with draws := c.draws + 1 } { c' with draws := c'.draws + 1 })
    (hp : ∀ n, Twin E R R' Q F (p (E.nonce n)) (p' (E.nonce n))) :
    Twin E R R' Q F (.draw p) (.draw p') := by
  intro c c' hc
  obtain ⟨hdraws, hc⟩ := hR c c' hc
  have hrun : (Prog.draw p').run E c' =
      (p' (E.nonce c.draws)).run E { c' with draws := c'.draws + 1 } := by
    rw [congrArg E.nonce hdraws]
    rfl
  rw [hrun]
  exact hp _ _ _ hc

theorem query {s : D.Stmt} {Q : D.Res s → D.Res s → Prop} (h : ∀ c c', R c c' →
      Q (D.exec s E.began c.aux c.view c.view).2.2 (D.exec s E.began c'.aux c'.view c'.view).2.2 ∧
        R' (c.after E.began s) (c'.after E.began s)) :
    Twin E R R' Q F (Prog.query s : Prog D ε (D.Res s)) (Prog.query s) :=
  fun c c' hc => .ok (h c c' hc).1 (h c c' hc).2

theorem commit {p p' : Prog D ε α} (hR : ∀ c c', R c c' →
      R₁ { c with db := c.view, pend := [] } { c' with db := c'.view, pend := [] })
    (hp : Twin E R₁ R' Q F p p') : Twin E R R' Q F (.commit p) (.commit p') :=
  fun c c' hc => hp _ _ (hR c c' hc)

/-- Two whole requests. -/
theorem serve {p p' : Prog D ε α} (h : Twin E R R' (· = ·) (· = ·) p p') {db db' : D.Store}
    {aux aux' : D.Aux} (hR : R ⟨db, [], aux, 0, 0⟩ ⟨db', [], aux', 0, 0⟩) :
    (serve E p db aux).1 = (serve E p' db' aux').1 ∧
      ∃ c c', R' c c' ∧ (serve E p db aux).2.1 = c.db ∧ (serve E p' db' aux').2.1 = c'.db :=
  ⟨(h _ _ hR).fst_eq, _, _, (h _ _ hR).snd, rfl, rfl⟩

end Twin

end

end Txn
