/-
  What a program leaves that runs alone.

  * `Prog.Post`: what holds of the answer and of the state after it, if the run
    succeeds; `Prog.Total`: the same, and the run succeeds.  Both have a rule
    for each way to build a program.
  * `Prog.Within P`: every statement satisfies `P`, and nothing is committed.
  * `Prog.Closes`: the program commits only right before its answer, so a
    request that fails leaves the committed store as it was
    (`Closes.serve_error`).
  * `Prog.Only P`: every statement satisfies `P`, commits or not; a property of
    the store that these statements keep is kept by the request
    (`Only.serve`).
-/
import SmartClassroom.Lib.Prog

namespace Txn

namespace Prog

variable {T N : Type} {D : Db T N} {ε α β : Type}

/-! ## Postconditions -/

section
variable (E : Env T N)

/-- If the run of `p` from `c` on succeeds, `Q` holds of its answer and of the
    state after it. -/
def Post (p : Prog D ε α) (c : Ctx D) (Q : α → Ctx D → Prop) : Prop :=
  ∀ a c', p.run E c = (.ok a, c') → Q a c'

end

section
variable {E : Env T N} {c : Ctx D} {Q Q' : α → Ctx D → Prop}

theorem Post.mono {p : Prog D ε α} (h : p.Post E c Q) (hQ : ∀ a c', Q a c' → Q' a c') :
    p.Post E c Q' :=
  fun a c' hr => hQ a c' (h a c' hr)

theorem post_pure {a : α} (h : Q a c) : (pure a : Prog D ε α).Post E c Q := by
  rintro _ _ ⟨⟩
  exact h

theorem post_throw (e : ε) : (throw e : Prog D ε α).Post E c Q := by
  rintro _ _ ⟨⟩

theorem post_lift {x : Except ε α} (h : ∀ a, x = .ok a → Q a c) : (lift x : Prog D ε α).Post E c Q := by
  cases x with
  | error e => exact post_throw e
  | ok a => exact post_pure (h a rfl)

theorem post_query {s : D.Stmt} {Q : D.Res s → Ctx D → Prop}
    (h : Q (D.exec s E.began c.aux c.view c.view).2.2 (c.after E.began s)) :
    (query s : Prog D ε _).Post E c Q := by
  rintro _ _ ⟨⟩
  exact h

theorem post_clock {Q : T → Ctx D → Prop} (h : Q (E.now c.reads) { c with reads := c.reads + 1 }) :
    (clock : Prog D ε T).Post E c Q := by
  rintro _ _ ⟨⟩
  exact h

theorem post_commit {k : Prog D ε α} (h : k.Post E { c with db := c.view, pend := [] } Q) :
    (commit k).Post E c Q := h

theorem Post.bind {p : Prog D ε α} {f : α → Prog D ε β} {Q : β → Ctx D → Prop}
    (h : p.Post E c fun a c' => (f a).Post E c' Q) : (p >>= f).Post E c Q := by
  intro b c' hb
  obtain ⟨a, c₁, h1, h2⟩ := (run_bind_ok E).1 hb
  exact h a c₁ h1 b c' h2

/-- A handler that raises again. -/
theorem Post.tryCatch {p : Prog D ε α} {g : ε → Prog D ε α} (h : p.Post E c Q)
    (hg : ∀ e c, (g e).Post E c fun _ _ => False) : (tryCatch p g).Post E c Q := by
  intro a c' hr
  rw [run_tryCatch] at hr
  rcases hp : p.run E c with ⟨_ | a', c₁⟩
  · rw [hp] at hr
    exact absurd hr fun hr => hg _ _ _ _ hr
  · rw [hp] at hr
    obtain ⟨rfl, rfl⟩ : a' = a ∧ c₁ = c' := by simpa using hr
    exact h _ _ hp

end

/-! ## Runs that succeed -/

section
variable (E : Env T N)

/-- The run of `p` from `c` on succeeds, and `Q` holds of its answer and of the
    state after it. -/
def Total (p : Prog D ε α) (c : Ctx D) (Q : α → Ctx D → Prop) : Prop :=
  ∃ a c', p.run E c = (.ok a, c') ∧ Q a c'

end

section
variable {E : Env T N} {c : Ctx D} {Q Q' : α → Ctx D → Prop}

theorem Total.post {p : Prog D ε α} (h : p.Total E c Q) : p.Post E c Q := by
  obtain ⟨a, c', hrun, hQ⟩ := h
  intro b c'' hb
  obtain ⟨rfl, rfl⟩ : a = b ∧ c' = c'' := by simpa using hrun.symm.trans hb
  exact hQ

theorem Total.mono {p : Prog D ε α} (h : p.Total E c Q) (hQ : ∀ a c', Q a c' → Q' a c') :
    p.Total E c Q' := by
  obtain ⟨a, c', hrun, h⟩ := h
  exact ⟨a, c', hrun, hQ a c' h⟩

theorem Post.total {p : Prog D ε α} (h : p.Post E c Q) {a : α} {c' : Ctx D} (hrun : p.run E c = (.ok a, c')) :
    p.Total E c Q := ⟨a, c', hrun, h a c' hrun⟩

theorem total_pure {a : α} (h : Q a c) : (pure a : Prog D ε α).Total E c Q := ⟨a, c, rfl, h⟩

theorem total_query {s : D.Stmt} {Q : D.Res s → Ctx D → Prop}
    (h : Q (D.exec s E.began c.aux c.view c.view).2.2 (c.after E.began s)) :
    (query s : Prog D ε _).Total E c Q := ⟨_, _, rfl, h⟩

theorem total_commit {k : Prog D ε α} (h : k.Total E { c with db := c.view, pend := [] } Q) :
    (commit k).Total E c Q := h

theorem Total.bind {p : Prog D ε α} {f : α → Prog D ε β} {Q : β → Ctx D → Prop}
    (h : p.Total E c fun a c' => (f a).Total E c' Q) : (p >>= f).Total E c Q := by
  obtain ⟨a, c₁, h1, b, c₂, h2, hQ⟩ := h
  exact ⟨b, c₂, (run_bind_ok E).2 ⟨a, c₁, h1, h2⟩, hQ⟩

end

/-! ## Programs that commit last -/

/-- It commits only right before its answer. -/
def Closes : Prog D ε α → Prop
  | .ret _ | .raise _ => True
  | .now k => ∀ t, (k t).Closes
  | .draw k => ∀ n, (k n).Closes
  | .stmt _ k => ∀ r, (k r).Closes
  | .commit k => ∃ a, k = .ret a
  | .rollback k => k.Closes

/-- Every statement satisfies `P`, and nothing is committed. -/
def Within (P : D.Stmt → Prop) : Prog D ε α → Prop
  | .ret _ | .raise _ => True
  | .now k => ∀ t, (k t).Within P
  | .draw k => ∀ n, (k n).Within P
  | .stmt s k => P s ∧ ∀ r, (k r).Within P
  | .commit _ => False
  | .rollback k => k.Within P

section
variable {P P' : D.Stmt → Prop}

theorem Uses.within {p : Prog D ε α} (hp : p.Uses P) (hP : ∀ s, P s → P' s) : p.Within P' := by
  induction p with
  | ret a => trivial
  | raise e => trivial
  | now k ih => exact fun t => ih t (hp t)
  | draw k ih => exact fun n => ih n (hp n)
  | stmt s k ih => exact ⟨hP s hp.1, fun r => ih r (hp.2 r)⟩
  | commit k => exact absurd hp id
  | rollback k => exact absurd hp id

theorem Uses.mono {p : Prog D ε α} (hp : p.Uses P) (hP : ∀ s, P s → P' s) : p.Uses P' := by
  induction p with
  | ret a => trivial
  | raise e => trivial
  | now k ih => exact fun t => ih t (hp t)
  | draw k ih => exact fun n => ih n (hp n)
  | stmt s k ih => exact ⟨hP s hp.1, fun r => ih r (hp.2 r)⟩
  | commit k => exact absurd hp id
  | rollback k => exact absurd hp id

theorem Within.bind {p : Prog D ε α} {f : α → Prog D ε β} (hp : p.Within P) (hf : ∀ a, (f a).Within P) :
    (p >>= f).Within P := by
  change (p.bind f).Within P
  induction p with
  | ret a => exact hf a
  | raise e => trivial
  | now k ih => exact fun t => ih t (hp t)
  | draw k ih => exact fun n => ih n (hp n)
  | stmt s k ih => exact ⟨hp.1, fun r => ih r (hp.2 r)⟩
  | commit k => exact absurd hp id
  | rollback k ih => exact ih hp

theorem Within.tryCatch {p : Prog D ε α} {g : ε → Prog D ε α} (hp : p.Within P)
    (hg : ∀ e, (g e).Within P) : (tryCatch p g).Within P := by
  change (p.tryCatch g).Within P
  induction p with
  | ret a => trivial
  | raise e => exact hg e
  | now k ih => exact fun t => ih t (hp t)
  | draw k ih => exact fun n => ih n (hp n)
  | stmt s k ih => exact ⟨hp.1, fun r => ih r (hp.2 r)⟩
  | commit k => exact absurd hp id
  | rollback k ih => exact ih hp

/-- A program that commits nothing keeps other rules, too, if they ask no more of
    its statements and exceptions. -/
theorem Within.ok {I : D.Store → Prop} {W W' : Rules D ε} {Q : List (Ev D) → α → Prop}
    (hstmt : ∀ h s, W.stmt h s → W'.stmt h s) (hraise : ∀ h e, W.raise h e → W'.raise h e)
    {p : Prog D ε α} (hp : p.Within P) : ∀ {h}, p.Ok I W Q h → p.Ok I W' Q h := by
  induction p with
  | ret a => exact id
  | raise e => exact hraise _ e
  | now k ih => exact fun hok t => ih t (hp t) (hok t)
  | draw k ih => exact fun hok n => ih n (hp n) (hok n)
  | stmt s k ih =>
    exact fun hok => ⟨hstmt _ s hok.1, fun b aux snap cur h1 h2 => ih _ (hp.2 _) (hok.2 b aux snap cur h1 h2)⟩
  | commit k => exact absurd hp id
  | rollback k ih => exact fun hok => ih hp hok

theorem Within.bind_closes {p : Prog D ε α} {f : α → Prog D ε β} (hp : p.Within P)
    (hf : ∀ a, (f a).Closes) : (p >>= f).Closes := by
  change (p.bind f).Closes
  induction p with
  | ret a => exact hf a
  | raise e => trivial
  | now k ih => exact fun t => ih t (hp t)
  | draw k ih => exact fun n => ih n (hp n)
  | stmt s k ih => exact fun r => ih r (hp.2 r)
  | commit k => exact absurd hp id
  | rollback k ih => exact ih hp

theorem Uses.bind_closes {p : Prog D ε α} {f : α → Prog D ε β} (hp : p.Uses P)
    (hf : ∀ a, (f a).Closes) : (p >>= f).Closes :=
  (hp.within fun _ h => h).bind_closes hf

end

/-- A run that fails has committed nothing. -/
theorem Closes.db {E : Env T N} {p : Prog D ε α} (hp : p.Closes) : ∀ {c : Ctx D} {e : ε},
    (p.run E c).1 = .error e → (p.run E c).2.db = c.db := by
  induction p with
  | ret a => exact fun h => nomatch h
  | raise e => exact fun _ => rfl
  | now k ih => exact fun {c _} h => ih _ (hp _) (c := { c with reads := c.reads + 1 }) h
  | draw k ih => exact fun {c _} h => ih _ (hp _) (c := { c with draws := c.draws + 1 }) h
  | stmt s k ih => exact fun {c _} h => ih _ (hp _) (c := c.after E.began s) h
  | commit k =>
    obtain ⟨a, rfl⟩ := hp
    exact fun h => nomatch h
  | rollback k ih => exact fun {c _} h => ih hp (c := { c with pend := [] }) h

theorem Closes.serve_error {E : Env T N} {p : Prog D ε α} (hp : p.Closes) {db : D.Store} {aux : D.Aux}
    {e : ε} (h : (serve E p db aux).1 = .error e) : (serve E p db aux).2.1 = db :=
  hp.db h

/-- What holds after the run holds of the store that the request leaves. -/
theorem Post.serve {E : Env T N} {p : Prog D ε α} {db : D.Store} {aux : D.Aux}
    {Q : α → Ctx D → Prop} (h : p.Post E ⟨db, [], aux, 0, 0⟩ Q) {a : α}
    (ha : (serve E p db aux).1 = .ok a) : ∃ c, Q a c ∧ c.db = (serve E p db aux).2.1 ∧
      c.aux = (serve E p db aux).2.2 :=
  ⟨_, h a _ (Prod.ext ha rfl), rfl, rfl⟩

/-! ## What no rollback undoes -/

/-- A relation that every statement keeps. -/
theorem run_aux {E : Env T N} {R : D.Aux → D.Aux → Prop} (hrefl : ∀ q, R q q)
    (htrans : ∀ q₁ q₂ q₃, R q₁ q₂ → R q₂ q₃ → R q₁ q₃)
    (hR : ∀ s b q snap cur, R q (D.exec s b q snap cur).1) (p : Prog D ε α) : ∀ c : Ctx D,
    R c.aux (p.run E c).2.aux := by
  induction p with
  | ret a => exact fun c => hrefl _
  | raise e => exact fun c => hrefl _
  | now k ih => exact fun c => ih _ { c with reads := c.reads + 1 }
  | draw k ih => exact fun c => ih _ { c with draws := c.draws + 1 }
  | stmt s k ih => exact fun c => htrans _ _ _ (hR s _ _ _ _) (ih _ (c.after E.began s))
  | commit k ih => exact fun c => ih { c with db := c.view, pend := [] }
  | rollback k ih => exact fun c => ih { c with pend := [] }

theorem serve_bind_pure {E : Env T N} (p : Prog D ε α) (f : α → β) (db : D.Store) (aux : D.Aux) :
    serve E (p >>= fun a => pure (f a)) db aux = ((serve E p db aux).1.map f, (serve E p db aux).2) := by
  simp only [serve, run_bind]
  rcases p.run E ⟨db, [], aux, 0, 0⟩ with ⟨_ | a, c⟩ <;> rfl

/-! ## Properties of the store -/

/-- Every statement satisfies `P`. -/
def Only (P : D.Stmt → Prop) : Prog D ε α → Prop
  | .ret _ | .raise _ => True
  | .now k => ∀ t, (k t).Only P
  | .draw k => ∀ n, (k n).Only P
  | .stmt s k => P s ∧ ∀ r, (k r).Only P
  | .commit k | .rollback k => k.Only P

section
variable {P : D.Stmt → Prop}

theorem Within.only {p : Prog D ε α} (hp : p.Within P) : p.Only P := by
  induction p with
  | ret a => trivial
  | raise e => trivial
  | now k ih => exact fun t => ih t (hp t)
  | draw k ih => exact fun n => ih n (hp n)
  | stmt s k ih => exact ⟨hp.1, fun r => ih r (hp.2 r)⟩
  | commit k => exact absurd hp id
  | rollback k ih => exact ih hp

theorem Only.bind {p : Prog D ε α} {f : α → Prog D ε β} (hp : p.Only P) (hf : ∀ a, (f a).Only P) :
    (p >>= f).Only P := by
  change (p.bind f).Only P
  induction p with
  | ret a => exact hf a
  | raise e => trivial
  | now k ih => exact fun t => ih t (hp t)
  | draw k ih => exact fun n => ih n (hp n)
  | stmt s k ih => exact ⟨hp.1, fun r => ih r (hp.2 r)⟩
  | commit k ih => exact ih hp
  | rollback k ih => exact ih hp

/-- A program of statements in `P` keeps what these and its commits keep. -/
theorem Only.ok {I : D.Store → Prop} {W : Rules D ε} {K : List (Ev D) → Prop}
    (hnow : ∀ h t, K h → K (.now t :: h)) (hdraw : ∀ h n, K h → K (.draw n :: h))
    (hstmt : ∀ h s, K h → P s → W.stmt h s ∧ ∀ b aux snap cur, K (.stmt s b aux snap cur :: h))
    (hcommit : ∀ h, K h → W.commit h ∧ K (.commit :: h)) (hrollback : ∀ h, K h → K (.rollback :: h))
    (hraise : ∀ h e, K h → W.raise h e) {p : Prog D ε α} (hp : p.Only P) :
    ∀ {h}, K h → p.Ok I W (fun h _ => K h) h := by
  induction p with
  | ret a => exact id
  | raise e => exact hraise _ e
  | now k ih => exact fun hK t => ih t (hp t) (hnow _ t hK)
  | draw k ih => exact fun hK n => ih n (hp n) (hdraw _ n hK)
  | stmt s k ih =>
    exact fun hK => ⟨(hstmt _ s hK hp.1).1,
      fun b aux snap cur _ _ => ih _ (hp.2 _) ((hstmt _ s hK hp.1).2 b aux snap cur)⟩
  | commit k ih => exact fun hK => ⟨(hcommit _ hK).1, ih hp (hcommit _ hK).2⟩
  | rollback k ih => exact fun hK => ih hp (hrollback _ hK)

/-- A property that the statements keep holds of what the transaction sees and
    of what is committed. -/
theorem Only.run {E : Env T N} {I : D.Store → Prop}
    (hP : ∀ s b aux st, P s → I st → I (D.applyAll st (D.exec s b aux st st).2.1)) {p : Prog D ε α}
    (hp : p.Only P) : ∀ {c : Ctx D}, I c.view → I c.db →
      I (p.run E c).2.view ∧ I (p.run E c).2.db := by
  induction p with
  | ret a => exact fun hv hd => ⟨hv, hd⟩
  | raise e => exact fun hv hd => ⟨hv, hd⟩
  | now k ih => exact fun {c} hv hd => ih _ (hp _) (c := { c with reads := c.reads + 1 }) hv hd
  | draw k ih => exact fun {c} hv hd => ih _ (hp _) (c := { c with draws := c.draws + 1 }) hv hd
  | stmt s k ih =>
    intro c hv hd
    refine ih _ (hp.2 _) (c := c.after E.began s) ?_ hd
    rw [Ctx.view, Ctx.after, Db.applyAll_append]
    exact hP s _ _ _ hp.1 hv
  | commit k ih => exact fun {c} hv _ => ih hp (c := { c with db := c.view, pend := [] }) hv hv
  | rollback k ih => exact fun {c} _ hd => ih hp (c := { c with pend := [] }) hd hd

/-- A program without a commit keeps it of what the transaction sees. -/
theorem Uses.view {E : Env T N} {I : D.Store → Prop}
    (hP : ∀ s b aux st, P s → I st → I (D.applyAll st (D.exec s b aux st st).2.1)) {p : Prog D ε α}
    (hp : p.Uses P) : ∀ {c : Ctx D}, I c.view → I (p.run E c).2.view := by
  induction p with
  | ret a => exact id
  | raise e => exact id
  | now k ih => exact fun {c} hv => ih _ (hp _) (c := { c with reads := c.reads + 1 }) hv
  | draw k ih => exact fun {c} hv => ih _ (hp _) (c := { c with draws := c.draws + 1 }) hv
  | stmt s k ih =>
    intro c hv
    refine ih _ (hp.2 _) (c := c.after E.began s) ?_
    rw [Ctx.view, Ctx.after, Db.applyAll_append]
    exact hP s _ _ _ hp.1 hv
  | commit k => exact absurd hp id
  | rollback k => exact absurd hp id

theorem Only.serve {E : Env T N} {I : D.Store → Prop}
    (hP : ∀ s b aux st, P s → I st → I (D.applyAll st (D.exec s b aux st st).2.1)) {p : Prog D ε α}
    (hp : p.Only P) {db : D.Store} {aux : D.Aux} (hd : I db) : I (serve E p db aux).2.1 :=
  (hp.run hP (c := ⟨db, [], aux, 0, 0⟩) hd hd).2

end

end Prog

end Txn
