/-
  A database with more columns and statements.

  `Extension D` adds columns, writes and statements to `D`; `Extension.db` is
  the database with both.  A program over `D` is one over the extended database
  (`Prog.embed`), which leaves the added columns alone: served there it does
  what it does over `D` (`serve_embed`), and as a part of a longer transaction
  it sees what that has written to the columns of `D` (`run_embed`).
-/
import SmartClassroom.Lib.Alone

namespace Txn

variable {T N : Type} {D : Db T N} {ε α β : Type}

/-- `D` with further columns, statements and writes. -/
structure Extension (D : Db T N) where
  Cols : Type
  /-- what no rollback undoes, besides that of `D` -/
  Log : Type
  Write : Type
  Stmt : Type
  Res : Stmt → Type
  apply : D.Store × Cols → Write → D.Store × Cols
  exec : (s : Stmt) → T → D.Aux × Log → D.Store × Cols → D.Store × Cols →
    (D.Aux × Log) × List (D.Write ⊕ Write) × Res s
  /-- A statement waits for a transaction with a pending write, besides what it
      waits for in `D`. -/
  waitsFor : D.Stmt ⊕ Stmt → D.Aux × Log → D.Store × Cols → D.Store × Cols → D.Write ⊕ Write → Bool

namespace Extension

variable (X : Extension D)

def applyWrite (st : D.Store × X.Cols) : D.Write ⊕ X.Write → D.Store × X.Cols
  | .inl w => (D.apply st.1 w, st.2)
  | .inr w => X.apply st w

def execStmt : (s : D.Stmt ⊕ X.Stmt) → T → D.Aux × X.Log → D.Store × X.Cols → D.Store × X.Cols →
    (D.Aux × X.Log) × List (D.Write ⊕ X.Write) × Sum.elim D.Res X.Res s
  | .inl s, b, aux, snap, cur =>
    (((D.exec s b aux.1 snap.1 cur.1).1, aux.2), (D.exec s b aux.1 snap.1 cur.1).2.1.map .inl,
      (D.exec s b aux.1 snap.1 cur.1).2.2)
  | .inr s, b, aux, snap, cur => X.exec s b aux snap cur

def blocksOld : D.Stmt ⊕ X.Stmt → D.Aux × X.Log → D.Store × X.Cols → D.Store × X.Cols →
    List (D.Write ⊕ X.Write) → Bool
  | .inl s, aux, snap, cur, ws => D.blocks s aux.1 snap.1 cur.1 (ws.filterMap Sum.getLeft?)
  | .inr _, _, _, _, _ => false

theorem blocks_nil (s : D.Stmt ⊕ X.Stmt) (aux : D.Aux × X.Log) (snap cur : D.Store × X.Cols) :
    (X.blocksOld s aux snap cur [] || [].any (X.waitsFor s aux snap cur)) = false := by
  cases s with
  | inl s => simp [blocksOld, D.blocks_nil]
  | inr s => simp [blocksOld]

/-- The extended database. -/
@[reducible] def db : Db T N where
  Store := D.Store × X.Cols
  Aux := D.Aux × X.Log
  Write := D.Write ⊕ X.Write
  Stmt := D.Stmt ⊕ X.Stmt
  Res := Sum.elim D.Res X.Res
  apply := X.applyWrite
  exec := X.execStmt
  blocks s aux snap cur ws := X.blocksOld s aux snap cur ws || ws.any (X.waitsFor s aux snap cur)
  blocks_nil := X.blocks_nil

/-- Writes of `D` change the columns of `D` only. -/
theorem applyAll_inl (ws : List D.Write) : ∀ st : D.Store × X.Cols,
    X.db.applyAll st (ws.map .inl) = (D.applyAll st.1 ws, st.2) := by
  induction ws with
  | nil => exact fun _ => rfl
  | cons w ws ih => exact fun st => ih (D.apply st.1 w, st.2)

end Extension

namespace Prog

/-- A program over `D` in the extended database. -/
def embed (X : Extension D) : Prog D ε α → Prog X.db ε α
  | .ret a => .ret a
  | .raise e => .raise e
  | .now k => .now fun t => (k t).embed X
  | .draw k => .draw fun n => (k n).embed X
  | .stmt s k => .stmt (.inl s) fun r => (k r).embed X
  | .commit k => .commit (k.embed X)
  | .rollback k => .rollback (k.embed X)

variable {X : Extension D}

@[simp] theorem embed_pure (a : α) : (pure a : Prog D ε α).embed X = pure a := rfl

@[simp] theorem embed_throw (e : ε) : (throw e : Prog D ε α).embed X = throw e := rfl

theorem embed_bind (p : Prog D ε α) (f : α → Prog D ε β) :
    (p >>= f).embed X = p.embed X >>= fun a => (f a).embed X := by
  change (p.bind f).embed X = (p.embed X).bind fun a => (f a).embed X
  induction p with
  | ret a => rfl
  | raise e => rfl
  | now k ih => exact congrArg Prog.now (funext ih)
  | draw k ih => exact congrArg Prog.draw (funext ih)
  | stmt s k ih => exact congrArg (Prog.stmt (D := X.db) (.inl s)) (funext ih)
  | commit k ih => exact congrArg Prog.commit ih
  | rollback k ih => exact congrArg Prog.rollback ih

end Prog

/-! ## Runs -/

section
variable {X : Extension D}

/-- The point `c` of a run over `D`, in a transaction over the extended database
    that was begun on `d` and has written `ws` before. -/
def Ctx.within (c : Ctx D) (d : X.db.Store) (ws : List X.db.Write) (l : X.Log) : Ctx X.db :=
  ⟨d, ws ++ c.pend.map .inl, (c.aux, l), c.reads, c.draws⟩

theorem Ctx.view_within {c : Ctx D} {d : X.db.Store} {ws : List X.db.Write} {l : X.Log}
    (hd : (X.db.applyAll d ws).1 = c.db) :
    (c.within d ws l).view = (c.view, (X.db.applyAll d ws).2) := by
  rw [Ctx.view, Ctx.within, Db.applyAll_append, X.applyAll_inl, hd]
  rfl

theorem Ctx.after_within {c : Ctx D} {d : X.db.Store} {ws : List X.db.Write} {l : X.Log}
    (hd : (X.db.applyAll d ws).1 = c.db) (b : T) (s : D.Stmt) :
    (c.within d ws l).after b (.inl s : D.Stmt ⊕ X.Stmt) = (c.after b s).within d ws l := by
  unfold Ctx.after
  rw [Ctx.view_within hd]
  simp only [Ctx.within, Extension.execStmt, List.map_append, List.append_assoc]

/-- A part of a transaction: what the transaction has written before is there. -/
theorem run_embed {E : Env T N} {P : D.Stmt → Prop} {p : Prog D ε α} (hp : p.Uses P)
    {d : X.db.Store} {ws : List X.db.Write} {l : X.Log} : ∀ {c : Ctx D},
    (X.db.applyAll d ws).1 = c.db → (p.embed X).run E (c.within d ws l) =
      ((p.run E c).1, (p.run E c).2.within d ws l) := by
  induction p with
  | ret a => exact fun _ => rfl
  | raise e => exact fun _ => rfl
  | now k ih => exact fun {c} hd => ih _ (hp _) (c := { c with reads := c.reads + 1 }) hd
  | draw k ih => exact fun {c} hd => ih _ (hp _) (c := { c with draws := c.draws + 1 }) hd
  | stmt s k ih =>
    intro c hd
    show ((k _).embed X).run E ((c.within d ws l).after E.began (.inl s : D.Stmt ⊕ X.Stmt)) = _
    rw [Ctx.after_within hd, Ctx.view_within hd]
    exact ih _ (hp.2 _) hd
  | commit k => exact absurd hp id
  | rollback k => exact absurd hp id

/-- **Served in the extended database**, a program does what it does over `D`. -/
theorem serve_embed {E : Env T N} (p : Prog D ε α) (db : D.Store) (x : X.Cols) (aux : D.Aux)
    (l : X.Log) : serve E (p.embed X) (db, x) (aux, l) =
      ((serve E p db aux).1, ((serve E p db aux).2.1, x), ((serve E p db aux).2.2, l)) := by
  suffices h : ∀ c : Ctx D, (p.embed X).run E (c.within (c.db, x) [] l) =
      ((p.run E c).1, (p.run E c).2.within ((p.run E c).2.db, x) [] l) by
    have h0 := h ⟨db, [], aux, 0, 0⟩
    simp only [serve]
    rw [show (⟨(db, x), [], (aux, l), 0, 0⟩ : Ctx X.db) =
      (⟨db, [], aux, 0, 0⟩ : Ctx D).within (db, x) [] l from rfl, h0]
    rfl
  induction p with
  | ret a => exact fun _ => rfl
  | raise e => exact fun _ => rfl
  | now k ih => exact fun c => ih _ { c with reads := c.reads + 1 }
  | draw k ih => exact fun c => ih _ { c with draws := c.draws + 1 }
  | stmt s k ih =>
    intro c
    show ((k _).embed X).run E
      ((c.within (c.db, x) [] l).after E.began (.inl s : D.Stmt ⊕ X.Stmt)) = _
    rw [Ctx.after_within rfl, Ctx.view_within rfl]
    exact ih _ (c.after E.began s)
  | commit k ih =>
    intro c
    have hc := ih { c with db := c.view, pend := [] }
    show ((k.embed X).run E { c.within (c.db, x) [] l with
      db := (c.within (c.db, x) [] l).view, pend := [] }) = _
    rw [Ctx.view_within rfl]
    exact hc
  | rollback k ih => exact fun c => ih { c with pend := [] }

/-- What a program over `D` starts from inside a transaction at the point `c`. -/
def Ctx.inner (c : Ctx X.db) : Ctx D := ⟨c.view.1, [], c.aux.1, c.reads, c.draws⟩

/-- The point of the transaction when the inner program is at `c'`. -/
def Ctx.outer (c : Ctx X.db) (c' : Ctx D) : Ctx X.db := c'.within c.db c.pend c.aux.2

theorem Ctx.view_outer {c : Ctx X.db} {c' : Ctx D} (hdb : c'.db = c.view.1) :
    (c.outer c').view = (c'.view, c.view.2) := Ctx.view_within hdb.symm

theorem run_embed_inner {E : Env T N} {P : D.Stmt → Prop} {p : Prog D ε α} (hp : p.Uses P) (c : Ctx X.db) :
    (p.embed X).run E c = ((p.run E c.inner).1, c.outer (p.run E c.inner).2) := by
  have h : c.outer c.inner = c := by simp [Ctx.outer, Ctx.inner, Ctx.within]
  have hrun : (p.embed X).run E (c.inner.within c.db c.pend c.aux.2) =
      ((p.run E c.inner).1, (p.run E c.inner).2.within c.db c.pend c.aux.2) := run_embed hp rfl
  change (p.embed X).run E (c.outer c.inner) = _ at hrun
  rwa [h] at hrun

/-- A part of a transaction in which the columns of `D` change only. -/
theorem Prog.Post.embed {E : Env T N} {P : D.Stmt → Prop} {p : Prog D ε α} (hp : p.Uses P) {c : Ctx X.db}
    {Q : α → Ctx X.db → Prop} (h : p.Post E c.inner fun a c' => Q a (c.outer c')) :
    (p.embed X).Post E c Q := by
  intro a c' hrun
  rw [run_embed_inner hp] at hrun
  obtain ⟨ha, rfl⟩ := Prod.ext_iff.1 hrun
  exact h a _ (Prod.ext ha rfl)

theorem Prog.Uses.embed {P : X.db.Stmt → Prop} {p : Prog D ε α} (hp : p.Uses fun s => P (.inl s)) :
    (p.embed X).Uses P := by
  induction p with
  | ret a => trivial
  | raise e => trivial
  | now k ih => exact fun t => ih t (hp t)
  | draw k ih => exact fun n => ih n (hp n)
  | stmt s k ih => exact ⟨hp.1, fun r => ih r (hp.2 r)⟩
  | commit k => exact absurd hp id
  | rollback k => exact absurd hp id

theorem Prog.Only.embed {P : X.db.Stmt → Prop} {p : Prog D ε α} (hp : p.Only fun s => P (.inl s)) :
    (p.embed X).Only P := by
  induction p with
  | ret a => trivial
  | raise e => trivial
  | now k ih => exact fun t => ih t (hp t)
  | draw k ih => exact fun n => ih n (hp n)
  | stmt s k ih => exact ⟨hp.1, fun r => ih r (hp.2 r)⟩
  | commit k ih => exact ih hp
  | rollback k ih => exact ih hp

theorem Prog.Total.embed {E : Env T N} {P : D.Stmt → Prop} {p : Prog D ε α} (hp : p.Uses P) {c : Ctx X.db}
    {Q : α → Ctx X.db → Prop} (h : p.Total E c.inner fun a c' => Q a (c.outer c')) :
    (p.embed X).Total E c Q := by
  obtain ⟨a, c', hrun, hQ⟩ := h
  refine ⟨a, c.outer c', ?_, hQ⟩
  rw [run_embed_inner hp, hrun]

end

end Txn
