/-
  Programs over a transactional database.

  A `Db` is a store with row-level writes and a set of statements.  A request
  is a `Prog`: it reads the clock, draws nonces, issues statements, commits and
  rolls back, and ends with a value or an exception.  The writes of a
  transaction stay pending until it commits; a statement sees the store with
  the pending writes of its own transaction applied.

  * `Prog.run` executes a program alone, `serve` a whole request: what is
    pending at its end is discarded.
  * `Prog.Uses` bounds the statements a program issues.
  * `Prog.Ok` is the weakest precondition of a program over the history of its
    own events: every statement it issues, every commit, exception and answer
    satisfies the rules `W`, whatever the other transactions committed between.
-/
import Mathlib.Data.Nat.Notation
import Mathlib.Data.List.Basic

namespace Txn

/-- A transactional database over clock values `T` and nonces `N`. -/
structure Db (T N : Type) where
  Store : Type
  /-- what no rollback undoes (sequences) -/
  Aux : Type
  Write : Type
  Stmt : Type
  Res : Stmt → Type
  apply : Store → Write → Store
  /-- `exec s b aux snap cur`: `s` in a transaction begun at `b`; rows are
      found in the snapshot `snap` of the statement's begin, and re-checked
      and written on `cur`, their latest version. -/
  exec : (s : Stmt) → T → Aux → Store → Store → Aux × List Write × Res s
  /-- `blocks s aux snap cur ws`: `s` waits for a transaction with the pending
      writes `ws`. -/
  blocks : Stmt → Aux → Store → Store → List Write → Bool
  blocks_nil : ∀ s aux snap cur, blocks s aux snap cur [] = false

/-- Programs with exceptions `ε` and answers `α`. -/
inductive Prog {T N : Type} (D : Db T N) (ε α : Type) : Type where
  | ret (a : α)
  | raise (e : ε)
  | now (k : T → Prog D ε α)
  | draw (k : N → Prog D ε α)
  | stmt (s : D.Stmt) (k : D.Res s → Prog D ε α)
  | commit (k : Prog D ε α)
  | rollback (k : Prog D ε α)

variable {T N : Type} {D : Db T N} {ε α β : Type}

/-- The store with the writes `ws` applied. -/
def Db.applyAll (D : Db T N) (st : D.Store) (ws : List D.Write) : D.Store := ws.foldl D.apply st

@[simp] theorem Db.applyAll_nil (st : D.Store) : D.applyAll st [] = st := rfl

theorem Db.applyAll_append (st : D.Store) (ws ws' : List D.Write) :
    D.applyAll st (ws ++ ws') = D.applyAll (D.applyAll st ws) ws' := List.foldl_append

namespace Prog

protected def bind : Prog D ε α → (α → Prog D ε β) → Prog D ε β
  | .ret a, f => f a
  | .raise e, _ => .raise e
  | .now k, f => .now fun t => (k t).bind f
  | .draw k, f => .draw fun n => (k n).bind f
  | .stmt s k, f => .stmt s fun r => (k r).bind f
  | .commit k, f => .commit (k.bind f)
  | .rollback k, f => .rollback (k.bind f)

/-- `try p except e: h e`. -/
protected def tryCatch : Prog D ε α → (ε → Prog D ε α) → Prog D ε α
  | .ret a, _ => .ret a
  | .raise e, h => h e
  | .now k, h => .now fun t => (k t).tryCatch h
  | .draw k, h => .draw fun n => (k n).tryCatch h
  | .stmt s k, h => .stmt s fun r => (k r).tryCatch h
  | .commit k, h => .commit (k.tryCatch h)
  | .rollback k, h => .rollback (k.tryCatch h)

instance : Monad (Prog D ε) where
  pure := .ret
  bind := Prog.bind

instance : MonadExceptOf ε (Prog D ε) where
  throw := .raise
  tryCatch := Prog.tryCatch

/-- A pure computation that may raise. -/
def lift : Except ε α → Prog D ε α
  | .ok a => .ret a
  | .error e => .raise e

/-- One statement. -/
def query (s : D.Stmt) : Prog D ε (D.Res s) := .stmt s .ret

/-- One clock reading. -/
def clock : Prog D ε T := .now .ret

end Prog

/-! ## Running a program alone -/

/-- The inputs of a run: the begin of its transaction, its clock readings and
    its nonces, in order. -/
structure Env (T N : Type) where
  began : T
  now : ℕ → T
  nonce : ℕ → N

/-- The state of a run: the committed store, the pending writes, and how many
    inputs were used. -/
structure Ctx (D : Db T N) where
  db : D.Store
  pend : List D.Write
  aux : D.Aux
  reads : ℕ
  draws : ℕ

/-- What a statement of the run sees. -/
def Ctx.view (c : Ctx D) : D.Store := D.applyAll c.db c.pend

/-- The state after the statement `s`. -/
def Ctx.after (c : Ctx D) (b : T) (s : D.Stmt) : Ctx D :=
  { c with aux := (D.exec s b c.aux c.view c.view).1
           pend := c.pend ++ (D.exec s b c.aux c.view c.view).2.1 }

namespace Prog
variable (E : Env T N)

def run : Prog D ε α → Ctx D → Except ε α × Ctx D
  | .ret a, c => (.ok a, c)
  | .raise e, c => (.error e, c)
  | .now k, c => (k (E.now c.reads)).run { c with reads := c.reads + 1 }
  | .draw k, c => (k (E.nonce c.draws)).run { c with draws := c.draws + 1 }
  | .stmt s k, c => (k (D.exec s E.began c.aux c.view c.view).2.2).run (c.after E.began s)
  | .commit k, c => k.run { c with db := c.view, pend := [] }
  | .rollback k, c => k.run { c with pend := [] }

@[simp] theorem run_pure (a : α) (c : Ctx D) :
    (pure a : Prog D ε α).run E c = (.ok a, c) := rfl

@[simp] theorem run_throw (e : ε) (c : Ctx D) :
    (throw e : Prog D ε α).run E c = (.error e, c) := rfl

@[simp] theorem run_query (s : D.Stmt) (c : Ctx D) : (query s : Prog D ε _).run E c =
    (.ok (D.exec s E.began c.aux c.view c.view).2.2, c.after E.began s) := rfl

@[simp] theorem run_clock (c : Ctx D) : (clock : Prog D ε T).run E c =
    (.ok (E.now c.reads), { c with reads := c.reads + 1 }) := rfl

@[simp] theorem run_lift (x : Except ε α) (c : Ctx D) :
    (lift x : Prog D ε α).run E c = (x, c) := by
  cases x <;> rfl

theorem run_bind (p : Prog D ε α) (f : α → Prog D ε β) : ∀ c, (p >>= f).run E c =
    match p.run E c with
    | (.ok a, c') => (f a).run E c'
    | (.error e, c') => (.error e, c') := by
  change ∀ c, (p.bind f).run E c = _
  induction p with
  | ret | raise => intro c; rfl
  | now k ih | draw k ih | stmt s k ih => intro c; exact ih _ _
  | commit k ih | rollback k ih => intro c; exact ih _

/-- A sequence succeeds iff both halves do. -/
theorem run_bind_ok {p : Prog D ε α} {f : α → Prog D ε β} {c c' : Ctx D} {b : β} :
    (p >>= f).run E c = (.ok b, c') ↔
      ∃ a c₁, p.run E c = (.ok a, c₁) ∧ (f a).run E c₁ = (.ok b, c') := by
  rw [run_bind]
  rcases p.run E c with ⟨_ | a, c₁⟩
  · simp
  · simp

theorem run_tryCatch (p : Prog D ε α) (h : ε → Prog D ε α) : ∀ c, (tryCatch p h).run E c =
    match p.run E c with
    | (.ok a, c') => (.ok a, c')
    | (.error e, c') => (h e).run E c' := by
  change ∀ c, (p.tryCatch h).run E c = _
  induction p with
  | ret | raise => intro c; rfl
  | now k ih | draw k ih | stmt s k ih => intro c; exact ih _ _
  | commit k ih | rollback k ih => intro c; exact ih _

/-- Programs that issue statements of `P` only, and neither commit nor roll back. -/
def Uses (P : D.Stmt → Prop) : Prog D ε α → Prop
  | .ret _ | .raise _ => True
  | .now k => ∀ t, (k t).Uses P
  | .draw k => ∀ n, (k n).Uses P
  | .stmt s k => P s ∧ ∀ r, (k r).Uses P
  | .commit _ | .rollback _ => False

section
variable {P : D.Stmt → Prop}

@[simp] theorem uses_pure (a : α) : (pure a : Prog D ε α).Uses P := trivial

@[simp] theorem uses_throw (e : ε) : (throw e : Prog D ε α).Uses P := trivial

@[simp] theorem uses_lift (x : Except ε α) : (lift x : Prog D ε α).Uses P := by
  cases x <;> trivial

theorem uses_query {s : D.Stmt} (h : P s) : (query s : Prog D ε _).Uses P :=
  ⟨h, fun _ => trivial⟩

theorem Uses.bind {p : Prog D ε α} {f : α → Prog D ε β} (hp : p.Uses P)
    (hf : ∀ a, (f a).Uses P) : (p >>= f).Uses P := by
  change (p.bind f).Uses P
  induction p with
  | ret a => exact hf a
  | raise e => trivial
  | now k ih | draw k ih => exact fun x => ih x (hp x)
  | stmt s k ih => exact ⟨hp.1, fun r => ih r (hp.2 r)⟩
  | commit k | rollback k => exact absurd hp id

theorem Uses.tryCatch {p : Prog D ε α} {g : ε → Prog D ε α} (hp : p.Uses P)
    (hg : ∀ e, (g e).Uses P) : (tryCatch p g).Uses P := by
  change (p.tryCatch g).Uses P
  induction p with
  | ret a => trivial
  | raise e => exact hg e
  | now k ih | draw k ih => exact fun x => ih x (hp x)
  | stmt s k ih => exact ⟨hp.1, fun r => ih r (hp.2 r)⟩
  | commit k | rollback k => exact absurd hp id

/-- Without a commit the committed store stays as it is. -/
theorem Uses.db {p : Prog D ε α} (hp : p.Uses P) : ∀ c, (p.run E c).2.db = c.db := by
  induction p with
  | ret | raise => intro c; rfl
  | now k ih => intro c; exact ih _ (hp _) _
  | draw k ih => intro c; exact ih _ (hp _) _
  | stmt s k ih => intro c; exact ih _ (hp.2 _) _
  | commit k | rollback k => exact absurd hp id

end

end Prog

/-- A whole request on the committed store `db`: its outcome, and the store and
    the sequences after it.  What is pending at its end is rolled back. -/
def serve (E : Env T N) (p : Prog D ε α) (db : D.Store) (aux : D.Aux) :
    Except ε α × D.Store × D.Aux :=
  let r := p.run E ⟨db, [], aux, 0, 0⟩
  (r.1, r.2.db, r.2.aux)

/-! ## Histories -/

/-- An event of a request; a statement with the arguments it was executed on:
    the committed stores of its begin and of its end. -/
inductive Ev (D : Db T N) where
  | now (t : T)
  | draw (n : N)
  | stmt (s : D.Stmt) (b : T) (aux : D.Aux) (snap cur : D.Store)
  | commit
  | rollback

/-- The statement `s` of a transaction with the pending writes `ws`. -/
def Db.execOn (D : Db T N) (ws : List D.Write) (s : D.Stmt) (b : T) (aux : D.Aux)
    (snap cur : D.Store) : D.Aux × List D.Write × D.Res s :=
  D.exec s b aux (D.applyAll snap ws) (D.applyAll cur ws)

/-- The pending writes of a history (newest event first). -/
def pendOf : List (Ev D) → List D.Write
  | [] => []
  | .stmt s b aux snap cur :: h => pendOf h ++ (D.execOn (pendOf h) s b aux snap cur).2.1
  | .commit :: _ | .rollback :: _ => []
  | .now _ :: h | .draw _ :: h => pendOf h

/-- The committed writes of a history. -/
def doneOf : List (Ev D) → List D.Write
  | [] => []
  | .commit :: h => doneOf h ++ pendOf h
  | .stmt .. :: h | .rollback :: h | .now _ :: h | .draw _ :: h => doneOf h

@[simp] theorem pendOf_nil : pendOf ([] : List (Ev D)) = [] := rfl
@[simp] theorem pendOf_stmt (s : D.Stmt) (b aux snap cur) (h : List (Ev D)) :
    pendOf (.stmt s b aux snap cur :: h) =
      pendOf h ++ (D.execOn (pendOf h) s b aux snap cur).2.1 := rfl
@[simp] theorem pendOf_commit (h : List (Ev D)) : pendOf (.commit :: h) = [] := rfl
@[simp] theorem pendOf_rollback (h : List (Ev D)) : pendOf (.rollback :: h) = [] := rfl
@[simp] theorem pendOf_now (t : T) (h : List (Ev D)) : pendOf (.now t :: h) = pendOf h := rfl
@[simp] theorem pendOf_draw (n : N) (h : List (Ev D)) : pendOf (.draw n :: h) = pendOf h := rfl

@[simp] theorem doneOf_nil : doneOf ([] : List (Ev D)) = [] := rfl
@[simp] theorem doneOf_stmt (s : D.Stmt) (b aux snap cur) (h : List (Ev D)) :
    doneOf (.stmt s b aux snap cur :: h) = doneOf h := rfl
@[simp] theorem doneOf_commit (h : List (Ev D)) :
    doneOf (.commit :: h) = doneOf h ++ pendOf h := rfl
@[simp] theorem doneOf_rollback (h : List (Ev D)) : doneOf (.rollback :: h) = doneOf h := rfl
@[simp] theorem doneOf_now (t : T) (h : List (Ev D)) : doneOf (.now t :: h) = doneOf h := rfl
@[simp] theorem doneOf_draw (n : N) (h : List (Ev D)) : doneOf (.draw n :: h) = doneOf h := rfl

/-! ## Rules a program keeps -/

/-- What a program has to keep, as conditions on its history before the step. -/
structure Rules (D : Db T N) (ε : Type) where
  stmt : List (Ev D) → D.Stmt → Prop
  commit : List (Ev D) → Prop
  raise : List (Ev D) → ε → Prop

/-- A history all of whose steps kept the rules `W`, on stores with `I`. -/
def Kept (I : D.Store → Prop) (W : Rules D ε) : List (Ev D) → Prop
  | [] => True
  | .stmt s _ _ snap cur :: h => W.stmt h s ∧ I snap ∧ I cur ∧ Kept I W h
  | .commit :: h => W.commit h ∧ Kept I W h
  | .now _ :: h | .draw _ :: h | .rollback :: h => Kept I W h

/-- Both rules. -/
def Rules.and (W W' : Rules D ε) : Rules D ε where
  stmt h s := W.stmt h s ∧ W'.stmt h s
  commit h := W.commit h ∧ W'.commit h
  raise h e := W.raise h e ∧ W'.raise h e

theorem Kept.left {I : D.Store → Prop} {W W' : Rules D ε} :
    ∀ {h : List (Ev D)}, Kept I (W.and W') h → Kept I W h := by
  intro h
  induction h with
  | nil => exact id
  | cons e h ih =>
    cases e with
    | stmt => exact fun hk => ⟨hk.1.1, hk.2.1, hk.2.2.1, ih hk.2.2.2⟩
    | commit => exact fun hk => ⟨hk.1.1, ih hk.2⟩
    | now | draw | rollback => exact ih

theorem Kept.suffix {I : D.Store → Prop} {W : Rules D ε} {h₀ : List (Ev D)} :
    ∀ {h : List (Ev D)}, h₀ <:+ h → Kept I W h → Kept I W h₀ := by
  intro h
  induction h with
  | nil => exact fun hs _ => List.suffix_nil.mp hs ▸ trivial
  | cons e h ih =>
    intro hs hk
    rcases List.suffix_cons_iff.mp hs with rfl | hs'
    · exact hk
    · cases e with
      | stmt => exact ih hs' hk.2.2.2
      | commit => exact ih hs' hk.2
      | now | draw | rollback => exact ih hs' hk

/-- Where a pending write comes from. -/
theorem Kept.origin {I : D.Store → Prop} {W : Rules D ε} {w : D.Write} :
    ∀ {h : List (Ev D)}, Kept I W h → w ∈ pendOf h → ∃ s b aux snap cur h₀,
      .stmt s b aux snap cur :: h₀ <:+ h ∧ W.stmt h₀ s ∧ I snap ∧ I cur ∧
        w ∈ (D.execOn (pendOf h₀) s b aux snap cur).2.1 ∧ pendOf h₀ <+: pendOf h := by
  intro h
  induction h with
  | nil => simp
  | cons e h ih =>
    intro hk hw
    cases e with
    | now | draw =>
      obtain ⟨s, b, aux, snap, cur, h₀, hs, h1⟩ := ih hk hw
      exact ⟨s, b, aux, snap, cur, h₀, hs.trans (List.suffix_cons _ _), h1⟩
    | commit | rollback => simp at hw
    | stmt s b aux snap cur =>
      obtain ⟨hs, h1, h2, hk⟩ := hk
      rw [pendOf_stmt] at hw
      rcases List.mem_append.mp hw with hw | hw
      · obtain ⟨s', b', aux', snap', cur', h₀, hs', h3, h4, h5, h6, h7⟩ := ih hk hw
        exact ⟨s', b', aux', snap', cur', h₀, hs'.trans (List.suffix_cons _ _), h3, h4, h5, h6,
          h7.trans (List.prefix_append _ _)⟩
      · exact ⟨s, b, aux, snap, cur, h, List.suffix_rfl, hs, h1, h2, hw, List.prefix_append _ _⟩

/-- Induction over the statements that left something pending. -/
theorem Kept.pend_induction {I : D.Store → Prop} {W : Rules D ε} {P : List D.Write → Prop}
    (nil : P [])
    (stmt : ∀ h s b aux snap cur, W.stmt h s → P (pendOf h) →
      P (pendOf h ++ (D.execOn (pendOf h) s b aux snap cur).2.1)) :
    ∀ {h : List (Ev D)}, Kept I W h → P (pendOf h) := by
  intro h
  induction h with
  | nil => exact fun _ => nil
  | cons e h ih =>
    intro hk
    cases e with
    | now | draw => exact ih hk
    | commit | rollback => exact nil
    | stmt s b aux snap cur => exact stmt h s b aux snap cur hk.1 (ih hk.2.2.2)

namespace Prog

/-- From the history `h` on, the program keeps the rules `W` and answers as
    `Q` says, on committed stores with `I`. -/
def Ok (I : D.Store → Prop) (W : Rules D ε) (Q : List (Ev D) → α → Prop) : Prog D ε α → List (Ev D) → Prop
  | .ret a, h => Q h a
  | .raise e, h => W.raise h e
  | .now k, h => ∀ t, (k t).Ok I W Q (.now t :: h)
  | .draw k, h => ∀ n, (k n).Ok I W Q (.draw n :: h)
  | .stmt s k, h => W.stmt h s ∧ ∀ b aux snap cur, I snap → I cur →
      (k (D.execOn (pendOf h) s b aux snap cur).2.2).Ok I W Q (.stmt s b aux snap cur :: h)
  | .commit k, h => W.commit h ∧ k.Ok I W Q (.commit :: h)
  | .rollback k, h => k.Ok I W Q (.rollback :: h)

variable {I : D.Store → Prop} {W : Rules D ε}

theorem Ok.mono {Q Q' : List (Ev D) → α → Prop} (hQ : ∀ h a, Q h a → Q' h a)
    {p : Prog D ε α} : ∀ {h}, p.Ok I W Q h → p.Ok I W Q' h := by
  induction p with
  | ret a => exact fun hp => hQ _ a hp
  | raise e => exact id
  | now k ih | draw k ih => exact fun hp x => ih x (hp x)
  | stmt s k ih =>
    exact fun hp => ⟨hp.1, fun b aux snap cur h1 h2 => ih _ (hp.2 b aux snap cur h1 h2)⟩
  | commit k ih => exact fun hp => ⟨hp.1, ih hp.2⟩
  | rollback k ih => exact fun hp => ih hp

/-- On fewer stores. -/
theorem Ok.weaken {I' : D.Store → Prop} (hI : ∀ st, I' st → I st) {Q : List (Ev D) → α → Prop}
    {p : Prog D ε α} : ∀ {h}, p.Ok I W Q h → p.Ok I' W Q h := by
  induction p with
  | ret a => exact id
  | raise e => exact id
  | now k ih | draw k ih => exact fun hp x => ih x (hp x)
  | stmt s k ih =>
    exact fun hp => ⟨hp.1, fun b aux snap cur h1 h2 => ih _ (hp.2 b aux snap cur (hI _ h1) (hI _ h2))⟩
  | commit k ih => exact fun hp => ⟨hp.1, ih hp.2⟩
  | rollback k ih => exact fun hp => ih hp

theorem Ok.and {W' : Rules D ε} {Q Q' : List (Ev D) → α → Prop} {p : Prog D ε α} :
    ∀ {h}, p.Ok I W Q h → p.Ok I W' Q' h → p.Ok I (W.and W') (fun h a => Q h a ∧ Q' h a) h := by
  induction p with
  | ret a => exact fun hp hp' => ⟨hp, hp'⟩
  | raise e => exact fun hp hp' => ⟨hp, hp'⟩
  | now k ih | draw k ih => exact fun hp hp' x => ih x (hp x) (hp' x)
  | stmt s k ih =>
    exact fun hp hp' => ⟨⟨hp.1, hp'.1⟩, fun b aux snap cur h1 h2 =>
      ih _ (hp.2 b aux snap cur h1 h2) (hp'.2 b aux snap cur h1 h2)⟩
  | commit k ih => exact fun hp hp' => ⟨⟨hp.1, hp'.1⟩, ih hp.2 hp'.2⟩
  | rollback k ih => exact fun hp hp' => ih hp hp'

theorem ok_bind {Q : List (Ev D) → β → Prop} {p : Prog D ε α} {f : α → Prog D ε β} :
    ∀ {h}, (p >>= f).Ok I W Q h ↔ p.Ok I W (fun h a => (f a).Ok I W Q h) h := by
  change ∀ {h}, (p.bind f).Ok I W Q h ↔ _
  induction p with
  | ret | raise => exact Iff.rfl
  | now k ih | draw k ih => exact forall_congr' fun x => ih x
  | stmt s k ih =>
    exact and_congr Iff.rfl (forall₄_congr fun b aux snap cur =>
      forall_congr' fun _ => forall_congr' fun _ => ih _)
  | commit k ih => exact and_congr Iff.rfl ih
  | rollback k ih => exact ih

/-- The rule of sequence. -/
theorem Ok.bind {Q : List (Ev D) → α → Prop} {Q' : List (Ev D) → β → Prop}
    {p : Prog D ε α} {f : α → Prog D ε β} {h : List (Ev D)} (hp : p.Ok I W Q h)
    (hf : ∀ h a, Q h a → (f a).Ok I W Q' h) : (p >>= f).Ok I W Q' h :=
  ok_bind.mpr (hp.mono hf)

@[simp] theorem ok_pure {Q : List (Ev D) → α → Prop} {a : α} {h} :
    (pure a : Prog D ε α).Ok I W Q h ↔ Q h a := Iff.rfl

@[simp] theorem ok_throw {Q : List (Ev D) → α → Prop} {e : ε} {h} :
    (throw e : Prog D ε α).Ok I W Q h ↔ W.raise h e := Iff.rfl

@[simp] theorem ok_query {s : D.Stmt} {Q : List (Ev D) → D.Res s → Prop} {h} :
    (query s : Prog D ε _).Ok I W Q h ↔ W.stmt h s ∧ ∀ b aux snap cur, I snap → I cur →
      Q (.stmt s b aux snap cur :: h) (D.execOn (pendOf h) s b aux snap cur).2.2 := Iff.rfl

@[simp] theorem ok_clock {Q : List (Ev D) → T → Prop} {h} :
    (clock : Prog D ε T).Ok I W Q h ↔ ∀ t, Q (.now t :: h) t := Iff.rfl

/-- The rule of `try`: the handler starts from what the body's exceptions
    guarantee. -/
theorem Ok.tryCatch {Q : List (Ev D) → α → Prop} {X : List (Ev D) → ε → Prop}
    {p : Prog D ε α} {g : ε → Prog D ε α} (hg : ∀ h e, X h e → (g e).Ok I W Q h) :
    ∀ {h}, p.Ok I { W with raise := X } Q h → (tryCatch p g).Ok I W Q h := by
  change ∀ {h}, p.Ok I { W with raise := X } Q h → (p.tryCatch g).Ok I W Q h
  induction p with
  | ret a => exact id
  | raise e => exact fun hp => hg _ e hp
  | now k ih | draw k ih => exact fun hp x => ih x (hp x)
  | stmt s k ih =>
    exact fun hp => ⟨hp.1, fun b aux snap cur h1 h2 => ih _ (hp.2 b aux snap cur h1 h2)⟩
  | commit k ih => exact fun hp => ⟨hp.1, ih hp.2⟩
  | rollback k ih => exact fun hp => ih hp

theorem Ok.lift {Q : List (Ev D) → α → Prop} {x : Except ε α} {h : List (Ev D)}
    (hok : ∀ a, x = .ok a → Q h a) (herr : ∀ e, x = .error e → W.raise h e) :
    (lift x).Ok I W Q h := by
  cases x with
  | ok a => exact hok a rfl
  | error e => exact herr e rfl

/-- Any program keeps rules that ask for nothing. -/
theorem ok_of_free {Q : List (Ev D) → α → Prop} (hstmt : ∀ h s, W.stmt h s) (hcommit : ∀ h, W.commit h)
    (hraise : ∀ h e, W.raise h e) (hQ : ∀ h a, Q h a) (p : Prog D ε α) : ∀ h, p.Ok I W Q h := by
  induction p with
  | ret a => exact fun h => hQ h a
  | raise e => exact fun h => hraise h e
  | now k ih | draw k ih => exact fun _ x => ih x _
  | stmt s k ih => exact fun h => ⟨hstmt h s, fun _ _ _ _ _ _ => ih _ _⟩
  | commit k ih => exact fun h => ⟨hcommit h, ih _⟩
  | rollback k ih => exact fun _ => ih _

/-- A program of statements in `P` keeps what these keep. -/
theorem Uses.ok {P : D.Stmt → Prop} {K : List (Ev D) → Prop}
    (hnow : ∀ h t, K h → K (.now t :: h)) (hdraw : ∀ h n, K h → K (.draw n :: h))
    (hstmt : ∀ h s, K h → P s → W.stmt h s ∧ ∀ b aux snap cur, K (.stmt s b aux snap cur :: h))
    (hraise : ∀ h e, K h → W.raise h e) {p : Prog D ε α} (hp : p.Uses P) :
    ∀ {h}, K h → p.Ok I W (fun h _ => K h) h := by
  induction p with
  | ret a => exact id
  | raise e => exact hraise _ e
  | now k ih => exact fun hK t => ih t (hp t) (hnow _ t hK)
  | draw k ih => exact fun hK n => ih n (hp n) (hdraw _ n hK)
  | stmt s k ih =>
    exact fun hK => ⟨(hstmt _ s hK hp.1).1,
      fun b aux snap cur _ _ => ih _ (hp.2 _) ((hstmt _ s hK hp.1).2 b aux snap cur)⟩
  | commit k | rollback k => exact absurd hp id

end Prog

end Txn
