/-
  Interleaved requests over a transactional database.

  Any number of requests run against one committed store.  A statement takes
  its snapshot when it starts and is carried out when it finishes, at a moment
  where no other transaction holds it up; between any two steps of a request
  the others may step, commit, or the clock may go on.

  * `step` is executable, `Move` lists what a request can do in one step, and
    `Reach.inv` reduces an invariant of all interleavings to these cases.
  * `Sound`: in every interleaving of programs that are `Ok` for rules `W`,
    every history keeps `W`, and every snapshot is an earlier state of the
    committed store.
  * `Serial` interleavings run one request after the other; there, a request
    sees the committed store until it commits (`Alone`), and `serve` is such a
    run (`serve_reach`).
-/
import Mathlib.Logic.Relation
import Mathlib.Order.Lattice
import SmartClassroom.Lib.Prog

namespace Txn

open Relation

variable {T N : Type} {D : Db T N} {J ε α : Type}

/-- A request: its job, the rest of its program, and its history. -/
structure Req (D : Db T N) (J ε α : Type) where
  job : J
  prog : Prog D ε α
  log : List (Ev D)
  /-- the begin of its transaction -/
  began : Option T
  /-- the snapshot of the statement it is executing -/
  running : Option D.Store

def Req.ended (r : Req D J ε α) : Bool :=
  match r.prog with
  | .ret _ | .raise _ => true
  | _ => false

/-- Its uncommitted writes; those of a request that has ended are gone. -/
def Req.pend (r : Req D J ε α) : List D.Write := if r.ended then [] else pendOf r.log

/-- A program for each job, and the exception of a statement or a commit that
    the database does not carry out. -/
structure Service (D : Db T N) (J ε α : Type) where
  prog : J → Prog D ε α
  lost : ε

structure Sys (D : Db T N) (J ε α : Type) where
  db : D.Store
  aux : D.Aux
  clock : T
  reqs : List (Req D J ε α)

inductive Act (N : Type) where
  | start
  | finish
  | now
  | draw (n : N)
  | commit
  | rollback
  | fail

inductive Label (J T N : Type) where
  | arrive (j : J)
  | tick (t : T)
  | act (i : ℕ) (a : Act N)

/-- Another transaction holds up the statement `st` of request `i`. -/
def Sys.blocked (s : Sys D J ε α) (i : ℕ) (ws : List D.Write) (st : D.Stmt) (snap : D.Store) :
    Bool :=
  (s.reqs.eraseIdx i).any fun q =>
    D.blocks st s.aux (D.applyAll snap ws) (D.applyAll s.db ws) q.pend

namespace Req

/-- The request after starting a statement. -/
def started (r : Req D J ε α) (s : Sys D J ε α) : Req D J ε α :=
  { r with began := some (r.began.getD s.clock), running := some s.db }

/-- The event of finishing the statement `st`. -/
def event (r : Req D J ε α) (s : Sys D J ε α) (st : D.Stmt) (snap : D.Store) : Ev D :=
  .stmt st (r.began.getD s.clock) s.aux snap s.db

/-- What executing the statement `st` gives. -/
def exec (r : Req D J ε α) (s : Sys D J ε α) (st : D.Stmt) (snap : D.Store) :
    D.Aux × List D.Write × D.Res st :=
  D.execOn (pendOf r.log) st (r.began.getD s.clock) s.aux snap s.db

/-- The request after finishing the statement `st`. -/
def finished (r : Req D J ε α) (s : Sys D J ε α) (st : D.Stmt) (k : D.Res st → Prog D ε α)
    (snap : D.Store) : Req D J ε α :=
  { r with prog := k (r.exec s st snap).2.2, log := r.event s st snap :: r.log, running := none }

/-- One step of request `i`: the request, the committed store and the
    sequences after it. -/
def move (lost : ε) (s : Sys D J ε α) (i : ℕ) (r : Req D J ε α) :
    Act N → Option (Req D J ε α × D.Store × D.Aux)
  | .start =>
    match r.prog, r.running with
    | .stmt _ _, none => some (r.started s, s.db, s.aux)
    | _, _ => none
  | .finish =>
    match r.prog, r.running with
    | .stmt st k, some snap =>
      if s.blocked i (pendOf r.log) st snap then none
      else some (r.finished s st k snap, s.db, (r.exec s st snap).1)
    | _, _ => none
  | .now =>
    match r.prog with
    | .now k => some ({ r with prog := k s.clock, log := .now s.clock :: r.log }, s.db, s.aux)
    | _ => none
  | .draw n =>
    match r.prog with
    | .draw k => some ({ r with prog := k n, log := .draw n :: r.log }, s.db, s.aux)
    | _ => none
  | .commit =>
    match r.prog with
    | .commit k => some ({ r with prog := k, log := .commit :: r.log, began := none },
        D.applyAll s.db (pendOf r.log), s.aux)
    | _ => none
  | .rollback =>
    match r.prog with
    | .rollback k => some ({ r with prog := k, log := .rollback :: r.log, began := none },
        s.db, s.aux)
    | _ => none
  | .fail =>
    match r.prog with
    | .stmt _ _ | .commit _ => some ({ r with prog := .raise lost, running := none }, s.db, s.aux)
    | _ => none

end Req

/-- The steps of a request, one case for each kind. -/
inductive Move (lost : ε) (s : Sys D J ε α) (i : ℕ) (r : Req D J ε α) :
    Req D J ε α → D.Store → D.Aux → Prop where
  | start {st k} (hp : r.prog = .stmt st k) (hr : r.running = none) :
      Move lost s i r (r.started s) s.db s.aux
  | finish {st k snap} (hp : r.prog = .stmt st k) (hr : r.running = some snap)
      (hb : s.blocked i (pendOf r.log) st snap = false) :
      Move lost s i r (r.finished s st k snap) s.db (r.exec s st snap).1
  | now {k} (hp : r.prog = .now k) :
      Move lost s i r { r with prog := k s.clock, log := .now s.clock :: r.log } s.db s.aux
  | draw {k} (n : N) (hp : r.prog = .draw k) :
      Move lost s i r { r with prog := k n, log := .draw n :: r.log } s.db s.aux
  | commit {k} (hp : r.prog = .commit k) :
      Move lost s i r { r with prog := k, log := .commit :: r.log, began := none }
        (D.applyAll s.db (pendOf r.log)) s.aux
  | rollback {k} (hp : r.prog = .rollback k) :
      Move lost s i r { r with prog := k, log := .rollback :: r.log, began := none } s.db s.aux
  | fail (hp : (∃ st k, r.prog = .stmt st k) ∨ ∃ k, r.prog = .commit k) :
      Move lost s i r { r with prog := .raise lost, running := none } s.db s.aux

theorem Move.of_move {lost : ε} {s : Sys D J ε α} {i : ℕ} {r : Req D J ε α} {a : Act N} {m}
    (h : r.move lost s i a = some m) : Move lost s i r m.1 m.2.1 m.2.2 := by
  cases a with
  | start | now | draw | commit | rollback =>
    simp only [Req.move] at h
    split at h
    · obtain rfl := Option.some.inj h
      constructor <;> assumption
    · cases h
  | finish =>
    simp only [Req.move] at h
    split at h
    · split at h
      · cases h
      · obtain rfl := Option.some.inj h
        exact .finish ‹_› ‹_› (Bool.not_eq_true _ ▸ ‹_›)
    · cases h
  | fail =>
    simp only [Req.move] at h
    split at h
    · obtain rfl := Option.some.inj h
      exact .fail (.inl ⟨_, _, ‹_›⟩)
    · obtain rfl := Option.some.inj h
      exact .fail (.inr ⟨_, ‹_›⟩)
    · cases h

theorem Move.exists_act {lost : ε} {s : Sys D J ε α} {i : ℕ} {r r' : Req D J ε α} {db' aux'}
    (h : Move lost s i r r' db' aux') : ∃ a, r.move lost s i a = some (r', db', aux') := by
  cases h with
  | start hp hr => exact ⟨.start, by rw [Req.move, hp, hr]⟩
  | finish hp hr hb => exact ⟨.finish, by rw [Req.move, hp, hr]; exact if_neg (by simp [hb])⟩
  | now hp => exact ⟨.now, by rw [Req.move, hp]⟩
  | draw n hp => exact ⟨.draw n, by rw [Req.move, hp]⟩
  | commit hp => exact ⟨.commit, by rw [Req.move, hp]⟩
  | rollback hp => exact ⟨.rollback, by rw [Req.move, hp]⟩
  | fail hp => obtain ⟨st, k, hp⟩ | ⟨k, hp⟩ := hp <;> exact ⟨.fail, by rw [Req.move, hp]⟩

/-- A step that leaves the committed store, and whether the request has committed;
    or a commit. -/
theorem Req.move_cases {lost : ε} {s : Sys D J ε α} {i : ℕ} {r r' : Req D J ε α} {a : Act N} {db' aux'}
    (h : r.move lost s i a = some (r', db', aux')) :
    (db' = s.db ∧ (.commit ∈ r'.log → .commit ∈ r.log)) ∨
      a = .commit ∧ ∃ k, r.prog = .commit k ∧ db' = D.applyAll s.db (pendOf r.log) := by
  cases a with
  | commit =>
    simp only [Req.move] at h
    split at h
    · rename_i k hp
      cases h
      exact .inr ⟨rfl, k, hp, rfl⟩
    · cases h
  | finish =>
    simp only [Req.move] at h
    split at h
    · split at h
      · cases h
      · cases h
        exact .inl ⟨rfl, by simp [Req.finished, Req.event]⟩
    · cases h
  | _ =>
    simp only [Req.move] at h
    split at h <;> cases h <;> exact .inl ⟨rfl, by simp [Req.started]⟩

/-- Only a commit changes the committed store. -/
theorem Req.move_db {lost : ε} {s : Sys D J ε α} {i : ℕ} {r r' : Req D J ε α} {a : Act N} {db' aux'}
    (h : r.move lost s i a = some (r', db', aux')) : db' = s.db ∨
      a = .commit ∧ ∃ k, r.prog = .commit k ∧ db' = D.applyAll s.db (pendOf r.log) :=
  (Req.move_cases h).imp And.left id

/-- A step that leaves the past of the request, and no statement running. -/
theorem Req.fail_of_move {lost : ε} {s : Sys D J ε α} {i : ℕ} {r r' : Req D J ε α} {a : Act N} {db' aux'}
    (h : r.move lost s i a = some (r', db', aux')) (hlog : r'.log = r.log) (hrun : r'.running = none) :
    a = .fail := by
  cases a with
  | fail => rfl
  | finish =>
    simp only [Req.move] at h
    split at h
    · split at h
      · cases h
      · cases h
        simp [Req.finished] at hlog
    · cases h
  | start =>
    simp only [Req.move] at h
    split at h
    · cases h
      simp [Req.started] at hrun
    · cases h
  | _ =>
    simp only [Req.move] at h
    split at h <;> cases h
    simp at hlog

/-! ### What a step leaves -/

/-- What stays of a request: its job, its past, and its end. -/
structure Req.Later (r r' : Req D J ε α) : Prop where
  job : r'.job = r.job
  log : r.log <:+ r'.log
  ended : r.ended = true → r' = r

theorem Req.Later.refl (r : Req D J ε α) : r.Later r := ⟨rfl, List.suffix_refl _, fun _ => rfl⟩

theorem Req.Later.trans {r r' r'' : Req D J ε α} (h : r.Later r') (h' : r'.Later r'') :
    r.Later r'' where
  job := h'.job.trans h.job
  log := h.log.trans h'.log
  ended he := by
    obtain rfl := h.ended he
    exact h'.ended he

theorem Move.later {lost : ε} {s : Sys D J ε α} {i : ℕ} {r r' : Req D J ε α} {db' aux'}
    (h : Move lost s i r r' db' aux') : r.ended = false ∧ r.Later r' := by
  cases h with
  | start hp | finish hp | now hp | draw n hp | commit hp | rollback hp =>
    have he : r.ended = false := by simp [Req.ended, hp]
    exact ⟨he, rfl, by simp [Req.started, Req.finished], by simp [he]⟩
  | fail hp =>
    have he : r.ended = false := by
      obtain ⟨_, _, hp⟩ | ⟨_, hp⟩ := hp <;> simp [Req.ended, hp]
    exact ⟨he, rfl, by simp, by simp [he]⟩

/-- The requests after an arrival. -/
theorem getElem?_arrive_cases {r q : Req D J ε α} {rs : List (Req D J ε α)} {j : ℕ}
    (h : (rs ++ [r])[j]? = some q) : rs[j]? = some q ∨ (j = rs.length ∧ q = r) := by
  rw [List.getElem?_append] at h
  split_ifs at h with hj
  · exact .inl h
  · have hlt := (List.getElem?_eq_some_iff.mp h).1
    have hj' : j - rs.length = 0 := by simpa using hlt
    rw [hj'] at h
    exact .inr ⟨by omega, (Option.some.inj h).symm⟩

theorem Req.pend_of_not_ended {r : Req D J ε α} (h : r.ended = false) : r.pend = pendOf r.log := by
  simp [Req.pend, h]

theorem Req.pend_eq (r : Req D J ε α) : r.pend = [] ∨ r.pend = pendOf r.log := by
  cases h : r.ended <;> simp [Req.pend, h]

/-- The effect of a step on the store and on what is pending and committed:
    none, the writes of a statement, or a commit. -/
theorem Move.effect {lost : ε} {s : Sys D J ε α} {i : ℕ} {r r' : Req D J ε α} {db' aux'}
    (h : Move lost s i r r' db' aux') :
    (db' = s.db ∧ doneOf r'.log = doneOf r.log ∧ (r'.pend = [] ∨ r'.pend = r.pend)) ∨
    (∃ st k snap, r.prog = .stmt st k ∧ r.running = some snap ∧
      s.blocked i r.pend st snap = false ∧ db' = s.db ∧ doneOf r'.log = doneOf r.log ∧
      (r'.pend = [] ∨ r'.pend = r.pend ++ (r.exec s st snap).2.1)) ∨
    (∃ k, r.prog = .commit k ∧ db' = D.applyAll s.db r.pend ∧
      doneOf r'.log = doneOf r.log ++ r.pend ∧ r'.pend = []) := by
  have he := Req.pend_of_not_ended h.later.1
  rw [he]
  cases h with
  | start hp hr => exact .inl ⟨rfl, rfl, Req.pend_eq _⟩
  | finish hp hr hb => exact .inr (.inl ⟨_, _, _, hp, hr, hb, rfl, rfl, Req.pend_eq _⟩)
  | now hp | draw n hp => exact .inl ⟨rfl, rfl, Req.pend_eq _⟩
  | commit hp => exact .inr (.inr ⟨_, hp, rfl, rfl, (Req.pend_eq _).elim id id⟩)
  | rollback hp => exact .inl ⟨rfl, rfl, .inl ((Req.pend_eq _).elim id id)⟩
  | fail hp => exact .inl ⟨rfl, rfl, .inl rfl⟩

theorem Sys.not_blocked {s : Sys D J ε α} {i : ℕ} {ws : List D.Write} {st : D.Stmt}
    {snap : D.Store} (h : s.blocked i ws st snap = false) {j : ℕ} {q : Req D J ε α}
    (hij : i ≠ j) (hq : s.reqs[j]? = some q) :
    D.blocks st s.aux (D.applyAll snap ws) (D.applyAll s.db ws) q.pend = false := by
  have hq : q ∈ s.reqs.eraseIdx i := List.mem_eraseIdx_iff_getElem?.mpr ⟨j, hij.symm, hq⟩
  simpa using List.any_eq_false.mp h q hq

/-- The requests after a step. -/
theorem getElem?_set_cases {r' q : Req D J ε α} {rs : List (Req D J ε α)} {i j : ℕ}
    (h : (rs.set i r')[j]? = some q) : (i = j ∧ q = r') ∨ (i ≠ j ∧ rs[j]? = some q) := by
  rw [List.getElem?_set] at h
  split_ifs at h with hij hi
  · exact .inl ⟨hij, (Option.some.inj h).symm⟩
  · exact .inr ⟨hij, h⟩

/-- `E` orders committed stores by age. -/
structure Grows (E : D.Store → D.Store → Prop) : Prop where
  refl : ∀ st, E st st
  trans : ∀ {st st' st''}, E st st' → E st' st'' → E st st''
  apply : ∀ st w, E st (D.apply st w)

theorem Grows.applyAll {E : D.Store → D.Store → Prop} (hE : Grows E) (ws : List D.Write) :
    ∀ st, E st (D.applyAll st ws) := by
  induction ws with
  | nil => exact hE.refl
  | cons w ws ih => exact fun st => hE.trans (hE.apply st w) (ih _)

theorem Move.grows {E : D.Store → D.Store → Prop} (hE : Grows E) {lost : ε} {s : Sys D J ε α}
    {i : ℕ} {r r' : Req D J ε α} {db' aux'} (h : Move lost s i r r' db' aux') : E s.db db' := by
  cases h with
  | commit => exact hE.applyAll _ _
  | _ => exact hE.refl _

/-! ## Interleavings -/

section
variable [LinearOrder T] (V : Service D J ε α)

def step (s : Sys D J ε α) : Label J T N → Option (Sys D J ε α)
  | .arrive j => some { s with reqs := s.reqs ++ [⟨j, V.prog j, [], none, none⟩] }
  | .tick t => if s.clock ≤ t then some { s with clock := t } else none
  | .act i a => do
    let r ← s.reqs[i]?
    let m ← r.move V.lost s i a
    some ⟨m.2.1, m.2.2, s.clock, s.reqs.set i m.1⟩

/-- `s'` is reached from `s` by steps `l`, each taken in a state `s` with `C s l`. -/
def Reach (C : Sys D J ε α → Label J T N → Prop) : Sys D J ε α → Sys D J ε α → Prop :=
  ReflTransGen fun s s' => ∃ l, C s l ∧ step V s l = some s'

/-- Every interleaving. -/
def Any : Sys D J ε α → Label J T N → Prop := fun _ _ => True

/-- One request after the other. -/
def Serial : Sys D J ε α → Label J T N → Prop
  | s, .arrive _ => ∀ r ∈ s.reqs, r.ended = true
  | _, _ => True

/-- Only jobs with `p` arrive. -/
def Arrivals (p : J → Prop) : Sys D J ε α → Label J T N → Prop
  | _, .arrive j => p j
  | _, _ => True

/-- Only jobs with `p` arrive, one request after the other. -/
def SerialOf (p : J → Prop) (s : Sys D J ε α) (l : Label J T N) : Prop := Serial s l ∧ Arrivals p s l

instance (s : Sys D J ε α) (l : Label J T N) : Decidable (Any s l) := inferInstanceAs (Decidable True)

instance (s : Sys D J ε α) : ∀ l : Label J T N, Decidable (Serial s l)
  | .arrive _ => inferInstanceAs (Decidable (∀ r ∈ s.reqs, r.ended = true))
  | .tick _ | .act _ _ => inferInstanceAs (Decidable True)

instance (p : J → Prop) [DecidablePred p] (s : Sys D J ε α) :
    ∀ l : Label J T N, Decidable (Arrivals p s l)
  | .arrive j => inferInstanceAs (Decidable (p j))
  | .tick _ | .act _ _ => inferInstanceAs (Decidable True)

instance (p : J → Prop) [DecidablePred p] (s : Sys D J ε α) (l : Label J T N) :
    Decidable (SerialOf p s l) := inferInstanceAs (Decidable (_ ∧ _))

variable {V}

theorem Reach.mono {C C' : Sys D J ε α → Label J T N → Prop} (hC : ∀ s l, C s l → C' s l)
    {s s' : Sys D J ε α} (h : Reach V C s s') : Reach V C' s s' :=
  ReflTransGen.mono (fun _ _ ⟨l, hl, hs⟩ => ⟨l, hC _ _ hl, hs⟩) _ _ h

omit [LinearOrder T] in
theorem SerialOf.mono {p p' : J → Prop} (hp : ∀ j, p j → p' j) {s : Sys D J ε α} {l : Label J T N}
    (h : SerialOf p s l) : SerialOf p' s l := by
  refine ⟨h.1, ?_⟩
  cases l with
  | arrive j => exact hp j h.2
  | tick | act => trivial

/-- The cases of one step. -/
inductive Step (V : Service D J ε α) (s : Sys D J ε α) : Label J T N → Sys D J ε α → Prop where
  | arrive (j : J) : Step V s (.arrive j)
      ⟨s.db, s.aux, s.clock, s.reqs ++ [⟨j, V.prog j, [], none, none⟩]⟩
  | tick (t : T) (ht : s.clock ≤ t) : Step V s (.tick t) ⟨s.db, s.aux, t, s.reqs⟩
  | act {i : ℕ} {a : Act N} {r r' : Req D J ε α} {db' aux'} (hr : s.reqs[i]? = some r)
      (ha : r.move V.lost s i a = some (r', db', aux')) (hm : Move V.lost s i r r' db' aux') :
      Step V s (.act i a) ⟨db', aux', s.clock, s.reqs.set i r'⟩

theorem step_cases {s s' : Sys D J ε α} {l : Label J T N} (h : step V s l = some s') :
    Step V s l s' := by
  cases l with
  | arrive j => obtain rfl := Option.some.inj h; exact .arrive j
  | tick t =>
    simp only [step] at h
    split_ifs at h with ht
    obtain rfl := Option.some.inj h
    exact .tick t ht
  | act i a =>
    simp only [step, Option.bind_eq_bind, Option.bind_eq_some_iff] at h
    obtain ⟨r, hr, ⟨r', db', aux'⟩, hm, h⟩ := h
    obtain rfl := Option.some.inj h
    exact .act hr hm (Move.of_move hm)

/-- **The rule of invariants**: what every step preserves holds throughout. -/
theorem Reach.inv {C : Sys D J ε α → Label J T N → Prop} {I : Sys D J ε α → Prop}
    (hI : ∀ s l s', I s → C s l → Step V s l s' → I s') {s s' : Sys D J ε α}
    (h : Reach V C s s') (hs : I s) : I s' := by
  induction h with
  | refl => exact hs
  | tail _ h ih =>
    obtain ⟨l, hl, h⟩ := h
    exact hI _ l _ ih hl (step_cases h)

theorem Reach.trans {C : Sys D J ε α → Label J T N → Prop} {s s' s'' : Sys D J ε α}
    (h : Reach V C s s') (h' : Reach V C s' s'') : Reach V C s s'' := ReflTransGen.trans h h'

/-- The rule of invariants for the committed store: what every commit keeps,
    and the passing of time. -/
theorem Reach.store_inv {C : Sys D J ε α → Label J T N → Prop} {P : T → D.Store → Prop}
    {s s' : Sys D J ε α} (htick : ∀ c c' db, c ≤ c' → P c db → P c' db)
    (hcommit : ∀ s₁ i r k, Reach V C s s₁ → C s₁ (.act i .commit) → s₁.reqs[i]? = some r →
      r.prog = .commit k → P s₁.clock s₁.db → P s₁.clock (D.applyAll s₁.db (pendOf r.log)))
    (h : Reach V C s s') (hs : P s.clock s.db) : P s'.clock s'.db := by
  induction h with
  | refl => exact hs
  | tail h₁ hst ih =>
    obtain ⟨l, hl, hst⟩ := hst
    cases step_cases hst with
    | arrive => exact ih
    | tick t ht => exact htick _ _ _ ht ih
    | act hr ha _ =>
      rcases Req.move_db ha with rfl | ⟨rfl, k, hp, rfl⟩
      · exact ih
      · exact hcommit _ _ _ k h₁ hl hr hp ih

theorem Reach.later {C : Sys D J ε α → Label J T N → Prop} {s s' : Sys D J ε α}
    (h : Reach V C s s') {i : ℕ} {r : Req D J ε α} (hr : s.reqs[i]? = some r) :
    ∃ r', s'.reqs[i]? = some r' ∧ r.Later r' := by
  refine h.inv (I := fun s' => ∃ r', s'.reqs[i]? = some r' ∧ r.Later r') ?_ ⟨r, hr, .refl r⟩
  rintro s l s' ⟨q, hq, hrq⟩ - hst
  cases hst with
  | arrive j =>
    exact ⟨q, by rw [List.getElem?_append_left (List.getElem?_eq_some_iff.mp hq).1, hq], hrq⟩
  | tick t => exact ⟨q, hq, hrq⟩
  | @act k a r₀ r' _ _ hr₀ _ hm =>
    by_cases hik : k = i
    · subst hik
      obtain rfl : q = r₀ := Option.some.inj (hq.symm.trans hr₀)
      refine ⟨r', ?_, hrq.trans hm.later.2⟩
      simp [(List.getElem?_eq_some_iff.mp hq).1]
    · exact ⟨q, by simp [hik, hq], hrq⟩

/-- A request that arrives after `s` sees stores of states reached from `s`. -/
theorem Reach.saw {C : Sys D J ε α → Label J T N → Prop} {s s' : Sys D J ε α}
    (h : Reach V C s s') {P : D.Store → Prop} (hP : ∀ s₁, Reach V C s s₁ → P s₁.db) {i : ℕ}
    {r : Req D J ε α} (hi : s.reqs.length ≤ i) (hr : s'.reqs[i]? = some r) :
    (∀ st b aux snap cur, .stmt st b aux snap cur ∈ r.log → P snap ∧ P cur) ∧
      ∀ snap, r.running = some snap → P snap := by
  induction h generalizing i r with
  | refl => simp [List.getElem?_eq_none hi] at hr
  | @tail s₁ s₂ h₁ hst ih =>
    have hdb := hP s₁ h₁
    obtain ⟨l, _, hst⟩ := hst
    cases step_cases hst with
    | tick => exact ih hi hr
    | arrive j =>
      rcases getElem?_arrive_cases hr with hr | ⟨_, rfl⟩
      · exact ih hi hr
      · simp
    | act hr₀ _ hm =>
      rcases getElem?_set_cases hr with ⟨rfl, rfl⟩ | ⟨_, hr⟩
      · obtain ⟨hlog, hrun⟩ := ih hi hr₀
        cases hm with
        | start => exact ⟨hlog, fun snap h => Option.some.inj h ▸ hdb⟩
        | finish _ hn =>
          refine ⟨fun st b aux snap cur h => ?_, by simp [Req.finished]⟩
          rcases List.mem_cons.mp h with h | h
          · cases h
            exact ⟨hrun _ hn, hdb⟩
          · exact hlog _ _ _ _ _ h
        | now | draw | commit | rollback =>
          refine ⟨fun st b aux snap cur h => ?_, hrun⟩
          rcases List.mem_cons.mp h with h | h
          · cases h
          · exact hlog _ _ _ _ _ h
        | fail => exact ⟨hlog, by simp⟩
      · exact ih hi hr

/-- The requests have jobs that may arrive. -/
theorem Reach.job {C : Sys D J ε α → Label J T N → Prop} {p : J → Prop}
    (hC : ∀ s l, C s l → Arrivals p s l) {s s' : Sys D J ε α} (h : Reach V C s s')
    (hs : ∀ (i : ℕ) r, s.reqs[i]? = some r → p r.job) :
    ∀ (i : ℕ) r, s'.reqs[i]? = some r → p r.job := by
  refine h.inv (I := fun s' => ∀ (i : ℕ) r, s'.reqs[i]? = some r → p r.job) ?_ hs
  rintro s l s' hs hl hst i r hr
  cases hst with
  | tick => exact hs i r hr
  | arrive j =>
    rcases getElem?_arrive_cases hr with hr | ⟨_, rfl⟩
    · exact hs i r hr
    · exact hC _ _ hl
  | act hr₀ _ hm =>
    rcases getElem?_set_cases hr with ⟨_, rfl⟩ | ⟨_, hr⟩
    · exact hm.later.2.job ▸ hs _ _ hr₀
    · exact hs i r hr

omit [LinearOrder T] in
/-- A step starts a statement, or leaves none running. -/
theorem Move.idle {lost : ε} {s : Sys D J ε α} {i : ℕ} {r r' : Req D J ε α} {db' aux'}
    (hrun : r.running.isSome → ∃ st k, r.prog = .stmt st k) (h : Move lost s i r r' db' aux') :
    r'.running = none ∨ ∃ st k, r.prog = .stmt st k ∧ r.running = none ∧ r' = r.started s ∧ db' = s.db := by
  cases h with
  | start hp hr => exact .inr ⟨_, _, hp, hr, rfl, rfl⟩
  | finish | fail => exact .inl rfl
  | now hp | draw n hp | commit hp | rollback hp =>
    refine .inl (Option.not_isSome_iff_eq_none.mp fun hsome => ?_)
    obtain ⟨st, k, hst⟩ := hrun hsome
    rw [hst] at hp
    cases hp

/-- Only a statement has a snapshot. -/
theorem Reach.running_stmt {C : Sys D J ε α → Label J T N → Prop} {s s' : Sys D J ε α}
    (h : Reach V C s s') (hs : ∀ r ∈ s.reqs, r.running.isSome → ∃ st k, r.prog = .stmt st k) :
    ∀ r ∈ s'.reqs, r.running.isSome → ∃ st k, r.prog = .stmt st k := by
  refine h.inv (I := fun s' => ∀ r ∈ s'.reqs, r.running.isSome → ∃ st k, r.prog = .stmt st k) ?_ hs
  rintro s l s' hs - hst
  cases hst with
  | tick => exact hs
  | arrive j =>
    intro r hr
    rcases List.mem_append.mp hr with hr | hr
    · exact hs r hr
    · obtain rfl := List.mem_singleton.mp hr
      simp
  | @act i a r r' db' aux' hr _ hm =>
    intro q hq
    rcases List.mem_or_eq_of_mem_set hq with hq | rfl
    · exact hs q hq
    · rcases hm.idle (hs r (List.mem_of_getElem? hr)) with hidle | ⟨st, k, hp, -, rfl, -⟩
      · simp [hidle]
      · exact fun _ => ⟨st, k, hp⟩

/-! ### Executable runs -/

/-- What a request does next; `n` is the nonce if it draws one. -/
def Req.next (n : N) (r : Req D J ε α) : Option (Act N) :=
  match r.prog, r.running with
  | .stmt _ _, none => some .start
  | .stmt _ _, some _ => some .finish
  | .now _, _ => some .now
  | .draw _, _ => some (.draw n)
  | .commit _, _ => some .commit
  | .rollback _, _ => some .rollback
  | .ret _, _ | .raise _, _ => none

/-- A part of a run: an arrival, the clock, or some steps of one request. -/
inductive Turn (J T N : Type) where
  | arrive (j : J)
  | tick (t : T)
  | steps (i : ℕ) (n : N) (count : ℕ)

section
variable (V : Service D J ε α) (C : Sys D J ε α → Label J T N → Prop) [∀ s l, Decidable (C s l)]

/-- One step that satisfies `C`. -/
def stepIf (s : Sys D J ε α) (l : Label J T N) : Option (Sys D J ε α) :=
  if C s l then step V s l else none

/-- The next steps of request `i`, until it ends or is held up. -/
def drive (i : ℕ) (n : N) : ℕ → Sys D J ε α → Sys D J ε α
  | 0, s => s
  | count + 1, s =>
    match (s.reqs[i]?.bind (Req.next n)).bind fun a => stepIf V C s (.act i a) with
    | none => s
    | some s' => drive i n count s'

def play (s : Sys D J ε α) : List (Turn J T N) → Option (Sys D J ε α)
  | [] => some s
  | .arrive j :: ts => (stepIf V C s (.arrive j)).bind (play · ts)
  | .tick t :: ts => (stepIf V C s (.tick t)).bind (play · ts)
  | .steps i n count :: ts => play (drive V C i n count s) ts

variable {V C} {s s' : Sys D J ε α}

theorem Reach.of_stepIf {l : Label J T N} (h : stepIf V C s l = some s') : Reach V C s s' := by
  unfold stepIf at h
  split_ifs at h with hC
  exact .single ⟨l, hC, h⟩

theorem Reach.drive (i : ℕ) (n : N) : ∀ (count : ℕ) (s : Sys D J ε α),
    Reach V C s (drive V C i n count s)
  | 0, _ => .refl
  | count + 1, s => by
    unfold Txn.drive
    split
    · exact .refl
    · rename_i s₁ h
      obtain ⟨a, -, ha⟩ := Option.bind_eq_some_iff.mp h
      exact (Reach.of_stepIf ha).trans (Reach.drive i n count s₁)

/-- An executed run is an interleaving. -/
theorem Reach.of_play : ∀ {ts : List (Turn J T N)} {s : Sys D J ε α},
    play V C s ts = some s' → Reach V C s s'
  | [], s, h => Option.some.inj h ▸ .refl
  | t :: ts, s, h => by
    cases t with
    | arrive j | tick t =>
      obtain ⟨s₁, h1, h2⟩ := Option.bind_eq_some_iff.mp h
      exact (Reach.of_stepIf h1).trans (Reach.of_play h2)
    | steps i n count => exact (Reach.drive i n count s).trans (Reach.of_play h)

/-- A run to a state with `p`. -/
theorem Reach.of_play_any {ts : List (Turn J T N)} {p : Sys D J ε α → Bool}
    (h : (play V C s ts).any p = true) : ∃ s', Reach V C s s' ∧ p s' = true := by
  obtain ⟨s', hs', hp⟩ := (Option.any_eq_true _ _).mp h
  exact ⟨s', .of_play hs', hp⟩

end

/-! ## Rules and snapshots -/

/-- The programs keep the rules `W` of their jobs, and answer as `Q` says,
    whatever else is committed between their steps; every commit keeps `I`. -/
structure Keeps (V : Service D J ε α) (I : D.Store → Prop) (W : J → Rules D ε)
    (Q : J → List (Ev D) → α → Prop) : Prop where
  ok : ∀ j, (V.prog j).Ok I (W j) (Q j) []
  stmt_lost : ∀ j h s, (W j).stmt h s → (W j).raise h V.lost
  commit_lost : ∀ j h, (W j).commit h → (W j).raise h V.lost
  inv : ∀ j h db, Kept I (W j) h → (W j).commit h → I db → I (D.applyAll db (pendOf h))

/-- The same of the jobs with `p`, where nothing else arrives and the database
    fails as `C` allows. -/
structure KeepsOn (V : Service D J ε α) (p : J → Prop) (C : Sys D J ε α → Label J T N → Prop)
    (I : D.Store → Prop) (W : J → Rules D ε) (Q : J → List (Ev D) → α → Prop) : Prop where
  ok : ∀ j, p j → (V.prog j).Ok I (W j) (Q j) []
  arrives : ∀ s l, C s l → Arrivals p s l
  lost : ∀ s i r, C s (.act i .fail) → s.reqs[i]? = some r →
    (∃ st, (W r.job).stmt r.log st) ∨ (W r.job).commit r.log → (W r.job).raise r.log V.lost
  inv : ∀ j h db, p j → Kept I (W j) h → (W j).commit h → I db → I (D.applyAll db (pendOf h))

omit [LinearOrder T] in
theorem Keeps.on {V : Service D J ε α} {I : D.Store → Prop} {W : J → Rules D ε}
    {Q : J → List (Ev D) → α → Prop} (hV : Keeps V I W Q) : KeepsOn V (fun _ => True) Any I W Q where
  ok j _ := hV.ok j
  arrives _ l _ := by cases l <;> trivial
  lost _ _ r _ _ h := h.elim (fun ⟨st, hst⟩ => hV.stmt_lost _ _ st hst) (hV.commit_lost _ _)
  inv j h db _ := hV.inv j h db

omit [LinearOrder T] in
/-- Further rules that the programs keep. -/
theorem Keeps.and {V : Service D J ε α} {I : D.Store → Prop} {W W' : J → Rules D ε}
    {Q Q' : J → List (Ev D) → α → Prop} (hV : Keeps V I W Q)
    (hok : ∀ j, (V.prog j).Ok I (W' j) (Q' j) [])
    (hstmt : ∀ j h s, (W' j).stmt h s → (W' j).raise h V.lost)
    (hcommit : ∀ j h, (W' j).commit h → (W' j).raise h V.lost) :
    Keeps V I (fun j => (W j).and (W' j)) fun j h a => Q j h a ∧ Q' j h a where
  ok j := (hV.ok j).and (hok j)
  stmt_lost j h s hs := ⟨hV.stmt_lost j h s hs.1, hstmt j h s hs.2⟩
  commit_lost j h hc := ⟨hV.commit_lost j h hc.1, hcommit j h hc.2⟩
  inv j h db hk hc := hV.inv j h db hk.left hc.1

/-- The committed store only gets older. -/
theorem Reach.grows {E : D.Store → D.Store → Prop} (hE : Grows E)
    {C : Sys D J ε α → Label J T N → Prop} {s s' : Sys D J ε α} (h : Reach V C s s') :
    E s.db s'.db := by
  refine h.inv (I := fun s' => E s.db s'.db) ?_ (hE.refl _)
  rintro s l s' hs - hst
  cases hst with
  | arrive | tick => exact hs
  | act hr _ hm => exact hE.trans hs (hm.grows hE)

/-- The event happened before the moment `c`, when `db` is the committed store. -/
def Ev.Past (E : D.Store → D.Store → Prop) (db : D.Store) (c : T) : Ev D → Prop
  | .now t => t ≤ c
  | .stmt _ b _ snap cur => b ≤ c ∧ E snap cur ∧ E cur db
  | _ => True

section
variable (I : D.Store → Prop) (W : J → Rules D ε) (Q : J → List (Ev D) → α → Prop) (E : D.Store → D.Store → Prop)

structure Req.Sound (db : D.Store) (c : T) (r : Req D J ε α) : Prop where
  kept : Kept I (W r.job) r.log
  ok : r.prog.Ok I (W r.job) (Q r.job) r.log
  past : ∀ e ∈ r.log, e.Past E db c
  running : ∀ snap, r.running = some snap → I snap ∧ E snap db
  began : ∀ b, r.began = some b → b ≤ c

structure Sys.Sound (s : Sys D J ε α) : Prop where
  inv : I s.db
  req : ∀ (i : ℕ) r, s.reqs[i]? = some r → r.Sound I W Q E s.db s.clock

end

section
variable {I : D.Store → Prop} {W : J → Rules D ε} {Q : J → List (Ev D) → α → Prop}
  {E : D.Store → D.Store → Prop} {db db' : D.Store} {c c' : T}

theorem Ev.Past.mono (hE : Grows E) (hdb : E db db') (hc : c ≤ c') {e : Ev D}
    (h : e.Past E db c) : e.Past E db' c' := by
  cases e with
  | now t => exact le_trans h hc
  | stmt st b aux snap cur => exact ⟨h.1.trans hc, h.2.1, hE.trans h.2.2 hdb⟩
  | draw | commit | rollback => trivial

theorem Req.Sound.mono (hE : Grows E) (hdb : E db db') (hc : c ≤ c') {r : Req D J ε α}
    (h : r.Sound I W Q E db c) : r.Sound I W Q E db' c' where
  kept := h.kept
  ok := h.ok
  past e he := (h.past e he).mono hE hdb hc
  running snap hr := ⟨(h.running snap hr).1, hE.trans (h.running snap hr).2 hdb⟩
  began b hb := (h.began b hb).trans hc

theorem Req.Sound.began_le {r : Req D J ε α} (h : r.Sound I W Q E db c) : r.began.getD c ≤ c := by
  cases hb : r.began with
  | none => exact le_rfl
  | some b => exact h.began b hb

/-- A step of a sound request leads to a sound one. -/
theorem Move.request_sound {lost : ε} (hE : Grows E) {s : Sys D J ε α} {i : ℕ} {r r' : Req D J ε α} {aux'}
    (hlost : r'.log = r.log → r'.running = none → (∃ st, (W r.job).stmt r.log st) ∨ (W r.job).commit r.log →
      (W r.job).raise r.log lost)
    (hs : I s.db) (hr : r.Sound I W Q E s.db s.clock)
    (h : Move lost s i r r' db' aux') : r'.Sound I W Q E db' s.clock := by
  have hp := hr.ok
  have old : r.Sound I W Q E db' s.clock := hr.mono hE (h.grows hE) le_rfl
  cases h with
  | @start st k e hn =>
    exact ⟨old.kept, old.ok, old.past, fun snap h => Option.some.inj h ▸ ⟨hs, hE.refl _⟩,
      fun b h => Option.some.inj h ▸ hr.began_le⟩
  | @finish st k snap e hn hb =>
    rw [e] at hp
    obtain ⟨hi, hsn⟩ := hr.running snap hn
    refine ⟨⟨hp.1, hi, hs, hr.kept⟩, hp.2 _ _ _ _ hi hs, ?_, by simp [Req.finished], old.began⟩
    exact List.forall_mem_cons.mpr ⟨⟨hr.began_le, hsn, hE.refl _⟩, old.past⟩
  | now e =>
    rw [e] at hp
    exact ⟨hr.kept, hp _, List.forall_mem_cons.mpr ⟨le_rfl, old.past⟩, old.running, old.began⟩
  | draw n e =>
    rw [e] at hp
    exact ⟨hr.kept, hp _, List.forall_mem_cons.mpr ⟨trivial, old.past⟩, old.running, old.began⟩
  | commit e =>
    rw [e] at hp
    exact ⟨⟨hp.1, hr.kept⟩, hp.2, List.forall_mem_cons.mpr ⟨trivial, old.past⟩, old.running, by simp⟩
  | rollback e =>
    rw [e] at hp
    exact ⟨hr.kept, hp, List.forall_mem_cons.mpr ⟨trivial, old.past⟩, old.running, by simp⟩
  | fail e =>
    refine ⟨hr.kept, hlost rfl rfl ?_, old.past, by simp, old.began⟩
    obtain ⟨st, k, e⟩ | ⟨k, e⟩ := e
    · rw [e] at hp; exact .inl ⟨st, hp.1⟩
    · rw [e] at hp; exact .inr hp.1

/-- The same, where a commit keeps `I`. -/
theorem Move.sound {lost : ε} (hE : Grows E) {s : Sys D J ε α} {i : ℕ} {r r' : Req D J ε α} {aux'}
    (hinv : Kept I (W r.job) r.log → (W r.job).commit r.log → I s.db → I (D.applyAll s.db (pendOf r.log)))
    (hlost : r'.log = r.log → r'.running = none → (∃ st, (W r.job).stmt r.log st) ∨ (W r.job).commit r.log →
      (W r.job).raise r.log lost)
    (hs : I s.db) (hr : r.Sound I W Q E s.db s.clock)
    (h : Move lost s i r r' db' aux') : I db' ∧ r'.Sound I W Q E db' s.clock := by
  refine ⟨?_, h.request_sound hE hlost hs hr⟩
  cases h with
  | commit e =>
    have hp := hr.ok
    rw [e] at hp
    exact hinv hr.kept hp.1 hs
  | _ => exact hs

theorem Step.sound_on {p : J → Prop} {C : Sys D J ε α → Label J T N → Prop} (hV : KeepsOn V p C I W Q)
    (hE : Grows E) {s s' : Sys D J ε α} {l : Label J T N} (hs : s.Sound I W Q E)
    (hj : ∀ (i : ℕ) r, s.reqs[i]? = some r → p r.job) (hl : C s l) (h : Step V s l s') :
    s'.Sound I W Q E := by
  cases h with
  | arrive j =>
    refine ⟨hs.inv, fun i r hr => ?_⟩
    rcases getElem?_arrive_cases hr with hr | ⟨_, rfl⟩
    · exact hs.req i r hr
    · exact ⟨trivial, hV.ok j (hV.arrives _ _ hl), by simp, by simp, by simp⟩
  | tick t ht => exact ⟨hs.inv, fun i r hr => (hs.req i r hr).mono hE (hE.refl _) ht⟩
  | @act i a r r' db' aux' hr ha hm =>
    obtain ⟨hdb, hr'⟩ := hm.sound hE (hV.inv _ _ _ (hj i r hr))
      (fun hlog hrun => hV.lost s i r (Req.fail_of_move ha hlog hrun ▸ hl) hr) hs.inv (hs.req i r hr)
    refine ⟨hdb, fun j q hq => ?_⟩
    rcases getElem?_set_cases hq with ⟨_, rfl⟩ | ⟨_, hq⟩
    · exact hr'
    · exact (hs.req j q hq).mono hE (hm.grows hE) le_rfl

theorem Step.sound (hV : Keeps V I W Q) (hE : Grows E) {s s' : Sys D J ε α} {l : Label J T N}
    (hs : s.Sound I W Q E) (h : Step V s l s') : s'.Sound I W Q E :=
  h.sound_on hV.on hE hs (fun _ _ _ => trivial) trivial

/-- **Every interleaving is sound.** -/
theorem Reach.sound (hV : Keeps V I W Q) (hE : Grows E) {C : Sys D J ε α → Label J T N → Prop}
    {s s' : Sys D J ε α} (h : Reach V C s s') (hs : s.Sound I W Q E) : s'.Sound I W Q E :=
  h.inv (fun _ _ _ h _ hst => hst.sound hV hE h) hs

/-- Every interleaving in which the jobs have `p` and the database fails as `C` allows. -/
theorem Reach.sound_on {p : J → Prop} {C : Sys D J ε α → Label J T N → Prop} (hV : KeepsOn V p C I W Q)
    (hE : Grows E) {s s' : Sys D J ε α} (h : Reach V C s s') (hs : s.Sound I W Q E)
    (hj : ∀ (i : ℕ) r, s.reqs[i]? = some r → p r.job) : s'.Sound I W Q E := by
  induction h with
  | refl => exact hs
  | tail h₁ hst ih =>
    obtain ⟨l, hl, hst⟩ := hst
    exact (step_cases hst).sound_on hV hE ih (Reach.job hV.arrives h₁ hj) hl

/-- The same for programs that are `Ok` on the stores with `I`, if all stores of
    the interleaving are known to have it. -/
theorem Reach.sound_of_inv (hok : ∀ j, (V.prog j).Ok I (W j) (Q j) [])
    (hlost : ∀ j h, (∃ st, (W j).stmt h st) ∨ (W j).commit h → (W j).raise h V.lost) (hE : Grows E)
    {C : Sys D J ε α → Label J T N → Prop} {s s' : Sys D J ε α} (hI : ∀ s₁, Reach V C s s₁ → I s₁.db)
    (h : Reach V C s s') (hs : s.Sound I W Q E) : s'.Sound I W Q E := by
  induction h with
  | refl => exact hs
  | @tail s₁ s₂ h₁ hst ih =>
    have hinv := hI _ (h₁.tail hst)
    obtain ⟨l, -, hst⟩ := hst
    cases step_cases hst with
    | arrive j =>
      refine ⟨hinv, fun i r hr => ?_⟩
      rcases getElem?_arrive_cases hr with hr | ⟨_, rfl⟩
      · exact ih.req i r hr
      · exact ⟨trivial, hok j, by simp, by simp, by simp⟩
    | tick t ht => exact ⟨hinv, fun i r hr => (ih.req i r hr).mono hE (hE.refl _) ht⟩
    | @act i a r r' db' aux' hr _ hm =>
      have hr' := hm.request_sound hE (fun _ _ => hlost r.job r.log) ih.inv (ih.req i r hr)
      refine ⟨hinv, fun j q hq => ?_⟩
      rcases getElem?_set_cases hq with ⟨_, rfl⟩ | ⟨_, hq⟩
      · exact hr'
      · exact (ih.req j q hq).mono hE (hm.grows hE) le_rfl

theorem Sys.Sound.init {db : D.Store} {aux : D.Aux} {clock : T} (h : I db) :
    Sys.Sound I W Q E (⟨db, aux, clock, []⟩ : Sys D J ε α) := ⟨h, by simp⟩

end

/-! ## Serial interleavings -/

/-- At most one request runs, and until it commits it has seen the committed
    store. -/
structure Alone (s : Sys D J ε α) : Prop where
  others : ∀ (i : ℕ) r, s.reqs[i]? = some r → r.ended = false →
    ∀ (j : ℕ) q, i ≠ j → s.reqs[j]? = some q → q.ended = true
  saw : ∀ (i : ℕ) r, s.reqs[i]? = some r → r.ended = false → .commit ∉ r.log →
    (∀ st b aux snap cur, .stmt st b aux snap cur ∈ r.log → snap = s.db ∧ cur = s.db) ∧
    ∀ snap, r.running = some snap → snap = s.db

omit [LinearOrder T] in
theorem Move.saw {lost : ε} {s : Sys D J ε α} {i : ℕ} {r r' : Req D J ε α} {db' aux'}
    (h : Move lost s i r r' db' aux') (hc : .commit ∉ r'.log)
    (hr : (∀ st b aux snap cur, .stmt st b aux snap cur ∈ r.log → snap = s.db ∧ cur = s.db) ∧
      ∀ snap, r.running = some snap → snap = s.db) :
    (∀ st b aux snap cur, .stmt st b aux snap cur ∈ r'.log → snap = db' ∧ cur = db') ∧
      ∀ snap, r'.running = some snap → snap = db' := by
  cases h with
  | start => exact ⟨hr.1, fun snap h => (Option.some.inj h).symm⟩
  | @finish st k snap _ hn =>
    refine ⟨fun st' b aux snap' cur h => ?_, by simp [Req.finished]⟩
    rcases List.mem_cons.mp h with h | h
    · cases h; exact ⟨hr.2 _ hn, rfl⟩
    · exact hr.1 _ _ _ _ _ h
  | now | draw | rollback =>
    refine ⟨fun st b aux snap cur h => ?_, hr.2⟩
    rcases List.mem_cons.mp h with h | h
    · cases h
    · exact hr.1 _ _ _ _ _ h
  | commit => exact absurd List.mem_cons_self hc
  | fail => exact ⟨hr.1, by simp⟩

theorem Step.alone {s s' : Sys D J ε α} {l : Label J T N} (hs : Alone s) (hl : Serial s l)
    (h : Step V s l s') : Alone s' := by
  cases h with
  | tick => exact ⟨hs.others, hs.saw⟩
  | arrive j =>
    have old : ∀ (i : ℕ) r, (s.reqs ++ [⟨j, V.prog j, [], none, none⟩])[i]? = some r →
        r.ended = false → i = s.reqs.length ∧ r = ⟨j, V.prog j, [], none, none⟩ := by
      intro i r hr he
      rcases getElem?_arrive_cases hr with hr | hr
      · have := hl r (List.mem_of_getElem? hr)
        simp [he] at this
      · exact hr
    refine ⟨fun i r hr he k q hik hq => ?_, fun i r hr he _ => ?_⟩
    · by_contra hqe
      exact hik ((old i r hr he).1.trans (old k q hq (by simpa using hqe)).1.symm)
    · obtain ⟨_, rfl⟩ := old i r hr he
      exact ⟨by simp, by simp⟩
  | @act i a r r' db' aux' hr _ hm =>
    have rest := hs.others i r hr hm.later.1
    refine ⟨fun j q hq he k p hjk hp => ?_, fun j q hq he hc => ?_⟩
    · rcases getElem?_set_cases hq with ⟨rfl, rfl⟩ | ⟨hj, hq⟩
      · rcases getElem?_set_cases hp with ⟨h, _⟩ | ⟨_, hp⟩
        · exact absurd h hjk
        · exact rest k p hjk hp
      · simp [rest j q hj hq] at he
    · rcases getElem?_set_cases hq with ⟨rfl, rfl⟩ | ⟨hj, hq⟩
      · refine hm.saw hc (hs.saw i r hr hm.later.1 fun h => hc (hm.later.2.log.subset h))
      · simp [rest j q hj hq] at he

theorem Reach.alone {C : Sys D J ε α → Label J T N → Prop} (hC : ∀ s l, C s l → Serial s l)
    {s s' : Sys D J ε α} (h : Reach V C s s') (hs : Alone s) : Alone s' :=
  h.inv (fun _ _ _ h hl hst => hst.alone h (hC _ _ hl)) hs

omit [LinearOrder T] in
theorem Alone.init (db : D.Store) (aux : D.Aux) (clock : T) :
    Alone (⟨db, aux, clock, []⟩ : Sys D J ε α) := ⟨by simp, by simp⟩

/-- A request at one instant. -/
def Env.at (t : T) (nonce : ℕ → N) : Env T N := ⟨t, fun _ => t, nonce⟩

omit [LinearOrder T] in
@[simp] theorem Env.began_at (t : T) (nonce : ℕ → N) : (Env.at t nonce).began = t := rfl

omit [LinearOrder T] in
@[simp] theorem Env.now_at (t : T) (nonce : ℕ → N) (n : ℕ) : (Env.at t nonce).now n = t := rfl

/-- The last request of `s`, at the point `c` of its run. -/
structure AtPoint (s : Sys D J ε α) (rs : List (Req D J ε α)) (r : Req D J ε α) (c : Ctx D) :
    Prop where
  reqs : s.reqs = rs ++ [r]
  ended : ∀ q ∈ rs, q.ended = true
  db : s.db = c.db
  aux : s.aux = c.aux
  pend : pendOf r.log = c.pend
  began : r.began.getD s.clock = s.clock
  running : r.running = none

omit [LinearOrder T] in
/-- Nothing holds up a request that runs alone. -/
theorem not_blocked {s : Sys D J ε α} {rs} {r : Req D J ε α} (h : s.reqs = rs ++ [r])
    (he : ∀ q ∈ rs, q.ended = true) (ws : List D.Write) (st : D.Stmt) (snap : D.Store) :
    s.blocked rs.length ws st snap = false := by
  rw [Sys.blocked, h, List.eraseIdx_append_of_length_le (Nat.le_refl _), List.any_eq_false]
  intro q hq
  have hq : q ∈ rs := by simpa using hq
  simp [Req.pend, he q hq, D.blocks_nil]

/-- One step of the last request. -/
theorem Move.reach {s : Sys D J ε α} {rs} {r r' : Req D J ε α} {db' aux'}
    (hm : Move V.lost s rs.length r r' db' aux') (h : s.reqs = rs ++ [r]) :
    Reach V Serial s ⟨db', aux', s.clock, rs ++ [r']⟩ := by
  obtain ⟨a, ha⟩ := hm.exists_act
  refine .single ⟨.act rs.length a, trivial, ?_⟩
  simp [step, ha, h]

/-- The rest of a request, run alone. -/
theorem AtPoint.run (nonce : ℕ → N) (p : Prog D ε α) :
    ∀ {s : Sys D J ε α} {rs r} {c : Ctx D}, AtPoint s rs r c → r.prog = p →
    ∃ r', Reach V Serial s ⟨(p.run (Env.at s.clock nonce) c).2.db,
      (p.run (Env.at s.clock nonce) c).2.aux, s.clock, rs ++ [r']⟩ ∧
      r'.job = r.job ∧ r'.prog = .lift (p.run (Env.at s.clock nonce) c).1 := by
  induction p with
  | ret a | raise e =>
    intro s rs r c h hp
    refine ⟨r, ?_, rfl, hp⟩
    rw [Prog.run, ← h.db, ← h.aux, ← h.reqs]
    exact .refl
  | now k ih =>
    intro s rs r c h hp
    obtain ⟨r', h1, h2, h3⟩ := ih s.clock
      (s := ⟨s.db, s.aux, s.clock, rs ++ [{ r with prog := k s.clock, log := .now s.clock :: r.log }]⟩)
      (c := { c with reads := c.reads + 1 })
      ⟨rfl, h.ended, h.db, h.aux, h.pend, h.began, h.running⟩ rfl
    exact ⟨r', (Move.reach (.now hp) h.reqs).trans h1, h2, h3⟩
  | draw k ih =>
    intro s rs r c h hp
    obtain ⟨r', h1, h2, h3⟩ := ih (nonce c.draws)
      (s := ⟨s.db, s.aux, s.clock, rs ++ [{ r with prog := k (nonce c.draws)
                                                   log := .draw (nonce c.draws) :: r.log }]⟩)
      (c := { c with draws := c.draws + 1 })
      ⟨rfl, h.ended, h.db, h.aux, h.pend, h.began, h.running⟩ rfl
    exact ⟨r', (Move.reach (.draw (nonce c.draws) hp) h.reqs).trans h1, h2, h3⟩
  | stmt st k ih =>
    intro s rs r c h hp
    have hexec : (r.started s).exec ⟨s.db, s.aux, s.clock, rs ++ [r.started s]⟩ st s.db =
        D.exec st s.clock c.aux c.view c.view := by
      change D.execOn (pendOf r.log) st (r.began.getD s.clock) s.aux s.db s.db = _
      rw [Db.execOn, h.began, h.aux, h.pend, h.db]
      rfl
    have hm : Move V.lost s rs.length r (r.started s) s.db s.aux := .start hp h.running
    have hm' : Move V.lost ⟨s.db, s.aux, s.clock, rs ++ [r.started s]⟩ rs.length (r.started s) _ _ _ :=
      .finish hp rfl (not_blocked rfl h.ended (pendOf r.log) st s.db)
    rw [hexec] at hm'
    obtain ⟨r', h1, h2, h3⟩ := ih (D.exec st s.clock c.aux c.view c.view).2.2
      (s := ⟨s.db, _, s.clock, rs ++ [(r.started s).finished
        ⟨s.db, s.aux, s.clock, rs ++ [r.started s]⟩ st k s.db]⟩) (c := c.after s.clock st)
      ⟨rfl, h.ended, h.db, rfl, congrArg₂ _ h.pend (congrArg (·.2.1) hexec), h.began, rfl⟩
      (by rw [Req.finished, hexec])
    exact ⟨r', ((hm.reach h.reqs).trans (hm'.reach rfl)).trans h1, h2, h3⟩
  | commit k ih =>
    intro s rs r c h hp
    have hdb : D.applyAll s.db (pendOf r.log) = c.view := by rw [h.pend, h.db]; rfl
    obtain ⟨r', h1, h2, h3⟩ := ih
      (s := ⟨_, s.aux, s.clock, rs ++ [{ r with prog := k, log := .commit :: r.log, began := none }]⟩)
      (c := { c with db := c.view, pend := [] })
      ⟨rfl, h.ended, hdb, h.aux, rfl, rfl, h.running⟩ rfl
    exact ⟨r', (Move.reach (.commit hp) h.reqs).trans h1, h2, h3⟩
  | rollback k ih =>
    intro s rs r c h hp
    obtain ⟨r', h1, h2, h3⟩ := ih
      (s := ⟨s.db, s.aux, s.clock, rs ++ [{ r with prog := k, log := .rollback :: r.log, began := none }]⟩)
      (c := { c with pend := [] })
      ⟨rfl, h.ended, h.db, h.aux, rfl, rfl, h.running⟩ rfl
    exact ⟨r', (Move.reach (.rollback hp) h.reqs).trans h1, h2, h3⟩

/-- **Serving a request is an interleaving**: after all others have ended, the
    request `j` may run to its end at the moment `t`. -/
theorem serve_reach {s : Sys D J ε α} (hs : ∀ r ∈ s.reqs, r.ended = true) {t : T}
    (ht : s.clock ≤ t) (nonce : ℕ → N) (j : J) :
    ∃ r, Reach V Serial s ⟨(serve (Env.at t nonce) (V.prog j) s.db s.aux).2.1,
      (serve (Env.at t nonce) (V.prog j) s.db s.aux).2.2, t, s.reqs ++ [r]⟩ ∧
      r.job = j ∧ r.prog = .lift (serve (Env.at t nonce) (V.prog j) s.db s.aux).1 := by
  have h1 : Reach V Serial s ⟨s.db, s.aux, t, s.reqs⟩ :=
    .single ⟨.tick t, trivial, by simp [step, ht]⟩
  have h2 : Reach V Serial ⟨s.db, s.aux, t, s.reqs⟩
      ⟨s.db, s.aux, t, s.reqs ++ [⟨j, V.prog j, [], none, none⟩]⟩ :=
    .single ⟨.arrive j, hs, rfl⟩
  obtain ⟨r, h3, h4, h5⟩ := AtPoint.run (V := V) nonce (V.prog j)
    (s := ⟨s.db, s.aux, t, s.reqs ++ [⟨j, V.prog j, [], none, none⟩]⟩)
    (c := ⟨s.db, [], s.aux, 0, 0⟩) ⟨rfl, hs, rfl, rfl, rfl, rfl, rfl⟩ rfl
  exact ⟨r, (h1.trans h2).trans h3, h4, h5⟩

end

end Txn
