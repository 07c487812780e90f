/-
  The stores that a request sees, in the order of its statements.

  Each statement sees stores that come after those of the statements before it
  (`Timeline`), in every run (`Reach.timeline`).  So what a request commits updates
  every row that one of its statements has seen, in the version of the commit
  (`Reach.row_updated_of_saw`).  No statement sees a committed row that conflicts
  with what its own transaction has inserted (`Reach.snap_apart`).

  `Rules.none` ask for nothing: what a program is `Ok` for then is what it leaves in
  its history when it answers.  Without a rollback it only adds to its pending
  writes (`Extends`).
-/
import SmartClassroom.Lib.Versions

namespace Txn

variable {T N : Type} {D : Db T N} {ε α Row : Type}

/-! ## What a program leaves -/

def Rules.none : Rules D ε := ⟨fun _ _ => True, fun _ => True, fun _ _ => True⟩

/-- `h'` goes on from `h` in the same transaction. -/
structure Extends (h h' : List (Ev D)) : Prop where
  suffix : h <:+ h'
  pend : pendOf h <+: pendOf h'

namespace Extends

variable {h h' h'' : List (Ev D)}

theorem refl (h : List (Ev D)) : Extends h h := ⟨List.suffix_rfl, List.prefix_rfl⟩

theorem trans (x : Extends h h') (x' : Extends h' h'') : Extends h h'' :=
  ⟨x.suffix.trans x'.suffix, x.pend.trans x'.pend⟩

theorem now (h : List (Ev D)) (t : T) : Extends h (.now t :: h) := ⟨List.suffix_cons _ _, List.prefix_rfl⟩

theorem draw (h : List (Ev D)) (n : N) : Extends h (.draw n :: h) := ⟨List.suffix_cons _ _, List.prefix_rfl⟩

theorem stmt (h : List (Ev D)) (s : D.Stmt) (b : T) (aux : D.Aux) (snap cur : D.Store) :
    Extends h (.stmt s b aux snap cur :: h) := ⟨List.suffix_cons _ _, List.prefix_append _ _⟩

theorem mem (x : Extends h h') {w : D.Write} (hw : w ∈ pendOf h) : w ∈ pendOf h' := x.pend.subset hw

/-- What is pending is committed next. -/
theorem mem_doneOf (x : Extends h h') {w : D.Write} (hw : w ∈ pendOf h) : w ∈ doneOf (.commit :: h') :=
  doneOf_commit h' ▸ List.mem_append_right _ (x.mem hw)

end Extends

theorem Prog.Uses.extends {I : D.Store → Prop} {P : D.Stmt → Prop} {p : Prog D ε α} (hp : p.Uses P) (h : List (Ev D)) :
    p.Ok I Rules.none (fun h' _ => Extends h h') h := by
  refine hp.ok (K := Extends h) ?_ ?_ ?_ ?_ (.refl h)
  · exact fun h' t x => x.trans (.now h' t)
  · exact fun h' n x => x.trans (.draw h' n)
  · exact fun h' s x _ => ⟨trivial, fun b aux snap cur => x.trans (.stmt h' s b aux snap cur)⟩
  · exact fun _ _ _ => trivial

/-! ## Timelines -/

/-- The event saw stores from before `st`. -/
def Ev.Before (E : D.Store → D.Store → Prop) (st : D.Store) : Ev D → Prop
  | .stmt _ _ _ snap cur => E snap cur ∧ E cur st
  | _ => True

/-- The event `e` saw only stores that come after those of `e'`. -/
def Ev.After (E : D.Store → D.Store → Prop) (e e' : Ev D) : Prop :=
  match e with
  | .stmt _ _ _ snap _ => e'.Before E snap
  | _ => True

/-- The statements of the history, the newest first, saw later and later stores. -/
def Timeline (E : D.Store → D.Store → Prop) (h : List (Ev D)) : Prop := h.Pairwise (Ev.After E)

theorem Ev.Before.mono {E : D.Store → D.Store → Prop} (hE : Grows E) {st st' : D.Store} (hst : E st st') {e : Ev D}
    (h : e.Before E st) : e.Before E st' := by
  cases e with
  | stmt => exact ⟨h.1, hE.trans h.2 hst⟩
  | _ => trivial

section
variable [LinearOrder T] {J : Type} {V : Service D J ε α} {C : Sys D J ε α → Label J T N → Prop} {s s' : Sys D J ε α}

/-- What a request has seen is in order, and before `db`. -/
structure Req.InTime (E : D.Store → D.Store → Prop) (db : D.Store) (r : Req D J ε α) : Prop where
  timeline : Timeline E r.log
  before : ∀ e ∈ r.log, e.Before E db
  running : ∀ snap, r.running = some snap → E snap db ∧ ∀ e ∈ r.log, e.Before E snap

omit [LinearOrder T] in
theorem Req.InTime.mono {E : D.Store → D.Store → Prop} (hE : Grows E) {db db' : D.Store} (hdb : E db db')
    {r : Req D J ε α} (h : r.InTime E db) : r.InTime E db' where
  timeline := h.timeline
  before e he := (h.before e he).mono hE hdb
  running snap hsnap := ⟨hE.trans (h.running snap hsnap).1 hdb, (h.running snap hsnap).2⟩

omit [LinearOrder T] in
/-- A step that logs `e`, which is no statement. -/
theorem Req.InTime.cons {E : D.Store → D.Store → Prop} {db : D.Store} {r : Req D J ε α} (h : r.InTime E db)
    {e : Ev D} (he : ∀ e', e.After E e') (hb : ∀ st, e.Before E st) {k : Prog D ε α} {began : Option T} :
    Req.InTime E db { r with prog := k, log := e :: r.log, began := began } where
  timeline := List.pairwise_cons.mpr ⟨fun e' _ => he e', h.timeline⟩
  before := List.forall_mem_cons.mpr ⟨hb db, h.before⟩
  running snap hsnap := ⟨(h.running snap hsnap).1, List.forall_mem_cons.mpr ⟨hb snap, (h.running snap hsnap).2⟩⟩

omit [LinearOrder T] in
theorem Move.inTime {E : D.Store → D.Store → Prop} (hE : Grows E) {lost : ε} {i : ℕ} {r r' : Req D J ε α} {db' aux'}
    (hm : Move lost s i r r' db' aux') (hr : r.InTime E s.db) : r'.InTime E db' := by
  refine Req.InTime.mono hE (hm.grows hE) ?_
  cases hm with
  | start => exact ⟨hr.timeline, hr.before, fun snap h => Option.some.inj h ▸ ⟨hE.refl _, hr.before⟩⟩
  | finish _ hn _ =>
    obtain ⟨hsnap, hold⟩ := hr.running _ hn
    exact ⟨List.pairwise_cons.mpr ⟨hold, hr.timeline⟩, List.forall_mem_cons.mpr ⟨⟨hsnap, hE.refl _⟩, hr.before⟩,
      by simp [Req.finished]⟩
  | now | draw | commit | rollback => refine hr.cons (fun _ => ?_) (fun _ => ?_) <;> trivial
  | fail => exact ⟨hr.timeline, hr.before, by simp⟩

/-- **In every run the requests see later and later stores.** -/
theorem Reach.timeline {E : D.Store → D.Store → Prop} (hE : Grows E) (hs : s.reqs = [])
    (h : Reach V C s s') : ∀ r ∈ s'.reqs, r.InTime E s'.db := by
  refine h.inv (I := fun s' => ∀ r ∈ s'.reqs, r.InTime E s'.db) (fun s₁ l s₂ ih _ hst r hr => ?_) (by simp [hs])
  cases hst with
  | tick => exact ih r hr
  | arrive j =>
    rcases List.mem_append.mp hr with hr | hr
    · exact ih r hr
    · obtain rfl := List.mem_singleton.mp hr
      exact ⟨.nil, by simp, by simp⟩
  | @act i a q q' db' aux' hq _ hm =>
    rcases List.mem_or_eq_of_mem_set hr with hr | rfl
    · exact (ih r hr).mono hE (hm.grows hE)
    · exact hm.inTime hE (ih q (List.mem_of_getElem? hq))

/-- A statement never sees a committed row that conflicts with a pending one of its
    own transaction. -/
theorem Reach.snap_apart {t : Table D Row} {I : D.Store → Prop} {W : J → Rules D ε}
    {Q : J → List (Ev D) → α → Prop} {E : D.Store → D.Store → Prop} {conflict : Row → Row → Prop}
    (hG : Guarded t W conflict) (hV : Keeps V I W Q) (hE : Grows E) (hsound : s.Sound I W Q E)
    (hx : Excl t conflict s) (hs : s.reqs = []) (h : Reach V C s s') : ∀ (i : ℕ) r, s'.reqs[i]? = some r →
      (∀ snap, r.running = some snap → ∀ p ∈ t.newAll (pendOf r.log), ∀ x ∈ t.rows snap, ¬conflict p x) ∧
        ∀ st b aux snap cur h₁, .stmt st b aux snap cur :: h₁ <:+ r.log → ∀ p ∈ t.newAll (pendOf h₁),
          ∀ x ∈ t.rows snap, ¬conflict p x := by
  induction h with
  | refl => simp [hs]
  | @tail s₁ s₂ hreach hst ih =>
    obtain ⟨l, -, hst⟩ := hst
    cases step_cases hst with
    | tick => exact ih
    | arrive j =>
      intro i r hr
      rcases getElem?_arrive_cases hr with hr | ⟨-, rfl⟩
      · exact ih i r hr
      · exact ⟨by simp, fun st b aux snap cur h₁ hsuf => absurd (List.suffix_nil.mp hsuf) (by simp)⟩
    | @act k a q q' db' aux' hq _ hm =>
      intro i r hr
      rcases getElem?_set_cases hr with ⟨rfl, rfl⟩ | ⟨-, hr⟩
      · obtain ⟨hrun, hlog⟩ := ih k q hq
        have hold (e : Ev D) (he : ∀ st b aux snap cur, Ev.stmt st b aux snap cur ≠ e) :
            ∀ st b aux snap cur h₁, .stmt st b aux snap cur :: h₁ <:+ e :: q.log → ∀ p ∈ t.newAll (pendOf h₁),
              ∀ x ∈ t.rows snap, ¬conflict p x := fun st b aux snap cur h₁ hsuf =>
          hlog st b aux snap cur h₁ ((List.suffix_cons_iff.mp hsuf).resolve_left fun heq =>
            he st b aux snap cur (List.cons.inj heq).1)
        cases hm with
        | start hp =>
          refine ⟨fun snap hsnap => Option.some.inj hsnap ▸ ?_, hlog⟩
          have hactive : q.ended = false := by rw [Req.ended, hp]
          exact Req.pend_of_not_ended hactive ▸ (Reach.excl hG hV hE hreach hsound hx).ownDb k q hq
        | @finish st k' snap' _ hn _ =>
          refine ⟨by simp [Req.finished], fun st₁ b aux snap cur h₁ hsuf => ?_⟩
          rcases List.suffix_cons_iff.mp hsuf with heq | hsuf
          · obtain ⟨he, rfl⟩ := List.cons.inj heq
            cases he
            exact hrun _ hn
          · exact hlog st₁ b aux snap cur h₁ hsuf
        | now | draw => exact ⟨hrun, hold _ (by simp)⟩
        | commit | rollback => exact ⟨by simp, hold _ (by simp)⟩
        | fail => exact ⟨by simp, hlog⟩
      · exact ih i r hr

/-- What a request has committed has updated the rows that its statements have seen. -/
theorem Reach.row_updated_of_saw {t : Table D Row} {R : Row → Row → Prop} (hR : Versions t R)
    (hs : s.reqs = []) {w : D.Write} {P : Row → Prop} {x : Row} (hw : ∀ y, R x y → P (t.upd w y))
    (hP : ∀ {y y'}, P y → R y y' → P y') (h : Reach V C s s') : ∀ (i : ℕ) r, s'.reqs[i]? = some r →
      ∀ h₁ e, .commit :: h₁ <:+ r.log → w ∈ pendOf h₁ → e ∈ h₁ →
        (∀ st, e.Before (t.Carries R) st → ∃ y ∈ t.rows st, R x y) → ∃ y ∈ t.rows s'.db, R x y ∧ P y := by
  induction h with
  | refl => simp [hs]
  | @tail s₁ s₂ hreach hst ih =>
    obtain ⟨l, -, hst⟩ := hst
    cases step_cases hst with
    | tick => exact ih
    | arrive j =>
      intro i r hr h₁ e hsuf
      rcases getElem?_arrive_cases hr with hr | ⟨-, rfl⟩
      · exact ih i r hr h₁ e hsuf
      · exact absurd (List.suffix_nil.mp hsuf) (by simp)
    | @act k a q q' db' aux' hq _ hm =>
      have hlater : (∃ y ∈ t.rows s₁.db, R x y ∧ P y) → ∃ y ∈ t.rows db', R x y ∧ P y := by
        rintro ⟨y, hy, hxy, hPy⟩
        obtain ⟨y', hy', hyy'⟩ := hm.grows hR.grows y hy
        exact ⟨y', hy', hR.trans hxy hyy', hP hPy hyy'⟩
      intro i r hr h₁ e hsuf hpend he hsaw
      rcases getElem?_set_cases hr with ⟨rfl, rfl⟩ | ⟨-, hr⟩
      · have hold : .commit :: h₁ <:+ q.log → ∃ y ∈ t.rows db', R x y ∧ P y := fun hsuf =>
          hlater (ih k q hq h₁ e hsuf hpend he hsaw)
        have hother (e' : Ev D) (he' : .commit ≠ e') (hsuf : .commit :: h₁ <:+ e' :: q.log) :
            ∃ y ∈ t.rows db', R x y ∧ P y :=
          hold ((List.suffix_cons_iff.mp hsuf).resolve_left fun heq => he' (List.cons.inj heq).1)
        cases hm with
        | start | fail => exact hold hsuf
        | finish | now | draw | rollback => exact hother _ (fun heq => by cases heq) hsuf
        | commit hp =>
          rcases List.suffix_cons_iff.mp hsuf with heq | hsuf
          · -- the commit itself
            obtain rfl := (List.cons.inj heq).2
            have hintime := Reach.timeline hR.grows hs hreach q (List.mem_of_getElem? hq)
            obtain ⟨y, hy, hxy⟩ := hsaw _ (hintime.before e he)
            obtain ⟨ws₁, ws₂, hws⟩ := List.append_of_mem hpend
            refine ⟨t.updAll (pendOf q.log) y, ?_, hR.trans hxy (hR.updAll _ y), ?_⟩
            · rw [t.rows_applyAll]
              exact List.mem_append_left _ (List.mem_map_of_mem hy)
            · rw [hws, List.append_cons, t.updAll_append, t.updAll_append]
              exact hP (hw _ (hR.trans hxy (hR.updAll ws₁ y))) (hR.updAll ws₂ _)
          · exact hold hsuf
      · exact hlater (ih i r hr h₁ e hsuf hpend he hsaw)

end

end Txn
