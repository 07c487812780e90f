/-
  Versions of rows.

  Writes update rows in place, so a row has one version in each later store
  (`Table.Carries`, `Versions.grows`).  In a run a row has what it was inserted
  with, initially or by a request, or what an update has given it
  (`Reach.row_with`); what is committed is there (`Reach.row_of_done`), and an
  update that a request has committed has changed the rows of before
  (`Reach.row_updated`).
-/
import SmartClassroom.Lib.Exclusion

namespace Txn

variable {T N : Type} {D : Db T N} {ε α Row : Type}

/-- Each row of `st` has a version in `st'`. -/
def Table.Carries (t : Table D Row) (R : Row → Row → Prop) (st st' : D.Store) : Prop :=
  ∀ r ∈ t.rows st, ∃ r' ∈ t.rows st', R r r'

/-- The updates of `t` keep `R`. -/
structure Versions (t : Table D Row) (R : Row → Row → Prop) : Prop where
  refl : ∀ r, R r r
  trans : ∀ {r r' r''}, R r r' → R r' r'' → R r r''
  upd : ∀ w r, R r (t.upd w r)

namespace Versions

variable {t : Table D Row} {R : Row → Row → Prop} (hR : Versions t R)
include hR

theorem updAll (ws : List D.Write) : ∀ r, R r (t.updAll ws r) := by
  induction ws with
  | nil => exact hR.refl
  | cons w ws ih => exact fun r => hR.trans (hR.upd w r) (ih _)

/-- Where a version has `Q` from. -/
theorem exists_upd {Q : Row → Prop} : ∀ {ws : List D.Write} {r : Row}, Q (t.updAll ws r) → ¬Q r →
    ∃ w ∈ ws, ∃ y, ¬Q y ∧ Q (t.upd w y) ∧ R (t.upd w y) (t.updAll ws r) := by
  intro ws
  induction ws with
  | nil => exact fun h hr => absurd h hr
  | cons w ws ih =>
    intro r h hr
    by_cases hw : Q (t.upd w r)
    · exact ⟨w, List.mem_cons_self, r, hr, hw, hR.updAll ws _⟩
    · obtain ⟨w', hw', y, hy⟩ := ih (r := t.upd w r) h hw
      exact ⟨w', List.mem_cons_of_mem _ hw', y, hy⟩

theorem grows : Grows (t.Carries R) where
  refl _ r hr := ⟨r, hr, hR.refl r⟩
  trans h h' r hr := by
    obtain ⟨r', hr', hrr'⟩ := h r hr
    obtain ⟨r'', hr'', hr'r''⟩ := h' r' hr'
    exact ⟨r'', hr'', hR.trans hrr' hr'r''⟩
  apply st w r hr := by
    refine ⟨t.upd w r, ?_, hR.upd w r⟩
    rw [t.rows_apply]
    exact List.mem_append_left _ (List.mem_map_of_mem hr)

end Versions

/-- Where a committed write comes from. -/
theorem mem_doneOf {w : D.Write} : ∀ {h : List (Ev D)}, w ∈ doneOf h ↔
    ∃ h₁, .commit :: h₁ <:+ h ∧ w ∈ pendOf h₁ := by
  intro h
  induction h with
  | nil => simp
  | cons e h ih =>
    have hstep (he : .commit ≠ e) : w ∈ doneOf h ↔ ∃ h₁, .commit :: h₁ <:+ e :: h ∧ w ∈ pendOf h₁ := by
      rw [ih]
      refine exists_congr fun h₁ => and_congr_left fun _ => ?_
      rw [List.suffix_cons_iff, or_iff_right fun heq => he (List.cons.inj heq).1]
    cases e with
    | now | draw | stmt | rollback => exact hstep nofun
    | commit =>
      rw [doneOf_commit, List.mem_append, ih]
      constructor
      · rintro (⟨h₁, hs, hp⟩ | hp)
        · exact ⟨h₁, hs.trans (List.suffix_cons _ _), hp⟩
        · exact ⟨h, List.suffix_rfl, hp⟩
      · rintro ⟨h₁, hs, hp⟩
        rcases List.suffix_cons_iff.mp hs with heq | hs
        · exact .inr ((List.cons.inj heq).2 ▸ hp)
        · exact .inl ⟨h₁, hs, hp⟩

/-! ## Rows in a run -/

section
variable [LinearOrder T] {J : Type} {V : Service D J ε α} {C : Sys D J ε α → Label J T N → Prop}
  {s s' : Sys D J ε α} {t : Table D Row} {R : Row → Row → Prop}

omit [LinearOrder T] in
/-- What a step has committed. -/
theorem Move.doneOf_eq {lost : ε} {i : ℕ} {q q' : Req D J ε α} {db' aux'} (hm : Move lost s i q q' db' aux') :
    (db' = s.db ∧ doneOf q'.log = doneOf q.log) ∨
      db' = D.applyAll s.db q.pend ∧ doneOf q'.log = doneOf q.log ++ q.pend := by
  rcases hm.effect with ⟨hdb, hdone, -⟩ | ⟨_, _, _, -, -, -, hdb, hdone, -⟩ | ⟨_, -, hdb, hdone, -⟩
  · exact .inl ⟨hdb, hdone⟩
  · exact .inl ⟨hdb, hdone⟩
  · exact .inr ⟨hdb, hdone⟩

/-- The row `x` has `Q` from the committed write `w`. -/
def Table.Gives (t : Table D Row) (R : Row → Row → Prop) (Q : Row → Prop) (w : D.Write) (x : Row) : Prop :=
  (∃ p ∈ t.new w, Q p ∧ R p x) ∨ ∃ y, ¬Q y ∧ Q (t.upd w y) ∧ R (t.upd w y) x

/-- A row with `Q` is a version of an initial one with `Q`, or a request has
    committed what gave it `Q`. -/
theorem Reach.row_with (hR : Versions t R) (Q : Row → Prop) (h : Reach V C s s') : ∀ x ∈ t.rows s'.db, Q x →
    (∃ y ∈ t.rows s.db, Q y ∧ R y x) ∨ ∃ r ∈ s'.reqs, ∃ w ∈ doneOf r.log, t.Gives R Q w x := by
  refine h.inv (I := fun s' => ∀ x ∈ t.rows s'.db, Q x → (∃ y ∈ t.rows s.db, Q y ∧ R y x) ∨
    ∃ r ∈ s'.reqs, ∃ w ∈ doneOf r.log, t.Gives R Q w x) ?_ fun x hx hQ => .inl ⟨x, hx, hQ, hR.refl x⟩
  intro s₁ l s₂ ih _ hst x hx hQ
  cases hst with
  | tick => exact ih x hx hQ
  | arrive j => exact (ih x hx hQ).imp id fun ⟨r, hr, hw⟩ => ⟨r, List.mem_append_left _ hr, hw⟩
  | @act i a q q' db' aux' hq _ hm =>
    have hi := (List.getElem?_eq_some_iff.mp hq).1
    have hmem : q' ∈ s₁.reqs.set i q' := List.mem_of_getElem? (i := i) (List.getElem?_set_self hi)
    -- what was committed stays committed
    have hstays : ∀ r ∈ s₁.reqs, ∃ r' ∈ s₁.reqs.set i q', doneOf r.log ⊆ doneOf r'.log := by
      intro r hr
      obtain ⟨k, hk⟩ := List.mem_iff_getElem?.mp hr
      by_cases hik : i = k
      · subst hik
        obtain rfl := Option.some.inj (hk.symm.trans hq)
        refine ⟨q', hmem, ?_⟩
        rcases hm.doneOf_eq with ⟨-, hdone⟩ | ⟨-, hdone⟩
        · exact hdone ▸ List.Subset.refl _
        · exact hdone ▸ List.subset_append_left _ _
      · exact ⟨r, List.mem_of_getElem? (i := k) (by rw [List.getElem?_set_ne hik, hk]), List.Subset.refl _⟩
    have hold : ∀ y ∈ t.rows s₁.db, Q y → R y x → (∃ y ∈ t.rows s.db, Q y ∧ R y x) ∨
        ∃ r ∈ s₁.reqs.set i q', ∃ w ∈ doneOf r.log, t.Gives R Q w x := by
      intro y hy hQy hyx
      rcases ih y hy hQy with ⟨z, hz, hQz, hzy⟩ | ⟨r, hr, w, hw, hgives⟩
      · exact .inl ⟨z, hz, hQz, hR.trans hzy hyx⟩
      · obtain ⟨r', hr', hsub⟩ := hstays r hr
        exact .inr ⟨r', hr', w, hsub hw, hgives.imp (fun ⟨p, hp, hQp, hpy⟩ => ⟨p, hp, hQp, hR.trans hpy hyx⟩)
          fun ⟨z, hz, hQz, hzy⟩ => ⟨z, hz, hQz, hR.trans hzy hyx⟩⟩
    rcases hm.doneOf_eq with ⟨rfl, -⟩ | ⟨rfl, hdone⟩
    · exact hold x hx hQ (hR.refl x)
    · have hsub : ∀ {w}, w ∈ q.pend → w ∈ doneOf q'.log := fun hw => hdone ▸ List.mem_append_right _ hw
      change x ∈ t.rows (D.applyAll s₁.db q.pend) at hx
      rw [t.rows_applyAll] at hx
      rcases List.mem_append.mp hx with hx | hx
      · obtain ⟨y, hy, rfl⟩ := List.mem_map.mp hx
        by_cases hQy : Q y
        · exact hold y hy hQy (hR.updAll _ y)
        · obtain ⟨w, hw, hgives⟩ := hR.exists_upd hQ hQy
          exact .inr ⟨q', hmem, w, hsub hw, .inr hgives⟩
      · obtain ⟨w, hw, p, hpw, ws', hws', rfl⟩ := t.mem_newAll hx
        by_cases hQp : Q p
        · exact .inr ⟨q', hmem, w, hsub hw, .inl ⟨p, hpw, hQp, hR.updAll ws' p⟩⟩
        · obtain ⟨w', hw', hgives⟩ := hR.exists_upd hQ hQp
          exact .inr ⟨q', hmem, w', hsub (hws'.subset hw'), .inr hgives⟩

/-- A row is a version of an initial one, or of one that a request has committed. -/
theorem Reach.row_from (hR : Versions t R) (h : Reach V C s s') : ∀ x ∈ t.rows s'.db,
    (∃ y ∈ t.rows s.db, R y x) ∨ ∃ r ∈ s'.reqs, ∃ w ∈ doneOf r.log, ∃ p ∈ t.new w, R p x := by
  intro x hx
  rcases h.row_with hR (fun _ => True) x hx trivial with ⟨y, hy, -, hyx⟩ | ⟨r, hr, w, hw, hp | ⟨y, hy, -⟩⟩
  · exact .inl ⟨y, hy, hyx⟩
  · obtain ⟨p, hp, -, hpx⟩ := hp
    exact .inr ⟨r, hr, w, hw, p, hp, hpx⟩
  · exact absurd trivial hy

/-- A row that a request has committed is there, in its latest version. -/
theorem Reach.row_of_done (hR : Versions t R) (hs : ∀ r ∈ s.reqs, doneOf r.log = []) (h : Reach V C s s') :
    ∀ r ∈ s'.reqs, ∀ w ∈ doneOf r.log, ∀ p ∈ t.new w, ∃ x ∈ t.rows s'.db, R p x := by
  refine h.inv (I := fun s' => ∀ r ∈ s'.reqs, ∀ w ∈ doneOf r.log, ∀ p ∈ t.new w, ∃ x ∈ t.rows s'.db, R p x) ?_
    fun r hr w hw => by simp [hs r hr] at hw
  intro s₁ l s₂ ih _ hst
  cases hst with
  | tick => exact ih
  | arrive j =>
    intro r hr w hw
    rcases List.mem_append.mp hr with hr | hr
    · exact ih r hr w hw
    · obtain rfl := List.mem_singleton.mp hr
      exact absurd hw List.not_mem_nil
  | @act i a q q' db' aux' hq _ hm =>
    have hlater : ∀ r ∈ s₁.reqs, ∀ w ∈ doneOf r.log, ∀ p ∈ t.new w, ∃ x ∈ t.rows db', R p x := by
      intro r hr w hw p hp
      obtain ⟨x, hx, hpx⟩ := ih r hr w hw p hp
      obtain ⟨x', hx', hxx'⟩ := hm.grows hR.grows x hx
      exact ⟨x', hx', hR.trans hpx hxx'⟩
    intro r hr w hw p hp
    rcases List.mem_or_eq_of_mem_set hr with hr | rfl
    · exact hlater r hr w hw p hp
    · have hmem := List.mem_of_getElem? hq
      rcases hm.doneOf_eq with ⟨-, hdone⟩ | ⟨rfl, hdone⟩
      · exact hlater q hmem w (hdone ▸ hw) p hp
      · rcases List.mem_append.mp (hdone ▸ hw) with hw | hw
        · exact hlater q hmem w hw p hp
        · obtain ⟨ws', -, hx⟩ := t.exists_mem_newAll hw hp
          refine ⟨_, ?_, hR.updAll ws' p⟩
          rw [t.rows_applyAll]
          exact List.mem_append_right _ hx

/-- What a request that arrived after `s` has committed has updated the rows of `s`. -/
theorem Reach.row_updated (hR : Versions t R) {w : D.Write} {P : Row → Prop} {x : Row}
    (hw : ∀ y, R x y → P (t.upd w y)) (hP : ∀ {y y'}, P y → R y y' → P y') (hx : x ∈ t.rows s.db)
    (h : Reach V C s s') : ∀ (i : ℕ) r, s.reqs.length ≤ i → s'.reqs[i]? = some r → w ∈ doneOf r.log →
      ∃ y ∈ t.rows s'.db, R x y ∧ P y := by
  induction h with
  | refl =>
    intro i r hi hr
    simp [List.getElem?_eq_none hi] at hr
  | @tail s₁ s₂ h₁ hst ih =>
    obtain ⟨l, -, hst⟩ := hst
    cases step_cases hst with
    | tick => exact ih
    | arrive j =>
      intro i r hi hr hdone
      rcases getElem?_arrive_cases hr with hr | ⟨-, rfl⟩
      · exact ih i r hi hr hdone
      · exact absurd hdone List.not_mem_nil
    | @act k a q q' db' aux' hq _ hm =>
      have hlater : (∃ y ∈ t.rows s₁.db, R x y ∧ P y) → ∃ y ∈ t.rows db', R x y ∧ P y := by
        rintro ⟨y, hy, hxy, hPy⟩
        obtain ⟨y', hy', hyy'⟩ := hm.grows hR.grows y hy
        exact ⟨y', hy', hR.trans hxy hyy', hP hPy hyy'⟩
      intro i r hi hr hdone
      rcases getElem?_set_cases hr with ⟨rfl, rfl⟩ | ⟨-, hr⟩
      · rcases hm.doneOf_eq with ⟨-, he⟩ | ⟨rfl, he⟩
        · exact hlater (ih k q hi hq (he ▸ hdone))
        · rcases List.mem_append.mp (he ▸ hdone) with hdone | hdone
          · exact hlater (ih k q hi hq hdone)
          · -- the commit itself
            obtain ⟨y, hy, hxy⟩ := Reach.grows hR.grows h₁ x hx
            obtain ⟨ws₁, ws₂, hpend⟩ := List.append_of_mem hdone
            refine ⟨t.updAll q.pend y, ?_, hR.trans hxy (hR.updAll _ y), ?_⟩
            · rw [t.rows_applyAll]
              exact List.mem_append_left _ (List.mem_map_of_mem hy)
            · rw [hpend, List.append_cons, t.updAll_append, t.updAll_append]
              exact hP (hw _ (hR.trans hxy (hR.updAll ws₁ y))) (hR.updAll ws₂ _)
      · exact hlater (ih i r hi hr hdone)

end

end Txn
