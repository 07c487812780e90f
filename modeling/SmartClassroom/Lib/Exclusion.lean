/-
  Constraints between the rows of a table.

  An insertion is checked against the latest committed rows and those of its
  own transaction, and it waits for a transaction that has inserted a
  conflicting row (`Guarded`).  Then no two rows ever conflict, whether
  committed or pending (`Excl`), in any interleaving (`Reach.excl`).
-/
import Mathlib.Data.List.Induction
import SmartClassroom.Lib.Interleave

namespace Txn

variable {T N : Type} {D : Db T N} {J ε α Row : Type}

/-- A table: writes update its rows in place and add rows at its end. -/
structure Table (D : Db T N) (Row : Type) where
  rows : D.Store → List Row
  upd : D.Write → Row → Row
  new : D.Write → List Row
  rows_apply : ∀ st w, rows (D.apply st w) = (rows st).map (upd w) ++ new w

namespace Table
variable (t : Table D Row)

/-- A row after the writes `ws`. -/
def updAll (ws : List D.Write) (r : Row) : Row := ws.foldl (fun r w => t.upd w r) r

/-- The rows that `ws` adds. -/
def newAll (ws : List D.Write) : List Row := ws.foldl (fun rs w => rs.map (t.upd w) ++ t.new w) []

@[simp] theorem updAll_nil : t.updAll [] = id := rfl

@[simp] theorem newAll_nil : t.newAll [] = [] := rfl

theorem updAll_append (ws ws' : List D.Write) (r : Row) :
    t.updAll (ws ++ ws') r = t.updAll ws' (t.updAll ws r) := List.foldl_append

theorem newAll_concat (ws : List D.Write) (w : D.Write) :
    t.newAll (ws ++ [w]) = (t.newAll ws).map (t.upd w) ++ t.new w := by
  simp [newAll]

theorem newAll_append (ws ws' : List D.Write) :
    t.newAll (ws ++ ws') = (t.newAll ws).map (t.updAll ws') ++ t.newAll ws' := by
  induction ws' using List.reverseRecOn with
  | nil => simp
  | append_singleton ws' w ih =>
    rw [← List.append_assoc, newAll_concat, newAll_concat, ih]
    simp [updAll]

theorem rows_applyAll (ws : List D.Write) (st : D.Store) :
    t.rows (D.applyAll st ws) = (t.rows st).map (t.updAll ws) ++ t.newAll ws := by
  induction ws using List.reverseRecOn with
  | nil => simp
  | append_singleton ws w ih =>
    rw [Db.applyAll_append, newAll_concat]
    change t.rows (D.apply _ w) = _
    rw [t.rows_apply, ih]
    simp [updAll]

/-- An added row is one that a write inserted, updated by the writes after it. -/
theorem mem_newAll {ws : List D.Write} {r : Row} (h : r ∈ t.newAll ws) :
    ∃ w ∈ ws, ∃ x ∈ t.new w, ∃ ws', ws'.Sublist ws ∧ r = t.updAll ws' x := by
  induction ws using List.reverseRecOn generalizing r with
  | nil => simp at h
  | append_singleton ws w ih =>
    rw [newAll_concat, List.mem_append, List.mem_map] at h
    rcases h with ⟨y, hy, rfl⟩ | h
    · obtain ⟨w', hw', x, hx, ws', hsub, rfl⟩ := ih hy
      exact ⟨w', List.mem_append_left _ hw', x, hx, ws' ++ [w], hsub.append (.refl _), by simp [updAll]⟩
    · exact ⟨w, by simp, r, h, [], List.nil_sublist _, rfl⟩

/-- An inserted row is added, with the updates of the writes after it. -/
theorem exists_mem_newAll {ws : List D.Write} {w : D.Write} {x : Row} (hw : w ∈ ws) (hx : x ∈ t.new w) :
    ∃ ws', ws'.Sublist ws ∧ t.updAll ws' x ∈ t.newAll ws := by
  obtain ⟨ws₁, ws₂, rfl⟩ := List.append_of_mem hw
  refine ⟨ws₂, (List.sublist_cons_self _ _).trans (List.sublist_append_right _ _), ?_⟩
  rw [List.append_cons, newAll_append, newAll_concat]
  exact List.mem_append_left _ (List.mem_map_of_mem (List.mem_append_right _ hx))

theorem newAll_eq_nil {ws : List D.Write} (h : ∀ w ∈ ws, t.new w = []) : t.newAll ws = [] := by
  refine List.eq_nil_iff_forall_not_mem.mpr fun r hr => ?_
  obtain ⟨w, hw, x, hx, -⟩ := t.mem_newAll hr
  simp [h w hw] at hx

theorem exists_of_newAll_ne_nil {ws : List D.Write} (h : t.newAll ws ≠ []) :
    ∃ w ∈ ws, t.new w ≠ [] := by
  by_contra hne
  push Not at hne
  exact h (t.newAll_eq_nil hne)

end Table

/-- If a statement adds at most one row, and only where none is pending, a
    transaction adds at most one. -/
theorem Kept.newAll_le_one {t : Table D Row} {I : D.Store → Prop} {W : Rules D ε}
    (hone : ∀ s b aux snap cur, (t.newAll (D.exec s b aux snap cur).2.1).length ≤ 1)
    (hfirst : ∀ h s b aux snap cur, W.stmt h s →
      t.newAll (D.execOn (pendOf h) s b aux snap cur).2.1 ≠ [] → t.newAll (pendOf h) = [])
    {h : List (Ev D)} (hk : Kept I W h) : (t.newAll (pendOf h)).length ≤ 1 := by
  refine hk.pend_induction (P := fun ws => (t.newAll ws).length ≤ 1) (by simp)
    fun h s b aux snap cur hs ih => ?_
  rw [t.newAll_append, List.length_append, List.length_map]
  by_cases hw : t.newAll (D.execOn (pendOf h) s b aux snap cur).2.1 = []
  · simpa [hw] using ih
  · rw [hfirst h s b aux snap cur hs hw]
    simpa [Db.execOn] using hone s b aux _ _

/-- The insertions into `t` keep rows apart that `conflict`. -/
structure Guarded (t : Table D Row) (W : J → Rules D ε) (conflict : Row → Row → Prop) : Prop where
  symm : ∀ {a b}, conflict a b → conflict b a
  /-- no update makes two rows conflict -/
  upd : ∀ {w a b}, conflict (t.upd w a) b → conflict a b
  checked : ∀ {s b aux snap cur p r}, p ∈ t.newAll (D.exec s b aux snap cur).2.1 →
    r ∈ t.rows cur → ¬conflict p r
  one : ∀ {s b aux snap cur},
    (t.newAll (D.exec s b aux snap cur).2.1).Pairwise fun p q => ¬conflict p q
  waits : ∀ {s b aux snap cur p ws w q}, D.blocks s aux snap cur ws = false →
    p ∈ t.newAll (D.exec s b aux snap cur).2.1 → w ∈ ws → q ∈ t.new w → ¬conflict p q
  /-- the check does not overlook a row that the transaction has changed -/
  keeps : ∀ {j h s b aux snap cur p}, (W j).stmt h s → p ∈ t.newAll (D.exec s b aux snap cur).2.1 →
    ∀ {r}, conflict p r → conflict p (t.updAll (pendOf h) r)

/-- No two rows conflict, committed or pending. -/
structure Excl (t : Table D Row) (conflict : Row → Row → Prop) (s : Sys D J ε α) : Prop where
  db : (t.rows s.db).Pairwise fun p q => ¬conflict p q
  own : ∀ (i : ℕ) r, s.reqs[i]? = some r → (t.newAll r.pend).Pairwise fun p q => ¬conflict p q
  ownDb : ∀ (i : ℕ) r, s.reqs[i]? = some r → ∀ p ∈ t.newAll r.pend, ∀ x ∈ t.rows s.db,
    ¬conflict p x
  other : ∀ (i j : ℕ) r q, i ≠ j → s.reqs[i]? = some r → s.reqs[j]? = some q →
    ∀ p ∈ t.newAll r.pend, ∀ x ∈ t.newAll q.pend, ¬conflict p x

section
variable {t : Table D Row} {W : J → Rules D ε} {conflict : Row → Row → Prop}

namespace Guarded
variable (hG : Guarded t W conflict)
include hG

theorem updAll {ws : List D.Write} : ∀ {a b}, conflict (t.updAll ws a) b → conflict a b := by
  induction ws with
  | nil => exact id
  | cons w ws ih => exact fun h => hG.upd (ih h)

theorem updAll_right {ws : List D.Write} {a b} (h : conflict a (t.updAll ws b)) : conflict a b :=
  hG.symm (hG.updAll (hG.symm h))

theorem map_updAll (ws : List D.Write) {rs : List Row} (h : rs.Pairwise fun p q => ¬conflict p q) :
    (rs.map (t.updAll ws)).Pairwise fun p q => ¬conflict p q :=
  List.pairwise_map.mpr (h.imp fun hab h => hab (hG.updAll (hG.updAll_right h)))

end Guarded

/-- Requests whose pending rows are no more than before stay apart. -/
theorem Excl.set {s : Sys D J ε α} (hx : Excl t conflict s) {i : ℕ} {r' : Req D J ε α} {aux'}
    (hsymm : ∀ {a b}, conflict a b → conflict b a)
    (own : (t.newAll r'.pend).Pairwise fun p q => ¬conflict p q)
    (ownDb : ∀ p ∈ t.newAll r'.pend, ∀ x ∈ t.rows s.db, ¬conflict p x)
    (other : ∀ j q, i ≠ j → s.reqs[j]? = some q → ∀ p ∈ t.newAll r'.pend,
      ∀ x ∈ t.newAll q.pend, ¬conflict p x) :
    Excl t conflict (⟨s.db, aux', s.clock, s.reqs.set i r'⟩ : Sys D J ε α) where
  db := hx.db
  own j q hq := by
    rcases getElem?_set_cases hq with ⟨_, rfl⟩ | ⟨_, hq⟩
    · exact own
    · exact hx.own j q hq
  ownDb j q hq := by
    rcases getElem?_set_cases hq with ⟨_, rfl⟩ | ⟨_, hq⟩
    · exact ownDb
    · exact hx.ownDb j q hq
  other j k q q' hjk hq hq' p hp x hx' := by
    rcases getElem?_set_cases hq with ⟨rfl, rfl⟩ | ⟨hj, h1⟩
    · rcases getElem?_set_cases hq' with ⟨h, _⟩ | ⟨hk, h2⟩
      · exact absurd h hjk
      · exact other k q' hk h2 p hp x hx'
    · rcases getElem?_set_cases hq' with ⟨_, rfl⟩ | ⟨_, h2⟩
      · exact fun h => other j q hj h1 x hx' p hp (hsymm h)
      · exact hx.other j k q q' hjk h1 h2 p hp x hx'

/-- A statement keeps the rows apart. -/
theorem Excl.finish (hG : Guarded t W conflict) {s : Sys D J ε α} (hx : Excl t conflict s) {i : ℕ}
    {r r' : Req D J ε α} (hr : s.reqs[i]? = some r) {st : D.Stmt} {snap : D.Store} {aux'}
    (hW : (W r.job).stmt r.log st) (hpend : r.pend = pendOf r.log)
    (hb : s.blocked i r.pend st snap = false)
    (hr' : r'.pend = [] ∨ r'.pend = r.pend ++ (r.exec s st snap).2.1) :
    Excl t conflict (⟨s.db, aux', s.clock, s.reqs.set i r'⟩ : Sys D J ε α) := by
  rcases hr' with hr' | hr'
  · exact hx.set hG.symm (by simp [hr']) (by simp [hr']) (by simp [hr'])
  have hnew : ∀ p ∈ t.newAll (r.exec s st snap).2.1, ∀ x ∈ t.rows s.db, ¬conflict p x := by
    intro p hp x hxs hc
    refine hG.checked hp ?_ (hG.keeps hW hp hc)
    rw [t.rows_applyAll]
    exact List.mem_append_left _ (List.mem_map_of_mem hxs)
  have hold : ∀ p ∈ t.newAll (r.exec s st snap).2.1, ∀ x ∈ t.newAll r.pend, ¬conflict p x := by
    intro p hp x hxs
    refine hG.checked hp ?_
    rw [t.rows_applyAll, ← hpend]
    exact List.mem_append_right _ hxs
  have hoth : ∀ p ∈ t.newAll (r.exec s st snap).2.1, ∀ j q, i ≠ j → s.reqs[j]? = some q →
      ∀ x ∈ t.newAll q.pend, ¬conflict p x := by
    intro p hp j q hij hq x hxs hc
    obtain ⟨w, hw, y, hy, ws', -, rfl⟩ := t.mem_newAll hxs
    have hb := Sys.not_blocked hb hij hq
    rw [hpend] at hb
    exact hG.waits hb hp hw hy (hG.updAll_right hc)
  have hmem : ∀ {p}, p ∈ t.newAll r'.pend → p ∈ t.newAll (r.exec s st snap).2.1 ∨
      ∃ x ∈ t.newAll r.pend, p = t.updAll (r.exec s st snap).2.1 x := by
    intro p hp
    rw [hr', t.newAll_append, List.mem_append, List.mem_map] at hp
    rcases hp with ⟨x, hx', rfl⟩ | hp
    · exact .inr ⟨x, hx', rfl⟩
    · exact .inl hp
  refine hx.set hG.symm ?_ ?_ ?_
  · rw [hr', t.newAll_append]
    refine List.pairwise_append.mpr ⟨hG.map_updAll _ (hx.own i r hr), hG.one, ?_⟩
    intro a ha b hb h
    obtain ⟨x, hx', rfl⟩ := List.mem_map.mp ha
    exact hold b hb x hx' (hG.symm (hG.updAll h))
  · intro p hp x hxs
    rcases hmem hp with hp | ⟨y, hy, rfl⟩
    · exact hnew p hp x hxs
    · exact fun h => hx.ownDb i r hr y hy x hxs (hG.updAll h)
  · intro j q hij hq p hp x hxs
    rcases hmem hp with hp | ⟨y, hy, rfl⟩
    · exact hoth p hp j q hij hq x hxs
    · exact fun h => hx.other i j r q hij hr hq y hy x hxs (hG.updAll h)

/-- A commit keeps the rows apart. -/
theorem Excl.commit (hG : Guarded t W conflict) {s : Sys D J ε α} (hx : Excl t conflict s) {i : ℕ}
    {r r' : Req D J ε α} (hr : s.reqs[i]? = some r) (hr' : r'.pend = []) {aux'} :
    Excl t conflict
      (⟨D.applyAll s.db r.pend, aux', s.clock, s.reqs.set i r'⟩ : Sys D J ε α) where
  db := by
    rw [t.rows_applyAll]
    refine List.pairwise_append.mpr ⟨hG.map_updAll _ hx.db, hx.own i r hr, ?_⟩
    intro a ha p hp h
    obtain ⟨x, hxs, rfl⟩ := List.mem_map.mp ha
    exact hx.ownDb i r hr p hp x hxs (hG.symm (hG.updAll h))
  own j q hq := by
    rcases getElem?_set_cases hq with ⟨_, rfl⟩ | ⟨_, hq⟩
    · simp [hr']
    · exact hx.own j q hq
  ownDb j q hq p hp x hxs h := by
    rcases getElem?_set_cases hq with ⟨_, rfl⟩ | ⟨hij, hq⟩
    · simp [hr'] at hp
    · rw [t.rows_applyAll, List.mem_append, List.mem_map] at hxs
      rcases hxs with ⟨y, hy, rfl⟩ | hxs
      · exact hx.ownDb j q hq p hp y hy (hG.updAll_right h)
      · exact hx.other j i q r hij.symm hq hr p hp x hxs h
  other j k q q' hjk hq hq' p hp x hxs := by
    rcases getElem?_set_cases hq with ⟨_, rfl⟩ | ⟨_, hq⟩
    · simp [hr'] at hp
    · rcases getElem?_set_cases hq' with ⟨_, rfl⟩ | ⟨_, hq'⟩
      · simp [hr'] at hxs
      · exact hx.other j k q q' hjk hq hq' p hp x hxs

variable [LinearOrder T] {V : Service D J ε α} {I : D.Store → Prop}
  {Q : J → List (Ev D) → α → Prop} {E : D.Store → D.Store → Prop}

theorem Step.excl (hG : Guarded t W conflict) {s s' : Sys D J ε α} {l : Label J T N}
    (hs : s.Sound I W Q E) (hx : Excl t conflict s) (h : Step V s l s') : Excl t conflict s' := by
  cases h with
  | tick => exact ⟨hx.db, hx.own, hx.ownDb, hx.other⟩
  | arrive j =>
    have old : ∀ (i : ℕ) r, (s.reqs ++ [⟨j, V.prog j, [], none, none⟩])[i]? = some r →
        t.newAll r.pend ≠ [] → s.reqs[i]? = some r := by
      intro i r hr hne
      rcases getElem?_arrive_cases hr with hr | ⟨_, rfl⟩
      · exact hr
      · refine absurd ?_ hne
        rcases Req.pend_eq ⟨j, V.prog j, [], none, none⟩ with h | h <;> simp [h]
    refine ⟨hx.db, fun i r hr => ?_, fun i r hr p hp => ?_, fun i k r q hik hr hq p hp x hxs => ?_⟩
    · by_cases hne : t.newAll r.pend = []
      · simp [hne]
      · exact hx.own i r (old i r hr hne)
    · exact hx.ownDb i r (old i r hr (List.ne_nil_of_mem hp)) p hp
    · exact hx.other i k r q hik (old i r hr (List.ne_nil_of_mem hp))
        (old k q hq (List.ne_nil_of_mem hxs)) p hp x hxs
  | @act i a r r' db' aux' hr _ hm =>
    have hpend := Req.pend_of_not_ended hm.later.1
    rcases hm.effect with ⟨rfl, _, hr'⟩ | ⟨st, k, snap, hp, _, hb, rfl, _, hr'⟩ | ⟨k, _, rfl, _, hr'⟩
    · rcases hr' with hr' | hr'
      · exact hx.set hG.symm (by simp [hr']) (by simp [hr']) (by simp [hr'])
      · rw [← hr'] at hpend
        exact hx.set hG.symm (hr' ▸ hx.own i r hr) (hr' ▸ hx.ownDb i r hr)
          fun j q hij hq => hr' ▸ hx.other i j r q hij hr hq
    · have hok := (hs.req i r hr).ok
      rw [hp] at hok
      exact hx.finish hG hr hok.1 hpend hb hr'
    · exact hx.commit hG hr hr'

/-- **No two rows ever conflict.** -/
theorem Reach.excl (hG : Guarded t W conflict) (hV : Keeps V I W Q) (hE : Grows E)
    {C : Sys D J ε α → Label J T N → Prop} {s s' : Sys D J ε α} (h : Reach V C s s')
    (hs : s.Sound I W Q E) (hx : Excl t conflict s) : Excl t conflict s' := by
  refine (h.inv (I := fun s => s.Sound I W Q E ∧ Excl t conflict s) ?_ ⟨hs, hx⟩).2
  rintro s l s' ⟨hs, hx⟩ - hst
  exact ⟨hst.sound hV hE hs, hst.excl hG hs hx⟩

end

end Txn
