/-
  Rules and tables in an extended database.

  * `Inside h₀ h h'`: the history `h'` goes on from `h₀` with the events `h` of
    a program over `D`.  What the program keeps over `D`, it keeps embedded, as
    a rule on such histories (`Ok.embed`).
  * `Table.lift`: a table of `D`, in the extended database; what guards it
    there (`Guarded.lift`).
-/
import SmartClassroom.Lib.Extension
import SmartClassroom.Lib.Versions

namespace Txn

variable {T N : Type} {D : Db T N} {X : Extension D} {ε α Row : Type}

/-! ## Histories -/

/-- The event as one over `D`. -/
def Ev.inner : Ev X.db → Option (Ev D)
  | .now t => some (.now t)
  | .draw n => some (.draw n)
  | .stmt (.inl s) b aux snap cur => some (.stmt s b aux.1 snap.1 cur.1)
  | .stmt (.inr _) .. => none
  | .commit => some .commit
  | .rollback => some .rollback

def Inside (h₀ : List (Ev X.db)) (h : List (Ev D)) (h' : List (Ev X.db)) : Prop :=
  ∃ hs, h' = hs ++ h₀ ∧ hs.map Ev.inner = h.map some

section
variable {h₀ h' : List (Ev X.db)} {h : List (Ev D)}

theorem Inside.refl (h₀ : List (Ev X.db)) : Inside h₀ [] h₀ := ⟨[], rfl, rfl⟩

theorem Inside.cons {e : Ev D} {e' : Ev X.db} (hin : Inside h₀ h h') (he : e'.inner = some e) :
    Inside h₀ (e :: h) (e' :: h') := by
  obtain ⟨hs, rfl, hmap⟩ := hin
  exact ⟨e' :: hs, rfl, by rw [List.map_cons, List.map_cons, he, hmap]⟩

/-- The inner history is determined. -/
theorem Inside.unique {h₁ : List (Ev D)} (hin : Inside h₀ h h') (hin₁ : Inside h₀ h₁ h') : h₁ = h := by
  obtain ⟨hs, rfl, hmap⟩ := hin
  obtain ⟨hs₁, heq, hmap₁⟩ := hin₁
  obtain rfl := List.append_cancel_right heq
  exact List.map_injective_iff.mpr (fun _ _ => Option.some.inj) (hmap₁.symm.trans hmap)

/-- A statement of the inner program was executed. -/
theorem Inside.stmt_mem {s : D.Stmt} {b : T} {aux : D.Aux} {snap cur : D.Store} (hin : Inside h₀ h h')
    (hs : .stmt s b aux snap cur ∈ h) : ∃ aux' snap' cur', .stmt (D := X.db) (.inl s) b aux' snap' cur' ∈ h' ∧
      snap'.1 = snap ∧ cur'.1 = cur := by
  obtain ⟨hs', rfl, hmap⟩ := hin
  obtain ⟨e, he, hinner⟩ := List.mem_map.mp (hmap ▸ List.mem_map_of_mem hs)
  cases e with
  | stmt s' b' aux' snap' cur' =>
    cases s' with
    | inl s' =>
      cases hinner
      exact ⟨aux', snap', cur', List.mem_append_left _ he, rfl, rfl⟩
    | inr s' => cases hinner
  | now | draw | commit | rollback => cases hinner

/-- The clock readings of the inner program. -/
theorem Inside.now_mem {t : T} (hin : Inside h₀ h h') (ht : .now t ∈ h) : .now t ∈ h' := by
  obtain ⟨hs', rfl, hmap⟩ := hin
  obtain ⟨e, he, hinner⟩ := List.mem_map.mp (hmap ▸ List.mem_map_of_mem ht)
  cases e with
  | now t' =>
    cases hinner
    exact List.mem_append_left _ he
  | stmt s => cases s <;> cases hinner
  | draw | commit | rollback => cases hinner

theorem execOn_inner {ws : List D.Write} (s : D.Stmt) (b : T) (aux : X.db.Aux) (snap cur : X.db.Store) :
    X.db.execOn (ws.map .inl) (.inl s) b aux snap cur =
      (((D.execOn ws s b aux.1 snap.1 cur.1).1, aux.2), (D.execOn ws s b aux.1 snap.1 cur.1).2.1.map .inl,
        (D.execOn ws s b aux.1 snap.1 cur.1).2.2) := by
  rw [Db.execOn, X.applyAll_inl, X.applyAll_inl]
  rfl

/-- What is pending, and what is committed. -/
theorem Inside.writes (hp₀ : pendOf h₀ = []) (hin : Inside h₀ h h') :
    pendOf h' = (pendOf h).map .inl ∧ doneOf h' = doneOf h₀ ++ (doneOf h).map .inl := by
  obtain ⟨hs, rfl, hmap⟩ := hin
  induction hs generalizing h with
  | nil =>
    obtain rfl : h = [] := List.map_eq_nil_iff.mp hmap.symm
    exact ⟨hp₀, (List.append_nil _).symm⟩
  | cons e' hs ih =>
    obtain ⟨e, h, rfl, he, hmap⟩ : ∃ e h₁, h = e :: h₁ ∧ e'.inner = some e ∧ hs.map Ev.inner = h₁.map some := by
      cases h with
      | nil => cases hmap
      | cons e h => exact ⟨e, h, rfl, (List.cons.inj hmap).1, (List.cons.inj hmap).2⟩
    obtain ⟨hpend, hdone⟩ := ih hmap
    cases e' with
    | now t | draw n =>
      obtain rfl := Option.some.inj he
      exact ⟨hpend, hdone⟩
    | commit =>
      obtain rfl := Option.some.inj he
      exact ⟨rfl, by rw [List.cons_append, doneOf_commit, doneOf_commit, hpend, hdone, List.map_append, List.append_assoc]⟩
    | rollback =>
      obtain rfl := Option.some.inj he
      exact ⟨rfl, hdone⟩
    | stmt s b aux snap cur =>
      cases s with
      | inr s => cases he
      | inl s =>
        obtain rfl := Option.some.inj he
        refine ⟨?_, hdone⟩
        rw [List.cons_append, pendOf_stmt, pendOf_stmt, hpend, execOn_inner, List.map_append]

end

/-! ## Rules -/

/-- The rules of a program over `D` that runs after `h₀`. -/
def Rules.after (W : Rules D ε) (h₀ : List (Ev X.db)) : Rules X.db ε where
  stmt h' s := ∃ h, Inside h₀ h h' ∧ ∃ s₀, s = .inl s₀ ∧ W.stmt h s₀
  commit h' := ∃ h, Inside h₀ h h' ∧ W.commit h
  raise h' e := ∃ h, Inside h₀ h h' ∧ W.raise h e

/-- A history that keeps the rules of a program over `D`, is one of such a program. -/
theorem Kept.inside {I : D.Store → Prop} {W : Rules D ε} : ∀ {h' : List (Ev X.db)},
    Kept (fun st : X.db.Store => I st.1) (W.after []) h' → ∃ h, Inside [] h h' ∧ Kept I W h := by
  intro h'
  induction h' with
  | nil => exact fun _ => ⟨[], .refl [], trivial⟩
  | cons e h' ih =>
    intro hk
    cases e with
    | now t =>
      obtain ⟨h, hin, hkept⟩ := ih hk
      exact ⟨.now t :: h, hin.cons rfl, hkept⟩
    | draw n =>
      obtain ⟨h, hin, hkept⟩ := ih hk
      exact ⟨.draw n :: h, hin.cons rfl, hkept⟩
    | rollback =>
      obtain ⟨h, hin, hkept⟩ := ih hk
      exact ⟨.rollback :: h, hin.cons rfl, hkept⟩
    | commit =>
      obtain ⟨h, hin, hkept⟩ := ih hk.2
      obtain ⟨h₁, hin₁, hcommit⟩ := hk.1
      exact ⟨.commit :: h, hin.cons rfl, hin.unique hin₁ ▸ hcommit, hkept⟩
    | stmt s b aux snap cur =>
      obtain ⟨h, hin, hkept⟩ := ih hk.2.2.2
      obtain ⟨h₁, hin₁, s₀, rfl, hstmt⟩ := hk.1
      exact ⟨.stmt s₀ b aux.1 snap.1 cur.1 :: h, hin.cons rfl, hin.unique hin₁ ▸ hstmt, hk.2.1, hk.2.2.1, hkept⟩

namespace Prog

/-- What a program keeps over `D`, it keeps after `h₀`. -/
theorem Ok.embed {I : D.Store → Prop} {W : Rules D ε} {Q : List (Ev D) → α → Prop} {p : Prog D ε α}
    {h₀ : List (Ev X.db)} (hp₀ : pendOf h₀ = []) : ∀ {h : List (Ev D)} {h' : List (Ev X.db)}, Inside h₀ h h' →
    p.Ok I W Q h → (p.embed X).Ok (fun st : X.db.Store => I st.1) (W.after h₀) (fun h' a => ∃ h, Inside h₀ h h' ∧ Q h a) h' := by
  induction p with
  | ret a => exact fun hin hp => ⟨_, hin, hp⟩
  | raise e => exact fun hin hp => ⟨_, hin, hp⟩
  | now k ih => exact fun hin hp t => ih t (hin.cons rfl) (hp t)
  | draw k ih => exact fun hin hp n => ih n (hin.cons rfl) (hp n)
  | commit k ih => exact fun hin hp => ⟨⟨_, hin, hp.1⟩, ih (hin.cons rfl) hp.2⟩
  | rollback k ih => exact fun hin hp => ih (hin.cons rfl) hp
  | stmt s k ih =>
    intro h h' hin hp
    refine ⟨⟨_, hin, s, rfl, hp.1⟩, fun b aux snap cur h1 h2 => ?_⟩
    have hexec : (X.db.execOn (pendOf h') (.inl s) b aux snap cur).2.2 =
        (D.execOn (pendOf h) s b aux.1 snap.1 cur.1).2.2 := by
      rw [(hin.writes hp₀).1, execOn_inner]
    change ((k (X.db.execOn (pendOf h') (.inl s) b aux snap cur).2.2).embed X).Ok _ _ _ _
    rw [hexec]
    exact ih _ (hin.cons rfl) (hp.2 b aux.1 snap.1 cur.1 h1 h2)

/-- Weaker rules. -/
theorem Ok.rules {I : D.Store → Prop} {W W' : Rules D ε} {Q : List (Ev D) → α → Prop}
    (hstmt : ∀ h s, W.stmt h s → W'.stmt h s) (hcommit : ∀ h, W.commit h → W'.commit h)
    (hraise : ∀ h e, W.raise h e → W'.raise h e) {p : Prog D ε α} : ∀ {h}, p.Ok I W Q h → p.Ok I W' Q h := by
  induction p with
  | ret a => exact id
  | raise e => exact hraise _ e
  | now k ih | draw k ih => exact fun hp x => ih x (hp x)
  | stmt s k ih =>
    exact fun hp => ⟨hstmt _ s hp.1, fun b aux snap cur h1 h2 => ih _ (hp.2 b aux snap cur h1 h2)⟩
  | commit k ih => exact fun hp => ⟨hcommit _ hp.1, ih hp.2⟩
  | rollback k ih => exact fun hp => ih hp

end Prog

/-! ## Tables -/

namespace Table

/-- A table of `D` that the extension leaves alone. -/
def lift (t : Table D Row) (X : Extension D) (hX : ∀ st w, t.rows (X.apply st w).1 = t.rows st.1) :
    Table X.db Row where
  rows st := t.rows st.1
  upd w r := match w with
    | .inl w => t.upd w r
    | .inr _ => r
  new w := match w with
    | .inl w => t.new w
    | .inr _ => []
  rows_apply st w := match w with
    | .inl w => t.rows_apply st.1 w
    | .inr w => (hX st w).trans (by rw [List.map_id', List.append_nil])

section
variable {t : Table D Row} {hX : ∀ st w, t.rows (X.apply st w).1 = t.rows st.1}

theorem newAll_lift (ws : List D.Write) : (t.lift X hX).newAll (ws.map .inl) = t.newAll ws := by
  induction ws using List.reverseRecOn with
  | nil => rfl
  | append_singleton ws w ih =>
    rw [List.map_append, List.map_singleton, newAll_concat, newAll_concat, ih]
    rfl

/-- Versions of its rows. -/
theorem versions_lift {R : Row → Row → Prop} (hR : Versions t R) : Versions (t.lift X hX) R where
  refl := hR.refl
  trans := hR.trans
  upd w r := match w with
    | .inl w => hR.upd w r
    | .inr _ => hR.refl r

end

end Table

/-- A guarded table is guarded in the extended database, if its own statements
    add no rows to it. -/
theorem Guarded.lift {J J' ε' : Type} {t : Table D Row} {hX : ∀ st w, t.rows (X.apply st w).1 = t.rows st.1}
    {W : J → Rules D ε} {W' : J' → Rules X.db ε'} {conflict : Row → Row → Prop} (hG : Guarded t W conflict)
    (hnone : ∀ s b aux snap cur, (t.lift X hX).newAll (X.exec s b aux snap cur).2.1 = [])
    (hkeeps : ∀ {j h s b aux snap cur p}, (W' j).stmt h s →
      p ∈ (t.lift X hX).newAll (X.db.exec s b aux snap cur).2.1 →
        ∀ {r}, conflict p r → conflict p ((t.lift X hX).updAll (pendOf h) r)) :
    Guarded (t.lift X hX) W' conflict where
  symm := hG.symm
  upd {w a b} h := match w with
    | .inl w => hG.upd (w := w) h
    | .inr _ => h
  checked {s b aux snap cur p r} hp hr := by
    cases s with
    | inl s =>
      change p ∈ (t.lift X hX).newAll ((D.exec s b aux.1 snap.1 cur.1).2.1.map .inl) at hp
      rw [Table.newAll_lift] at hp
      exact hG.checked hp hr
    | inr s => exact absurd (hnone s b aux snap cur ▸ hp) List.not_mem_nil
  one {s b aux snap cur} := by
    cases s with
    | inl s =>
      change ((t.lift X hX).newAll ((D.exec s b aux.1 snap.1 cur.1).2.1.map .inl)).Pairwise _
      rw [Table.newAll_lift]
      exact hG.one
    | inr s =>
      change ((t.lift X hX).newAll (X.exec s b aux snap cur).2.1).Pairwise _
      rw [hnone]
      exact .nil
  waits {s b aux snap cur p ws w q} hb hp hw hq := by
    cases s with
    | inl s =>
      cases w with
      | inl w =>
        change p ∈ (t.lift X hX).newAll ((D.exec s b aux.1 snap.1 cur.1).2.1.map .inl) at hp
        rw [Table.newAll_lift] at hp
        refine hG.waits (Bool.or_eq_false_iff.mp hb).1 hp ?_ hq
        exact List.mem_filterMap.mpr ⟨.inl w, hw, rfl⟩
      | inr w => exact absurd hq List.not_mem_nil
    | inr s => exact absurd (hnone s b aux snap cur ▸ hp) List.not_mem_nil
  keeps := hkeeps

end Txn
