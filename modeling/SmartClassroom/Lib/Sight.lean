/-
  The reasons that a request gives, and the moments they held at.

  A `Sight` is what a request may have met: committed stores and clock readings.
  What its history has (`Sight.of`), the run had at a moment when the request was
  under way (`Sight.during`, `Reach.sight_le`).  So what a program says of its own
  history when it raises (`Ok.raising`), holds of such moments.
-/
import SmartClassroom.Lib.Embedding
import SmartClassroom.Lib.Timeline

namespace Txn

variable {T N : Type} {D : Db T N} {ε α : Type}

/-! ## Exceptions -/

/-- Rules for the exceptions only. -/
def Rules.raising (R : List (Ev D) → ε → Prop) : Rules D ε := ⟨fun _ _ => True, fun _ => True, R⟩

namespace Prog

/-- Programs that raise exceptions of `X` only. -/
def Raises (X : ε → Prop) : Prog D ε α → Prop
  | .ret _ => True
  | .raise e => X e
  | .now k => ∀ t, (k t).Raises X
  | .draw k => ∀ n, (k n).Raises X
  | .stmt _ k => ∀ r, (k r).Raises X
  | .commit k | .rollback k => k.Raises X

section
variable {X : ε → Prop} {β : Type}

@[simp] theorem raises_pure (a : α) : (pure a : Prog D ε α).Raises X := trivial

@[simp] theorem raises_throw {e : ε} : (throw e : Prog D ε α).Raises X ↔ X e := Iff.rfl

@[simp] theorem raises_query (s : D.Stmt) : (query s : Prog D ε _).Raises X := fun _ => trivial

theorem raises_lift {x : Except ε α} (hx : ∀ e, x = .error e → X e) : (lift x : Prog D ε α).Raises X := by
  cases x with
  | ok a => trivial
  | error e => exact hx e rfl

theorem Raises.bind {p : Prog D ε α} {f : α → Prog D ε β} (hp : p.Raises X) (hf : ∀ a, (f a).Raises X) :
    (p >>= f).Raises X := by
  change (p.bind f).Raises X
  induction p with
  | ret a => exact hf a
  | raise e => exact hp
  | now k ih | draw k ih | stmt s k ih => exact fun x => ih x (hp x)
  | commit k ih | rollback k ih => exact ih hp

/-- What else is known of the program stays known. -/
theorem Ok.raises {I : D.Store → Prop} {Q : List (Ev D) → α → Prop} {p : Prog D ε α} (hx : p.Raises X) :
    ∀ {h}, p.Ok I Rules.none Q h → p.Ok I (Rules.raising fun _ => X) Q h := by
  induction p with
  | ret a => exact id
  | raise e => exact fun _ => hx
  | now k ih | draw k ih => exact fun hp x => ih x (hx x) (hp x)
  | stmt s k ih => exact fun hp => ⟨trivial, fun b aux snap cur h1 h2 => ih _ (hx _) (hp.2 b aux snap cur h1 h2)⟩
  | commit k ih => exact fun hp => ⟨trivial, ih hx hp.2⟩
  | rollback k ih => exact fun hp => ih hx hp

/-- A program of which nothing else is known. -/
theorem Raises.ok {I : D.Store → Prop} {p : Prog D ε α} (hx : p.Raises X) {h : List (Ev D)} :
    p.Ok I (Rules.raising fun _ => X) (fun _ _ => True) h := by
  refine Ok.raises hx (ok_of_free ?_ ?_ ?_ ?_ p h)
  · exact fun _ _ => trivial
  · exact fun _ => trivial
  · exact fun _ _ => trivial
  · exact fun _ _ => trivial

end

/-- Weaker rules for the exceptions. -/
theorem Ok.raising {I : D.Store → Prop} {R R' : List (Ev D) → ε → Prop} {Q : List (Ev D) → α → Prop}
    {p : Prog D ε α} {h : List (Ev D)} (hR : ∀ h e, R h e → R' h e) (hp : p.Ok I (Rules.raising R) Q h) :
    p.Ok I (Rules.raising R') Q h := by
  refine Ok.rules ?_ ?_ hR hp
  · exact fun _ _ => id
  · exact fun _ => id

/-- A program goes on from the history that it starts from. -/
theorem Ok.later {I : D.Store → Prop} {R : List (Ev D) → ε → Prop} {Q : List (Ev D) → α → Prop} {h₀ : List (Ev D)}
    {p : Prog D ε α} : ∀ {h}, h₀ <:+ h → p.Ok I (Rules.raising R) Q h →
      p.Ok I (Rules.raising fun h' e => h₀ <:+ h' ∧ R h' e) (fun h' a => h₀ <:+ h' ∧ Q h' a) h := by
  induction p with
  | ret a | raise e => exact fun hsuf hp => ⟨hsuf, hp⟩
  | now k ih | draw k ih => exact fun hsuf hp x => ih x (hsuf.trans (List.suffix_cons _ _)) (hp x)
  | stmt s k ih =>
    exact fun hsuf hp => ⟨trivial, fun b aux snap cur h1 h2 =>
      ih _ (hsuf.trans (List.suffix_cons _ _)) (hp.2 b aux snap cur h1 h2)⟩
  | commit k ih => exact fun hsuf hp => ⟨trivial, ih (hsuf.trans (List.suffix_cons _ _)) hp.2⟩
  | rollback k ih => exact fun hsuf hp => ih (hsuf.trans (List.suffix_cons _ _)) hp

/-- Weaker rules for the exceptions, after `h`. -/
theorem Ok.raising_later {I : D.Store → Prop} {R R' : List (Ev D) → ε → Prop} {Q : List (Ev D) → α → Prop}
    {p : Prog D ε α} {h : List (Ev D)} (hR : ∀ h', h <:+ h' → ∀ e, R h' e → R' h' e)
    (hp : p.Ok I (Rules.raising R) Q h) : p.Ok I (Rules.raising R') (fun h' a => h <:+ h' ∧ Q h' a) h :=
  (hp.later List.suffix_rfl).raising fun h' e hRe => hR h' hRe.1 e hRe.2

/-- A handler that raises another exception for each. -/
theorem Ok.rethrow {I : D.Store → Prop} {R R' : List (Ev D) → ε → Prop} {Q : List (Ev D) → α → Prop}
    {p : Prog D ε α} {g : ε → Prog D ε α} {h : List (Ev D)} (hg : ∀ h e, R h e → ∃ e', g e = throw e' ∧ R' h e')
    (hp : p.Ok I (Rules.raising R) Q h) : (MonadExcept.tryCatch p g).Ok I (Rules.raising R') Q h := by
  refine Ok.tryCatch (W := Rules.raising R') (X := R) (fun h e he => ?_) hp
  obtain ⟨e', hge, he'⟩ := hg h e he
  rw [hge]
  exact he'

end Prog

/-! ## Sights -/

/-- Committed stores and clock readings. -/
structure Sight (D : Db T N) where
  store : D.Store → Prop
  time : T → Prop

instance : LE (Sight D) := ⟨fun w w' => (∀ st, w.store st → w'.store st) ∧ ∀ t, w.time t → w'.time t⟩

/-- What a history has. -/
def Sight.of (h : List (Ev D)) : Sight D where
  store st := ∃ s b aux snap cur, .stmt s b aux snap cur ∈ h ∧ (st = snap ∨ st = cur)
  time t := .now t ∈ h

theorem Sight.of_mono {h h' : List (Ev D)} (hsuf : h <:+ h') : Sight.of h ≤ Sight.of h' where
  left := fun _ ⟨s, b, aux, snap, cur, he, hst⟩ => ⟨s, b, aux, snap, cur, hsuf.subset he, hst⟩
  right := fun _ ht => hsuf.subset ht

/-- The store that a statement has read. -/
theorem Sight.of_snap {h : List (Ev D)} {s : D.Stmt} {b : T} {aux : D.Aux} {snap cur : D.Store}
    (he : .stmt s b aux snap cur ∈ h) : (Sight.of h).store snap := ⟨s, b, aux, snap, cur, he, .inl rfl⟩

/-- The store that a statement has written to. -/
theorem Sight.of_cur {h : List (Ev D)} {s : D.Stmt} {b : T} {aux : D.Aux} {snap cur : D.Store}
    (he : .stmt s b aux snap cur ∈ h) : (Sight.of h).store cur := ⟨s, b, aux, snap, cur, he, .inr rfl⟩

section
variable [LinearOrder T] {J : Type} {V : Service D J ε α} {C : Sys D J ε α → Label J T N → Prop}
  {s₀ s s' s₁ : Sys D J ε α} {i : ℕ}

/-- `s₁` is a state of the run from `s₀` to `s` where request `i` was under way. -/
structure Passed (V : Service D J ε α) (C : Sys D J ε α → Label J T N → Prop) (s₀ s : Sys D J ε α) (i : ℕ)
    (s₁ : Sys D J ε α) : Prop where
  reach : Reach V C s₀ s₁
  rest : Reach V C s₁ s
  active : ∃ r, s₁.reqs[i]? = some r ∧ r.ended = false

theorem Passed.trans (hp : Passed V C s₀ s i s₁) (h : Reach V C s s') : Passed V C s₀ s' i s₁ :=
  ⟨hp.reach, hp.rest.trans h, hp.active⟩

/-- What a request may have met while it was under way. -/
def Sight.during (V : Service D J ε α) (C : Sys D J ε α → Label J T N → Prop) (s₀ s : Sys D J ε α) (i : ℕ) :
    Sight D where
  store st := ∃ s₁, Passed V C s₀ s i s₁ ∧ s₁.db = st
  time t := ∃ s₁, Passed V C s₀ s i s₁ ∧ s₁.clock = t

theorem Sight.during_mono (h : Reach V C s s') : Sight.during V C s₀ s i ≤ Sight.during V C s₀ s' i where
  left := fun _ ⟨s₁, hp, hst⟩ => ⟨s₁, hp.trans h, hst⟩
  right := fun _ ⟨s₁, hp, ht⟩ => ⟨s₁, hp.trans h, ht⟩

/-- An event that met only what `w` has. -/
def Ev.Met (w : Sight D) : Ev D → Prop
  | .now t => w.time t
  | .stmt _ _ _ snap cur => w.store snap ∧ w.store cur
  | _ => True

omit [LinearOrder T] in
theorem Ev.Met.mono {w w' : Sight D} (hw : w ≤ w') {e : Ev D} (h : e.Met w) : e.Met w' := by
  cases e with
  | now t => exact hw.2 t h
  | stmt => exact ⟨hw.1 _ h.1, hw.1 _ h.2⟩
  | draw | commit | rollback => trivial

/-- The request has met only what `w` has. -/
structure Req.Met (w : Sight D) (r : Req D J ε α) : Prop where
  log : ∀ e ∈ r.log, e.Met w
  running : ∀ snap, r.running = some snap → w.store snap

omit [LinearOrder T] in
theorem Req.Met.mono {w w' : Sight D} (hw : w ≤ w') {r : Req D J ε α} (h : r.Met w) : r.Met w' where
  log e he := (h.log e he).mono hw
  running snap hsnap := hw.1 snap (h.running snap hsnap)

omit [LinearOrder T] in
/-- A step meets the committed store and the clock. -/
theorem Move.met {lost : ε} {w : Sight D} {r r' : Req D J ε α} {db' aux'} (hm : Move lost s i r r' db' aux')
    (hr : r.Met w) (hdb : w.store s.db) (hclock : w.time s.clock) : r'.Met w := by
  cases hm with
  | start => exact ⟨hr.log, fun snap hsnap => Option.some.inj hsnap ▸ hdb⟩
  | finish _ hn _ =>
    exact ⟨List.forall_mem_cons.mpr ⟨⟨hr.running _ hn, hdb⟩, hr.log⟩, by simp [Req.finished]⟩
  | now => exact ⟨List.forall_mem_cons.mpr ⟨hclock, hr.log⟩, hr.running⟩
  | draw | commit | rollback => exact ⟨List.forall_mem_cons.mpr ⟨trivial, hr.log⟩, hr.running⟩
  | fail => exact ⟨hr.log, by simp⟩

omit [LinearOrder T] in
/-- A request that takes a step has not ended. -/
theorem Move.active {lost : ε} {r r' : Req D J ε α} {db' aux'} (hm : Move lost s i r r' db' aux') :
    r.ended = false := by
  cases hm with
  | fail hp => obtain ⟨st, k, hp⟩ | ⟨k, hp⟩ := hp <;> rw [Req.ended, hp]
  | start hp | finish hp | now hp | draw _ hp | commit hp | rollback hp => rw [Req.ended, hp]

/-- **A request meets what is there while it is under way.** -/
theorem Reach.met (hs : s₀.reqs = []) (h : Reach V C s₀ s) :
    ∀ (i : ℕ) r, s.reqs[i]? = some r → r.Met (Sight.during V C s₀ s i) := by
  induction h with
  | refl => simp [hs]
  | @tail s₁ s₂ hreach hst ih =>
    have hlast : Reach V C s₁ s₂ := .single hst
    obtain ⟨l, -, hst⟩ := hst
    cases step_cases hst with
    | tick => exact fun i r hr => (ih i r hr).mono (Sight.during_mono hlast)
    | arrive j =>
      intro i r hr
      rcases getElem?_arrive_cases hr with hr | ⟨-, rfl⟩
      · exact (ih i r hr).mono (Sight.during_mono hlast)
      · exact ⟨by simp, by simp⟩
    | @act k a q q' db' aux' hq _ hm =>
      intro i r hr
      rcases getElem?_set_cases hr with ⟨rfl, rfl⟩ | ⟨-, hr⟩
      · have hp : Passed V C s₀ _ k s₁ := ⟨hreach, hlast, q, hq, hm.active⟩
        exact hm.met ((ih k q hq).mono (Sight.during_mono hlast)) ⟨s₁, hp, rfl⟩ ⟨s₁, hp, rfl⟩
      · exact (ih i r hr).mono (Sight.during_mono hlast)

theorem Reach.sight_le (hs : s₀.reqs = []) (h : Reach V C s₀ s) {r : Req D J ε α} (hr : s.reqs[i]? = some r) :
    Sight.of r.log ≤ Sight.during V C s₀ s i where
  left := by
    rintro st ⟨s, b, aux, snap, cur, he, rfl | rfl⟩
    · exact ((h.met hs i r hr).log _ he).1
    · exact ((h.met hs i r hr).log _ he).2
  right := fun _ ht => (h.met hs i r hr).log _ ht

end

end Txn
