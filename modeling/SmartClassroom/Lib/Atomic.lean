/-
  Requests that read once.

  A program with one SELECT and nothing else (`Prog.ReadsOnce`) answers in any
  interleaving as if it had run alone, on the store that its SELECT has read
  (`ReadsOnce.atomic`).
-/
import SmartClassroom.Lib.Sight

namespace Txn

variable {T N : Type} {D : Db T N} {ε α β : Type}

/-- The statement writes nothing, and answers by its snapshot. -/
def Db.IsRead (D : Db T N) (s : D.Stmt) : Prop :=
  ∃ f : D.Store → D.Res s, ∀ b aux snap cur, D.exec s b aux snap cur = (aux, [], f snap)

namespace Prog

/-- Programs that end at once. -/
def Ends : Prog D ε α → Prop
  | .ret _ | .raise _ => True
  | _ => False

/-- Programs that issue at most one statement, a SELECT, and nothing else. -/
def ReadsOnce : Prog D ε α → Prop
  | .ret _ | .raise _ => True
  | .stmt s k => D.IsRead s ∧ ∀ r, (k r).Ends
  | _ => False

@[simp] theorem ends_pure (a : α) : (pure a : Prog D ε α).Ends := trivial

@[simp] theorem ends_throw (e : ε) : (throw e : Prog D ε α).Ends := trivial

@[simp] theorem ends_lift (x : Except ε α) : (lift x : Prog D ε α).Ends := by cases x <;> trivial

theorem Ends.bind {p : Prog D ε α} {f : α → Prog D ε β} (hp : p.Ends) (hf : ∀ a, (f a).Ends) : (p >>= f).Ends := by
  cases p with
  | ret a => exact hf a
  | raise => trivial
  | _ => exact hp.elim

theorem Ends.readsOnce {p : Prog D ε α} (hp : p.Ends) : p.ReadsOnce := by
  cases p with
  | ret | raise => trivial
  | _ => exact hp.elim

theorem Ends.tryCatch {p : Prog D ε α} {g : ε → Prog D ε α} (hp : p.Ends) (hg : ∀ e, (g e).Ends) :
    (tryCatch p g).Ends := by
  cases p with
  | ret => trivial
  | raise e => exact hg e
  | _ => exact hp.elim

theorem readsOnce_query {s : D.Stmt} (hs : D.IsRead s) {f : D.Res s → Prog D ε β} (hf : ∀ r, (f r).Ends) :
    ((query s : Prog D ε _) >>= f).ReadsOnce := ⟨hs, hf⟩

/-- What comes before the SELECT. -/
theorem Ends.bind_readsOnce {p : Prog D ε α} {f : α → Prog D ε β} (hp : p.Ends) (hf : ∀ a, (f a).ReadsOnce) :
    (p >>= f).ReadsOnce := by
  cases p with
  | ret a => exact hf a
  | raise => trivial
  | _ => exact hp.elim

/-- What comes after it. -/
theorem ReadsOnce.bind {p : Prog D ε α} {f : α → Prog D ε β} (hp : p.ReadsOnce) (hf : ∀ a, (f a).Ends) :
    (p >>= f).ReadsOnce := by
  cases p with
  | ret a => exact (hf a).readsOnce
  | raise => trivial
  | stmt s k => exact ⟨hp.1, fun r => (hp.2 r).bind hf⟩
  | _ => exact hp.elim

theorem ReadsOnce.tryCatch {p : Prog D ε α} {g : ε → Prog D ε α} (hp : p.ReadsOnce) (hg : ∀ e, (g e).Ends) :
    (tryCatch p g).ReadsOnce := by
  cases p with
  | ret a => trivial
  | raise e => exact (hg e).readsOnce
  | stmt s k => exact ⟨hp.1, fun r => (hp.2 r).tryCatch hg⟩
  | _ => exact hp.elim

/-- The program gives `o` on `st`, and leaves all as it is. -/
def AloneOn (p : Prog D ε α) (o : Except ε α) (st : D.Store) : Prop :=
  ∀ E aux, serve E p st aux = (o, st, aux)

/-- It gives `o` on a store that the request has met, or on each. -/
def AtOnce (p : Prog D ε α) (o : Except ε α) (w : Sight D) : Prop :=
  (∃ st, w.store st ∧ p.AloneOn o st) ∨ ∀ st, p.AloneOn o st

theorem AtOnce.mono {p : Prog D ε α} {o : Except ε α} {w w' : Sight D} (hw : w ≤ w') (h : p.AtOnce o w) :
    p.AtOnce o w' := h.imp_left fun ⟨st, hst, ha⟩ => ⟨st, hw.1 st hst, ha⟩

theorem Ends.atOnce {I : D.Store → Prop} {p : Prog D ε α} (hp : p.Ends) {R : List (Ev D) → Except ε α → Prop} {h : List (Ev D)}
    (hR : ∀ o, (∀ E c, p.run E c = (o, c)) → R h o) :
    p.Ok I (Rules.raising fun h e => R h (.error e)) (fun h a => R h (.ok a)) h := by
  cases p with
  | ret a => exact hR _ fun _ _ => rfl
  | raise e => exact hR _ fun _ _ => rfl
  | _ => exact hp.elim

/-- **A program that reads once is atomic.** -/
theorem ReadsOnce.atomic {I : D.Store → Prop} {p : Prog D ε α} (hp : p.ReadsOnce) :
    p.Ok I (Rules.raising fun h e => p.AtOnce (.error e) (Sight.of h)) (fun h a => p.AtOnce (.ok a) (Sight.of h)) [] := by
  cases p with
  | ret a => exact .inr fun _ _ _ => rfl
  | raise e => exact .inr fun _ _ _ => rfl
  | stmt s k =>
    obtain ⟨⟨f, hf⟩, hk⟩ := hp
    refine ⟨trivial, fun b aux snap cur _ _ => ?_⟩
    have hres : (D.execOn (pendOf []) s b aux snap cur).2.2 = f snap := by
      rw [Db.execOn, pendOf_nil, Db.applyAll_nil, hf]
    rw [hres]
    refine (hk (f snap)).atOnce (R := fun h o => (Prog.stmt s k).AtOnce o (Sight.of h)) fun o ho => .inl ⟨snap, ?_, ?_⟩
    · exact Sight.of_snap List.mem_cons_self
    · intro E aux'
      simp only [serve, run, Ctx.after, Ctx.view, Db.applyAll_nil, hf, ho, List.append_nil]
  | _ => exact hp.elim

end Prog

end Txn
