/-
  What leaves the system.

  A statement may send messages.  No rollback takes them back: they are in the part
  of the database that outlives its transactions (`Outbox`).  In every run the
  messages sent are those sent before it, and those of the statements of its
  requests: none is lost, and none is sent twice (`Reach.sent`).
-/
import SmartClassroom.Lib.Interleave

namespace Txn

variable {T N : Type} {D : Db T N} {ε α M : Type}

/-- The messages that were sent, and those that a statement sends. -/
structure Outbox (D : Db T N) (M : Type) where
  sent : D.Aux → List M
  sends : D.Stmt → List M
  sent_exec : ∀ s b aux snap cur, sent (D.exec s b aux snap cur).1 = sent aux ++ sends s

namespace Outbox

variable (o : Outbox D M)

/-- What a request has sent, by its history. -/
def sentIn : List (Ev D) → List M
  | .stmt s _ _ _ _ :: h => sentIn h ++ o.sends s
  | .now _ :: h | .draw _ :: h | .commit :: h | .rollback :: h => sentIn h
  | [] => []

variable {o}

@[simp] theorem sentIn_nil : o.sentIn [] = [] := rfl

/-- The statement behind a message. -/
theorem mem_sentIn {m : M} : ∀ {h : List (Ev D)}, m ∈ o.sentIn h →
    ∃ s b aux snap cur h₀, .stmt s b aux snap cur :: h₀ <:+ h ∧ m ∈ o.sends s := by
  intro h
  induction h with
  | nil => exact fun hm => absurd hm List.not_mem_nil
  | cons e h ih =>
    have hlater (hm : m ∈ o.sentIn h) : ∃ s b aux snap cur h₀, .stmt s b aux snap cur :: h₀ <:+ e :: h ∧ m ∈ o.sends s := by
      obtain ⟨s, b, aux, snap, cur, h₀, hsuf, hs⟩ := ih hm
      exact ⟨s, b, aux, snap, cur, h₀, hsuf.trans (List.suffix_cons _ _), hs⟩
    cases e with
    | now | draw | commit | rollback => exact hlater
    | stmt s b aux snap cur =>
      intro hm
      rcases List.mem_append.mp hm with hm | hm
      · exact hlater hm
      · exact ⟨s, b, aux, snap, cur, h, List.suffix_rfl, hm⟩

end Outbox

/-! ## Runs -/

/-- One element of a list counts for more. -/
theorem flatMap_set_perm {A : Type} {f : A → List M} {a b : A} {x : List M} (hf : f b = f a ++ x) :
    ∀ {l : List A} {i : ℕ}, l[i]? = some a → ((l.set i b).flatMap f).Perm (l.flatMap f ++ x) := by
  intro l
  induction l with
  | nil => exact fun ha => nomatch ha
  | cons y l ih =>
    intro i ha
    cases i with
    | zero =>
      obtain rfl : y = a := Option.some.inj ha
      rw [List.set_cons_zero, List.flatMap_cons, List.flatMap_cons, hf, List.append_assoc, List.append_assoc]
      exact List.perm_append_comm.append_left _
    | succ i =>
      rw [List.set_cons_succ, List.flatMap_cons, List.flatMap_cons, List.append_assoc]
      exact (ih ha).append_left _

section
variable [LinearOrder T] {J : Type} {V : Service D J ε α} {C : Sys D J ε α → Label J T N → Prop} {s s' : Sys D J ε α}

omit [LinearOrder T] in
/-- A step sends what its statement sends. -/
theorem Move.sent (o : Outbox D M) {lost : ε} {i : ℕ} {r r' : Req D J ε α} {db' aux'}
    (hm : Move lost s i r r' db' aux') :
    ∃ x, o.sentIn r'.log = o.sentIn r.log ++ x ∧ o.sent aux' = o.sent s.aux ++ x := by
  cases hm with
  | @finish st => exact ⟨o.sends st, rfl, o.sent_exec ..⟩
  | start | now | draw | commit | rollback | fail => exact ⟨[], (List.append_nil _).symm, (List.append_nil _).symm⟩

/-- **No message is lost, and none is sent twice.** -/
theorem Reach.sent (o : Outbox D M) (hs : s.reqs = []) (h : Reach V C s s') :
    (o.sent s'.aux).Perm (o.sent s.aux ++ s'.reqs.flatMap fun r => o.sentIn r.log) := by
  induction h with
  | refl => rw [hs, List.flatMap_nil, List.append_nil]
  | tail _ hst ih =>
    obtain ⟨l, -, hst⟩ := hst
    cases step_cases hst with
    | tick => exact ih
    | arrive j => simpa using ih
    | act hq _ hm =>
      obtain ⟨x, hlog, haux⟩ := hm.sent o
      rw [haux]
      have hset := flatMap_set_perm (f := fun r : Req D J ε α => o.sentIn r.log) hlog hq
      exact (ih.append_right x).trans (by rw [List.append_assoc]; exact hset.symm.append_left _)

end

end Txn
