/-
  A journal of what transactions do.

  A `Journal` says what a write makes and what it notes of such things.
  `Owes h m`: by the history `h` the transaction has made `m` more than it has
  noted.  Programs with `J.rules` commit only what they have noted in full.
-/
import Mathlib.Algebra.BigOperators.Group.List.Basic
import Mathlib.Algebra.Order.Group.Multiset
import SmartClassroom.Lib.Prog

namespace Txn

variable {T N : Type} {D : Db T N} {ε α F : Type}

structure Journal (D : Db T N) (F : Type) where
  made : D.Write → Multiset F
  noted : D.Write → Multiset F

namespace Journal

variable (J : Journal D F)

/-- What the writes make together. -/
def allMade (ws : List D.Write) : Multiset F := (ws.map J.made).sum

/-- What the writes note together. -/
def allNoted (ws : List D.Write) : Multiset F := (ws.map J.noted).sum

@[simp] theorem allMade_nil : J.allMade [] = 0 := rfl

@[simp] theorem allNoted_nil : J.allNoted [] = 0 := rfl

@[simp] theorem allMade_cons (w : D.Write) (ws : List D.Write) : J.allMade (w :: ws) = J.made w + J.allMade ws := by
  simp [allMade]

@[simp] theorem allNoted_cons (w : D.Write) (ws : List D.Write) :
    J.allNoted (w :: ws) = J.noted w + J.allNoted ws := by
  simp [allNoted]

theorem allMade_singleton (w : D.Write) : J.allMade [w] = J.made w := by simp

theorem allNoted_singleton (w : D.Write) : J.allNoted [w] = J.noted w := by simp

theorem allMade_append (ws ws' : List D.Write) : J.allMade (ws ++ ws') = J.allMade ws + J.allMade ws' := by
  simp [allMade]

theorem allNoted_append (ws ws' : List D.Write) : J.allNoted (ws ++ ws') = J.allNoted ws + J.allNoted ws' := by
  simp [allNoted]

/-- The transaction has yet to note `m`. -/
def Owes (h : List (Ev D)) (m : Multiset F) : Prop := J.allMade (pendOf h) = m + J.allNoted (pendOf h)

/-- Only what is noted is committed. -/
def rules (ε : Type) : Rules D ε where
  stmt _ _ := True
  commit h := J.Owes h 0
  raise _ _ := True

/-- The statement makes and notes nothing. -/
def Silent (s : D.Stmt) : Prop :=
  ∀ b aux snap cur, ∀ w ∈ (D.exec s b aux snap cur).2.1, J.made w = 0 ∧ J.noted w = 0

variable {J} {h : List (Ev D)} {m m' : Multiset F}

theorem owes_nil : J.Owes [] 0 := rfl

theorem Owes.now (ho : J.Owes h m) (t : T) : J.Owes (.now t :: h) m := ho

theorem Owes.draw (ho : J.Owes h m) (n : N) : J.Owes (.draw n :: h) m := ho

/-- What a statement makes and notes. -/
theorem Owes.stmt (ho : J.Owes h m) {s : D.Stmt} {b : T} {aux : D.Aux} {snap cur : D.Store}
    (hw : J.allMade (D.execOn (pendOf h) s b aux snap cur).2.1 + m =
      m' + J.allNoted (D.execOn (pendOf h) s b aux snap cur).2.1) :
    J.Owes (.stmt s b aux snap cur :: h) m' := by
  unfold Owes at ho ⊢
  rw [pendOf_stmt, allMade_append, allNoted_append, ho]
  calc m + J.allNoted (pendOf h) + J.allMade (D.execOn (pendOf h) s b aux snap cur).2.1
      = J.allMade (D.execOn (pendOf h) s b aux snap cur).2.1 + m + J.allNoted (pendOf h) := by ac_rfl
    _ = m' + (J.allNoted (pendOf h) + J.allNoted (D.execOn (pendOf h) s b aux snap cur).2.1) := by
      rw [hw]
      ac_rfl

theorem Owes.silent (ho : J.Owes h m) {s : D.Stmt} (hs : J.Silent s) (b : T) (aux : D.Aux) (snap cur : D.Store) :
    J.Owes (.stmt s b aux snap cur :: h) m := by
  have hall := hs b aux (D.applyAll snap (pendOf h)) (D.applyAll cur (pendOf h))
  have hmade : J.allMade (D.execOn (pendOf h) s b aux snap cur).2.1 = 0 :=
    List.sum_eq_zero fun x hx => by
      obtain ⟨w, hw, rfl⟩ := List.mem_map.mp hx
      exact (hall w hw).1
  have hnoted : J.allNoted (D.execOn (pendOf h) s b aux snap cur).2.1 = 0 :=
    List.sum_eq_zero fun x hx => by
      obtain ⟨w, hw, rfl⟩ := List.mem_map.mp hx
      exact (hall w hw).2
  exact ho.stmt (by rw [hmade, hnoted, zero_add, add_zero])

/-- A program of silent statements leaves what is owed. -/
theorem silent_ok {I : D.Store → Prop} {p : Prog D ε α} (hp : p.Uses J.Silent) (ho : J.Owes h m) :
    p.Ok I (J.rules ε) (fun h _ => J.Owes h m) h := by
  refine Prog.Uses.ok (K := fun h => J.Owes h m) ?_ ?_ ?_ ?_ hp ho
  · exact fun _ t ho => ho.now t
  · exact fun _ n ho => ho.draw n
  · exact fun _ _ ho hs => ⟨trivial, fun b aux snap cur => ho.silent hs b aux snap cur⟩
  · exact fun _ _ _ => trivial

end Journal

end Txn
