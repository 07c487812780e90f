/-
  Bounded mailboxes that drop their oldest message.

  A `Mailbox` is one receiver alone: it joins, is sent messages until the
  senders close, takes them one by one, and leaves.  Signals are listed newest
  first.

  * `since` are the messages sent since it joined.
  * `keeps_run`: its inbox is the latest of these, and what it has taken and
    its inbox are some of these, in their order.
  * `received_step`: a message is lost only to a full inbox, the oldest first.
-/
import Mathlib.Data.List.DropRight
import Mathlib.Data.List.Infix

inductive Mailbox.Signal (α : Type) where
  | join
  | send (a : α)
  | take
  | leave
  | close

structure Mailbox (α : Type) where
  closed : Bool := false
  inbox : Option (List α) := none
  taken : List α := []

namespace Mailbox

variable {α : Type} {n : ℕ} {a : α} {q l t : List α} {x : Signal α} {h : List (Signal α)}

/-- The inbox `q` of capacity `n` after the message `a`. -/
def push (n : ℕ) (a : α) (q : List α) : List α :=
  if q.length < n then q ++ [a] else q.tail ++ [a]

theorem length_push_le (hn : 0 < n) (hq : q.length ≤ n) : (push n a q).length ≤ n := by
  unfold push
  split_ifs
  · simp; omega
  · simp; omega

theorem push_suffix (hq : q <:+ l) : push n a q <:+ l ++ [a] := by
  unfold push
  split_ifs
  · exact (List.suffix_append_inj_of_length_eq rfl).mpr ⟨hq, rfl⟩
  · exact (List.suffix_append_inj_of_length_eq rfl).mpr ⟨(List.tail_suffix q).trans hq, rfl⟩

theorem push_sublist : (push n a q).Sublist (q ++ [a]) := by
  unfold push
  split_ifs
  · exact List.Sublist.refl _
  · exact (List.tail_sublist q).append_right [a]

def step (n : ℕ) (m : Mailbox α) : Signal α → Mailbox α
  | .join => { m with inbox := some [], taken := [] }
  | .send a => if m.closed then m else { m with inbox := m.inbox.map (push n a) }
  | .take =>
    match m.inbox with
    | some (a :: q) => { m with inbox := some q, taken := m.taken ++ [a] }
    | _ => m
  | .leave => { m with inbox := none }
  | .close => { m with closed := true }

def run (n : ℕ) : List (Signal α) → Mailbox α
  | [] => {}
  | x :: h => (run n h).step n x

def isClosed : List (Signal α) → Bool
  | [] => false
  | .close :: _ => true
  | _ :: h => isClosed h

/-- The messages sent since it joined. -/
def since : List (Signal α) → List α
  | [] => []
  | .join :: _ => []
  | .send a :: h => if isClosed h then since h else since h ++ [a]
  | .take :: h | .leave :: h | .close :: h => since h

theorem closed_run (n : ℕ) : (run n h).closed = isClosed h := by
  induction h with
  | nil => rfl
  | cons x h ih =>
    cases x with
    | join | leave => exact ih
    | close => rfl
    | send a =>
      simp only [run, step, isClosed]
      split_ifs <;> exact ih
    | take =>
      simp only [run, step, isClosed]
      split <;> exact ih

/-- What it has taken, and what it may still take. -/
def received (m : Mailbox α) : List α := m.taken ++ m.inbox.getD []

/-- Of the messages `l`, the mailbox holds the latest, and lost none but to its
    capacity. -/
structure Keeps (n : ℕ) (m : Mailbox α) (l : List α) : Prop where
  latest : ∀ q ∈ m.inbox, q <:+ l
  length : ∀ q ∈ m.inbox, q.length ≤ n
  order : m.received.Sublist l

theorem Keeps.send {m : Mailbox α} (hn : 0 < n) (hk : Keeps n m l) (a : α) :
    Keeps n { m with inbox := m.inbox.map (push n a) } (l ++ [a]) where
  latest q hq := by
    obtain ⟨q₀, hq₀, rfl⟩ := Option.map_eq_some_iff.mp hq
    exact push_suffix (hk.latest q₀ hq₀)
  length q hq := by
    obtain ⟨q₀, hq₀, rfl⟩ := Option.map_eq_some_iff.mp hq
    exact length_push_le hn (hk.length q₀ hq₀)
  order := by
    have hord := hk.order
    unfold received at hord ⊢
    cases hq : m.inbox with
    | none =>
      rw [hq] at hord
      exact hord.trans (List.sublist_append_left l [a])
    | some q =>
      rw [hq] at hord
      have hpush : (m.taken ++ push n a q).Sublist (m.taken ++ (q ++ [a])) :=
        push_sublist.append_left m.taken
      rw [← List.append_assoc] at hpush
      exact hpush.trans (hord.append_right [a])

theorem Keeps.step {m : Mailbox α} (hn : 0 < n) (hm : m.closed = isClosed h)
    (hk : Keeps n m (since h)) (x : Signal α) : Keeps n (m.step n x) (since (x :: h)) := by
  cases x with
  | join =>
    refine ⟨by simp [Mailbox.step, since], by simp [Mailbox.step], ?_⟩
    simp [Mailbox.step, since, received]
  | send a =>
    simp only [Mailbox.step, since]
    rw [← hm]
    split_ifs
    · exact hk
    · exact hk.send hn a
  | leave =>
    refine ⟨by simp [Mailbox.step], by simp [Mailbox.step], List.Sublist.trans ?_ hk.order⟩
    simp [Mailbox.step, received]
  | close => exact ⟨hk.latest, hk.length, hk.order⟩
  | take =>
    simp only [Mailbox.step, since]
    split
    · rename_i a q hq
      have hlatest := hk.latest _ hq
      have hlength := hk.length _ hq
      have horder := hk.order
      refine ⟨?_, ?_, ?_⟩
      · rintro _ ⟨⟩
        exact (List.suffix_cons a q).trans hlatest
      · rintro _ ⟨⟩
        exact (Nat.le_succ _).trans hlength
      · simpa [received, hq] using horder
    · exact hk

/-- A mailbox holds the latest messages since it joined. -/
theorem keeps_run (hn : 0 < n) (h : List (Signal α)) : Keeps n (run n h) (since h) := by
  induction h with
  | nil => exact ⟨by simp [run], by simp [run], by simp [run, received]⟩
  | cons x h ih => exact ih.step hn (closed_run n) x

/-- The messages that arrive with the signal. -/
def arriving (m : Mailbox α) : Signal α → List α
  | .send a => if m.closed then [] else [a]
  | _ => []

/-- A signal that reaches a receiver of the inbox `q`, and leaves it `q'`, adds
    what arrives, or displaces the oldest message of a full inbox. -/
theorem received_step {m : Mailbox α} {q q' : List α} (hq : m.inbox = some q)
    (hq' : (m.step n x).inbox = some q') (hx : x ≠ .join) :
    (m.step n x).received = m.received ++ m.arriving x ∨
      (n ≤ q.length ∧ ∃ a, x = .send a ∧ m.closed = false ∧ q' = q.tail ++ [a] ∧
        (m.step n x).taken = m.taken) := by
  cases x with
  | join => exact absurd rfl hx
  | leave => cases hq'
  | close => exact .inl (List.append_nil _).symm
  | take =>
    refine .inl ?_
    simp only [step, arriving, List.append_nil]
    split
    · rename_i a q hq
      simp [received, hq]
    · rfl
  | send a =>
    simp only [step] at hq' ⊢
    by_cases hc : m.closed = true
    · exact .inl (by simp [hc, arriving])
    · rw [if_neg hc] at hq' ⊢
      obtain rfl : push n a q = q' := by simpa [hq] using hq'
      by_cases hfull : q.length < n
      · exact .inl (by simp [received, arriving, hc, hq, push, hfull])
      · exact .inr ⟨by omega, a, rfl, by simpa using hc, by simp [push, hfull], rfl⟩

end Mailbox
