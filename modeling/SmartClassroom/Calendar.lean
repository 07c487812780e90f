/-
  What the calendar shows of other users' reservations.

  Two stores whose reservations differ in owners other than the viewer look the
  same in the calendar: its query and its cells use all but the owner of a
  reservation, and the owner of the viewer's own only (`calendar_eq`).
-/
import Mathlib.Data.List.Forall2
import SmartClassroom.Serving
import SmartClassroom.Lib.Twin

namespace SmartClassroom

open Txn Prog

variable {cfg : Settings} {E : Env ℤ String} {v : User}

/-- The two rows differ in their owner at most, and not in one that is `v`. -/
structure SameButOwner (v : User) (r r' : Reservation) : Prop where
  row : { r with userId := r'.userId } = r'
  own : r.userId = v.id ∨ r'.userId = v.id → r.userId = r'.userId

namespace SameButOwner
variable {r r' : Reservation} (h : SameButOwner v r r')
include h

theorem id : r.id = r'.id := (congrArg Reservation.id h.row :)
theorem hostId : r.hostId = r'.hostId := (congrArg Reservation.hostId h.row :)
theorem timeRange : r.timeRange = r'.timeRange := (congrArg Reservation.timeRange h.row :)
theorem status : r.status = r'.status := (congrArg Reservation.status h.row :)

/-- The viewer owns both or neither. -/
theorem own_iff : r.userId = v.id ↔ r'.userId = v.id :=
  ⟨fun e => (h.own (.inl e)).symm.trans e, fun e => (h.own (.inr e)).trans e⟩

end SameButOwner

/-! ## Cells -/

/-- The two maps have the same keys, with rows that differ in owners at most. -/
abbrev SameCells (v : User) : Occupied → Occupied → Prop :=
  List.Forall₂ fun x y => x.1 = y.1 ∧ SameButOwner v x.2 y.2

theorem SameCells.occupy {occ occ' : Occupied} (h : SameCells v occ occ') (from_ to_ : DateTime)
    (delta : ℤ) {r r' : Reservation} (hr : SameButOwner v r r') :
    SameCells v (occupy from_ to_ delta occ r) (occupy from_ to_ delta occ' r') := by
  have hcells : cellsOf from_ to_ delta r = cellsOf from_ to_ delta r' := by
    simp only [cellsOf, hr.timeRange]
  rw [SmartClassroom.occupy, SmartClassroom.occupy, hcells]
  induction cellsOf from_ to_ delta r' generalizing occ occ' with
  | nil => exact h
  | cons cursor cells ih => exact ih (.cons ⟨by rw [hr.hostId], hr⟩ h)

theorem SameCells.lookup {occ occ' : Occupied} (h : SameCells v occ occ') (key : ℤ × ℤ) :
    Option.Rel (SameButOwner v) (occ.lookup key) (occ'.lookup key) := by
  induction h with
  | nil => exact .none
  | @cons x y xs ys hxy _ ih =>
    obtain ⟨⟨k, r⟩, ⟨k', r'⟩⟩ := x, y
    obtain ⟨rfl, hr⟩ := hxy
    rw [List.lookup_cons, List.lookup_cons]
    cases key == k with
    | true => exact .some hr
    | false => exact ih

/-- **A cell shows the viewer no owner but the viewer.** -/
theorem SameCells.cell (hv : v.role ≠ .admin) {occ occ' : Occupied} (h : SameCells v occ occ')
    (delta hid : ℤ) (cursor : DateTime) :
    calendarCell v delta occ hid cursor = calendarCell v delta occ' hid cursor := by
  have hrel := h.lookup (hid, cursor.instant)
  unfold calendarCell
  revert hrel
  generalize occ.lookup (hid, cursor.instant) = x
  generalize occ'.lookup (hid, cursor.instant) = x'
  rintro (hr | _)
  · simp only [hv, false_or, hr.id, hr.own_iff]
    split_ifs with hown
    · rw [hr.own (.inr hown)]
    · rfl
  · rfl

/-! ## The matrix -/

/-- The stores agree on everything but the owners of reservations, and on which
    of those is `v`. -/
structure SameButOwners (v : User) (st st' : Store) : Prop where
  users : st.users = st'.users
  hosts : st.hosts = st'.hosts
  reservations : List.Forall₂ (SameButOwner v) st.reservations st'.reservations
  tokens : st.tokens = st'.tokens
  auditLogs : st.auditLogs = st'.auditLogs

/-- A SELECT, on states that `R` relates. -/
theorem twin_select {R : Ctx broker → Ctx broker → Prop} {F : BrokerError → BrokerError → Prop}
    {s : Stmt} (hs : s.selects = true) {Q : s.Res → s.Res → Prop} (hQ : ∀ c c', R c c' →
      Q (s.exec E.began c.aux c.view c.view).2.2 (s.exec E.began c'.aux c'.view c'.view).2.2) :
    Twin E R R Q F (execute s) (execute s) := by
  refine .query fun c c' hc => ⟨hQ c c' hc, ?_⟩
  rwa [after_select hs, after_select hs]

theorem twin_now {R : Ctx broker → Ctx broker → Prop} {F : BrokerError → BrokerError → Prop}
    (hR : ∀ c c', R c c' → c.reads = c'.reads ∧
      R { c with reads := c.reads + 1 } { c' with reads := c'.reads + 1 }) :
    Twin E R R (· = ·) F _now _now :=
  .bind (.clock hR) (fun _ _ h => .pure (congrArg DateTime.utc h)) fun _ _ => id

theorem twin_buildCalendarMatrix (hv : v.role ≠ .admin) (from_ to_ : DateTime) (hostId : Option ℤ) :
    Twin E (fun c c' => SameButOwners v c.view c'.view) (fun c c' => SameButOwners v c.view c'.view)
      (· = ·) (· = ·) (buildCalendarMatrix cfg from_ to_ hostId v)
      (buildCalendarMatrix cfg from_ to_ hostId v) := by
  refine .bind (.lift (fun _ _ => rfl) fun _ => rfl) (fun _ _ _ => ?_) fun _ _ => id
  refine .bind (Q := (· = ·)) ?_ (fun hostIds _ h => ?_) fun _ _ => id
  · cases hostId with
    | some hostId => exact .pure rfl
    | none => exact twin_select (s := .hostIds) rfl fun c c' hc =>
        congrArg (List.map Host.id) hc.hosts
  subst h
  refine .bind (Q := List.Forall₂ (SameButOwner v))
    (twin_select (s := .calendar _ _ _) rfl fun c c' hc => ?_)
    (fun rows rows' hrows => .pure ?_) fun _ _ => id
  · refine List.rel_filter (fun r r' hr => ?_) hc.reservations
    simp only [hr.status, hr.timeRange, hr.hostId]
  · have hcells : SameCells v (rows.foldl (occupy from_ to_ (cfg.reservationSlotMinutes * minuteUs)) [])
        (rows'.foldl (occupy from_ to_ (cfg.reservationSlotMinutes * minuteUs)) []) :=
      List.rel_foldl (fun _ _ h _ _ hr => h.occupy from_ to_ _ hr) .nil hrows
    simp only [CalendarMatrix.mk.injEq, true_and]
    refine congrArg hostIds.flatMap (funext fun hid => ?_)
    exact List.map_congr_left fun cursor _ => hcells.cell hv _ hid cursor

/-- **The calendar masks other users.** -/
theorem calendar_eq (hv : v.role ≠ .admin) {st st' : Store} (h : SameButOwners v st st') (q : Seqs)
    (from_ to_ : DateTime) (hostId : Option ℤ) :
    (serve E (buildCalendarMatrix cfg from_ to_ hostId v) st q).1 =
      (serve E (buildCalendarMatrix cfg from_ to_ hostId v) st' q).1 :=
  ((twin_buildCalendarMatrix hv from_ to_ hostId).serve h).1

end SmartClassroom
