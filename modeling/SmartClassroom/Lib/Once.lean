/-
  Keys that are taken once.

  A statement takes keys that are live in the committed store, and waits for a
  transaction that has taken one of them; the commit leaves the key dead
  (`Takes`).  Then no key is taken by two requests, and a key that is taken and
  not yet committed is live (`Once`), in any interleaving (`Reach.once`).
-/
import SmartClassroom.Lib.Interleave

namespace Txn

variable {T N K : Type} {D : Db T N} {J ε α : Type}

/-- What the statements of `W` take: live keys that no other transaction has
    taken. -/
structure Takes (W : J → Rules D ε) (takes : D.Write → K → Prop) (live dead : D.Store → K → Prop) :
    Prop where
  found : ∀ {j h s b aux snap cur w k}, (W j).stmt h s →
    w ∈ (D.execOn (pendOf h) s b aux snap cur).2.1 → takes w k → live cur k
  waits : ∀ {j h s b aux snap cur w k ws}, (W j).stmt h s →
    w ∈ (D.execOn (pendOf h) s b aux snap cur).2.1 → takes w k →
    D.blocks s aux (D.applyAll snap (pendOf h)) (D.applyAll cur (pendOf h)) ws = false →
    ∀ w' ∈ ws, ¬takes w' k
  keeps : ∀ {db ws k}, live db k → (∀ w ∈ ws, ¬takes w k) → live (D.applyAll db ws) k
  kills : ∀ {db ws w k}, live db k → w ∈ ws → takes w k → dead (D.applyAll db ws) k
  stays : ∀ {db ws k}, dead db k → dead (D.applyAll db ws) k

/-- No key is taken twice. -/
structure Once (takes : D.Write → K → Prop) (live dead : D.Store → K → Prop) (s : Sys D J ε α) :
    Prop where
  pend : ∀ (i : ℕ) r, s.reqs[i]? = some r → ∀ w ∈ r.pend, ∀ k, takes w k → live s.db k
  apart : ∀ (i j : ℕ) r q, i ≠ j → s.reqs[i]? = some r → s.reqs[j]? = some q →
    ∀ w ∈ r.pend, ∀ w' ∈ q.pend, ∀ k, takes w k → ¬takes w' k
  done : ∀ (i : ℕ) r, s.reqs[i]? = some r → ∀ w ∈ doneOf r.log, ∀ k, takes w k → dead s.db k
  once : ∀ (i j : ℕ) r q, i ≠ j → s.reqs[i]? = some r → s.reqs[j]? = some q →
    ∀ w ∈ doneOf r.log, ∀ w' ∈ doneOf q.log, ∀ k, takes w k → ¬takes w' k

section
variable {W : J → Rules D ε} {takes : D.Write → K → Prop} {live dead : D.Store → K → Prop}

theorem Once.init {db : D.Store} {aux : D.Aux} {clock : T} :
    Once takes live dead (⟨db, aux, clock, []⟩ : Sys D J ε α) :=
  ⟨by simp, by simp, by simp, by simp⟩

/-- A step that commits nothing, and leaves no more pending than new live keys. -/
theorem Once.set {s : Sys D J ε α} (ho : Once takes live dead s) {i : ℕ} {r r' : Req D J ε α} {aux'}
    (hr : s.reqs[i]? = some r) (hdone : doneOf r'.log = doneOf r.log)
    (hlive : ∀ w ∈ r'.pend, ∀ k, takes w k → live s.db k)
    (hother : ∀ j q, i ≠ j → s.reqs[j]? = some q → ∀ w ∈ r'.pend, ∀ w' ∈ q.pend, ∀ k,
      takes w k → ¬takes w' k) :
    Once takes live dead (⟨s.db, aux', s.clock, s.reqs.set i r'⟩ : Sys D J ε α) where
  pend j q hq := by
    rcases getElem?_set_cases hq with ⟨_, rfl⟩ | ⟨_, hq⟩
    · exact hlive
    · exact ho.pend j q hq
  apart j k q p hjk hq hp w hw w' hw' x hx := by
    rcases getElem?_set_cases hq with ⟨rfl, rfl⟩ | ⟨hj, h1⟩
    · rcases getElem?_set_cases hp with ⟨h, _⟩ | ⟨hk, h2⟩
      · exact absurd h hjk
      · exact hother k p hk h2 w hw w' hw' x hx
    · rcases getElem?_set_cases hp with ⟨_, rfl⟩ | ⟨_, h2⟩
      · exact fun h => hother j q hj h1 w' hw' w hw x h hx
      · exact ho.apart j k q p hjk h1 h2 w hw w' hw' x hx
  done j q hq := by
    rcases getElem?_set_cases hq with ⟨_, rfl⟩ | ⟨_, hq⟩
    · rw [hdone]; exact ho.done i r hr
    · exact ho.done j q hq
  once j k q p hjk hq hp := by
    rcases getElem?_set_cases hq with ⟨rfl, rfl⟩ | ⟨_, h1⟩
    · rcases getElem?_set_cases hp with ⟨h, _⟩ | ⟨_, h2⟩
      · exact absurd h hjk
      · rw [hdone]; exact ho.once i k r p hjk hr h2
    · rcases getElem?_set_cases hp with ⟨rfl, rfl⟩ | ⟨_, h2⟩
      · rw [hdone]; exact ho.once j i q r hjk h1 hr
      · exact ho.once j k q p hjk h1 h2

/-- A statement takes what nobody else has. -/
theorem Once.finish (hT : Takes W takes live dead) {s : Sys D J ε α} (ho : Once takes live dead s)
    {i : ℕ} {r r' : Req D J ε α} (hr : s.reqs[i]? = some r) {st : D.Stmt} {snap : D.Store} {aux'}
    (hW : (W r.job).stmt r.log st) (hpend : r.pend = pendOf r.log)
    (hb : s.blocked i r.pend st snap = false) (hdone : doneOf r'.log = doneOf r.log)
    (hr' : r'.pend = [] ∨ r'.pend = r.pend ++ (r.exec s st snap).2.1) :
    Once takes live dead (⟨s.db, aux', s.clock, s.reqs.set i r'⟩ : Sys D J ε α) := by
  rcases hr' with hr' | hr'
  · exact ho.set hr hdone (by simp [hr']) (by simp [hr'])
  refine ho.set hr hdone (fun w hw k hk => ?_) fun j q hij hq w hw w' hw' k hk => ?_
  · rw [hr'] at hw
    rcases List.mem_append.mp hw with hw | hw
    · exact ho.pend i r hr w hw k hk
    · exact hT.found hW hw hk
  · rw [hr'] at hw
    rcases List.mem_append.mp hw with hw | hw
    · exact ho.apart i j r q hij hr hq w hw w' hw' k hk
    · have hb := Sys.not_blocked hb hij hq
      rw [hpend] at hb
      exact hT.waits hW hw hk hb w' hw'

/-- A commit kills what it has taken. -/
theorem Once.commit (hT : Takes W takes live dead) {s : Sys D J ε α} (ho : Once takes live dead s)
    (hdis : ∀ k, live s.db k → ¬dead s.db k) {i : ℕ} {r r' : Req D J ε α} {aux'}
    (hr : s.reqs[i]? = some r) (hdone : doneOf r'.log = doneOf r.log ++ r.pend)
    (hr' : r'.pend = []) :
    Once takes live dead
      (⟨D.applyAll s.db r.pend, aux', s.clock, s.reqs.set i r'⟩ : Sys D J ε α) := by
  -- what `r` takes now is live, so nobody has committed a write that takes it
  have new : ∀ (j : ℕ) q, s.reqs[j]? = some q → ∀ w ∈ r.pend, ∀ w' ∈ doneOf q.log, ∀ k,
      takes w k → ¬takes w' k := by
    intro j q hq w hw w' hw' k hk hk'
    exact hdis k (ho.pend i r hr w hw k hk) (ho.done j q hq w' hw' k hk')
  refine ⟨fun j q hq w hw k hk => ?_, fun j k q p hjk hq hp => ?_, fun j q hq w hw k hk => ?_,
    fun j l q p hjl hq hp w hw w' hw' k hk => ?_⟩
  · rcases getElem?_set_cases hq with ⟨_, rfl⟩ | ⟨hij, hq⟩
    · simp [hr'] at hw
    · exact hT.keeps (ho.pend j q hq w hw k hk) fun w' hw' =>
        ho.apart j i q r hij.symm hq hr w hw w' hw' k hk
  · rcases getElem?_set_cases hq with ⟨_, rfl⟩ | ⟨_, hq⟩
    · simp [hr']
    · rcases getElem?_set_cases hp with ⟨_, rfl⟩ | ⟨_, hp⟩
      · simp [hr']
      · exact ho.apart j k q p hjk hq hp
  · rcases getElem?_set_cases hq with ⟨_, rfl⟩ | ⟨_, hq⟩
    · rw [hdone] at hw
      rcases List.mem_append.mp hw with hw | hw
      · exact hT.stays (ho.done i r hr w hw k hk)
      · exact hT.kills (ho.pend i r hr w hw k hk) hw hk
    · exact hT.stays (ho.done j q hq w hw k hk)
  · rcases getElem?_set_cases hq with ⟨rfl, rfl⟩ | ⟨_, h1⟩
    · rcases getElem?_set_cases hp with ⟨h, _⟩ | ⟨_, h2⟩
      · exact absurd h hjl
      rw [hdone] at hw
      rcases List.mem_append.mp hw with hw | hw
      · exact ho.once i l r p hjl hr h2 w hw w' hw' k hk
      · exact new l p h2 w hw w' hw' k hk
    · rcases getElem?_set_cases hp with ⟨rfl, rfl⟩ | ⟨_, h2⟩
      · rw [hdone] at hw'
        rcases List.mem_append.mp hw' with hw' | hw'
        · exact ho.once j i q r hjl h1 hr w hw w' hw' k hk
        · exact fun hk' => new j q h1 w' hw' w hw k hk' hk
      · exact ho.once j l q p hjl h1 h2 w hw w' hw' k hk

variable [LinearOrder T] {V : Service D J ε α} {I : D.Store → Prop}
  {Q : J → List (Ev D) → α → Prop} {E : D.Store → D.Store → Prop}

theorem Step.once (hT : Takes W takes live dead) {s s' : Sys D J ε α} {l : Label J T N}
    (hs : s.Sound I W Q E) (hdis : ∀ k, live s.db k → ¬dead s.db k) (ho : Once takes live dead s)
    (h : Step V s l s') : Once takes live dead s' := by
  cases h with
  | tick => exact ⟨ho.pend, ho.apart, ho.done, ho.once⟩
  | arrive j =>
    have old : ∀ (i : ℕ) r, (s.reqs ++ [⟨j, V.prog j, [], none, none⟩])[i]? = some r →
        s.reqs[i]? = some r ∨ r.pend = [] ∧ doneOf r.log = [] := by
      intro i r hr
      rcases getElem?_arrive_cases hr with hr | ⟨_, rfl⟩
      · exact .inl hr
      · exact .inr ⟨(Req.pend_eq _).elim id id, rfl⟩
    refine ⟨fun i r hr => ?_, fun i k r q hik hr hq => ?_, fun i r hr => ?_,
      fun i k r q hik hr hq => ?_⟩
    · rcases old i r hr with hr | ⟨hp, _⟩
      · exact ho.pend i r hr
      · simp [hp]
    · rcases old i r hr with hr | ⟨hp, _⟩
      · rcases old k q hq with hq | ⟨hp, _⟩
        · exact ho.apart i k r q hik hr hq
        · simp [hp]
      · simp [hp]
    · rcases old i r hr with hr | ⟨_, hd⟩
      · exact ho.done i r hr
      · simp [hd]
    · rcases old i r hr with hr | ⟨_, hd⟩
      · rcases old k q hq with hq | ⟨_, hd⟩
        · exact ho.once i k r q hik hr hq
        · simp [hd]
      · simp [hd]
  | @act i a r r' db' aux' hr _ hm =>
    have hpend := Req.pend_of_not_ended hm.later.1
    rcases hm.effect with ⟨rfl, hd, hr'⟩ | ⟨st, k, snap, hp, _, hb, rfl, hd, hr'⟩ |
      ⟨k, _, rfl, hd, hr'⟩
    · rcases hr' with hr' | hr'
      · exact ho.set hr hd (by simp [hr']) (by simp [hr'])
      · exact ho.set hr hd (hr' ▸ ho.pend i r hr) fun j q hij hq => hr' ▸ ho.apart i j r q hij hr hq
    · have hok := (hs.req i r hr).ok
      rw [hp] at hok
      exact ho.finish hT hr hok.1 hpend hb hd hr'
    · exact ho.commit hT hdis hr hd hr'

/-- **No key is ever taken twice.** -/
theorem Reach.once (hT : Takes W takes live dead) (hV : Keeps V I W Q) (hE : Grows E)
    {C : Sys D J ε α → Label J T N → Prop} {s s' : Sys D J ε α} (h : Reach V C s s')
    (hs : s.Sound I W Q E) (hdis : ∀ s₁, Reach V C s s₁ → ∀ k, live s₁.db k → ¬dead s₁.db k)
    (ho : Once takes live dead s) : Once takes live dead s' := by
  induction h with
  | refl => exact ho
  | tail h₁ hst ih =>
    obtain ⟨l, _, hst⟩ := hst
    exact (step_cases hst).once hT (Reach.sound hV hE h₁ hs) (hdis _ h₁) ih

end

end Txn
