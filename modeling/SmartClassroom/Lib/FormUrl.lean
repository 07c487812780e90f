/-
  `application/x-www-form-urlencoded`, as `URLSearchParams` writes it.

  * `encode`: ASCII letters, digits and `*-._` stand for themselves, a space
    becomes `+`, every other character the escapes of its UTF-8 bytes;
  * `serialize`: the pairs of a query, joined by `&` and `=`;
  * `decode keep`: a reader that leaves the escapes of the ASCII characters
    `keep` as they are, and `lookup`, which finds the text of a key.

  `decode_encode` and `lookup_serialize` are the two halves of the round trip:
  what a reader gets is the text with the kept characters still escaped
  (`partly keep`).
-/
import Mathlib.Data.List.Basic
import Mathlib.Tactic.IntervalCases

namespace FormUrl

/-! ## Writing -/

/-- A character that stands for itself. -/
def unreserved (c : Char) : Bool :=
  c.isAlphanum || c == '*' || c == '-' || c == '.' || c == '_'

def hexDigit (n : ℕ) : Char := if n < 10 then Char.ofNat (48 + n) else Char.ofNat (55 + n)

def escape (b : ℕ) : List Char := ['%', hexDigit (b / 16), hexDigit (b % 16)]

def encodeChar (c : Char) : List Char :=
  if unreserved c then [c]
  else if c = ' ' then ['+']
  else (String.utf8EncodeChar c).flatMap fun b => escape b.toNat

def encode (s : List Char) : List Char := s.flatMap encodeChar

def pair (kv : List Char × List Char) : List Char := encode kv.1 ++ '=' :: encode kv.2

def serialize (kvs : List (List Char × List Char)) : List Char :=
  ['&'].intercalate (kvs.map pair)

/-! ## Reading -/

def hexValue (c : Char) : Option ℕ :=
  if '0' ≤ c ∧ c ≤ '9' then some (c.toNat - 48)
  else if 'A' ≤ c ∧ c ≤ 'F' then some (c.toNat - 55)
  else if 'a' ≤ c ∧ c ≤ 'f' then some (c.toNat - 87)
  else none

/-- The ASCII escapes decoded, those of `keep` left as they are. -/
def decode (keep : Char → Bool) : List Char → List Char
  | [] => []
  | '%' :: h :: l :: s =>
    match hexValue h, hexValue l with
    | some a, some b =>
      if a < 8 ∧ keep (Char.ofNat (16 * a + b)) = false then Char.ofNat (16 * a + b) :: decode keep s
      else '%' :: h :: l :: decode keep s
    | _, _ => '%' :: decode keep (h :: l :: s)
  | c :: s => c :: decode keep s

/-- The text of a pair, cut at its first `=`. -/
def cut (s : List Char) : List Char × List Char :=
  (s.takeWhile (· ≠ '='), (s.dropWhile (· ≠ '=')).tail)

/-- The text that a query has for a key. -/
def lookup (key query : List Char) : Option (List Char) :=
  (((query.splitOn '&').map cut).find? (·.1 == key)).map (·.2)

/-- The text with the characters of `keep` escaped. -/
def partly (keep : Char → Bool) (s : List Char) : List Char :=
  s.flatMap fun c => if keep c then encodeChar c else [c]

/-- A printable ASCII character other than the space: it is written as itself
    or as one escape. -/
def Visible (c : Char) : Prop := 32 < c.toNat ∧ c.toNat < 127

/-! ## One character -/

theorem hexValue_hexDigit {n : ℕ} (h : n < 16) : hexValue (hexDigit n) = some n := by
  interval_cases n <;> rfl

theorem hexDigit_ne {n : ℕ} (h : n < 16) : hexDigit n ≠ '&' ∧ hexDigit n ≠ '=' := by
  interval_cases n <;> decide

theorem visible_of_range {a b : UInt32} {c : Char} (ha : 32 < a.toNat) (hb : b.toNat < 127)
    (h₁ : a ≤ c.val) (h₂ : c.val ≤ b) : Visible c :=
  ⟨ha.trans_le h₁, lt_of_le_of_lt (UInt32.le_iff_toNat_le.1 h₂) hb⟩

theorem visible_of_alphanum {c : Char} (h : c.isAlphanum = true) : Visible c := by
  rcases Bool.or_eq_true_iff.1 h with h | h
  · rcases Bool.or_eq_true_iff.1 h with h | h
    · have hr : 'A'.val ≤ c.val ∧ c.val ≤ 'Z'.val := of_decide_eq_true h
      exact visible_of_range (by decide) (by decide) hr.1 hr.2
    · obtain ⟨h₁, h₂⟩ := Bool.and_eq_true_iff.1 h
      exact visible_of_range (by decide) (by decide) (of_decide_eq_true h₁) (of_decide_eq_true h₂)
  · obtain ⟨h₁, h₂⟩ := Bool.and_eq_true_iff.1 h
    exact visible_of_range (by decide) (by decide) (of_decide_eq_true h₁) (of_decide_eq_true h₂)

theorem visible_of_unreserved {c : Char} (h : unreserved c = true) : Visible c := by
  simp only [unreserved, Bool.or_eq_true, beq_iff_eq] at h
  rcases h with (((h | rfl) | rfl) | rfl) | rfl
  · exact visible_of_alphanum h
  all_goals exact ⟨by decide, by decide⟩

theorem encodeChar_unreserved {c : Char} (h : unreserved c = true) : encodeChar c = [c] :=
  if_pos h

theorem encodeChar_reserved {c : Char} (hc : Visible c) (h : unreserved c = false) :
    encodeChar c = escape c.toNat := by
  have hv : c.toNat < 127 := hc.2
  have hs : c ≠ ' ' := by
    rintro rfl
    exact absurd hc.1 (by decide)
  have hb : (UInt8.ofNat c.toNat).toNat = c.toNat := Nat.mod_eq_of_lt (by omega)
  have hbytes : String.utf8EncodeChar c = [UInt8.ofNat c.toNat] := if_pos hv.le
  rw [encodeChar, if_neg (Bool.eq_false_iff.1 h), if_neg hs, hbytes, List.flatMap_singleton, hb]

/-- No separator is in what a character is written as. -/
theorem not_separator {c d : Char} (h : d ∈ encodeChar c) : d ≠ '&' ∧ d ≠ '=' := by
  unfold encodeChar at h
  split_ifs at h with hu hs
  · rw [List.mem_singleton] at h
    subst h
    constructor
    · rintro rfl
      exact absurd hu (by decide)
    · rintro rfl
      exact absurd hu (by decide)
  · rw [List.mem_singleton] at h
    subst h
    decide
  · obtain ⟨b, -, hb⟩ := List.mem_flatMap.1 h
    have hlt : b.toNat < 256 := b.toNat_lt
    simp only [escape, List.mem_cons, List.not_mem_nil, or_false] at hb
    rcases hb with rfl | rfl | rfl
    · decide
    · exact hexDigit_ne (by omega)
    · exact hexDigit_ne (by omega)

theorem decode_cons {keep : Char → Bool} {c : Char} (h : c ≠ '%') (s : List Char) :
    decode keep (c :: s) = c :: decode keep s := by
  rw [decode.eq_def]
  split
  · next e => cases e
  · next e => exact absurd (List.cons.inj e).1 h
  · next e => rw [(List.cons.inj e).1, (List.cons.inj e).2]

theorem decode_escape (keep : Char → Bool) {c : Char} (hc : c.toNat < 128) (s : List Char) :
    decode keep (escape c.toNat ++ s) =
      (if keep c then escape c.toNat else [c]) ++ decode keep s := by
  have hhi : hexValue (hexDigit (c.toNat / 16)) = some (c.toNat / 16) := hexValue_hexDigit (by omega)
  have hlo : hexValue (hexDigit (c.toNat % 16)) = some (c.toNat % 16) := hexValue_hexDigit (by omega)
  have hb : Char.ofNat (16 * (c.toNat / 16) + c.toNat % 16) = c := by
    rw [Nat.div_add_mod, Char.ofNat_toNat]
  have ha : c.toNat / 16 < 8 := by omega
  simp only [escape, List.cons_append, List.nil_append, decode, hhi, hlo, hb, ha, true_and]
  by_cases hk : keep c = true
  · simp [hk]
  · simp [hk]

/-! ## One text -/

theorem decode_encodeChar (keep : Char → Bool) {c : Char} (hc : Visible c) (s : List Char) :
    decode keep (encodeChar c ++ s) =
      (if keep c then encodeChar c else [c]) ++ decode keep s := by
  by_cases hu : unreserved c = true
  · have hp : c ≠ '%' := by
      rintro rfl
      exact absurd hu (by decide)
    rw [encodeChar_unreserved hu, ite_self, List.singleton_append, decode_cons hp,
      List.singleton_append]
  · rw [encodeChar_reserved hc (Bool.eq_false_iff.2 hu), decode_escape keep (hc.2.trans (by decide))]

/-- What is read back is the text with the kept characters still escaped. -/
theorem decode_encode (keep : Char → Bool) {s : List Char} (h : ∀ c ∈ s, Visible c) :
    decode keep (encode s) = partly keep s := by
  induction s with
  | nil => rfl
  | cons c s ih =>
    simp only [encode, partly, List.flatMap_cons] at ih ⊢
    rw [decode_encodeChar keep (h c (.head _)), ih fun d hd => h d (.tail _ hd)]

theorem encode_unreserved {s : List Char} (h : ∀ c ∈ s, unreserved c = true) : encode s = s := by
  induction s with
  | nil => rfl
  | cons c s ih =>
    simp only [encode, List.flatMap_cons] at ih ⊢
    rw [encodeChar_unreserved (h c (.head _)), ih fun d hd => h d (.tail _ hd),
      List.singleton_append]

theorem partly_none (s : List Char) : partly (fun _ => false) s = s :=
  List.flatMap_singleton' s

theorem length_partly_le (keep : Char → Bool) (s : List Char) :
    s.length ≤ (partly keep s).length := by
  induction s with
  | nil => exact le_rfl
  | cons c s ih =>
    have hc : 1 ≤ (encodeChar c).length := by
      unfold encodeChar
      split_ifs
      · exact le_rfl
      · exact le_rfl
      · obtain ⟨b, bs, e⟩ := List.exists_cons_of_ne_nil (String.utf8EncodeChar_ne_nil (c := c))
        rw [e, List.flatMap_cons, List.length_append]
        simp only [escape, List.length_cons]
        omega
    simp only [partly, List.flatMap_cons, List.length_append, List.length_cons] at ih ⊢
    split_ifs
    · omega
    · simp only [List.length_singleton]
      omega

/-- A text comes through exactly when none of its kept characters was escaped. -/
theorem partly_eq_self_iff (keep : Char → Bool) {s : List Char} (h : ∀ c ∈ s, Visible c) :
    partly keep s = s ↔ ∀ c ∈ s, keep c = true → unreserved c = true := by
  induction s with
  | nil => simp [partly]
  | cons c s ih =>
    have ih := ih fun d hd => h d (.tail _ hd)
    simp only [partly, List.flatMap_cons, List.forall_mem_cons] at ih ⊢
    by_cases hk : keep c = true
    · by_cases hu : unreserved c = true
      · simp only [hk, hu, if_true, encodeChar_unreserved hu, List.singleton_append,
          List.cons.injEq, true_and, ih, forall_true_left]
      · refine iff_of_false (fun e => ?_) fun e => hu (e.1 hk)
        have hlen := congrArg List.length e
        have hle := length_partly_le keep s
        rw [if_pos hk, encodeChar_reserved (h c (.head _)) (Bool.eq_false_iff.2 hu)] at hlen
        simp only [partly, escape, List.length_append, List.length_cons, List.length_nil] at hlen hle
        omega
    · simp only [hk, if_false, List.singleton_append, List.cons.injEq, true_and, ih,
        false_implies, Bool.false_eq_true]

/-! ## A query -/

theorem cut_pair (kv : List Char × List Char) : cut (pair kv) = (encode kv.1, encode kv.2) := by
  have hk : ∀ c ∈ encode kv.1, (decide (c ≠ '=')) = true := by
    intro c hc
    obtain ⟨d, -, hd⟩ := List.mem_flatMap.1 hc
    exact decide_eq_true (not_separator hd).2
  unfold cut pair
  rw [List.takeWhile_append_of_pos hk, List.dropWhile_append_of_pos hk]
  simp

theorem not_amp_pair (kv : List Char × List Char) : '&' ∉ pair kv := by
  intro h
  rcases List.mem_append.1 h with h | h
  · obtain ⟨d, -, hd⟩ := List.mem_flatMap.1 h
    exact (not_separator hd).1 rfl
  · rcases List.mem_cons.1 h with h | h
    · exact absurd h (by decide)
    · obtain ⟨d, -, hd⟩ := List.mem_flatMap.1 h
      exact (not_separator hd).1 rfl

theorem find?_key {K V : Type} [BEq K] [LawfulBEq K] {kvs : List (K × V)} {k : K} {v : V}
    (hn : (kvs.map (·.1)).Nodup) (h : (k, v) ∈ kvs) : kvs.find? (·.1 == k) = some (k, v) := by
  induction kvs with
  | nil => cases h
  | cons kv kvs ih =>
    rw [List.map_cons, List.nodup_cons] at hn
    rcases List.mem_cons.1 h with rfl | h
    · simp
    · have hne : (kv.1 == k) = false := by
        rw [beq_eq_false_iff_ne]
        rintro e
        exact hn.1 (e ▸ List.mem_map_of_mem h)
      rw [List.find?_cons_of_neg (by simp [hne]), ih hn.2 h]

/-- A query has for each key the escaped text of its value. -/
theorem lookup_serialize {kvs : List (List Char × List Char)} {k v : List Char}
    (hn : (kvs.map (·.1)).Nodup) (hk : ∀ kv ∈ kvs, ∀ c ∈ kv.1, unreserved c = true)
    (h : (k, v) ∈ kvs) : lookup k (serialize kvs) = some (encode v) := by
  have hcuts : ((serialize kvs).splitOn '&').map cut = kvs.map fun kv => (kv.1, encode kv.2) := by
    have hamp : ∀ l ∈ kvs.map pair, '&' ∉ l := by
      intro l hl
      obtain ⟨kv, -, rfl⟩ := List.mem_map.1 hl
      exact not_amp_pair kv
    rw [serialize, List.splitOn_intercalate '&' hamp (by simpa using List.ne_nil_of_mem h),
      List.map_map]
    refine List.map_congr_left fun kv hkv => ?_
    rw [Function.comp_apply, cut_pair, encode_unreserved (hk kv hkv)]
  rw [lookup, hcuts, find?_key (k := k) (v := encode v)]
  · rfl
  · rwa [List.map_map]
  · exact List.mem_map.2 ⟨(k, v), h, rfl⟩

end FormUrl
