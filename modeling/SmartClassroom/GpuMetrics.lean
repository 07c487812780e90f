/-
  The GPU list of a heartbeat: the agent's `collectors/gpu.py` and the broker's
  `GpuMetric` of `schemas/agent.py`.

  The agent splits the output of `nvidia-smi` and keeps each line whose numbers
  Python's `float` reads; the broker rejects a heartbeat for one bad row.
  `gpu_valid_iff` says exactly which outputs give valid rows only.  Numbers are
  exact rationals, with the infinities and `nan` that `float` reads as well.
-/
import Mathlib.Data.List.DropRight
import Mathlib.Data.Rat.Floor
import SmartClassroom.Domain
import SmartClassroom.Lib.HalfEven

namespace SmartClassroom

open HalfEven

/-! ## Python's texts -/

/-- `c.isspace()`. -/
def PyStr.isSpace (c : Char) : Bool :=
  let n := c.toNat
  (9 ≤ n && n ≤ 13) || (0x1c ≤ n && n ≤ 0x20) || (0x2000 ≤ n && n ≤ 0x200a) ||
    [0x85, 0xa0, 0x1680, 0x2028, 0x2029, 0x202f, 0x205f, 0x3000].contains n

/-- `s.strip()`. -/
def PyStr.strip (s : List Char) : List Char := (s.dropWhile PyStr.isSpace).rdropWhile PyStr.isSpace

def PyStr.isLineBreak (c : Char) : Bool :=
  let n := c.toNat
  (10 ≤ n && n ≤ 13) || [0x1c, 0x1d, 0x1e, 0x85, 0x2028, 0x2029].contains n

/-- `s.splitlines()`. -/
def PyStr.splitlines : List Char → List (List Char)
  | [] => []
  | '\r' :: '\n' :: s => [] :: PyStr.splitlines s
  | c :: s =>
    if PyStr.isLineBreak c then [] :: PyStr.splitlines s
    else match PyStr.splitlines s with
      | [] => [[c]]
      | line :: lines => (c :: line) :: lines

/-! ## Python's `float` -/

/-- The zeros of the decimal digits of Unicode 15: nine more digits follow each. -/
def decimalZeros : List ℕ := [
  0x30, 0x660, 0x6f0, 0x7c0, 0x966, 0x9e6, 0xa66, 0xae6, 0xb66, 0xbe6, 0xc66, 0xce6, 0xd66, 0xde6,
  0xe50, 0xed0, 0xf20, 0x1040, 0x1090, 0x17e0, 0x1810, 0x1946, 0x19d0, 0x1a80, 0x1a90, 0x1b50,
  0x1bb0, 0x1c40, 0x1c50, 0xa620, 0xa8d0, 0xa900, 0xa9d0, 0xa9f0, 0xaa50, 0xabf0, 0xff10, 0x104a0,
  0x10d30, 0x11066, 0x110f0, 0x11136, 0x111d0, 0x112f0, 0x11450, 0x114d0, 0x11650, 0x116c0, 0x11730,
  0x118e0, 0x11950, 0x11c50, 0x11d50, 0x11da0, 0x11f50, 0x16a60, 0x16ac0, 0x16b50, 0x1d7ce, 0x1d7d8,
  0x1d7e2, 0x1d7ec, 0x1d7f6, 0x1e140, 0x1e2f0, 0x1e4f0, 0x1e950, 0x1fbf0]

/-- A decimal digit of any script becomes an ASCII digit. -/
def toAscii (c : Char) : Char :=
  match decimalZeros.find? fun z => z ≤ c.toNat && c.toNat < z + 10 with
  | some z => Char.ofNat (0x30 + (c.toNat - z))
  | none => c

/-- Every underscore stands between two digits; without them.  `prev` is the
    character before. -/
def dropUnderscores (prev : Char) : List Char → Option (List Char)
  | [] => if prev = '_' then none else some []
  | c :: s =>
    if c = '_' then if prev.isDigit then dropUnderscores c s else none
    else if prev = '_' ∧ ¬c.isDigit then none
    else (dropUnderscores c s).map (c :: ·)

def natOf (ds : List Char) : ℕ := ds.foldl (fun n d => 10 * n + (d.toNat - 0x30)) 0

def digits? (ds : List Char) : Option ℕ :=
  if ds ≠ [] ∧ ds.all Char.isDigit then some (natOf ds) else none

/-- The exponent, which may be missing. -/
def exponent? : List Char → Option ℤ
  | [] => some 0
  | e :: '-' :: ds => if e.toLower = 'e' then (digits? ds).map fun n => -(n : ℤ) else none
  | e :: '+' :: ds => if e.toLower = 'e' then (digits? ds).map fun n => (n : ℤ) else none
  | e :: ds => if e.toLower = 'e' then (digits? ds).map fun n => (n : ℤ) else none

/-- `n * 10 ** e`. -/
def scale (n : ℕ) : ℤ → ℚ
  | .ofNat k => (n * 10 ^ k : ℕ)
  | .negSucc k => mkRat n (10 ^ (k + 1))

/-- `12`, `1.5`, `.5`, `5.`, each with an exponent or without. -/
def decimal? (s : List Char) : Option ℚ :=
  let whole := s.takeWhile Char.isDigit
  let rest := s.dropWhile Char.isDigit
  let frac := if rest.head? = some '.' then rest.tail.takeWhile Char.isDigit else []
  let rest := if rest.head? = some '.' then rest.tail.dropWhile Char.isDigit else rest
  if whole = [] ∧ frac = [] then none
  else (exponent? rest).map fun e => scale (natOf (whole ++ frac)) (e - frac.length)

/-- A number after its sign. -/
def unsigned? (negative : Bool) (s : List Char) : Option PyFloat :=
  let word := String.ofList (s.map Char.toLower)
  if word = "inf" ∨ word = "infinity" then some (.inf negative)
  else if word = "nan" then some .nan
  else (decimal? s).map fun q => .num (if negative then -q else q)

/-- `float(s)`, `none` for a ValueError. -/
def float (s : List Char) : Option PyFloat :=
  match dropUnderscores ' ' ((PyStr.strip s).map toAscii) with
  | some ('-' :: s) => unsigned? true s
  | some ('+' :: s) => unsigned? false s
  | some s => unsigned? false s
  | none => none

namespace PyFloat

/-- `a <= b`. -/
def le : PyFloat → PyFloat → Bool
  | num a, num b => a ≤ b
  | inf a, inf b => a || !b
  | inf a, num _ => a
  | num _, inf b => !b
  | nan, _ | _, nan => false

/-- `x > 0`. -/
def positive : PyFloat → Bool
  | num q => 0 < q
  | inf negative => !negative
  | nan => false

/-- `(x / y) * 100.0` of a positive `y`. -/
def percentOf : PyFloat → PyFloat → PyFloat
  | num x, num y => num (x / y * 100)
  | num _, inf _ => num 0
  | inf negative, num _ => inf negative
  | inf _, inf _ => nan
  | nan, _ | _, nan => nan

/-- `round(x, 1)`. -/
def round1 : PyFloat → PyFloat
  | num q => num (roundHalfEven (q * 10) / 10)
  | x => x

end PyFloat

/-! ## `collectors/gpu.py` -/

structure GpuSnapshot where
  name : String
  utilPct : PyFloat
  memPct : PyFloat
  tempC : PyFloat
deriving DecidableEq

/-- `round(mem_pct, 1)`. -/
def memPct (used total : PyFloat) : PyFloat :=
  (if total.positive then used.percentOf total else .num 0).round1

/-- The parts of a line. -/
def partsOf (line : List Char) : List (List Char) := (line.splitOn ',').map PyStr.strip

/-- The row of a line; `none` where the loop goes on to the next one. -/
def parseLine (line : List Char) : Option GpuSnapshot :=
  match partsOf line with
  | name :: util :: used :: total :: temp :: _ => do
    let memUsed ← float used
    let memTotal ← float total
    let utilPct ← float util
    let tempC ← float temp
    some { name := String.ofList name, utilPct, memPct := memPct memUsed memTotal, tempC }
  | _ => none

def linesOf (stdout : String) : List (List Char) := PyStr.splitlines (PyStr.strip stdout.toList)

def parseNvidiaSmi (stdout : String) : List GpuSnapshot := (linesOf stdout).filterMap parseLine

/-! ## `schemas/agent.py` -/

/-- `ge=0.0, le=100.0`. -/
def isPercent (x : PyFloat) : Bool := PyFloat.le (.num 0) x && x.le (.num 100)

/-- The validators of `GpuMetric`. -/
def gpuMetricValid (row : GpuSnapshot) : Bool :=
  1 ≤ row.name.length && row.name.length ≤ 128 && isPercent row.utilPct && isPercent row.memPct

/-- `HeartbeatRequest` accepts the payload; `others` are its other fields. -/
def heartbeatValid (others : Bool) (gpu : List GpuSnapshot) : Bool := others && gpu.all gpuMetricValid

/-! ## Which outputs give valid rows -/

/-- The memory figures of a valid row: the total is not positive, or the used
    memory is between 0 and the total, up to the rounding to one decimal. -/
def memFits : PyFloat → PyFloat → Prop
  | .num used, .num total => 0 < total → -total ≤ 2000 * used ∧ 2000 * used ≤ 2001 * total
  | .num _, .inf _ => True
  | .inf _, total | .nan, total => total.positive = false
  | .num _, .nan => True

/-- A line with five fields whose numbers `float` reads has a name of 1 to 128
    characters, a utilization between 0 and 100, and fitting memory figures. -/
def LineFits (line : List Char) : Prop :=
  ∀ name util used total temp rest, partsOf line = name :: util :: used :: total :: temp :: rest →
    ∀ u mu mt t, float util = some u → float used = some mu → float total = some mt →
      float temp = some t → 1 ≤ name.length ∧ name.length ≤ 128 ∧ isPercent u = true ∧ memFits mu mt

theorem isPercent_num {q : ℚ} : isPercent (.num q) = true ↔ 0 ≤ q ∧ q ≤ 100 := by
  simp [isPercent, PyFloat.le]

/-- Rounding to a decimal, against the bounds of a percentage. -/
theorem isPercent_round1 {q : ℚ} :
    isPercent (PyFloat.round1 (.num q)) = true ↔ -1 ≤ 20 * q ∧ 20 * q ≤ 2001 := by
  have hlo := le_roundHalfEven_iff (n := 0) (by decide) (q * 10)
  have hhi := roundHalfEven_le_iff (n := 1000) (by decide) (q * 10)
  push_cast at hlo hhi
  rw [PyFloat.round1, isPercent_num]
  have hlo' : (0 : ℚ) ≤ roundHalfEven (q * 10) / 10 ↔ -1 ≤ 20 * q := by
    rw [le_div_iff₀ (by norm_num), zero_mul, Int.cast_nonneg_iff, hlo]
    constructor <;> intro h <;> linarith
  have hhi' : (roundHalfEven (q * 10) / 10 : ℚ) ≤ 100 ↔ 20 * q ≤ 2001 := by
    rw [div_le_iff₀ (by norm_num), show (100 * 10 : ℚ) = ((1000 : ℤ) : ℚ) by norm_num, Int.cast_le, hhi]
    constructor <;> intro h <;> linarith
  rw [hlo', hhi']

/-- The memory percentage of a total that is not positive is zero. -/
theorem isPercent_memPct_zero {used total : PyFloat} (h : total.positive = false) :
    isPercent (memPct used total) = true := by
  rw [memPct, if_neg (by simp [h]), isPercent_round1]
  norm_num

theorem isPercent_memPct (used total : PyFloat) :
    isPercent (memPct used total) = true ↔ memFits used total := by
  by_cases hpos : total.positive = true
  · rw [memPct, if_pos hpos]
    cases used with
    | num used =>
      cases total with
      | num total =>
        have htotal : 0 < total := by simpa [PyFloat.positive] using hpos
        rw [PyFloat.percentOf, isPercent_round1, memFits]
        have hq : 20 * (used / total * 100) = 2000 * used / total := by ring
        rw [hq, le_div_iff₀ htotal, div_le_iff₀ htotal]
        simp [htotal]
      | inf negative =>
        refine iff_of_true ?_ trivial
        rw [PyFloat.percentOf, isPercent_round1]
        norm_num
      | nan => cases hpos
    | inf negative =>
      refine iff_of_false ?_ (by simp [memFits, hpos])
      cases total <;> cases negative <;> simp [PyFloat.percentOf, PyFloat.round1, isPercent, PyFloat.le]
    | nan =>
      refine iff_of_false ?_ (by simp [memFits, hpos])
      simp [PyFloat.percentOf, PyFloat.round1, isPercent, PyFloat.le]
  · rw [Bool.not_eq_true] at hpos
    refine iff_of_true (isPercent_memPct_zero hpos) ?_
    cases used with
    | num used =>
      cases total with
      | num total => exact fun h => absurd h (by simpa [PyFloat.positive] using hpos)
      | inf | nan => trivial
    | inf | nan => exact hpos

theorem gpuMetricValid_iff {row : GpuSnapshot} : gpuMetricValid row = true ↔
    1 ≤ row.name.length ∧ row.name.length ≤ 128 ∧ isPercent row.utilPct = true ∧
      isPercent row.memPct = true := by
  simp [gpuMetricValid, and_assoc]

/-- The row of a line with five fields. -/
theorem parseLine_eq_some {line : List Char} {row : GpuSnapshot} : parseLine line = some row ↔
    ∃ name util used total temp rest, partsOf line = name :: util :: used :: total :: temp :: rest ∧
      ∃ u mu mt t, float util = some u ∧ float used = some mu ∧ float total = some mt ∧
        float temp = some t ∧ row = ⟨String.ofList name, u, memPct mu mt, t⟩ := by
  unfold parseLine
  constructor
  · intro h
    split at h
    · rename_i name util used total temp rest hparts
      simp only [Option.bind_eq_bind, Option.bind_eq_some_iff, Option.some.injEq] at h
      obtain ⟨mu, hmu, mt, hmt, u, hu, t, ht, hrow⟩ := h
      exact ⟨name, util, used, total, temp, rest, hparts, u, mu, mt, t, hu, hmu, hmt, ht, hrow.symm⟩
    · cases h
  · rintro ⟨name, util, used, total, temp, rest, hparts, u, mu, mt, t, hu, hmu, hmt, ht, rfl⟩
    rw [hparts]
    simp [hu, hmu, hmt, ht]

/-- One line. -/
theorem parseLine_valid_iff (line : List Char) :
    (∀ row, parseLine line = some row → gpuMetricValid row = true) ↔ LineFits line := by
  constructor
  · intro h name util used total temp rest hparts u mu mt t hu hmu hmt ht
    have hrow := h _ (parseLine_eq_some.2
      ⟨name, util, used, total, temp, rest, hparts, u, mu, mt, t, hu, hmu, hmt, ht, rfl⟩)
    simpa [gpuMetricValid_iff, isPercent_memPct] using hrow
  · intro h row hrow
    obtain ⟨name, util, used, total, temp, rest, hparts, u, mu, mt, t, hu, hmu, hmt, ht, rfl⟩ :=
      parseLine_eq_some.1 hrow
    simpa [gpuMetricValid_iff, isPercent_memPct] using
      h name util used total temp rest hparts u mu mt t hu hmu hmt ht

/-- **The rows of an output are valid**, and a heartbeat with them is accepted
    if its other fields are, iff every line fits. -/
theorem gpu_valid_iff (stdout : String) :
    ((∀ row ∈ parseNvidiaSmi stdout, gpuMetricValid row = true) ↔
        ∀ line ∈ linesOf stdout, LineFits line) ∧
      (heartbeatValid true (parseNvidiaSmi stdout) = true ↔ ∀ line ∈ linesOf stdout, LineFits line) := by
  have hrows : (∀ row ∈ parseNvidiaSmi stdout, gpuMetricValid row = true) ↔
      ∀ line ∈ linesOf stdout, LineFits line := by
    simp only [parseNvidiaSmi, List.mem_filterMap, ← parseLine_valid_iff]
    constructor
    · intro h line hline row hrow
      exact h row ⟨line, hline, hrow⟩
    · rintro h row ⟨line, hline, hrow⟩
      exact h line hline row hrow
  refine ⟨hrows, ?_⟩
  rw [heartbeatValid, Bool.true_and, List.all_eq_true, hrows]

/-- A line without a name gives an invalid row, and no heartbeat is accepted. -/
theorem not_gpu_valid : ∃ row ∈ parseNvidiaSmi ", 50, 4096, 8192, 60\n", gpuMetricValid row = false ∧
    heartbeatValid true (parseNvidiaSmi ", 50, 4096, 8192, 60\n") = false := by
  decide +kernel

end SmartClassroom
