/-
Accepted configurations and the arenas made from them.

The numbers of a configuration are judged in three places: the environment is
read value by value, `Config.refusal?` looks at the whole, and an arena takes
the nearest limits it can work with. `Config.Accepted` is the range all three
are about. Every change the environment can ask for stays inside it
(`Accepted.set`, `Accepted.adopt`), so what is read is never refused. An arena
leaves page sizes in the range alone, and pool limits too, but for those below
one word: sizes are whole words, and the least limit under which anything is
pooled is one word.
-/
import TypeRecords.Proofs.Arena.Paging

namespace TypeRecords

-- ====================================================== powers of two

/-- The check for powers of two finds just these. -/
theorem isPowerOfTwo_iff {n : Nat} : isPowerOfTwo n = true ↔ n.isPowerOfTwo := by
  unfold isPowerOfTwo
  rw [beq_iff_eq, Nat.one_shiftLeft]
  constructor
  · exact fun h => ⟨_, h⟩
  · rintro ⟨k, rfl⟩
    rw [Nat.log2_two_pow]

/-- No power of two lies in between. -/
theorem ceilPowerOfTwo_le {n bound : Nat} (hb : bound.isPowerOfTwo) (h : n ≤ bound) :
    ceilPowerOfTwo n ≤ bound := by
  unfold ceilPowerOfTwo
  split
  · exact Nat.pos_of_isPowerOfTwo hb
  next hn =>
    obtain ⟨k, rfl⟩ := hb
    have hlog : (n - 1).log2 < k := (Nat.log2_lt (by omega)).mpr (by omega)
    rw [Nat.one_shiftLeft]
    exact Nat.pow_le_pow_right (by decide) hlog

/-- A power of two is not rounded. -/
theorem ceilPowerOfTwo_eq {n : Nat} (h : n.isPowerOfTwo) : ceilPowerOfTwo n = n :=
  Nat.le_antisymm (ceilPowerOfTwo_le h (Nat.le_refl n)) (le_ceilPowerOfTwo n)

/-- Below the upper bound only the lower one matters. -/
theorem clamp_eq_max {n low high : Nat} (h : n ≤ high) : clamp n low high = max n low := by
  unfold clamp
  rw [Nat.min_eq_left h, Nat.max_comm]

namespace Config

-- ====================================================== the accepted range

/-- The settings that mean something. -/
structure Accepted (c : Config) : Prop where
  power : c.pageSize.isPowerOfTwo
  pageMin : minPageSize ≤ c.pageSize
  pageMax : c.pageSize ≤ maxPageSize
  poolPos : 0 < c.poolLimit
  poolMax : c.poolLimit ≤ c.pageSize
  diagnostics : 0 < c.diagnosticLimit

/-- What is not refused is accepted, and the other way round. -/
theorem refusal?_eq_none {c : Config} : c.refusal? = none ↔ c.Accepted := by
  unfold refusal?
  simp only [ite_eq_iff, reduceCtorEq, and_false, false_or, and_true, Bool.not_eq_true',
    Bool.not_eq_false, Bool.or_eq_true, decide_eq_true_eq, beq_iff_eq, not_or, Nat.not_lt,
    isPowerOfTwo_iff, ← Nat.pos_iff_ne_zero]
  constructor
  · rintro ⟨hpower, ⟨hmin, hmax⟩, ⟨hpos, hpool⟩, hdiagnostics⟩
    exact ⟨hpower, hmin, hmax, hpos, hpool, hdiagnostics⟩
  · intro h
    exact ⟨h.power, ⟨h.pageMin, h.pageMax⟩, ⟨h.poolPos, h.poolMax⟩, h.diagnostics⟩

-- ====================================================== changes inside it

/-- The changes that lead from an accepted configuration to an accepted one. A
pool limit is judged by the page size there is. -/
def Takes (c : Config) : Setting → Prop
  | .pageSize bytes => bytes.isPowerOfTwo ∧ minPageSize ≤ bytes ∧ bytes ≤ maxPageSize
  | .poolLimit bytes => 0 < bytes ∧ bytes ≤ c.pageSize
  | .diagnosticLimit bytes => 0 < bytes
  | .faultPolicy _ => True
  | .logLevel _ => True
  | .timestamps _ => True
  | .threadNames _ => True

/-- The defaults are accepted. -/
theorem standard_accepted : standard.Accepted :=
  refusal?_eq_none.mp (by decide)

namespace Accepted

variable {c : Config}

/-- A setting that is taken over leaves the configuration acceptable. -/
theorem set {s : Setting} (h : c.Accepted) (hs : c.Takes s) : (c.set s).Accepted := by
  cases s with
  | pageSize bytes =>
    obtain ⟨hpower, hmin, hmax⟩ := hs
    have hlarge : 2 ≤ bytes := Nat.le_trans (by decide : 2 ≤ minPageSize) hmin
    -- the pool limit moves with the page size
    exact ⟨hpower, hmin, hmax, Nat.div_pos hlarge (by decide), Nat.div_le_self .., h.diagnostics⟩
  | poolLimit bytes => exact { h with poolPos := hs.1, poolMax := hs.2 }
  | diagnosticLimit bytes => exact { h with diagnostics := hs }
  | faultPolicy policy => exact { h with }
  | logLevel level => exact { h with }
  | timestamps on => exact { h with }
  | threadNames on => exact { h with }

/-- What is left alone is accepted as before. -/
theorem adopt {α : Type} {value : Option α} {change : α → Setting} (h : c.Accepted)
    (hv : ∀ v, value = some v → c.Takes (change v)) : (c.adopt value change).Accepted := by
  cases value with
  | none => exact h
  | some v => exact h.set (hv v rfl)

end Accepted

/-- What is read from the environment is accepted, whatever the variables
hold. -/
theorem ofEnvironment_accepted (env : Environment) : (ofEnvironment env).Accepted := by
  unfold ofEnvironment
  refine (((((standard_accepted.adopt ?_).adopt ?_).adopt ?_).adopt ?_).adopt ?_).adopt ?_
  · intro n hn
    obtain ⟨-, hn⟩ := Option.filter_eq_some_iff.mp hn
    simp only [Bool.and_eq_true, decide_eq_true_eq] at hn
    exact ⟨isPowerOfTwo_iff.mp hn.1.1, hn.1.2, hn.2⟩
  · intro n hn
    obtain ⟨-, hn⟩ := Option.filter_eq_some_iff.mp hn
    simp only [Bool.and_eq_true, decide_eq_true_eq] at hn
    exact hn
  · exact fun _ _ => trivial
  · intro n hn
    obtain ⟨-, hn⟩ := Option.filter_eq_some_iff.mp hn
    simp only [decide_eq_true_eq] at hn
    exact hn
  · exact fun _ _ => trivial
  · exact fun _ _ => trivial

end Config

-- ====================================================== the arena's limits

theorem ArenaLimits.of_accepted {c : Config} (h : c.Accepted) :
    ArenaLimits.of c = ⟨c.pageSize, max c.poolLimit wordSize⟩ := by
  have hpage : ceilPowerOfTwo (clamp c.pageSize minPageSize maxPageSize) = c.pageSize := by
    rw [clamp_eq_max h.pageMax, Nat.max_eq_left h.pageMin, ceilPowerOfTwo_eq h.power]
  unfold ArenaLimits.of
  simp only [hpage]
  rw [clamp_eq_max h.poolMax]

/-- The environment is never refused, and an arena works with the limits of an
accepted configuration as they are, except that it pools whole words: a pool
limit below one word counts as one word. -/
theorem Arena.limits_of_accepted (env : Config.Environment) (c : Config) :
    (Config.ofEnvironment env).refusal? = none ∧
    (c.refusal? = none →
      (Arena.new c).limits = ⟨c.pageSize, max c.poolLimit wordSize⟩ ∧
      ((Arena.new c).limits = ⟨c.pageSize, c.poolLimit⟩ ↔ wordSize ≤ c.poolLimit)) := by
  refine ⟨Config.refusal?_eq_none.mpr (Config.ofEnvironment_accepted env), fun hc => ?_⟩
  have hlimits : (Arena.new c).limits = ⟨c.pageSize, max c.poolLimit wordSize⟩ :=
    ArenaLimits.of_accepted (Config.refusal?_eq_none.mp hc)
  refine ⟨hlimits, ?_⟩
  rw [hlimits, ArenaLimits.mk.injEq]
  constructor
  · exact fun h => h.2 ▸ Nat.le_max_right ..
  · exact fun h => ⟨rfl, Nat.max_eq_left h⟩

/-- Pages of the least size, and a pool limit at each end of the range. -/
theorem Arena.limits_of_accepted_ends :
    (Arena.new { pageSize := 4096, poolLimit := 1 }).limits = ⟨4096, 8⟩ ∧
    (Arena.new { pageSize := 4096, poolLimit := 4096 }).limits = ⟨4096, 4096⟩ :=
  ⟨((Arena.limits_of_accepted {} { pageSize := 4096, poolLimit := 1 }).2 (by decide)).1,
    ((Arena.limits_of_accepted {} { pageSize := 4096, poolLimit := 4096 }).2 (by decide)).1⟩

/-- A pool limit of half a word is accepted, and not the one in use. -/
theorem Arena.limits_of_half_word :
    ¬((∀ env, (Config.ofEnvironment env).refusal? = none) ∧
      ∀ c : Config, c.refusal? = none →
        (Arena.new c).limits = ⟨c.pageSize, c.poolLimit⟩) := by
  rintro ⟨-, h⟩
  have hlimits : (Arena.new { poolLimit := 4 }).limits = ⟨16384, 4⟩ :=
    h { poolLimit := 4 } (by decide)
  revert hlimits
  decide

end TypeRecords
