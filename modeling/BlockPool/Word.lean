/-!
# 64-bit words

Sizes, offsets and addresses are natural numbers below `2 ^ 64`. The operations here are the
arithmetic of such words: a plain sum or difference wraps around at `2 ^ 64`, a checked one
answers nothing instead. Below that limit both agree with the arithmetic of natural numbers.
-/

namespace BlockPool.Word

/-- The number of different words, `2 ^ 64`. -/
def limit : Nat := 18446744073709551616

/-- Sum that wraps around at `2 ^ 64`. -/
def add (a b : Nat) : Nat := (a + b) % limit

/-- Difference that wraps around at `2 ^ 64`. -/
def sub (a b : Nat) : Nat := (a + (limit - b % limit)) % limit

/-- Sum of a list of words, wrapping around at `2 ^ 64`. -/
def sum (words : List Nat) : Nat := words.foldl add 0

/-- Sum, or nothing if it is no word. -/
def checkedAdd? (a b : Nat) : Option Nat :=
  if a + b < limit then some (a + b) else none

/-- Least multiple of `m` that is not below `a`, or nothing if it is no word. -/
def nextMultiple? (a m : Nat) : Option Nat :=
  if a % m = 0 then some a else checkedAdd? a (m - a % m)

theorem add_eq {a b : Nat} (h : a + b < limit) : add a b = a + b :=
  Nat.mod_eq_of_lt h

theorem sub_eq {a b : Nat} (hab : b ≤ a) (ha : a < limit) : sub a b = a - b := by
  unfold sub
  rw [Nat.mod_eq_of_lt (Nat.lt_of_le_of_lt hab ha)]
  have : a + (limit - b) = (a - b) + limit := by omega
  rw [this, Nat.add_mod_right, Nat.mod_eq_of_lt (by omega)]

theorem checkedAdd?_eq_some_iff {a b c : Nat} :
    checkedAdd? a b = some c ↔ a + b < limit ∧ c = a + b := by
  simp only [checkedAdd?]
  split
  · simp [*, eq_comm]
  · simp [*]

/-- A multiple found is the least one not below the start. -/
theorem nextMultiple?_eq_some {a m c : Nat} (hm : 0 < m) (h : nextMultiple? a m = some c) :
    a ≤ c ∧ c < a + m ∧ c % m = 0 := by
  simp only [nextMultiple?] at h
  split at h
  · obtain rfl := Option.some.inj h
    omega
  · obtain ⟨-, rfl⟩ := checkedAdd?_eq_some_iff.1 h
    have hlt := Nat.mod_lt a hm
    have hdiv := Nat.div_add_mod a m
    refine ⟨by omega, by omega, ?_⟩
    have : a + (m - a % m) = m * (a / m + 1) := by
      rw [Nat.mul_add, Nat.mul_one]
      omega
    rw [this, Nat.mul_mod_right]

/-- No multiple is found only if the least one not below the start is no word. -/
theorem limit_le_of_nextMultiple?_eq_none {a m : Nat} (h : nextMultiple? a m = none) :
    limit ≤ a + (m - a % m) := by
  simp only [nextMultiple?, checkedAdd?] at h
  split at h
  · simp at h
  · split at h <;> simp_all

end BlockPool.Word
