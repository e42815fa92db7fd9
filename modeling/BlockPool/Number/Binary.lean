/-!
# Binary floating-point numbers

Non-negative binary numbers with 53 significant bits, in exact arithmetic: a number is a fraction
of natural numbers, and an operation rounds its exact result to the nearest number of 53 bits, of
two equally near ones to the one with the even last bit. Results here are far from the ends of the
exponent range, so there is no bound on exponents.
-/

namespace BlockPool.Number

/-- A quotient rounded to the nearest natural number, a half to the even neighbour. -/
def roundDiv (num den : Nat) : Nat :=
  let q := num / den
  let rest := 2 * (num % den)
  if rest < den then q
  else if den < rest then q + 1
  else q + q % 2

/-- A rounded quotient is at most half a unit away from the exact one. -/
theorem roundDiv_near {num den : Nat} (h : 0 < den) :
    2 * num ≤ 2 * (den * roundDiv num den) + den ∧
      2 * (den * roundDiv num den) ≤ 2 * num + den := by
  have hdiv := Nat.div_add_mod num den
  have hlt := Nat.mod_lt num h
  simp only [roundDiv]
  split
  · omega
  · split
    · rw [Nat.mul_add]
      omega
    · rw [Nat.mul_add]
      rcases Nat.mod_two_eq_zero_or_one (num / den) with hq | hq <;> rw [hq] <;> omega

/-- A half goes to the even neighbour. -/
theorem even_roundDiv_of_half {num den : Nat} (h : 2 * (num % den) = den) :
    roundDiv num den % 2 = 0 := by
  simp only [roundDiv, h, Nat.lt_irrefl, if_false]
  omega

/-- A non-negative number as a fraction. -/
structure Binary where
  num : Nat
  den : Nat
deriving DecidableEq, Inhabited

namespace Binary

/-- The number of significant bits. -/
def precision : Nat := 53

/-- A fraction with its value times a power of two. -/
def scaled (num den : Nat) (exponent : Int) : Binary :=
  if 0 ≤ exponent then ⟨num <<< exponent.toNat, den⟩ else ⟨num, den <<< (-exponent).toNat⟩

/-- The exponent of the last bit of a number of 53 bits that is nearest to a fraction: between
`2 ^ 52` and `2 ^ 53` units of that bit make up the fraction. -/
def unitExponent (num den : Nat) : Int :=
  let exponent : Int := (num.log2 : Int) - den.log2 - (precision - 1 : Nat)
  let units := scaled num den (-exponent)
  if units.num < units.den <<< (precision - 1) then exponent - 1 else exponent

/-- A fraction rounded to 53 bits. -/
def ofFraction (num den : Nat) : Binary :=
  if num = 0 then ⟨0, 1⟩
  else
    let exponent := unitExponent num den
    let units := scaled num den (-exponent)
    scaled (roundDiv units.num units.den) 1 exponent

/-- A natural number rounded to 53 bits. -/
def ofNat (n : Nat) : Binary := ofFraction n 1

/-- The rounded quotient of two numbers. -/
def div (a b : Binary) : Binary := ofFraction (a.num * b.den) (a.den * b.num)

/-- The rounded product of two numbers. -/
def mul (a b : Binary) : Binary := ofFraction (a.num * b.num) (a.den * b.den)

/-- A number with one decimal, the exact value rounded with a half to the even neighbour. -/
def oneDecimal (a : Binary) : String :=
  let tenths := roundDiv (10 * a.num) a.den
  s!"{tenths / 10}.{tenths % 10}"

end Binary

end BlockPool.Number
