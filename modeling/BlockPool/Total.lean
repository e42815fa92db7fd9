/-!
# Totals

The sum of a list of sizes. The sizes are those of regions that are held at the same time, so their
sum is a word and never wraps around: see `Allocator.Ok.sumsExact`.
-/

namespace BlockPool

/-- The sum of some numbers. -/
def total (numbers : List Nat) : Nat := numbers.foldr (· + ·) 0

@[simp] theorem total_nil : total [] = 0 := rfl

@[simp] theorem total_cons (n : Nat) (rest : List Nat) : total (n :: rest) = n + total rest := rfl

theorem total_append (a b : List Nat) : total (a ++ b) = total a + total b := by
  induction a with
  | nil => simp
  | cons n rest ih => simp [ih, Nat.add_assoc]

end BlockPool
