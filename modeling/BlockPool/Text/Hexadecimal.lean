/-!
# Hexadecimal numbers

Addresses are written with the mark `0x` and lower-case hexadecimal digits, without leading zeros.
-/

namespace BlockPool.Text

/-- The lower-case hexadecimal digits of a number, without a mark. -/
def hexDigits (n : Nat) : String := String.ofList (Nat.toDigits 16 n)

/-- An address as it is written in messages. -/
def address (n : Nat) : String := "0x" ++ hexDigits n

end BlockPool.Text
