import BlockPool.Memory.Region
import BlockPool.Text.Quoted

/-!
# Values in pooled memory

A pool only needs the layout of a value to hold it. Of the value itself two things can be
observed: its text, and whether its destructor announces that it runs.
-/

namespace BlockPool

/-- What can be observed of a value. -/
structure Value where
  text : String
  /-- The number that the destructor announces, if it announces anything. -/
  announces : Option Nat := none
deriving DecidableEq, Inhabited

/-- Data of common types. -/
inductive Datum where
  | unit
  /-- A number stored in `width` bytes. -/
  | unsigned (width number : Nat)
  | text (content : String)
  | list (items : List Int)
  /-- An array of bytes that are all the same. -/
  | bytes (count byte : Nat)
  /-- A number in a type that is as large as it is aligned. -/
  | wide (alignment number : Nat)
  /-- A number whose destructor announces it. -/
  | noisy (number : Nat)
deriving DecidableEq, Inhabited

namespace Datum

/-- The layout of the type of a datum. Growing types take three machine words. -/
def layout : Datum → Layout
  | unit => ⟨0, 1⟩
  | unsigned width _ => ⟨width, width⟩
  | text _ | list _ => ⟨24, 8⟩
  | bytes count _ => ⟨count, 1⟩
  | wide alignment _ => ⟨alignment, alignment⟩
  | noisy _ => ⟨4, 4⟩

/-- Items between square brackets. -/
def bracketed (items : List String) : String := "[" ++ ", ".intercalate items ++ "]"

/-- A datum as a value. -/
def value : Datum → Value
  | unit => { text := "()" }
  | unsigned _ number => { text := toString number }
  | text content => { text := Text.quoted content }
  | list items => { text := bracketed (items.map toString) }
  | bytes count byte => { text := bracketed (List.replicate count (toString byte)) }
  | wide alignment number => { text := s!"Wide{alignment}({number})" }
  | noisy number => { text := s!"Noisy({number})", announces := some number }

end Datum

end BlockPool
