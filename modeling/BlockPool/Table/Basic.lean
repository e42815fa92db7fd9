/-!
# Ordered tables

A finite map whose entries are kept in the order of their keys. Two tables with the same entries
are equal, so equality of tables is equality of contents.
-/

namespace BlockPool

/-- A strict linear order on keys, decided by the program. -/
class KeyOrder (κ : Type) where
  before : κ → κ → Prop
  decideBefore (a b : κ) : Decidable (before a b)
  irrefl (a : κ) : ¬ before a a
  trans {a b c : κ} : before a b → before b c → before a c
  trichotomy {a b : κ} : ¬ before a b → ¬ before b a → a = b

instance {κ : Type} [KeyOrder κ] (a b : κ) : Decidable (KeyOrder.before a b) :=
  KeyOrder.decideBefore a b

instance : KeyOrder Nat where
  before a b := a < b
  decideBefore a b := inferInstanceAs (Decidable (a < b))
  irrefl := Nat.lt_irrefl
  trans := Nat.lt_trans
  trichotomy h h' := Nat.le_antisymm (Nat.le_of_not_lt h') (Nat.le_of_not_lt h)

/-- A finite map from keys to values, with its entries in the order of the keys. -/
@[ext] structure Table (κ α : Type) [KeyOrder κ] where
  entries : List (κ × α)
  ordered : entries.Pairwise fun a b => KeyOrder.before a.1 b.1

namespace Table

variable {κ α β : Type} [KeyOrder κ] [DecidableEq κ]

instance [DecidableEq α] : DecidableEq (Table κ α) := fun t u =>
  decidable_of_iff (t.entries = u.entries) Table.ext_iff.symm

/-- The table without entries. -/
def empty : Table κ α := ⟨[], .nil⟩

instance : Inhabited (Table κ α) := ⟨empty⟩

/-- The keys in order. -/
def keys (t : Table κ α) : List κ := t.entries.map (·.1)

/-- The values in the order of their keys. -/
def values (t : Table κ α) : List α := t.entries.map (·.2)

/-- The number of entries. -/
def size (t : Table κ α) : Nat := t.entries.length

/-- The value stored under a key. -/
def find? (t : Table κ α) (key : κ) : Option α :=
  t.entries.findSome? fun e => if e.1 = key then some e.2 else none

/-- Whether a key has a value. -/
def contains (t : Table κ α) (key : κ) : Bool := (t.find? key).isSome

/-- Puts an entry into its place in the order of `KeyOrder.before`, instead of one with the same
key. -/
def insertEntry (key : κ) (value : α) : List (κ × α) → List (κ × α)
  | [] => [(key, value)]
  | e :: rest =>
    if KeyOrder.before key e.1 then (key, value) :: e :: rest
    else if key = e.1 then (key, value) :: rest
    else e :: insertEntry key value rest

theorem mem_insertEntry {key : κ} {value : α} {e : κ × α} {entries : List (κ × α)}
    (h : e ∈ insertEntry key value entries) : e = (key, value) ∨ e ∈ entries := by
  induction entries with
  | nil => simpa [insertEntry] using h
  | cons e' rest ih =>
    simp only [insertEntry] at h
    split at h
    · simpa using h
    · split at h
      · simp only [List.mem_cons] at h ⊢
        exact h.imp id .inr
      · simp only [List.mem_cons] at h ⊢
        exact h.elim (fun h => .inr (.inl h)) fun h => (ih h).imp id .inr

theorem ordered_insertEntry (key : κ) (value : α) {entries : List (κ × α)}
    (h : entries.Pairwise fun a b => KeyOrder.before a.1 b.1) :
    (insertEntry key value entries).Pairwise fun a b => KeyOrder.before a.1 b.1 := by
  induction entries with
  | nil => simp [insertEntry]
  | cons e rest ih =>
    obtain ⟨hhead, htail⟩ := List.pairwise_cons.1 h
    simp only [insertEntry]
    split
    · rename_i hlt
      refine List.pairwise_cons.2 ⟨fun a ha => ?_, h⟩
      rcases List.mem_cons.1 ha with rfl | ha
      · exact hlt
      · exact KeyOrder.trans hlt (hhead a ha)
    · split
      · rename_i heq
        exact List.pairwise_cons.2 ⟨fun a ha => heq ▸ hhead a ha, htail⟩
      · rename_i hlt hne
        refine List.pairwise_cons.2 ⟨fun a ha => ?_, ih htail⟩
        rcases mem_insertEntry ha with rfl | ha
        · exact Decidable.byContradiction fun hnot => hne (KeyOrder.trichotomy hlt hnot)
        · exact hhead a ha

/-- Stores a value under a key, instead of any value stored there. -/
def insert (t : Table κ α) (key : κ) (value : α) : Table κ α :=
  ⟨insertEntry key value t.entries, ordered_insertEntry key value t.ordered⟩

/-- Keeps the entries that satisfy a test. -/
def filter (t : Table κ α) (keep : κ → α → Bool) : Table κ α :=
  ⟨t.entries.filter fun e => keep e.1 e.2, t.ordered.filter _⟩

/-- Removes the entry of a key. -/
def erase (t : Table κ α) (key : κ) : Table κ α := t.filter fun k _ => k ≠ key

/-- Changes every value. -/
def mapValues (f : α → β) (t : Table κ α) : Table κ β :=
  ⟨t.entries.map fun e => (e.1, f e.2), List.pairwise_map.2 t.ordered⟩

/-- The table of a list of entries, by `insert`: a later entry replaces an earlier one of the same
key. -/
def ofList (entries : List (κ × α)) : Table κ α :=
  entries.foldl (fun t e => t.insert e.1 e.2) empty

/-- The entry with the greatest key before `limit`. -/
def lastBefore? (t : Table κ α) (limit : κ) : Option (κ × α) :=
  (t.entries.filter fun e => KeyOrder.before e.1 limit).getLast?

/-- The entry with the greatest key not after `limit`. -/
def lastUpTo? (t : Table κ α) (limit : κ) : Option (κ × α) :=
  (t.entries.filter fun e => ¬ KeyOrder.before limit e.1).getLast?

end Table

end BlockPool
