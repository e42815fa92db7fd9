import BlockPool.Affinity
import BlockPool.Memory.Region
import BlockPool.Word

/-!
# The system around a pool

A pool asks the system for memory and never looks inside it. It may also know foreign strategies,
other sources of memory of which only the answers are known. Both are left open here: a type is a
system if it says how it answers. What a pool may rely on is stated apart, as a law.
-/

namespace BlockPool

/-- A type whose values answer requests for memory. -/
class System (σ : Type) where
  /-- Answers a request with an address, or with nothing. -/
  place (s : σ) (live : List Region) (source : Source) (layout : Layout) : Option Nat × σ
  /-- What a foreign strategy offers for a request. -/
  offer (s : σ) (strategy size : Nat) (affinity : Affinity) : Option Nat × σ
  /-- Whether a foreign strategy claims an address. -/
  claim (s : σ) (strategy address size : Nat) : Bool × σ

/-- A system whose addresses are not null, meet the alignment and lie in no live region, and whose
regions stop within the address space: the first address behind a region is a word as well. -/
class LawfulSystem (σ : Type) [System σ] : Prop where
  place_lawful {s s' : σ} {live : List Region} {source : Source} {layout : Layout} {start : Nat} :
    System.place s live source layout = (some start, s') →
      0 < start ∧ start % layout.alignment = 0 ∧ start + layout.size < Word.limit ∧
        ∀ r ∈ live, Region.Disjoint ⟨source, start, layout⟩ r

end BlockPool
