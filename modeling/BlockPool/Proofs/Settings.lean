import BlockPool.Proofs.Allocator

/-!
# Settings and the groups made from them

The settings of an allocator are looked up by their first entry for an affinity, while its groups
are made in the order of the entries, each in the place of an earlier one. The two agree where no
affinity has entries that differ. `withGroup` keeps it so, since it drops the entries that it
replaces; a list of entries that was filled otherwise need not be so.
-/

namespace BlockPool

namespace Settings

variable {s : Settings} {affinity : Affinity}

/-! ## Entries for an affinity -/

/-- The entries of `s.groups` for an affinity. -/
def entriesFor (s : Settings) (affinity : Affinity) : List GroupSettings :=
  s.groups.filter (·.affinity = affinity)

/-- No two of `s.entriesFor affinity` differ. -/
def Unambiguous (s : Settings) (affinity : Affinity) : Prop :=
  ∀ g ∈ s.entriesFor affinity, ∀ g' ∈ s.entriesFor affinity, g = g'

instance : Decidable (s.Unambiguous affinity) :=
  inferInstanceAs (Decidable (∀ g ∈ s.entriesFor affinity, ∀ g' ∈ s.entriesFor affinity, g = g'))

/-- `group?` finds the first of the entries for an affinity. -/
lemma group?_eq (s : Settings) (affinity : Affinity) :
    s.group? affinity = (s.entriesFor affinity).head? :=
  List.head?_filter.symm

/-- There is a last entry for an affinity if `group?` finds one. -/
lemma isSome_getLast?_entriesFor :
    (s.entriesFor affinity).getLast?.isSome = (s.group? affinity).isSome := by
  rw [group?_eq]
  cases s.entriesFor affinity with
  | nil => rfl
  | cons g rest => simp

/-- Where settings are `Unambiguous`, the last entry is the one that `group?` finds. -/
lemma Unambiguous.getLast?_eq (h : s.Unambiguous affinity) :
    (s.entriesFor affinity).getLast? = s.group? affinity := by
  rw [group?_eq]
  cases hentries : s.entriesFor affinity with
  | nil => rfl
  | cons g rest =>
    rw [Unambiguous, hentries] at h
    rw [List.getLast?_eq_some_getLast (List.cons_ne_nil g rest), List.head?_cons,
      h _ (List.getLast_mem _) g List.mem_cons_self]

/-! ## Setting a group -/

/-- `withGroup` leaves one entry for its affinity, and those for all others as they were. -/
lemma entriesFor_withGroup (s : Settings) (g : GroupSettings) (affinity : Affinity) :
    (s.withGroup g).entriesFor affinity =
      if affinity = g.affinity then [g] else s.entriesFor affinity := by
  simp only [withGroup, entriesFor, List.filter_append, List.filter_filter]
  split
  · rename_i heq
    subst heq
    have hgone : s.groups.filter (fun g' => decide (g'.affinity = g.affinity) &&
        decide (g'.affinity ≠ g.affinity)) = [] :=
      List.filter_eq_nil_iff.2 fun g' _ => by simp
    rw [hgone]
    simp
  · rename_i hne
    have hkept : ∀ g' : GroupSettings, (decide (g'.affinity = affinity) &&
        decide (g'.affinity ≠ g.affinity)) = decide (g'.affinity = affinity) := by
      intro g'
      by_cases heq : g'.affinity = affinity
      · simp [heq, hne]
      · simp [heq]
    simp only [hkept]
    simp [Ne.symm hne]

/-- After `withGroup`, `group?` finds the new entry for its affinity and the old ones elsewhere. -/
lemma group?_withGroup (s : Settings) (g : GroupSettings) (affinity : Affinity) :
    (s.withGroup g).group? affinity =
      if affinity = g.affinity then some g else s.group? affinity := by
  rw [group?_eq, group?_eq, entriesFor_withGroup]
  split <;> rfl

/-- `withGroup` makes settings `Unambiguous` for its affinity. -/
lemma unambiguous_withGroup (s : Settings) (g : GroupSettings) :
    (s.withGroup g).Unambiguous g.affinity := by
  simp [Unambiguous, entriesFor_withGroup]

/-- `withGroup` leaves settings `Unambiguous` for every affinity for which they are. -/
lemma Unambiguous.withGroup (h : s.Unambiguous affinity) (g : GroupSettings) :
    (s.withGroup g).Unambiguous affinity := by
  by_cases heq : affinity = g.affinity
  · exact heq ▸ unambiguous_withGroup s g
  · simpa [Unambiguous, entriesFor_withGroup, heq] using h

/-- Settings that were filled with `withGroup` alone are `Unambiguous` for every affinity. -/
lemma unambiguous_foldl_withGroup (gs : List GroupSettings) (h : s.groups = [])
    (affinity : Affinity) : (gs.foldl Settings.withGroup s).Unambiguous affinity := by
  have hstart : s.Unambiguous affinity := by simp [Unambiguous, entriesFor, h]
  clear h
  induction gs generalizing s with
  | nil => exact hstart
  | cons g rest ih => exact ih (hstart.withGroup g)

/-! ## The groups of a new allocator -/

/-- The group that `ofSettings` makes for an affinity is made from the last entry for it. -/
lemma find?_ofSettings (s : Settings) (nested : List Strategy) (affinity : Affinity) :
    (Allocator.ofSettings s nested).groups.find? affinity =
      (s.entriesFor affinity).getLast?.map (Allocator.groupOf · s.defaultAlignment) := by
  simp only [Allocator.ofSettings, Table.find?_ofList, List.filter_map, List.getLast?_map,
    Option.map_map]
  rfl

/-- `ofSettings` makes a group for exactly those affinities for which `group?` finds an entry. The
group is made from the last entry for the affinity, which is the one that `group?` finds if the
settings are `Unambiguous` for it; and settings filled with `withGroup` are. `withGroup` changes
what `group?` finds for its affinity to that group, and for no other one. -/
theorem groups_made (s : Settings) (nested : List Strategy) (affinity : Affinity) :
    (((Allocator.ofSettings s nested).groups.find? affinity).isSome ↔
        (s.group? affinity).isSome) ∧
      (Allocator.ofSettings s nested).groups.find? affinity =
        (s.entriesFor affinity).getLast?.map (Allocator.groupOf · s.defaultAlignment) ∧
      (s.Unambiguous affinity → ∀ g, s.group? affinity = some g →
        ∃ group, (Allocator.ofSettings s nested).groups.find? affinity = some group ∧
          group.name = g.name ∧ group.blockSize = g.blockSize ∧
          group.alignment = g.alignment.getD s.defaultAlignment) ∧
      (∀ g, (s.withGroup g).Unambiguous g.affinity ∧
        (s.Unambiguous affinity → (s.withGroup g).Unambiguous affinity) ∧
        (s.withGroup g).group? affinity =
          if affinity = g.affinity then some g else s.group? affinity) ∧
      ∀ gs : List GroupSettings, s.groups = [] →
        (gs.foldl Settings.withGroup s).Unambiguous affinity := by
  have hfind := find?_ofSettings s nested affinity
  refine ⟨?_, hfind, fun hsame g hg => ?_, fun g => ?_, fun gs hempty => ?_⟩
  · rw [hfind, Option.isSome_map, isSome_getLast?_entriesFor]
  · rw [hsame.getLast?_eq, hg] at hfind
    exact ⟨_, hfind, rfl, rfl, rfl⟩
  · exact ⟨unambiguous_withGroup s g, fun h => h.withGroup g, group?_withGroup s g affinity⟩
  · exact unambiguous_foldl_withGroup gs hempty affinity

/-- Settings with two entries that differ for one affinity. -/
def repeated : Settings :=
  { groups := [{ affinity := .data, name := "small", blockSize := 64 },
      { affinity := .nodes, name := "nodes", blockSize := 32, alignment := some 16 },
      { affinity := .data, name := "large", blockSize := 128 }] }

/-- `group?` finds the first of two entries that differ, and the group is made from the last one.
The group of another affinity is the one that `group?` finds, and so is this one once it is set
again. -/
theorem groups_made_repeated :
    ((repeated.group? .data).map (·.blockSize) = some 64 ∧
      (Allocator.ofSettings repeated []).groups.find? .data =
        some { name := "large", blockSize := 128, alignment := 8 }) ∧
      (∃ group, (Allocator.ofSettings repeated []).groups.find? .nodes = some group ∧
        group.name = "nodes" ∧ group.blockSize = 32 ∧ group.alignment = 16) ∧
      (repeated.withGroup (.new .data 256)).Unambiguous .data ∧
      ((([.new .data 64, .new .data 128] : List GroupSettings).foldl Settings.withGroup
        empty).Unambiguous .data) :=
  ⟨⟨by decide, (groups_made repeated [] .data).2.1.trans (by decide)⟩,
    (groups_made repeated [] .nodes).2.2.1 (by decide) _ rfl,
    ((groups_made repeated [] .data).2.2.2.1 (.new .data 256)).1,
    (groups_made empty [] .data).2.2.2.2 _ rfl⟩

end Settings

end BlockPool
