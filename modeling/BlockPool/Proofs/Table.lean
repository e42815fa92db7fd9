import BlockPool.Table.Lemmas
import Mathlib.Data.List.Perm.Basic
import Mathlib.Tactic.Common

/-!
# Entries of ordered tables as collections

The laws of look-up say what a table answers. Sums over tables need more: which entries there
are, each counted once. Every statement on that is a permutation of entry lists, since the order
of the keys is of no interest to a sum.

The second half is about searches by order: the entry with the greatest key below a bound.
-/

namespace BlockPool.Table

variable {κ α β : Type} [KeyOrder κ] [DecidableEq κ]

/-! ## Entries after an operation -/

omit [KeyOrder κ] [DecidableEq κ] in
/-- Lists with the same entries, each of them once, are permutations of one another. -/
lemma entries_perm_iff {t u : List (κ × α)} (ht : t.Nodup) (hu : u.Nodup) :
    t.Perm u ↔ ∀ key value, (key, value) ∈ t ↔ (key, value) ∈ u := by
  rw [List.perm_ext_iff_of_nodup ht hu]
  exact ⟨fun h key value => h (key, value), fun h e => h e.1 e.2⟩

/-- `erase` leaves the entries with other keys. -/
lemma mem_erase_iff {t : Table κ α} {key : κ} {e : κ × α} :
    e ∈ (t.erase key).entries ↔ e.1 ≠ key ∧ e ∈ t.entries := by
  rw [erase, filter, List.mem_filter]
  simp [and_comm]

/-- `insert` leaves the entries of all other keys alone. -/
lemma entries_insert_perm (t : Table κ α) (key : κ) (value : α) :
    (t.insert key value).entries.Perm ((key, value) :: (t.erase key).entries) := by
  have hnot : (key, value) ∉ (t.erase key).entries := by
    intro hmem
    exact (mem_erase_iff.1 hmem).1 rfl
  rw [entries_perm_iff (entries_nodup _) (List.nodup_cons.2 ⟨hnot, entries_nodup _⟩)]
  intro k v
  rw [mem_insert_iff, List.mem_cons, mem_erase_iff]

/-- A value that `find?` finds is one entry beside those of all other keys. -/
lemma entries_perm_of_find? {t : Table κ α} {key : κ} {value : α}
    (h : t.find? key = some value) :
    t.entries.Perm ((key, value) :: (t.erase key).entries) := by
  have hnot : (key, value) ∉ (t.erase key).entries := by
    intro hmem
    exact (mem_erase_iff.1 hmem).1 rfl
  rw [entries_perm_iff (entries_nodup _) (List.nodup_cons.2 ⟨hnot, entries_nodup _⟩)]
  intro k v
  rw [List.mem_cons, mem_erase_iff]
  constructor
  · intro hmem
    -- under the key itself there is no other value than the one found
    by_cases hk : k = key
    · subst hk
      have := find?_eq_some_iff.2 hmem
      rw [h] at this
      exact .inl (by rw [Option.some.inj this])
    · exact .inr ⟨hk, hmem⟩
  · rintro (heq | ⟨-, hmem⟩)
    · rw [heq]
      exact find?_eq_some_iff.1 h
    · exact hmem

/-- `erase` of a key that is not there changes nothing. -/
lemma erase_eq_self {t : Table κ α} {key : κ} (h : t.find? key = none) : t.erase key = t := by
  apply eq_of_find?_eq
  intro k
  rw [find?_erase]
  split
  · rename_i hk
    rw [hk, h]
  · rfl

/-- Of the `values`, `insert` replaces the one that was under the key. -/
lemma values_insert_perm (t : Table κ α) (key : κ) (value : α) :
    (t.insert key value).values.Perm (value :: (t.erase key).values) :=
  (entries_insert_perm t key value).map _

/-- A value that `find?` finds is one of the `values` beside those under all other keys. -/
lemma values_perm_of_find? {t : Table κ α} {key : κ} {value : α}
    (h : t.find? key = some value) : t.values.Perm (value :: (t.erase key).values) :=
  (entries_perm_of_find? h).map _

/-- `insert` under a key that is there leaves the `keys` as they are. -/
lemma keys_insert_perm {t : Table κ α} {key : κ} {value : α} (h : t.find? key = some value)
    (value' : α) : (t.insert key value').keys.Perm t.keys := by
  have hafter := (entries_insert_perm t key value').map Prod.fst
  have hbefore := (entries_perm_of_find? h).map Prod.fst
  exact hafter.trans hbefore.symm

/-- `insert` under a new key adds it to the `keys`. -/
lemma keys_insert_new_perm {t : Table κ α} {key : κ} (h : t.find? key = none) (value : α) :
    (t.insert key value).keys.Perm (key :: t.keys) := by
  have hperm := (entries_insert_perm t key value).map Prod.fst
  rwa [erase_eq_self h] at hperm

omit [DecidableEq κ] in
lemma keys_mapValues (f : α → β) (t : Table κ α) : (t.mapValues f).keys = t.keys := by
  unfold keys mapValues
  rw [List.map_map]
  rfl

lemma keys_filter_subset (t : Table κ α) (keep : κ → α → Bool) :
    (t.filter keep).keys ⊆ t.keys := by
  intro key hmem
  obtain ⟨value, hfind⟩ := mem_keys_iff.1 hmem
  rw [find?_filter, Option.filter_eq_some_iff] at hfind
  exact mem_keys_iff.2 ⟨value, hfind.1⟩

/-- The `values` are what `find?` finds under some key. -/
lemma mem_values_iff {t : Table κ α} {value : α} :
    value ∈ t.values ↔ ∃ key, t.find? key = some value := by
  simp only [find?_eq_some_iff, values, List.mem_map, Prod.exists, exists_eq_right]

/-! ## Changing every value -/

/-- `mapValues` after `insert` is `insert` of the image. -/
lemma mapValues_insert (f : α → β) (t : Table κ α) (key : κ) (value : α) :
    (t.insert key value).mapValues f = (t.mapValues f).insert key (f value) := by
  refine eq_of_find?_eq fun key' => ?_
  rw [find?_mapValues, find?_insert, find?_insert, find?_mapValues]
  split <;> rfl

/-- `mapValues` after `filter` is `filter` with a test that says the same of the images. -/
lemma mapValues_filter (f : α → β) (t : Table κ α) {keep : κ → α → Bool}
    {keep' : κ → β → Bool} (h : ∀ key value, keep' key (f value) = keep key value) :
    (t.filter keep).mapValues f = (t.mapValues f).filter keep' := by
  refine eq_of_find?_eq fun key => ?_
  rw [find?_mapValues, find?_filter, find?_filter, find?_mapValues]
  cases t.find? key with
  | none => rfl
  | some value =>
    rw [Option.map_some, Option.filter_some, Option.filter_some, h]
    split <;> rfl

omit [DecidableEq κ] in
lemma mapValues_mapValues {γ : Type} (f : α → β) (g : β → γ) (t : Table κ α) :
    (t.mapValues f).mapValues g = t.mapValues fun value => g (f value) :=
  Table.ext (List.map_map ..)

lemma contains_mapValues (f : α → β) (t : Table κ α) (key : κ) :
    (t.mapValues f).contains key = t.contains key := by
  unfold contains
  rw [find?_mapValues, Option.isSome_map]

/-- `mapValues` with a function that leaves every value as it is leaves the table as it is. -/
lemma mapValues_eq_self {f : α → α} {t : Table κ α}
    (h : ∀ key value, t.find? key = some value → f value = value) : t.mapValues f = t := by
  refine eq_of_find?_eq fun key => ?_
  rw [find?_mapValues]
  cases hfind : t.find? key with
  | none => rfl
  | some value => rw [Option.map_some, h key value hfind]

omit [DecidableEq κ] in
/-- `lastUpTo?` looks at the keys alone, which `mapValues` leaves. -/
lemma lastUpTo?_mapValues (f : α → β) (t : Table κ α) (limit : κ) :
    (t.mapValues f).lastUpTo? limit = (t.lastUpTo? limit).map fun e => (e.1, f e.2) := by
  unfold lastUpTo? mapValues
  rw [List.filter_map, List.getLast?_map]
  rfl

/-! ## Searches by order -/

omit [DecidableEq κ] in
/-- The last entry of an ordered list is the one with the greatest key. -/
lemma getLast?_eq_some_iff_of_pairwise {entries : List (κ × α)} {e : κ × α}
    (h : entries.Pairwise fun a b => KeyOrder.before a.1 b.1) :
    entries.getLast? = some e ↔
      e ∈ entries ∧ ∀ e' ∈ entries, e'.1 = e.1 ∨ KeyOrder.before e'.1 e.1 := by
  constructor
  · intro hlast
    obtain ⟨front, rfl⟩ := List.getLast?_eq_some_iff.1 hlast
    refine ⟨by simp, fun e' he' => ?_⟩
    rcases List.mem_append.1 he' with he' | he'
    · exact .inr ((List.pairwise_append.1 h).2.2 e' he' e (by simp))
    · rw [List.mem_singleton.1 he']
      exact .inl rfl
  · rintro ⟨hmem, hall⟩
    obtain ⟨last, hlast⟩ : ∃ last, entries.getLast? = some last :=
      ⟨_, List.getLast?_eq_some_getLast (List.ne_nil_of_mem hmem)⟩
    have hlast' := hall last (List.mem_of_getLast? hlast)
    rw [hlast]
    obtain ⟨front, rfl⟩ := List.getLast?_eq_some_iff.1 hlast
    rcases List.mem_append.1 hmem with hmem | hmem
    · -- an entry further in front is before the last one, and the last one is not behind it
      exfalso
      have hbefore := (List.pairwise_append.1 h).2.2 e hmem _ (List.mem_singleton_self _)
      rcases hlast' with heq | hafter
      · exact KeyOrder.irrefl _ (heq ▸ hbefore)
      · exact KeyOrder.irrefl _ (KeyOrder.trans hbefore hafter)
    · rw [List.mem_singleton.1 hmem]

/-- The last of the `entries` with a property of its key has the greatest key with that property. -/
lemma getLast?_filter_eq_some_iff (test : κ → Prop) [DecidablePred test] {t : Table κ α}
    {key : κ} {value : α} :
    (t.entries.filter fun e => test e.1).getLast? = some (key, value) ↔
      t.find? key = some value ∧ test key ∧
        ∀ key' ∈ t.keys, test key' → key' = key ∨ KeyOrder.before key' key := by
  rw [getLast?_eq_some_iff_of_pairwise (t.ordered.filter _), List.mem_filter, find?_eq_some_iff,
    and_assoc]
  refine and_congr Iff.rfl (and_congr (by simp) ?_)
  simp only [List.mem_filter, decide_eq_true_eq, and_imp, keys, List.mem_map, forall_exists_index,
    forall_apply_eq_imp_iff₂]

/-- `lastBefore?` finds the entry with the greatest key before a bound. -/
lemma lastBefore?_eq_some_iff {t : Table κ α} {limit key : κ} {value : α} :
    t.lastBefore? limit = some (key, value) ↔
      t.find? key = some value ∧ KeyOrder.before key limit ∧
        ∀ key' ∈ t.keys, KeyOrder.before key' limit → key' = key ∨ KeyOrder.before key' key :=
  getLast?_filter_eq_some_iff (KeyOrder.before · limit)

/-- `lastUpTo?` finds the entry with the greatest key that is not after a bound. -/
lemma lastUpTo?_eq_some_iff {t : Table κ α} {limit key : κ} {value : α} :
    t.lastUpTo? limit = some (key, value) ↔
      t.find? key = some value ∧ ¬ KeyOrder.before limit key ∧
        ∀ key' ∈ t.keys, ¬ KeyOrder.before limit key' → key' = key ∨ KeyOrder.before key' key :=
  getLast?_filter_eq_some_iff (¬ KeyOrder.before limit ·)

end BlockPool.Table
