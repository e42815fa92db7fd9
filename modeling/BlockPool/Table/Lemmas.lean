import BlockPool.Table.Basic

/-!
# Laws of ordered tables

Each operation is described by what it does to look-up, and two tables that answer every look-up
alike are equal.
-/

namespace BlockPool.Table

variable {κ α β : Type} [KeyOrder κ] [DecidableEq κ]

/-! ## Look-up and entries -/

omit [DecidableEq κ] in
/-- The `keys` of a table are in strict `KeyOrder`. -/
theorem keys_pairwise (t : Table κ α) : t.keys.Pairwise KeyOrder.before :=
  List.pairwise_map.2 t.ordered

omit [DecidableEq κ] in
/-- No key stands twice in `keys`. -/
theorem keys_nodup (t : Table κ α) : t.keys.Nodup :=
  List.Pairwise.imp (fun {a b} h (heq : a = b) => KeyOrder.irrefl b (heq ▸ h)) t.keys_pairwise

/-- Looking a key up in ordered entries finds the one entry that has it. -/
theorem findSome?_eq_some_iff {entries : List (κ × α)}
    (h : entries.Pairwise fun a b => KeyOrder.before a.1 b.1) {key : κ} {value : α} :
    (entries.findSome? fun e => if e.1 = key then some e.2 else none) = some value ↔
      (key, value) ∈ entries := by
  induction entries with
  | nil => simp
  | cons e rest ih =>
    obtain ⟨hhead, htail⟩ := List.pairwise_cons.1 h
    obtain ⟨k, v⟩ := e
    by_cases hk : k = key
    · subst hk
      have hnot : (k, value) ∉ rest := fun hmem => KeyOrder.irrefl k (hhead _ hmem)
      simp [hnot, eq_comm]
    · simp [hk, ih htail, Ne.symm hk]

/-- `find?` finds exactly the `entries`. -/
theorem find?_eq_some_iff {t : Table κ α} {key : κ} {value : α} :
    t.find? key = some value ↔ (key, value) ∈ t.entries :=
  findSome?_eq_some_iff t.ordered

/-- A key is among the `keys` if `find?` finds something under it. -/
theorem mem_keys_iff {t : Table κ α} {key : κ} :
    key ∈ t.keys ↔ ∃ value, t.find? key = some value := by
  simp only [find?_eq_some_iff, keys, List.mem_map, Prod.exists, exists_and_right, exists_eq_right]

/-- `contains` is membership in `keys`. -/
theorem contains_iff {t : Table κ α} {key : κ} : t.contains key ↔ key ∈ t.keys := by
  rw [mem_keys_iff, contains, Option.isSome_iff_exists]

@[simp] theorem find?_empty (key : κ) : (empty : Table κ α).find? key = none := rfl

/-! ## Operations -/

/-- `insertEntry` puts an entry into ordered entries in the place of one with the same key. -/
theorem mem_insertEntry_iff {key : κ} {value : α} {entries : List (κ × α)}
    (h : entries.Pairwise fun a b => KeyOrder.before a.1 b.1) {e : κ × α} :
    e ∈ insertEntry key value entries ↔ e = (key, value) ∨ e.1 ≠ key ∧ e ∈ entries := by
  induction entries with
  | nil => simp [insertEntry]
  | cons e' rest ih =>
    obtain ⟨hhead, htail⟩ := List.pairwise_cons.1 h
    simp only [insertEntry]
    split
    · rename_i hlt
      have : ∀ x ∈ e' :: rest, x.1 ≠ key := by
        intro x hx heq
        rcases List.mem_cons.1 hx with rfl | hx
        · exact KeyOrder.irrefl _ (heq ▸ hlt)
        · exact KeyOrder.irrefl _ (heq ▸ KeyOrder.trans hlt (hhead x hx))
      rw [List.mem_cons]
      exact or_congr Iff.rfl ⟨fun hx => ⟨this e hx, hx⟩, fun hx => hx.2⟩
    · split
      · rename_i heq
        subst heq
        have : ∀ x ∈ rest, x.1 ≠ e'.1 := fun x hx hxe => KeyOrder.irrefl _ (hxe ▸ hhead x hx)
        rw [List.mem_cons, List.mem_cons]
        refine or_congr Iff.rfl ⟨fun hx => ⟨this e hx, .inr hx⟩, ?_⟩
        rintro ⟨hne, rfl | hx⟩
        · exact absurd rfl hne
        · exact hx
      · rename_i hne
        rw [List.mem_cons, List.mem_cons, ih htail]
        constructor
        · rintro (rfl | rfl | ⟨hk, hx⟩)
          · exact .inr ⟨Ne.symm hne, .inl rfl⟩
          · exact .inl rfl
          · exact .inr ⟨hk, .inr hx⟩
        · rintro (rfl | ⟨hk, rfl | hx⟩)
          · exact .inr (.inl rfl)
          · exact .inl rfl
          · exact .inr (.inr ⟨hk, hx⟩)

/-- `insert` puts an entry into a table in the place of one with the same key. -/
theorem mem_insert_iff {t : Table κ α} {key : κ} {value : α} {e : κ × α} :
    e ∈ (t.insert key value).entries ↔ e = (key, value) ∨ e.1 ≠ key ∧ e ∈ t.entries :=
  mem_insertEntry_iff t.ordered

/-- After `insert`, `find?` finds the new value under its key and the old ones elsewhere. -/
theorem find?_insert (t : Table κ α) (key key' : κ) (value : α) :
    (t.insert key value).find? key' = if key' = key then some value else t.find? key' := by
  apply Option.ext
  intro v
  rw [find?_eq_some_iff, mem_insert_iff]
  split
  · simp_all [eq_comm]
  · simp_all [find?_eq_some_iff]

/-- `filter` keeps what passes the test, under the key that it had. -/
theorem find?_filter (t : Table κ α) (keep : κ → α → Bool) (key : κ) :
    (t.filter keep).find? key = (t.find? key).filter (keep key) := by
  apply Option.ext
  intro v
  simp [find?_eq_some_iff, filter, Option.filter_eq_some_iff]

/-- After `erase`, `find?` finds nothing under the key and the old values elsewhere. -/
theorem find?_erase (t : Table κ α) (key key' : κ) :
    (t.erase key).find? key' = if key' = key then none else t.find? key' := by
  apply Option.ext
  intro v
  rw [erase, find?_filter]
  split <;> simp_all [Option.filter_eq_some_iff]

theorem find?_mapValues (f : α → β) (t : Table κ α) (key : κ) :
    (t.mapValues f).find? key = (t.find? key).map f := by
  apply Option.ext
  intro v
  simp only [find?_eq_some_iff, mapValues, List.mem_map, Prod.mk.injEq, Prod.exists,
    Option.map_eq_some_iff]
  constructor
  · rintro ⟨k, w, hmem, rfl, rfl⟩
    exact ⟨w, hmem, rfl⟩
  · rintro ⟨w, hmem, rfl⟩
    exact ⟨key, w, hmem, rfl, rfl⟩

/-! ## Equality -/

omit [DecidableEq κ] in
theorem entries_nodup (t : Table κ α) : t.entries.Nodup :=
  List.Pairwise.imp (fun {a b} h (heq : a = b) => KeyOrder.irrefl b.1 (heq ▸ h)) t.ordered

/-- Tables on which `find?` agrees are equal: there is one ordered list for each look-up. -/
theorem eq_of_find?_eq {t u : Table κ α} (h : ∀ key, t.find? key = u.find? key) : t = u := by
  have hmem : ∀ e, e ∈ t.entries ↔ e ∈ u.entries := fun e => by
    rw [← find?_eq_some_iff, ← find?_eq_some_iff, h]
  refine Table.ext (List.Perm.eq_of_pairwise ?_ t.ordered u.ordered
    ((List.perm_ext_iff_of_nodup t.entries_nodup u.entries_nodup).2 hmem))
  intro a b _ _ hab hba
  exact absurd (KeyOrder.trans hab hba) (KeyOrder.irrefl _)

end BlockPool.Table
