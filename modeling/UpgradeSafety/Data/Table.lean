/-! Tables: lists of entries that are looked up by their keys. A table that is mapped entry by entry
is looked up as the table was (`lookup_map_entries`), and where no key stands twice, what is found in
it is what stands in it (`lookup_eq_some_iff_mem`), also once its entries have been put into something
else one after another (`get_foldl_put`). -/
namespace UpgradeSafety

/-- A table with other keys and other values is looked up by the other key, where no two keys have
become that one. -/
theorem lookup_map_entries {κ β γ : Type} [BEq κ] [LawfulBEq κ] (f : κ → β → γ) {rho : κ → κ}
    {entries : List (κ × β)} {key : κ}
    (hinj : ∀ other ∈ entries.map Prod.fst, rho other = rho key → other = key) :
    (entries.map fun entry => (rho entry.1, f entry.1 entry.2)).lookup (rho key) =
      (entries.lookup key).map (f key) := by
  induction entries with
  | nil => rfl
  | cons entry rest ih =>
    obtain ⟨other, value⟩ := entry
    rw [List.map_cons, List.lookup_cons, List.lookup_cons]
    obtain ⟨hother, hrest⟩ := List.forall_mem_cons.mp hinj
    by_cases h : key = other
    · subst h
      simp only [beq_self_eq_true, Option.map_some]
    · have hrho : rho key ≠ rho other := fun heq => h (hother heq.symm).symm
      rw [beq_eq_false_iff_ne.mpr h, beq_eq_false_iff_ne.mpr hrho]
      exact ih hrest

section Tables
variable {κ β : Type} [BEq κ] [LawfulBEq κ] {entries : List (κ × β)} {key : κ}

theorem lookup_eq_none_of_notMem (h : key ∉ entries.map Prod.fst) : entries.lookup key = none :=
  List.lookup_eq_none_iff.mpr fun entry hentry => bne_iff_ne.mpr fun heq =>
    h (List.mem_map.mpr ⟨entry, hentry, heq.symm⟩)

/-- Where no key stands twice, a key leads to what stands beside it. -/
theorem lookup_eq_some_iff_mem (h : (entries.map Prod.fst).Nodup) {value : β} :
    entries.lookup key = some value ↔ (key, value) ∈ entries := by
  induction entries with
  | nil => simp
  | cons entry rest ih =>
    obtain ⟨other, value'⟩ := entry
    obtain ⟨hother, hrest⟩ := List.nodup_cons.mp h
    rw [List.lookup_cons, List.mem_cons]
    by_cases hkey : key = other
    · subst hkey
      have hnot : (key, value) ∉ rest := fun hmem =>
        hother (List.mem_map.mpr ⟨(key, value), hmem, rfl⟩)
      simp [hnot, eq_comm]
    · rw [beq_eq_false_iff_ne.mpr hkey]
      simp [hkey, ih hrest]

/-- Entries that are put into something one after another, no key twice, are all found in it
afterwards, and so is what was there under other keys. -/
theorem get_foldl_put {σ : Type} (get : σ → κ → Option β) (put : σ → κ × β → σ)
    (hown : ∀ s entry, get (put s entry) entry.1 = some entry.2)
    (hother : ∀ s entry key, key ≠ entry.1 → get (put s entry) key = get s key)
    (h : (entries.map Prod.fst).Nodup) (s : σ) (key : κ) :
    get (entries.foldl put s) key = (entries.lookup key).or (get s key) := by
  induction entries generalizing s with
  | nil => rfl
  | cons entry rest ih =>
    obtain ⟨hnew, hrest⟩ := List.nodup_cons.mp h
    rw [List.foldl_cons, ih hrest, List.lookup_cons]
    by_cases hkey : key = entry.1
    · subst hkey
      rw [lookup_eq_none_of_notMem hnew, hown, beq_self_eq_true]
      rfl
    · rw [hother s entry key hkey, beq_eq_false_iff_ne.mpr hkey]

end Tables

end UpgradeSafety
