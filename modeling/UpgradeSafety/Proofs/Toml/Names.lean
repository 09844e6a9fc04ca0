import UpgradeSafety.Data.Table
import UpgradeSafety.Host.Libraries
import UpgradeSafety.Proofs.Results
import UpgradeSafety.Toml.Document

/-! No name stands twice in a table that a document writes. A name is put into a table only where it
has no value yet (`distinct_insert?`), tables on one line grow in the same way (`readsDistinct`), and
a document is put together of both (`distinct_of_read?`). So the value that is found under a name is
the only one there is. -/
namespace UpgradeSafety

namespace Value
variable {fields : List (Text × Value)}

theorem distinct_empty : Distinct (.record []) :=
  .table .nil (List.forall_mem_nil _)

theorem Distinct.names (h : Distinct (.record fields)) :
    (fields.map Prod.fst).Nodup := by
  cases h with
  | table hnames => exact hnames
  | other h => exact absurd rfl (h fields)

theorem Distinct.of_lookup (h : Distinct (.record fields)) {key : Text} {v : Value}
    (hv : fields.lookup key = some v) : Distinct v := by
  have hmem := (lookup_eq_some_iff_mem h.names).mp hv
  cases h with
  | table _ hvalues => exact hvalues _ hmem
  | other h => exact absurd rfl (h fields)

/-! ### Putting values into tables -/

theorem mem_put {key : Text} {v : Value} {field : Text × Value} (h : field ∈ put fields key v) :
    field = (key, v) ∨ field ∈ fields := by
  induction fields with
  | nil => exact .inl (List.mem_singleton.mp h)
  | cons first rest ih =>
    obtain ⟨name, w⟩ := first
    unfold put at h
    split at h
    · next hname =>
      subst hname
      exact (List.mem_cons.mp h).imp_right (List.mem_cons_of_mem _)
    · rcases List.mem_cons.mp h with rfl | h
      · exact .inr List.mem_cons_self
      · exact (ih h).imp_right (List.mem_cons_of_mem _)

theorem nodup_put (h : (fields.map Prod.fst).Nodup) (key : Text) (v : Value) :
    ((put fields key v).map Prod.fst).Nodup := by
  induction fields with
  | nil => exact List.nodup_cons.mpr ⟨List.not_mem_nil, .nil⟩
  | cons first rest ih =>
    obtain ⟨name, w⟩ := first
    obtain ⟨hname, hrest⟩ := List.nodup_cons.mp h
    unfold put
    split
    · exact h
    · next hne =>
      refine List.nodup_cons.mpr ⟨fun hmem => ?_, ih hrest⟩
      obtain ⟨field, hfield, hfst⟩ := List.mem_map.mp hmem
      rcases mem_put hfield with rfl | hfield
      · exact hne hfst.symm
      · exact hname (List.mem_map.mpr ⟨field, hfield, hfst⟩)

theorem Distinct.put (h : Distinct (.record fields)) (key : Text) {v : Value}
    (hv : Distinct v) : Distinct (.record (put fields key v)) := by
  refine .table (nodup_put h.names key v) fun field hfield => ?_
  rcases mem_put hfield with rfl | hfield
  · exact hv
  · exact h.of_lookup ((lookup_eq_some_iff_mem h.names).mpr hfield)

end Value

namespace Toml
open Value (Distinct distinct_empty)

/-- A value that is put at the end of a path changes the tables on the way, and no other. -/
theorem distinct_insert? {key : Text} {v : Value} (hv : Distinct v) {path : List Text}
    {fields fields' : Fields} (h : Distinct (.record fields))
    (hinsert : insert? key v path fields = some fields') : Distinct (.record fields') := by
  induction path generalizing fields fields' with
  | nil =>
    unfold Toml.insert? at hinsert
    split at hinsert
    · cases hinsert
    · rw [← Option.some.inj hinsert]
      exact h.put key hv
  | cons table path ih =>
    unfold Toml.insert? at hinsert
    split at hinsert
    · obtain ⟨inner, hinner, rfl⟩ := Option.map_eq_some_iff.mp hinsert
      exact h.put table (ih distinct_empty hinner)
    · next hlookup =>
      obtain ⟨inner', hinner, rfl⟩ := Option.map_eq_some_iff.mp hinsert
      exact h.put table (ih (h.of_lookup hlookup) hinner)
    · cases hinsert

/-! ### Values -/

/-- A number, whole or not. -/
inductive Numeric : Value → Prop where
  | int (n : Int) : Numeric (.int n)
  | real (x : Binary64) : Numeric (.real x)

theorem Numeric.distinct {v : Value} (h : Numeric v) : Distinct v := by
  cases h <;> exact .other nofun

theorem Numeric.negated {v : Value} (h : Numeric v) : Numeric (negated v) := by
  cases h with
  | int n => exact .int (-n)
  | real x => exact .real _

theorem numeric_of_decimal? {cs : List Char} {v : Value} (h : decimal? cs = some v) :
    Numeric v := by
  obtain ⟨ds, -, h⟩ := Option.bind_eq_some_iff.mp h
  dsimp only at h
  split at h
  · split at h
    · cases h
      exact .int _
    · cases h
  · obtain ⟨_, -, rfl⟩ := Option.map_eq_some_iff.mp h
    exact .real _

theorem numeric_of_unsigned? {cs : List Char} {v : Value} (h : unsigned? cs = some v) :
    Numeric v := by
  unfold unsigned? at h
  split at h
  · cases h
    exact .real _
  · cases h
    exact .real _
  · split at h
    · exact numeric_of_decimal? h
    · cases h
  · exact numeric_of_decimal? h

theorem numeric_of_based? {cs : List Char} {v : Value} (h : based? cs = some v) : Numeric v := by
  unfold based? at h
  split at h
  · obtain ⟨_, -, rfl⟩ := Option.map_eq_some_iff.mp h
    exact .int _
  · obtain ⟨_, -, rfl⟩ := Option.map_eq_some_iff.mp h
    exact .int _
  · obtain ⟨_, -, rfl⟩ := Option.map_eq_some_iff.mp h
    exact .int _
  · cases h

/-- A bare word is no table. -/
theorem distinct_of_ofWord? {cs : List Char} {v : Value} (h : ofWord? cs = some v) : Distinct v := by
  unfold ofWord? at h
  split at h
  · cases h
    exact .other nofun
  · split at h
    · cases h
      exact .other nofun
    · split at h
      · obtain ⟨_, hread, rfl⟩ := Option.map_eq_some_iff.mp h
        exact (numeric_of_unsigned? hread).negated.distinct
      · exact (numeric_of_unsigned? h).distinct
      · rcases Option.or_eq_some_iff.mp h with h | ⟨-, h⟩
        · exact (numeric_of_based? h).distinct
        · exact (numeric_of_unsigned? h).distinct

/-- With so much room, values are read in which no name stands twice, and tables on one line grow by
new names. -/
structure ReadsDistinct (room : Nat) : Prop where
  value : ∀ {cs v rest}, value? room cs = some (v, rest) → Distinct v
  entries : ∀ {fields cs fields' rest}, Distinct (.record fields) →
    entries? room fields cs = some (fields', rest) → Distinct (.record fields')
  setting : ∀ {cs path v rest}, setting? room cs = some (path, v, rest) → Distinct v

namespace ReadsDistinct
variable {room : Nat} {cs rest : List Char} {v : Value}

theorem value_succ (ih : ReadsDistinct room) (h : value? (room + 1) cs = some (v, rest)) :
    Distinct v := by
  unfold value? at h
  split at h
  · obtain ⟨_, -, hv⟩ := Option.map_eq_some_iff.mp h
    cases hv
    exact .other nofun
  · obtain ⟨_, -, hv⟩ := Option.map_eq_some_iff.mp h
    cases hv
    exact .other nofun
  · obtain ⟨⟨vs, rest'⟩, -, hv⟩ := Option.bind_eq_some_iff.mp h
    dsimp only at hv
    split at hv
    · cases hv
      exact .other nofun
    · cases hv
  · obtain ⟨_, hread, hv⟩ := Option.map_eq_some_iff.mp h
    cases hv
    exact ih.entries distinct_empty hread
  · obtain ⟨_, hread, hv⟩ := Option.map_eq_some_iff.mp h
    cases hv
    exact distinct_of_ofWord? hread

theorem entries_succ (ih : ReadsDistinct room) {fields fields' : Fields}
    (hfields : Distinct (.record fields))
    (h : entries? (room + 1) fields cs = some (fields', rest)) : Distinct (.record fields') := by
  unfold entries? at h
  split at h
  · cases h
    exact hfields
  · obtain ⟨⟨path, v, rest'⟩, hread, h⟩ := Option.bind_eq_some_iff.mp h
    obtain ⟨more, hinsert, h⟩ := Option.bind_eq_some_iff.mp h
    have hmore := distinct_insert? (ih.setting hread) hfields hinsert
    split at h
    · exact ih.entries hmore h
    · cases h
      exact hmore
    · cases h

theorem setting_succ (ih : ReadsDistinct room) {path : List Text}
    (h : setting? (room + 1) cs = some (path, v, rest)) : Distinct v := by
  unfold setting? at h
  obtain ⟨⟨path', rest'⟩, -, h⟩ := Option.bind_eq_some_iff.mp h
  dsimp only at h
  split at h
  · obtain ⟨_, hread, hv⟩ := Option.map_eq_some_iff.mp h
    cases hv
    exact ih.value hread
  · cases h

end ReadsDistinct

/-- Each of the three reads its parts with less room. -/
theorem readsDistinct (room : Nat) : ReadsDistinct room := by
  induction room with
  | zero => exact ⟨nofun, fun _ => nofun, nofun⟩
  | succ room ih => exact ⟨ih.value_succ, ih.entries_succ, ih.setting_succ⟩

/-! ### Documents -/

theorem distinct_of_statement? {room : Nat} {cs rest : List Char} {path : List Text} {v : Value}
    (h : statement? room cs = some (.entry path v, rest)) : Distinct v := by
  unfold statement? at h
  split at h
  · obtain ⟨⟨path', rest'⟩, -, h⟩ := Option.bind_eq_some_iff.mp h
    dsimp only at h
    split at h <;> cases h
  · obtain ⟨⟨path', v', rest'⟩, hread, h⟩ := Option.map_eq_some_iff.mp h
    cases h
    exact (readsDistinct room).setting hread

theorem distinct_of_statements? {room lines : Nat} {cs : List Char} {ss : List Statement}
    (h : statements? room lines cs = some ss) :
    ∀ path v, .entry path v ∈ ss → Distinct v := by
  induction lines generalizing cs ss with
  | zero => cases h
  | succ lines ih =>
    unfold statements? at h
    split at h
    · cases h
      exact fun _ _ hmem => absurd hmem List.not_mem_nil
    · split at h
      · exact ih h
      · obtain ⟨⟨s, rest⟩, hs, h⟩ := Option.bind_eq_some_iff.mp h
        obtain ⟨rest', -, h⟩ := Option.bind_eq_some_iff.mp h
        obtain ⟨more, hmore, rfl⟩ := Option.map_eq_some_iff.mp h
        intro path v hmem
        rcases List.mem_cons.mp hmem with rfl | hmem
        · exact distinct_of_statement? hs
        · exact ih hmore path v hmem

/-- A statement leaves no name twice in the tables of the document. -/
theorem State.distinct_step {s t : State} (h : Distinct (.record s.fields)) {statement : Statement}
    (hvalue : ∀ path v, statement = .entry path v → Distinct v) (hstep : s.step? statement = some t) :
    Distinct (.record t.fields) := by
  cases statement with
  | header path =>
    replace hstep : s.open? path = some t := hstep
    unfold open? at hstep
    split at hstep
    · rw [← Option.some.inj hstep]
      exact h
    · obtain ⟨fields, hinsert, rfl⟩ := Option.map_eq_some_iff.mp hstep
      exact distinct_insert? distinct_empty h hinsert
  | entry path v =>
    obtain ⟨fields, hinsert, rfl⟩ := Option.map_eq_some_iff.mp hstep
    exact distinct_insert? (hvalue path v rfl) h hinsert

theorem State.distinct_run {ss : List Statement} {s t : State} (h : Distinct (.record s.fields))
    (hvalues : ∀ path v, .entry path v ∈ ss → Distinct v)
    (hrun : ss.foldlM State.step? s = some t) : Distinct (.record t.fields) := by
  induction ss generalizing s with
  | nil =>
    cases hrun
    exact h
  | cons first rest ih =>
    rw [List.foldlM_cons] at hrun
    obtain ⟨mid, hstep, hrest⟩ := Option.bind_eq_some_iff.mp hrun
    refine ih (distinct_step h (fun path v heq => ?_) hstep) (fun path v hmem => ?_) hrest
    · exact hvalues path v (heq ▸ List.mem_cons_self)
    · exact hvalues path v (List.mem_cons_of_mem _ hmem)

/-- No name stands twice in the tables of a document. -/
theorem distinct_of_read? {cs : List Char} {v : Value} (h : read? cs = some v) : Distinct v := by
  obtain ⟨ss, hss, h⟩ := Option.bind_eq_some_iff.mp h
  obtain ⟨s, hs, rfl⟩ := Option.map_eq_some_iff.mp h
  exact State.distinct_run distinct_empty (distinct_of_statements? hss) hs

end Toml

end UpgradeSafety
