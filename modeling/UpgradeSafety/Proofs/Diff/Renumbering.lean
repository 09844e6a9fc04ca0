import UpgradeSafety.Proofs.Diff.Check
import UpgradeSafety.Proofs.Footprint.Correspondence

/-! Layouts whose types have other ids. A compiler numbers what a program declares anew on every
run, so that one layout comes out under ids that differ in these numbers alone. Giving the types of
a layout other ids, no two of them one id, gives the details of its footprint other ids and changes
nothing else, and where the ids agree when they are stripped no difference is told
(`check_renumbered`). -/
namespace UpgradeSafety

/-! ### Other ids -/

section Renumber
variable (rho : Text → Text)

/-- A reference to a type under its other id. -/
def Value.renumber : Value → Value
  | .text id => .text (rho id)
  | v => v

def Variable.renumber (v : Variable) : Variable :=
  { v with type := rho v.type }

def TypeInfo.renumber (t : TypeInfo) : TypeInfo :=
  { t with
    members := t.members.map (Variable.renumber rho)
    base := t.base.renumber rho
    key := t.key.renumber rho
    value := t.value.renumber rho }

/-- The layout with other ids, where the types are declared and where they are referred to. -/
def Layout.renumber (l : Layout) : Layout where
  storage := l.storage.map (Variable.renumber rho)
  types := l.types.map fun entry => (rho entry.1, entry.2.renumber rho)

def Spot.renumber (v : Spot) : Spot :=
  { v with type := rho v.type }

def Detail.renumber (d : Detail) : Detail :=
  { d with type := rho d.type }

end Renumber

/-- The id that a reference names, if it is one. -/
def Value.names : Value → List Text
  | .text id => [id]
  | _ => []

/-- The ids that a type refers to. -/
def TypeInfo.references (t : TypeInfo) : List Text :=
  t.members.map Variable.type ++ (t.base.names ++ t.key.names ++ t.value.names)

/-- The ids that a layout makes use of. -/
def Layout.ids (l : Layout) : List Text :=
  l.storage.map Variable.type ++ l.types.flatMap fun entry => entry.1 :: entry.2.references

/-! ### Nothing is left of an id but of the empty one -/

theorem TypeId.strip_ne_nil {id : Text} (h : id ≠ []) : strip id ≠ [] := by
  unfold strip
  fun_cases pieces id with
  | case1 => exact absurd rfl h
  | case2 c rest p after hp =>
    rw [List.flatMap_cons]
    exact fun hnil => kept_ne_nil_of_declaration? hp (List.append_eq_nil_iff.mp hnil).1
  | case3 c rest _ =>
    rw [List.flatMap_cons]
    exact List.cons_ne_nil _ _

theorem TypeId.ne_empty_of_strip_eq {a b : Text} (h : strip a = strip b) (hb : b ≠ []) :
    a ≠ [] := by
  rintro rfl
  have hnil : strip [] = [] := by simp [strip, pieces]
  exact strip_ne_nil hb (h.symm.trans hnil)

/-! ### Types under their other ids -/

theorem mem_ids_of_variable {l : Layout} {v : Variable} (h : v ∈ l.storage) : v.type ∈ l.ids :=
  List.mem_append_left _ (List.mem_map_of_mem h)

theorem mem_ids_of_key {l : Layout} {key : Text} (h : key ∈ l.types.map Prod.fst) :
    key ∈ l.ids := by
  obtain ⟨entry, hentry, rfl⟩ := List.mem_map.mp h
  exact List.mem_append_right _ (List.mem_flatMap.mpr ⟨entry, hentry, List.mem_cons_self⟩)

/-- What a type of a layout refers to is among the ids of the layout. -/
theorem mem_ids_of_reference {l : Layout} {id : Text} {t : TypeInfo} (h : l.resolve? id = some t)
    {reference : Text} (href : reference ∈ t.references) : reference ∈ l.ids :=
  List.mem_append_right _ (List.mem_flatMap.mpr
    ⟨(id, t), Layout.mem_types_of_resolve? h, List.mem_cons_of_mem _ href⟩)

/-! ### Variables under the other ids of their types -/

section Spots
variable {rho : Text → Text} {hash : Hash}

theorem HasExample.renumber {v e : Spot} {t : TypeInfo} (h : HasExample hash v t e) :
    HasExample hash (v.renumber rho) (t.renumber rho) (e.renumber rho) := by
  cases h with
  | array henc hbase hslot => exact .array henc (congrArg (Value.renumber rho) hbase) hslot
  | mapping henc hvalue hkey hslot =>
    exact .mapping henc (congrArg (Value.renumber rho) hvalue) hkey hslot

/-- An example has a type that the type of its container refers to. -/
theorem HasExample.type_mem {v e : Spot} {t : TypeInfo} (h : HasExample hash v t e) :
    e.type ∈ t.references := by
  unfold TypeInfo.references
  cases h with
  | array henc hbase hslot =>
    rw [hbase]
    exact List.mem_append_right _ (by simp [Value.names, Spot.element])
  | mapping henc hvalue hkey hslot =>
    rw [hvalue]
    exact List.mem_append_right _ (by simp [Value.names, Spot.element])

/-- The other ids are told apart, and are the old ones when stripped. -/
structure Layout.Renumbers (l : Layout) (rho : Text → Text) : Prop where
  injective : ∀ a ∈ l.ids, ∀ b ∈ l.ids, rho a = rho b → a = b
  strip : ∀ id ∈ l.ids, TypeId.strip (rho id) = TypeId.strip id

variable {l : Layout}

theorem resolve?_renumber (h : l.Renumbers rho) {id : Text} (hid : id ∈ l.ids) :
    (l.renumber rho).resolve? (rho id) = (l.resolve? id).map (TypeInfo.renumber rho) :=
  lookup_map_entries (fun _ => TypeInfo.renumber rho) fun key hkey =>
    h.injective key (mem_ids_of_key hkey) id hid

/-- A leaf with another id. -/
def Leaf.Renumbered (rho : Text → Text) (l : Layout) (a b : Leaf) : Prop :=
  a.detail.type ∈ l.ids ∧ b = ⟨a.detail.renumber rho, a.count⟩

theorem Leaf.Renumbered.aligned {a b : Leaf} (h : Leaf.Renumbered rho l a b) : a.Aligned b := by
  obtain ⟨-, rfl⟩ := h
  exact ⟨rfl, rfl⟩

/-- A variable of a layout and itself under the other id of its type. -/
theorem counterparts_renumber (h : l.Renumbers rho) {v : Spot} {t : TypeInfo}
    (hid : v.type ∈ l.ids) (ht : l.resolve? v.type = some t) :
    Counterparts hash (fun v v' => v.type ∈ l.ids ∧ v' = v.renumber rho)
      (Leaf.Renumbered rho l) v (v.renumber rho) t (t.renumber rho) := by
  refine ⟨rfl, ?_, fun e he hne => ?_, fun typeLabel hlabel => ?_⟩
  · simp [TypeInfo.hasMembers, TypeInfo.renumber]
  · have hmem : e.type ∈ l.ids := mem_ids_of_reference ht he.type_mem
    exact ⟨_, he.renumber, TypeId.ne_empty_of_strip_eq (h.strip _ hmem) hne, hmem, rfl⟩
  · refine ⟨typeLabel, typeLabel_of_label rfl hlabel, ⟨hid, rfl⟩, ?_⟩
    show List.Forall₂ _ t.members (t.members.map (Variable.renumber rho))
    rw [List.forall₂_map_right_iff, List.forall₂_same]
    intro m hm
    refine ⟨mem_ids_of_reference ht ?_, rfl⟩
    exact List.mem_append_left _ (List.mem_map_of_mem hm)

end Spots

/-! ### The footprint and the check -/

namespace Layout
variable {hash : Hash} {l : Layout} {rho : Text → Text} {before : ByteMap}

/-- The footprint under the other ids has the same bytes, each with the detail under its other id. -/
theorem exists_footprint_renumber (h : l.Renumbers rho)
    (hbefore : (l.footprint hash).result = .ok before) :
    ∃ after, ((l.renumber rho).footprint hash).result = .ok after ∧ ∀ byte : Int,
      after[byte]? = before[byte]?.map (Detail.renumber rho) ∧
      ∀ d : Detail, before[byte]? = some d → d.type ∈ l.ids := by
  have hdepth : (l.renumber rho).depth = l.depth := by
    simp [Layout.depth, Layout.renumber]
  have hstorage : List.Forall₂ (fun v v' => v ∈ l.storage ∧ v' = v.renumber rho) l.storage
      (l.renumber rho).storage := by
    show List.Forall₂ _ l.storage (l.storage.map (Variable.renumber rho))
    rw [List.forall₂_map_right_iff, List.forall₂_same]
    exact fun v hv => ⟨hv, rfl⟩
  have hvariable : ∀ v v', v ∈ l.storage ∧ v' = v.renumber rho →
      Corresponds hash (Leaf.Renumbered rho l) l (l.renumber rho) l.depth (l.renumber rho).depth
        (.ofVariable v) (.ofVariable v') := by
    rintro v _ ⟨hv, rfl⟩
    rw [hdepth]
    refine corresponds_of_counterparts (R := fun w w' => w.type ∈ l.ids ∧ w' = w.renumber rho)
      (fun _ _ => Leaf.Renumbered.aligned) ?_ ⟨mem_ids_of_variable hv, rfl⟩
    rintro w _ t ⟨hid, rfl⟩ ht
    refine ⟨t.renumber rho, ?_, counterparts_renumber h hid ht⟩
    rw [Spot.renumber, resolve?_renumber h hid, ht, Option.map_some]
  obtain ⟨after, ls, ms, hafter, -, -, hall, hwritten, hwritten'⟩ :=
    exists_footprint_of_corresponds hstorage hvariable hbefore
  refine ⟨after, hafter, fun byte => ?_⟩
  rw [hwritten byte, hwritten' byte]
  rcases Leaf.last?_of_aligned hall (fun _ _ => Leaf.Renumbered.aligned) byte with
    ⟨hs, hc⟩ | ⟨a, b, ⟨hid, rfl⟩, -, hs, hc⟩
  · rw [hs, hc]
    refine ⟨rfl, fun d hd => ?_⟩
    cases hd
  · rw [hs, hc]
    exact ⟨rfl, fun d hd => Option.some.inj hd ▸ hid⟩

/-- **Other ids for the types of a layout give the details of its footprint other ids and change
nothing else, and where only the numbers of declarations differ no difference is told.** -/
theorem check_renumbered (h : l.Renumbers rho) (hbefore : (l.footprint hash).result = .ok before) :
    ∃ after, ((l.renumber rho).footprint hash).result = .ok after ∧
      (∀ byte : Int, after[byte]? = before[byte]?.map (Detail.renumber rho)) ∧
      ∀ checkRemovals address reader workers,
        address = none ∨ address = some [] ∨ reader = none →
        (check hash l (l.renumber rho) checkRemovals address reader workers).result = .ok [] := by
  obtain ⟨after, hafter, hbytes⟩ := exists_footprint_renumber h hbefore
  refine ⟨after, hafter, fun byte => (hbytes byte).1, fun checkRemovals address reader workers hoff =>
    check_eq_nil hbefore hafter (fun byte kind s c hfinding => ?_) hoff workers⟩
  obtain ⟨hmap, hids⟩ := hbytes byte
  cases hfinding with
  | changed hs hc htable =>
    rw [hs, hc] at hmap
    obtain rfl := Option.some.inj hmap
    -- nothing but the id of the type is not as it was, and that is the same when stripped
    cases htable with
    | renamed _ hfull | replaced _ hfull => exact hfull rfl
    | retyped _ _ htype => exact htype (h.strip _ (hids _ hs))
  | removed _ hs hc =>
    rw [hs] at hmap
    exact hc (ByteMap.mem_of_getElem? hmap)

/-- Another number for the declaration of a struct. -/
def pairNumber (id : Text) : Text :=
  if id = "t_struct(Pair)1_storage" then "t_struct(Pair)27_storage" else id

/-- The values of a mapping are structs with another number. -/
theorem check_renumbered_pair :
    ∃ before after, (overlapping.footprint lengthHash).result = .ok before ∧
      ((overlapping.renumber pairNumber).footprint lengthHash).result = .ok after ∧
      (∀ byte : Int, after[byte]? = before[byte]?.map (Detail.renumber pairNumber)) ∧
      (check lengthHash overlapping (overlapping.renumber pairNumber) true none none
        (.inOrder 1)).result = .ok [] := by
  obtain ⟨before, hbefore, -⟩ := exists_footprint_of_toBool
    (show overlapping.leaves lengthHash = .ok _ from rfl) (by decide +kernel)
  have hrenumbers : overlapping.Renumbers pairNumber := ⟨by decide, by decide +kernel⟩
  obtain ⟨after, hafter, hbytes, hcheck⟩ := check_renumbered hrenumbers hbefore
  exact ⟨before, after, hbefore, hafter, hbytes, hcheck true none none (.inOrder 1) (.inl rfl)⟩

end Layout

end UpgradeSafety
