import UpgradeSafety.Proofs.Footprint.Levels

/-! How deep expansions are nested. The expansion of a variable asks for that of its example and for
those of its members (`Spot.AsksFor`). Nothing gets smaller on the way, as slots become hashes and
labels grow, but where no type leads back to itself the types of nested expansions are distinct, and
all but the innermost are known. So no more expansions are nested than there are types and one
(`length_le_of_asksFor`). The levels that a layout has are never used up, more of them change
nothing, and there is a footprint, or a fault other than that a type leads back to itself
(`footprint_ends`). -/
namespace UpgradeSafety

/-- The expansion of a variable may ask for that of another one, with one level less. -/
inductive Spot.AsksFor (hash : Hash) (l : Layout) (v : Spot) : Spot → Prop where
  | sample {w : Spot} {t : TypeInfo} (ht : l.resolve? v.type = some t)
      (hw : v.example? hash t = .ok (some w)) : AsksFor hash l v w
  | member {t : TypeInfo} {typeLabel : Text} {m : Variable} (ht : l.resolve? v.type = some t)
      (hlabel : Spot.typeLabel v.type t = .ok typeLabel) (hm : m ∈ t.members) :
      AsksFor hash l v (v.member typeLabel m)

/-- The footprint where the expansion of each variable has so many levels. -/
def Layout.footprintWithin (hash : Hash) (l : Layout) (depth : Nat) :
    Journal Overlap ExpansionFault ByteMap :=
  l.storage.foldlM (fun map v => do
    let part ← expand hash l depth (.ofVariable v)
    lay map part v.label) ∅

section Nesting
variable {hash : Hash} {l : Layout}

theorem Spot.AsksFor.resolve {v w : Spot} (h : v.AsksFor hash l w) :
    ∃ t, l.resolve? v.type = some t := by
  cases h with
  | sample ht | member ht => exact ⟨_, ht⟩

theorem Spot.AsksFor.leadsTo {v w : Spot} (h : v.AsksFor hash l w) :
    l.LeadsTo v.type w.type := by
  cases h with
  | sample ht hw => exact .element ht (hasExample_of_example? hw).hasElement
  | member ht _ hm => exact .member ht hm

/-- Expansions that are nested use up one level each, and levels enough are left for all of them. -/
theorem Layout.Descent.length_le {met : List Text} {left : Nat} {v : Spot} {calls : List Spot}
    (hdescent : l.Descent met left v.type) (hrecursive : ¬l.Recursive v.type)
    (h : (v :: calls).IsChain (Spot.AsksFor hash l)) : (v :: calls).length ≤ left := by
  induction calls generalizing met left v with
  | nil =>
    cases left with
    | zero => exact absurd hdescent Layout.Descent.not_zero
    | succ left => exact Nat.le_add_left 1 left
  | cons w calls ih =>
    obtain ⟨hw, hcalls⟩ := List.isChain_cons_cons.mp h
    cases left with
    | zero => exact absurd hdescent Layout.Descent.not_zero
    | succ left =>
      obtain ⟨t, ht⟩ := hw.resolve
      have hback : ¬Relation.TransGen l.LeadsTo v.type v.type := fun hback =>
        hrecursive ⟨_, .refl, hback⟩
      have hnext : ¬l.Recursive w.type := fun hnext => hrecursive (.of_leadsTo hw.leadsTo hnext)
      exact Nat.succ_le_succ (ih (hdescent.step ht hback hw.leadsTo) hnext hcalls)

/-- Where no type leads back to itself, no more expansions are nested than there are types and
one. -/
theorem length_le_of_asksFor {v : Spot} {calls : List Spot} (hrecursive : ¬l.Recursive v.type)
    (h : (v :: calls).IsChain (Spot.AsksFor hash l)) :
    (v :: calls).length ≤ l.types.length + 1 :=
  (Layout.Descent.top v.type).length_le hrecursive h

/-- Where each type leads only to types of a lesser rank, none leads back to itself. -/
theorem Layout.not_recursive_of_rank (rank : Text → Nat)
    (h : ∀ id next, l.LeadsTo id next → rank next < rank id) (type : Text) :
    ¬l.Recursive type := by
  intro hrecursive
  obtain ⟨id, -, hback⟩ := hrecursive
  have hlt {a b : Text} (hab : Relation.TransGen l.LeadsTo a b) : rank b < rank a := by
    induction hab with
    | single hnext => exact h _ _ hnext
    | tail _ hnext ih => exact Nat.lt_trans (h _ _ hnext) ih
  exact Nat.lt_irrefl _ (hlt hback)

/-- An expansion depends on the levels below only by the expansions that it asks for. -/
theorem expand_succ_congr {depth depth' : Nat} {v : Spot}
    (h : ∀ w, v.AsksFor hash l w → expand hash l depth w = expand hash l depth' w) :
    expand hash l (depth + 1) v = expand hash l (depth' + 1) v := by
  rw [expand, expand]
  cases ht : l.resolve? v.type with
  | none => rfl
  | some t =>
    refine congrArg₂ Bind.bind ?_ (funext fun sample => ?_)
    · cases hexample : v.example? hash t with
      | error e => rfl
      | ok element =>
        cases element with
        | none => rfl
        | some w => exact h w (.sample ht hexample)
    · cases hlabel : Spot.typeLabel v.type t with
      | error e => rfl
      | ok typeLabel =>
        change (pure typeLabel >>= _) = (pure typeLabel >>= _)
        rw [pure_bind, pure_bind]
        split
        · refine foldlM_congr (fun map m hm => ?_) ∅
          rw [h _ (.member ht hlabel hm)]
        · rfl

/-- Where expansions are nested no deeper than there are levels, more levels change nothing. -/
theorem expand_eq_of_length_le {depth deeper : Nat} {v : Spot} (hdeeper : depth ≤ deeper)
    (h : ∀ calls, (v :: calls).IsChain (Spot.AsksFor hash l) → (v :: calls).length ≤ depth) :
    expand hash l deeper v = expand hash l depth v := by
  induction depth generalizing deeper v with
  | zero => exact absurd (h [] (.singleton v)) (Nat.not_succ_le_zero 0)
  | succ depth ih =>
    obtain ⟨deeper, rfl⟩ := Nat.exists_eq_add_of_le' (Nat.zero_lt_of_lt hdeeper)
    refine expand_succ_congr fun w hw => ?_
    exact ih (Nat.le_of_succ_le_succ hdeeper) fun calls hcalls =>
      Nat.le_of_succ_le_succ (h (w :: calls) (.cons_cons hw hcalls))

/-- **Where no type that the variables lead to leads back to itself, no more expansions are nested
than there are types and one. So that many levels are enough, more of them change nothing, and there
is a footprint, or a fault other than that a type leads back to itself.** -/
theorem footprint_ends (hrecursive : ∀ v ∈ l.storage, ¬l.Recursive v.type) :
    (∀ v ∈ l.storage, ∀ calls, (.ofVariable v :: calls).IsChain (Spot.AsksFor hash l) →
        (Spot.ofVariable v :: calls).length ≤ l.types.length + 1) ∧
      (∀ depth, l.types.length + 1 ≤ depth → l.footprintWithin hash depth = l.footprint hash) ∧
      ((∃ map, (l.footprint hash).result = .ok map) ∨
        ∃ e, (l.footprint hash).result = .error e ∧ ∀ type, e ≠ .recursiveType type) := by
  have hnested : ∀ v ∈ l.storage, ∀ calls,
      (.ofVariable v :: calls).IsChain (Spot.AsksFor hash l) →
        (Spot.ofVariable v :: calls).length ≤ l.types.length + 1 :=
    fun v hv _ hcalls => length_le_of_asksFor (hrecursive v hv) hcalls
  refine ⟨hnested, fun depth hdepth => ?_, ?_⟩
  · refine foldlM_congr (fun map v hv => ?_) ∅
    rw [expand_eq_of_length_le hdepth (hnested v hv)]
    rfl
  · cases hresult : (l.footprint hash).result with
    | ok map => exact .inl ⟨map, rfl⟩
    | error e =>
      rcases exists_hasFault_of_footprint hrecursive hresult with ⟨v, -, hfault⟩ | ⟨n, rfl, -⟩
      · exact .inr ⟨e, rfl, hfault.ne_recursiveType⟩
      · exact .inr ⟨_, rfl, nofun⟩

end Nesting

/-- A mapping of mappings to a type that there is not. -/
def Layout.allowances : Layout where
  storage := [
    ⟨"allowances", "t_mapping(t_address,t_mapping(t_address,t_uint256))", 0, 0, .null, .null⟩]
  types := [
    ("t_mapping(t_address,t_mapping(t_address,t_uint256))",
      { TypeInfo.elementary "mapping(address => mapping(address => uint256))" 32 with
        encoding := .mapping
        key := .text "t_address"
        value := .text "t_mapping(t_address,t_uint256)" }),
    ("t_mapping(t_address,t_uint256)",
      { TypeInfo.elementary "mapping(address => uint256)" 32 with
        encoding := .mapping, key := .text "t_address", value := .text "t_uint256" })]

/-- The expansion goes on to shorter ids. -/
theorem Layout.allowances_leadsTo {id next : Text} (h : allowances.LeadsTo id next) :
    next.length < id.length := by
  cases h with
  | member ht hm =>
    rcases mem_types_of_resolve? ht with _ | ⟨_, _ | ⟨_, hnone⟩⟩
    · cases hm
    · cases hm
    · cases hnone
  | element ht he =>
    rcases mem_types_of_resolve? ht with _ | ⟨_, _ | ⟨_, hnone⟩⟩
    · rw [he.unique (.value rfl rfl)]
      decide
    · rw [he.unique (.value rfl rfl)]
      decide
    · cases hnone

/-- The bound is met: three expansions are nested, of two types and of one that is missing. -/
theorem footprint_ends_allowances :
    (∀ v ∈ Layout.allowances.storage, ¬Layout.allowances.Recursive v.type) ∧
      (∀ v ∈ Layout.allowances.storage,
        (∃ calls, (.ofVariable v :: calls).IsChain (Spot.AsksFor lengthHash Layout.allowances) ∧
          (Spot.ofVariable v :: calls).length = 3) ∧
        ∀ calls, (.ofVariable v :: calls).IsChain (Spot.AsksFor lengthHash Layout.allowances) →
          (Spot.ofVariable v :: calls).length ≤ 3) ∧
      ∀ depth, 3 ≤ depth → Layout.allowances.footprintWithin lengthHash depth =
        Layout.allowances.footprint lengthHash := by
  have hrecursive : ∀ v ∈ Layout.allowances.storage, ¬Layout.allowances.Recursive v.type :=
    fun v _ => Layout.not_recursive_of_rank List.length
      (fun _ _ => Layout.allowances_leadsTo) v.type
  obtain ⟨hnested, hlevels, -⟩ := @footprint_ends lengthHash _ hrecursive
  refine ⟨hrecursive, fun v hv => ⟨?_, hnested v hv⟩, hlevels⟩
  obtain rfl := List.mem_singleton.mp hv
  exact ⟨_, .cons_cons (.sample rfl rfl) (.cons_cons (.sample rfl rfl) (.singleton _)), rfl⟩

end UpgradeSafety
