import Mathlib.Data.List.Perm.Subperm
import Mathlib.Logic.Relation
import UpgradeSafety.Proofs.Footprint.Merges

/-! How many levels an expansion goes down. From a type it goes on to the types of its members and
to that of its example (`Layout.LeadsTo`), each time with one level less, so a type that has been
expanded does not lead back to itself (`not_transGen_of_leavesOf`). On the way down no type is met
twice, and a layout has enough levels for all of its types (`leavesOf_depth`). So where no type
leads back to itself an expansion fails by a fault of some variable, or where two maps clash, and not
for want of levels (`exists_hasFault_of_footprint`). -/
namespace UpgradeSafety

/-- The elements of a container are of a type. -/
inductive TypeInfo.HasElement (t : TypeInfo) (element : Text) : Prop where
  | value (henc : t.encoding = .mapping) (hvalue : t.value = .text element)
  | base (henc : t.encoding = .dynamicArray) (hbase : t.base = .text element)

theorem TypeInfo.HasElement.unique {t : TypeInfo} {a b : Text} (ha : t.HasElement a)
    (hb : t.HasElement b) : a = b := by
  cases ha <;> cases hb <;> simp_all

theorem HasExample.hasElement {hash : Hash} {v e : Spot} {t : TypeInfo}
    (h : HasExample hash v t e) : t.HasElement e.type := by
  cases h with
  | array henc hbase => exact .base henc hbase
  | mapping henc hvalue => exact .value henc hvalue

/-- From a type an expansion goes on to another one. A struct that is encoded as a container has an
example as well, although it makes no use of it. -/
inductive Layout.LeadsTo (l : Layout) (id : Text) : Text → Prop where
  | member {t : TypeInfo} {m : Variable} (ht : l.resolve? id = some t) (hm : m ∈ t.members) :
      LeadsTo l id m.type
  | element {t : TypeInfo} {type : Text} (ht : l.resolve? id = some t)
      (he : t.HasElement type) : LeadsTo l id type

/-- From a type an expansion comes to another one, or is there already. -/
def Layout.Reaches (l : Layout) : Text → Text → Prop :=
  Relation.ReflTransGen l.LeadsTo

section Levels
variable {hash : Hash} {l : Layout}

/-- A leaf is of a type that one of the variables comes down to. -/
theorem HasLeaves.exists_reaches {vs : List Spot} {ls : List Leaf} (h : HasLeaves hash l vs ls) :
    ∀ leaf ∈ ls, ∃ v ∈ vs, l.Reaches v.type leaf.detail.type := by
  have hrest {v : Spot} {rest : List Spot} {ms : List Leaf}
      (ih : ∀ leaf ∈ ms, ∃ w ∈ rest, l.Reaches w.type leaf.detail.type) :
      ∀ leaf ∈ ms, ∃ w ∈ v :: rest, l.Reaches w.type leaf.detail.type := by
    intro leaf hleaf
    obtain ⟨w, hw, hreach⟩ := ih leaf hleaf
    exact ⟨w, List.mem_cons_of_mem v hw, hreach⟩
  induction h with
  | nil => nofun
  | plain _ _ _ _ _ _ ih =>
    exact List.forall_mem_cons.mpr ⟨⟨_, List.mem_cons_self, .refl⟩, hrest ih⟩
  | container ht _ _ he _ _ ihsample ih =>
    refine List.forall_mem_append.mpr ⟨fun leaf hleaf => ?_,
      List.forall_mem_cons.mpr ⟨⟨_, List.mem_cons_self, .refl⟩, hrest ih⟩⟩
    obtain ⟨e, he', hreach⟩ := ihsample leaf hleaf
    obtain rfl := List.mem_singleton.mp he'
    exact ⟨_, List.mem_cons_self, .head (.element ht he.hasElement) hreach⟩
  | struct ht _ _ _ _ ihparts ih =>
    refine List.forall_mem_append.mpr ⟨fun leaf hleaf => ?_, hrest ih⟩
    obtain ⟨w, hw, hreach⟩ := ihparts leaf hleaf
    obtain ⟨m, hm, rfl⟩ := List.mem_map.mp hw
    exact ⟨_, List.mem_cons_self, .head (.member ht hm) hreach⟩

/-- The members of a variable have been expanded on the level below. -/
theorem exists_leavesOf_member {depth : Nat} {v : Spot} {ls : List Leaf}
    (h : leavesOf hash l (depth + 1) v = .ok ls) {t : TypeInfo} (ht : l.resolve? v.type = some t)
    {m : Variable} (hm : m ∈ t.members) :
    ∃ typeLabel ms, Spot.typeLabel v.type t = .ok typeLabel ∧
      leavesOf hash l depth (v.member typeLabel m) = .ok ms := by
  obtain ⟨t', sample, typeLabel, ht', -, hlabel, hown⟩ := leavesOf_succ_eq_ok_iff.mp h
  obtain rfl := Option.some.inj (ht.symm.trans ht')
  rcases hown with ⟨hnone, -⟩ | ⟨-, parts, hparts, -⟩
  · rw [TypeInfo.hasMembers, Bool.not_eq_false', List.isEmpty_iff] at hnone
    exact absurd hm (hnone ▸ List.not_mem_nil)
  · obtain ⟨ms, -, hms⟩ := exists_mem_of_forall₂ (mapM_eq_ok_iff.mp hparts) hm
    exact ⟨typeLabel, ms, hlabel, hms⟩

/-- What a type leads to has been expanded on the level below. -/
theorem exists_leavesOf_of_leadsTo {depth : Nat} {v : Spot} {ls : List Leaf}
    (h : leavesOf hash l (depth + 1) v = .ok ls) {id : Text} (hid : l.LeadsTo v.type id) :
    ∃ w ms, w.type = id ∧ leavesOf hash l depth w = .ok ms := by
  cases hid with
  | member ht hm =>
    obtain ⟨typeLabel, ms, -, hms⟩ := exists_leavesOf_member h ht hm
    exact ⟨_, ms, rfl, hms⟩
  | element ht' he =>
    obtain ⟨t, sample, typeLabel, ht, hsample, -, -⟩ := leavesOf_succ_eq_ok_iff.mp h
    obtain rfl := Option.some.inj (ht.symm.trans ht')
    rcases hsample with ⟨hnone, -⟩ | ⟨e, hexample, hsample⟩
    · obtain ⟨harray, hmapping⟩ := not_container_of_example? hnone
      cases he with
      | value henc => exact absurd henc hmapping
      | base henc => exact absurd henc harray
    · exact ⟨e, sample, (hasExample_of_example? hexample).hasElement.unique he, hsample⟩

/-- What a type leads to at some remove has been expanded on a lower level. -/
theorem exists_leavesOf_of_transGen {depth : Nat} {v : Spot} {ls : List Leaf}
    (h : leavesOf hash l depth v = .ok ls) {id : Text}
    (hid : Relation.TransGen l.LeadsTo v.type id) :
    ∃ w lower ms, w.type = id ∧ lower < depth ∧ leavesOf hash l lower w = .ok ms := by
  have hstep {depth : Nat} {v : Spot} {ls : List Leaf} (h : leavesOf hash l depth v = .ok ls)
      {id : Text} (hid : l.LeadsTo v.type id) :
      ∃ w lower ms, w.type = id ∧ lower < depth ∧ leavesOf hash l lower w = .ok ms := by
    obtain ⟨below, rfl⟩ := exists_eq_succ_of_leavesOf h
    obtain ⟨w, ms, hw, hms⟩ := exists_leavesOf_of_leadsTo h hid
    exact ⟨w, below, ms, hw, Nat.lt_succ_self below, hms⟩
  induction hid with
  | single hid => exact hstep h hid
  | tail _ hid ih =>
    obtain ⟨u, upper, ns, rfl, hupper, hns⟩ := ih
    obtain ⟨w, lower, ms, hw, hlower, hms⟩ := hstep hns hid
    exact ⟨w, lower, ms, hw, Nat.lt_trans hlower hupper, hms⟩

/-- A type that has been expanded does not lead back to itself. -/
theorem not_transGen_of_leavesOf {depth : Nat} {v : Spot} {ls : List Leaf}
    (h : leavesOf hash l depth v = .ok ls) : ¬Relation.TransGen l.LeadsTo v.type v.type := by
  induction depth using Nat.strongRecOn generalizing v ls with
  | ind depth ih =>
    intro hback
    obtain ⟨w, lower, ms, hw, hlower, hms⟩ := exists_leavesOf_of_transGen h hback
    exact ih lower hlower hms (hw ▸ hback)

/-- On the way down to a type some others have been met, none of which is met again, and the levels
that are left are enough for the rest. -/
structure Layout.Descent (l : Layout) (met : List Text) (left : Nat) (type : Text) : Prop where
  nodup : met.Nodup
  known : ∀ id ∈ met, id ∈ l.types.map Prod.fst
  room : l.types.length < met.length + left
  fresh : ∀ id ∈ met, ¬l.Reaches type id

namespace Layout.Descent
variable {met : List Text} {left : Nat} {type : Text}

/-- All the levels are left at the top. -/
theorem top (type : Text) : l.Descent [] l.depth type :=
  ⟨.nil, nofun, by simp [Layout.depth], nofun⟩

/-- The types that have been met are not more than there are. -/
theorem not_zero : ¬l.Descent met 0 type := by
  intro h
  have hle := (List.subperm_of_subset h.nodup h.known).length_le
  have hroom := h.room
  rw [List.length_map] at hle
  omega

/-- A type that does not lead back to itself is met once. -/
theorem step (h : l.Descent met (left + 1) type) {t : TypeInfo} (ht : l.resolve? type = some t)
    (hback : ¬Relation.TransGen l.LeadsTo type type) {next : Text} (hnext : l.LeadsTo type next) :
    l.Descent (type :: met) left next where
  nodup := List.nodup_cons.mpr ⟨fun hmem => h.fresh _ hmem .refl, h.nodup⟩
  known := List.forall_mem_cons.mpr ⟨List.mem_map_of_mem (Layout.mem_types_of_resolve? ht), h.known⟩
  room := by
    have hroom := h.room
    rw [List.length_cons]
    omega
  fresh := List.forall_mem_cons.mpr ⟨fun hreach => hback (.head' hnext hreach),
    fun id hid hreach => h.fresh id hid (.head hnext hreach)⟩

end Layout.Descent

/-- Where levels enough are left, what can be expanded at all is expanded. -/
theorem leavesOf_of_descent {met : List Text} {left depth : Nat} {v : Spot}
    (hdescent : l.Descent met left v.type) {ls : List Leaf}
    (h : leavesOf hash l depth v = .ok ls) : leavesOf hash l left v = .ok ls := by
  induction left generalizing met depth v ls with
  | zero => exact absurd hdescent Layout.Descent.not_zero
  | succ left ih =>
    obtain ⟨below, rfl⟩ := exists_eq_succ_of_leavesOf h
    obtain ⟨t, sample, typeLabel, ht, hsample, hlabel, hown⟩ := leavesOf_succ_eq_ok_iff.mp h
    have hbelow {w : Spot} (hw : l.LeadsTo v.type w.type) {ms : List Leaf}
        (hms : leavesOf hash l below w = .ok ms) : leavesOf hash l left w = .ok ms :=
      ih (hdescent.step ht (not_transGen_of_leavesOf h) hw) hms
    refine leavesOf_succ_eq_ok_iff.mpr ⟨t, sample, typeLabel, ht, ?_, hlabel, ?_⟩
    · refine hsample.imp_right fun hexample => ?_
      obtain ⟨e, he, hsample⟩ := hexample
      exact ⟨e, he, hbelow (.element ht (hasExample_of_example? he).hasElement) hsample⟩
    · refine hown.imp_right fun hstruct => ?_
      obtain ⟨hm, parts, hparts, hflat⟩ := hstruct
      refine ⟨hm, parts, mapM_eq_ok_iff.mpr ?_, hflat⟩
      have hmembers := (List.forall₂_and_left t.members parts).mpr
        ⟨fun m hm => hm, mapM_eq_ok_iff.mp hparts⟩
      exact hmembers.imp fun m part ⟨hm, hpart⟩ => hbelow (.member ht hm) hpart

/-- What can be expanded at all can be expanded within the levels of the layout. -/
theorem leavesOf_depth {depth : Nat} {v : Spot} {ls : List Leaf}
    (h : leavesOf hash l depth v = .ok ls) : leavesOf hash l l.depth v = .ok ls :=
  leavesOf_of_descent (.top v.type) h

/-! ### What keeps a variable from having leaves -/

/-- A fault on the way down from a variable, other than that a type leads back to itself. -/
inductive HasFault (hash : Hash) (l : Layout) : Spot → ExpansionFault → Prop where
  | unknown {v : Spot} (ht : l.resolve? v.type = none) :
      HasFault hash l v (.unknownType (.text v.type))
  | sample {v : Spot} {t : TypeInfo} {e : ExpansionFault} (ht : l.resolve? v.type = some t)
      (h : v.example? hash t = .error e) : HasFault hash l v e
  | label {v : Spot} {t : TypeInfo} {e : ExpansionFault} (ht : l.resolve? v.type = some t)
      (h : Spot.typeLabel v.type t = .error e) : HasFault hash l v e
  | element {v w : Spot} {t : TypeInfo} {e : ExpansionFault} (ht : l.resolve? v.type = some t)
      (hw : v.example? hash t = .ok (some w)) (h : HasFault hash l w e) : HasFault hash l v e
  | member {v : Spot} {t : TypeInfo} {typeLabel : Text} {m : Variable} {e : ExpansionFault}
      (ht : l.resolve? v.type = some t) (hlabel : Spot.typeLabel v.type t = .ok typeLabel)
      (hm : m ∈ t.members) (h : HasFault hash l (v.member typeLabel m) e) : HasFault hash l v e

theorem ne_recursiveType_of_example? {v : Spot} {t : TypeInfo} {e : ExpansionFault}
    (h : v.example? hash t = .error e) (type : Text) : e ≠ .recursiveType type := by
  rintro rfl
  have hfollow {field : Text} {reference : Value} {f : Text → Option Spot}
      (h : (Spot.follow v.type field reference).map f = .error (.recursiveType type)) : False := by
    unfold Spot.follow at h
    split at h
    · cases h
    · split at h <;> cases h
  unfold Spot.example? at h
  split at h
  · split at h
    · cases h
    · exact hfollow h
  · split at h
    · cases h
    · exact hfollow h
  · cases h

theorem HasFault.ne_recursiveType {v : Spot} {e : ExpansionFault} (h : HasFault hash l v e)
    (type : Text) : e ≠ .recursiveType type := by
  induction h with
  | unknown => nofun
  | sample _ h => exact ne_recursiveType_of_example? h type
  | label _ h =>
    unfold Spot.typeLabel at h
    split at h
    · cases h
    · cases h
      nofun
  | element _ _ _ ih => exact ih
  | member _ _ _ _ ih => exact ih

/-- A variable with a fault has no leaves, whatever the number of levels. -/
theorem HasFault.leavesOf_ne_ok {v : Spot} {e : ExpansionFault} (h : HasFault hash l v e)
    (depth : Nat) (ls : List Leaf) : leavesOf hash l depth v ≠ .ok ls := by
  intro hls
  obtain ⟨below, rfl⟩ := exists_eq_succ_of_leavesOf hls
  induction h generalizing below ls with
  | unknown ht =>
    obtain ⟨t, _, _, ht', -⟩ := leavesOf_succ_eq_ok_iff.mp hls
    cases ht.symm.trans ht'
  | sample ht h =>
    obtain ⟨t, _, _, ht', hexample, -⟩ := leavesOf_succ_eq_ok_iff.mp hls
    obtain rfl := Option.some.inj (ht.symm.trans ht')
    rcases hexample with ⟨hexample, -⟩ | ⟨_, hexample, -⟩
    · cases h.symm.trans hexample
    · cases h.symm.trans hexample
  | label ht h =>
    obtain ⟨t, _, _, ht', -, hlabel, -⟩ := leavesOf_succ_eq_ok_iff.mp hls
    obtain rfl := Option.some.inj (ht.symm.trans ht')
    cases h.symm.trans hlabel
  | element ht hw _ ih =>
    obtain ⟨t, sample, _, ht', hexample, -⟩ := leavesOf_succ_eq_ok_iff.mp hls
    obtain rfl := Option.some.inj (ht.symm.trans ht')
    rcases hexample with ⟨hexample, -⟩ | ⟨w, hexample, hsample⟩
    · cases hw.symm.trans hexample
    · obtain rfl := Option.some.inj (Except.ok.inj (hw.symm.trans hexample))
      obtain ⟨lower, rfl⟩ := exists_eq_succ_of_leavesOf hsample
      exact ih sample lower hsample
  | member ht hlabel hm _ ih =>
    obtain ⟨typeLabel, ms, hlabel', hms⟩ := exists_leavesOf_member hls ht hm
    obtain rfl := Except.ok.inj (hlabel.symm.trans hlabel')
    obtain ⟨lower, rfl⟩ := exists_eq_succ_of_leavesOf hms
    exact ih ms lower hms

/-- From a type an expansion goes on without end. -/
def Layout.Recursive (l : Layout) (type : Text) : Prop :=
  ∃ id, l.Reaches type id ∧ Relation.TransGen l.LeadsTo id id

/-- What has been expanded does not go on without end. -/
theorem not_recursive_of_leavesOf {depth : Nat} {v : Spot} {ls : List Leaf}
    (h : leavesOf hash l depth v = .ok ls) : ¬l.Recursive v.type := by
  intro hrecursive
  obtain ⟨id, hreach, hback⟩ := hrecursive
  rcases Relation.reflTransGen_iff_eq_or_transGen.mp hreach with heq | hlower
  · exact not_transGen_of_leavesOf h (heq ▸ hback)
  · obtain ⟨w, _, ms, rfl, -, hms⟩ := exists_leavesOf_of_transGen h hlower
    exact not_transGen_of_leavesOf hms hback

theorem Layout.Recursive.of_leadsTo {type next : Text} (hnext : l.LeadsTo type next)
    (h : l.Recursive next) : l.Recursive type := by
  obtain ⟨id, hreach, hback⟩ := h
  exact ⟨id, .head hnext hreach, hback⟩

/-- Where levels enough are left, only a type that leads back to itself runs out of them. -/
theorem hasFault_of_descent {met : List Text} {left : Nat} {v : Spot}
    (hdescent : l.Descent met left v.type) (hrecursive : ¬l.Recursive v.type) {e : ExpansionFault}
    (h : (expand hash l left v).result = .error e) :
    HasFault hash l v e ∨ ∃ n m, e = .longNumber n ∧ Spot.Merges hash l v m ∧ m.Clashes n := by
  induction left generalizing met v with
  | zero => exact absurd hdescent Layout.Descent.not_zero
  | succ left ih =>
    rcases expand_succ_eq_error h with ⟨ht, rfl⟩ | ⟨t, ht, hbelow⟩
    · exact .inl (.unknown ht)
    have hstep {w : Spot} (hw : l.LeadsTo v.type w.type)
        (hfault : (expand hash l left w).result = .error e) :
        HasFault hash l w e ∨ ∃ n m, e = .longNumber n ∧ Spot.Merges hash l w m ∧ m.Clashes n :=
      ih (hdescent.step ht (fun hback => hrecursive ⟨_, .refl, hback⟩) hw)
        (fun hnext => hrecursive (.of_leadsTo hw hnext)) hfault
    rcases hbelow with hexample | ⟨w, hw, hfault⟩ | hlabel | ⟨typeLabel, hlabel, hplain | hstruct⟩
    · exact .inl (.sample ht hexample)
    · have he := hasExample_of_example? hw
      refine (hstep (.element ht he.hasElement) hfault).imp (.element ht hw) fun hclash => ?_
      obtain ⟨n, m, rfl, hm, hclash⟩ := hclash
      exact ⟨n, m, rfl, .sample ht he hm, hclash⟩
    · exact .inl (.label ht hlabel)
    · obtain ⟨hm, sample, first, hsample, hmeets, hlong, rfl⟩ := hplain
      obtain ⟨ls, hls, hlower⟩ :=
        exists_leavesOf_of_sample (fun _ _ => exists_leavesOf_of_expand) hsample
      have hwhole := hasLeaves_of_leavesOf
        (leavesOf_succ_eq_ok_iff.mpr ⟨t, ls, typeLabel, ht, hls, hlabel, .inl ⟨hm, rfl⟩⟩)
      exact .inr ⟨_, _, rfl, .own ht hm hwhole,
        Merge.clashes_of_meets hlower (.interval v typeLabel t) hmeets hlong⟩
    · obtain ⟨-, before, m, after, mid, hsplit, hmid, hfault⟩ := hstruct
      have hmem : m ∈ t.members := hsplit ▸ List.mem_append_right before List.mem_cons_self
      rcases hfault with hfault | ⟨part, first, hpart, hmeets, hlong, rfl⟩
      · refine (hstep (.member ht hmem) hfault).imp (.member ht hlabel hmem) fun hclash => ?_
        obtain ⟨n, merge, rfl, hmerge, hclash⟩ := hclash
        exact ⟨n, merge, rfl, .inside ht hlabel hmem hmerge, hclash⟩
      · obtain ⟨ls, hls, hlower⟩ := exists_hasLeaves_of_stack hmid
        obtain ⟨ms, hms, hupper⟩ := exists_hasLeaves_of_expand hpart
        exact .inr ⟨_, _, rfl, .member ht hlabel hsplit hls hms,
          Merge.clashes_of_meets hlower hupper hmeets hlong⟩

/-- **A layout whose types do not lead back to themselves has no footprint only where some variable
has a fault, or where two maps clash.** -/
theorem exists_hasFault_of_footprint (hrecursive : ∀ v ∈ l.storage, ¬l.Recursive v.type)
    {e : ExpansionFault} (h : (l.footprint hash).result = .error e) :
    (∃ v ∈ l.storage, HasFault hash l (.ofVariable v) e) ∨
      ∃ n, e = .longNumber n ∧ l.Clashes hash n := by
  obtain ⟨before, v, after, mid, hsplit, hmid, hfault⟩ := footprint_eq_error h
  have hv : v ∈ l.storage := hsplit ▸ List.mem_append_right before List.mem_cons_self
  rcases hfault with hfault | ⟨part, first, hpart, hmeets, hlong, rfl⟩
  · refine (hasFault_of_descent (.top v.type) (hrecursive v hv) hfault).imp (⟨v, hv, ·⟩) fun hclash => ?_
    obtain ⟨n, m, rfl, hm, hclash⟩ := hclash
    exact ⟨n, rfl, m, .inside hv hm, hclash⟩
  · obtain ⟨ls, hls, hlower⟩ := exists_hasLeaves_of_stack hmid
    obtain ⟨ms, hms, hupper⟩ := exists_hasLeaves_of_expand hpart
    exact .inr ⟨_, rfl, _, .declared hsplit hls hms,
      Merge.clashes_of_meets hlower hupper hmeets hlong⟩

end Levels

end UpgradeSafety
