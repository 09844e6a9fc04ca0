import UpgradeSafety.Proofs.Footprint.Overlays

/-! The footprint of a layout as a flat list. A variable comes down to leaves, each a detail with
the interval that it takes: one for itself, after those of its example if it has one, or those of
its members, one after another. `HasLeaves` says so without levels and without maps, and leaves no
choice (`HasLeaves.unique`). The maps that `expand` lays over each other at every level come to
writing these leaves in order (`exists_leavesOf_of_expand`): a footprint has the bytes that some leaf
covers, and the last leaf that covers a byte has it (`footprint_last_leaf`). -/
namespace UpgradeSafety

/-- A detail with the number of bytes that it takes from its start on. -/
structure Leaf where
  detail : Detail
  count : Int
  deriving DecidableEq, Repr

namespace Leaf

def Covers (leaf : Leaf) (byte : Int) : Prop :=
  leaf.detail.startByte ≤ byte ∧ byte < leaf.detail.startByte + leaf.count

instance (leaf : Leaf) (byte : Int) : Decidable (leaf.Covers byte) :=
  inferInstanceAs (Decidable (_ ∧ _))

/-- The detail of the last leaf that covers a byte. -/
def last? (ls : List Leaf) (byte : Int) : Option Detail :=
  (ls.reverse.find? fun leaf => leaf.Covers byte).map Leaf.detail

theorem last?_append (ls ms : List Leaf) (byte : Int) :
    last? (ls ++ ms) byte = (last? ms byte).or (last? ls byte) := by
  rw [last?, List.reverse_append, List.find?_append, Option.map_or]
  rfl

theorem last?_singleton (leaf : Leaf) (byte : Int) :
    last? [leaf] byte = if leaf.Covers byte then some leaf.detail else none := by
  by_cases h : leaf.Covers byte <;> simp [last?, h]

theorem last?_isSome_iff (ls : List Leaf) (byte : Int) :
    (last? ls byte).isSome = true ↔ ∃ leaf ∈ ls, leaf.Covers byte := by
  simp [last?]

theorem last?_split {before after : List Leaf} {leaf : Leaf} {byte : Int} (h : leaf.Covers byte)
    (hafter : ∀ other ∈ after, ¬other.Covers byte) :
    last? (before ++ leaf :: after) byte = some leaf.detail := by
  have hnone : last? after byte = none := by
    rw [← Option.not_isSome_iff_eq_none, last?_isSome_iff]
    intro hleaf
    obtain ⟨other, hmem, hcovers⟩ := hleaf
    exact hafter other hmem hcovers
  rw [last?_append, ← List.singleton_append, last?_append, last?_singleton, if_pos h, hnone]
  rfl

theorem exists_leaf_of_last? {ls : List Leaf} {byte : Int} {d : Detail}
    (h : last? ls byte = some d) : ∃ leaf ∈ ls, leaf.Covers byte ∧ leaf.detail = d := by
  obtain ⟨leaf, hfind, hd⟩ := Option.map_eq_some_iff.mp h
  have hcovers := List.find?_some hfind
  exact ⟨leaf, List.mem_reverse.mp (List.mem_of_find?_eq_some hfind),
    of_decide_eq_true hcovers, hd⟩

end Leaf

/-! ### The leaves of variables -/

/-- The example element of a container: where it is, and of which type. -/
inductive HasExample (hash : Hash) (v : Spot) (t : TypeInfo) : Spot → Prop where
  | array {type : Text} {w : Bytes} (henc : t.encoding = .dynamicArray)
      (hbase : t.base = .text type) (hslot : Slot.word? v.slot = some w) :
      HasExample hash v t
        (v.element (Text.replaceFirst v.label "[]" "[0]") type (hash w).toNat)
  | mapping {type : Text} {k w : Bytes} (henc : t.encoding = .mapping)
      (hvalue : t.value = .text type) (hkey : Slot.word? 0 = some k)
      (hslot : Slot.word? v.slot = some w) :
      HasExample hash v t (v.element (v.label ++ "[0]") type (hash (k ++ w)).toNat)

/-- The leaf of a variable itself. -/
def Spot.leaf (v : Spot) (typeLabel : Text) (t : TypeInfo) : Leaf :=
  ⟨v.detail typeLabel, t.byteCount⟩

/-- The leaves of variables, one variable after another. A struct has those of its members only,
also when its encoding is that of a container. -/
inductive HasLeaves (hash : Hash) (l : Layout) : List Spot → List Leaf → Prop where
  | nil : HasLeaves hash l [] []
  | plain {v : Spot} {t : TypeInfo} {typeLabel : Text} {rest : List Spot} {ls : List Leaf}
      (ht : l.resolve? v.type = some t) (hlabel : Spot.typeLabel v.type t = .ok typeLabel)
      (hm : t.hasMembers = false) (harray : t.encoding ≠ .dynamicArray)
      (hmapping : t.encoding ≠ .mapping) (hrest : HasLeaves hash l rest ls) :
      HasLeaves hash l (v :: rest) (v.leaf typeLabel t :: ls)
  | container {v element : Spot} {t : TypeInfo} {typeLabel : Text} {rest : List Spot}
      {sample ls : List Leaf} (ht : l.resolve? v.type = some t)
      (hlabel : Spot.typeLabel v.type t = .ok typeLabel) (hm : t.hasMembers = false)
      (he : HasExample hash v t element) (hsample : HasLeaves hash l [element] sample)
      (hrest : HasLeaves hash l rest ls) :
      HasLeaves hash l (v :: rest) (sample ++ v.leaf typeLabel t :: ls)
  | struct {v : Spot} {t : TypeInfo} {typeLabel : Text} {rest : List Spot}
      {parts ls : List Leaf} (ht : l.resolve? v.type = some t)
      (hlabel : Spot.typeLabel v.type t = .ok typeLabel) (hm : t.hasMembers = true)
      (hparts : HasLeaves hash l (t.members.map (v.member typeLabel)) parts)
      (hrest : HasLeaves hash l rest ls) :
      HasLeaves hash l (v :: rest) (parts ++ ls)

/-- The leaves of a variable, down to so many levels of types. -/
def leavesOf (hash : Hash) (l : Layout) : Nat → Spot → Except ExpansionFault (List Leaf)
  | 0, v => .error (.recursiveType v.type)
  | depth + 1, v =>
    match l.resolve? v.type with
    | none => .error (.unknownType (.text v.type))
    | some t => do
      let sample ← (match v.example? hash t with
        | .error e => .error e
        | .ok none => pure []
        | .ok (some element) => leavesOf hash l depth element)
      let typeLabel ← Spot.typeLabel v.type t
      if t.hasMembers then
        List.flatten <$> t.members.mapM fun m => leavesOf hash l depth (v.member typeLabel m)
      else return sample ++ [v.leaf typeLabel t]

/-- An expansion asks a layout for nothing but its types. -/
theorem leavesOf_congr {hash : Hash} {l l' : Layout} (h : ∀ id, l'.resolve? id = l.resolve? id)
    (depth : Nat) (v : Spot) : leavesOf hash l' depth v = leavesOf hash l depth v := by
  induction depth generalizing v with
  | zero => rfl
  | succ depth ih => simp only [leavesOf, h, ih]

theorem expand_congr {hash : Hash} {l l' : Layout} (h : ∀ id, l'.resolve? id = l.resolve? id)
    (depth : Nat) (v : Spot) : expand hash l' depth v = expand hash l depth v := by
  induction depth generalizing v with
  | zero => rfl
  | succ depth ih => simp only [expand, h, ih]

/-- The leaves of all the variables of a layout. -/
def Layout.leaves (hash : Hash) (l : Layout) : Except ExpansionFault (List Leaf) :=
  List.flatten <$> l.storage.mapM fun v => leavesOf hash l l.depth (.ofVariable v)

/-! ### Maps that leaves write -/

/-- The map that comes of writing leaves in order. -/
def ByteMap.WrittenBy (map : ByteMap) (ls : List Leaf) : Prop :=
  ∀ byte, map[byte]? = Leaf.last? ls byte

namespace ByteMap.WrittenBy

theorem mem_iff {map : ByteMap} {ls : List Leaf} (h : map.WrittenBy ls) (byte : Int) :
    byte ∈ map ↔ ∃ leaf ∈ ls, leaf.Covers byte := by
  rw [mem_iff_isSome_getElem?, h, Leaf.last?_isSome_iff]

theorem empty : ByteMap.WrittenBy ∅ [] := getElem?_empty

theorem union {lower upper : ByteMap} {ls ms : List Leaf} (h : lower.WrittenBy ls)
    (h' : upper.WrittenBy ms) : ByteMap.WrittenBy (lower ∪ upper) (ls ++ ms) := by
  intro byte
  rw [getElem?_union, h, h', Leaf.last?_append]

theorem interval (v : Spot) (typeLabel : Text) (t : TypeInfo) :
    (ByteMap.interval (v.detail typeLabel) v.startByte t.byteCount).WrittenBy
      [v.leaf typeLabel t] := by
  intro byte
  rw [getElem?_interval, Leaf.last?_singleton]
  rfl

/-- Maps laid over each other in turn are written by their leaves, one list after another. -/
theorem stack {α : Type} {f : α → Journal Overlap ExpansionFault ByteMap}
    {g : α → Except ExpansionFault (List Leaf)} {xs : List α} {map top : ByteMap} {ls : List Leaf}
    (h : ByteMap.Stack f map xs top)
    (hstep : ∀ x ∈ xs, ∀ part, (f x).result = .ok part → ∃ ms, g x = .ok ms ∧ part.WrittenBy ms)
    (hmap : map.WrittenBy ls) :
    ∃ parts, xs.mapM g = .ok parts ∧ top.WrittenBy (ls ++ parts.flatten) := by
  induction h generalizing ls with
  | nil => exact ⟨[], rfl, by simpa using hmap⟩
  | @cons map part top x rest hpart _ _ ih =>
    obtain ⟨ms, hms, hwritten⟩ := hstep x List.mem_cons_self part hpart
    obtain ⟨parts, hparts, htop⟩ :=
      ih (fun y hy => hstep y (List.mem_cons_of_mem x hy)) (hmap.union hwritten)
    refine ⟨ms :: parts, mapM_eq_ok_iff.mpr (.cons hms (mapM_eq_ok_iff.mp hparts)), ?_⟩
    rwa [List.flatten_cons, ← List.append_assoc]

end ByteMap.WrittenBy

/-! ### Leaves without levels -/

theorem not_container_of_example? {hash : Hash} {v : Spot} {t : TypeInfo}
    (h : v.example? hash t = .ok none) : t.encoding ≠ .dynamicArray ∧ t.encoding ≠ .mapping := by
  unfold Spot.example? at h
  split at h
  · split at h
    · cases h
    · obtain ⟨_, _, hsome⟩ := map_eq_ok_iff.mp h
      cases hsome
  · split at h
    · cases h
    · obtain ⟨_, _, hsome⟩ := map_eq_ok_iff.mp h
      cases hsome
  · next harray hmapping => exact ⟨harray, hmapping⟩

theorem follow_eq_ok {type field id : Text} {reference : Value}
    (h : Spot.follow type field reference = .ok id) : reference = .text id := by
  unfold Spot.follow at h
  split at h
  · cases h
  · split at h
    · rw [Except.ok.inj h]
    all_goals cases h

theorem hasExample_of_example? {hash : Hash} {v element : Spot} {t : TypeInfo}
    (h : v.example? hash t = .ok (some element)) : HasExample hash v t element := by
  unfold Spot.example? at h
  split at h
  · next henc =>
    split at h
    · cases h
    · next slot hslot =>
      obtain ⟨type, hfollow, hsome⟩ := map_eq_ok_iff.mp h
      obtain rfl := Option.some.inj hsome
      obtain ⟨w, hw, rfl⟩ := Option.map_eq_some_iff.mp hslot
      rw [Int.add_zero]
      exact .array henc (follow_eq_ok hfollow) hw
  · next henc =>
    split at h
    · cases h
    · next slot hslot =>
      obtain ⟨type, hfollow, hsome⟩ := map_eq_ok_iff.mp h
      obtain rfl := Option.some.inj hsome
      unfold Slot.ofKey? at hslot
      split at hslot
      · next k w hk hw =>
        rw [← Option.some.inj hslot]
        exact .mapping henc (follow_eq_ok hfollow) hk hw
      · cases hslot
  · cases h

section HasLeaves
variable {hash : Hash} {l : Layout}

theorem HasLeaves.append {vs ws : List Spot} {ls ms : List Leaf} (h : HasLeaves hash l vs ls)
    (h' : HasLeaves hash l ws ms) : HasLeaves hash l (vs ++ ws) (ls ++ ms) := by
  induction h with
  | nil => exact h'
  | plain ht hlabel hm harray hmapping _ ih => exact .plain ht hlabel hm harray hmapping ih
  | container ht hlabel hm he hsample _ _ ih =>
    rw [List.append_assoc]
    exact .container ht hlabel hm he hsample ih
  | struct ht hlabel hm hparts _ _ ih =>
    rw [List.append_assoc]
    exact .struct ht hlabel hm hparts ih

theorem HasLeaves.ofParts {α : Type} {spot : α → Spot} {xs : List α} {parts : List (List Leaf)}
    (h : List.Forall₂ (fun x ls => HasLeaves hash l [spot x] ls) xs parts) :
    HasLeaves hash l (xs.map spot) parts.flatten := by
  induction h with
  | nil => exact .nil
  | cons hx _ ih => exact hx.append ih

/-- There are leaves on one level at least. -/
theorem exists_eq_succ_of_leavesOf {depth : Nat} {v : Spot} {ls : List Leaf}
    (h : leavesOf hash l depth v = .ok ls) : ∃ below, depth = below + 1 := by
  cases depth with
  | zero => cases h
  | succ below => exact ⟨below, rfl⟩

/-- The leaves of a variable are put together, below the levels that are left, of those of its example
and its own, or of those of its members. -/
theorem leavesOf_succ_eq_ok_iff {depth : Nat} {v : Spot} {ls : List Leaf} :
    leavesOf hash l (depth + 1) v = .ok ls ↔ ∃ t sample typeLabel, l.resolve? v.type = some t ∧
      (v.example? hash t = .ok none ∧ sample = [] ∨
        ∃ e, v.example? hash t = .ok (some e) ∧ leavesOf hash l depth e = .ok sample) ∧
      Spot.typeLabel v.type t = .ok typeLabel ∧
      (t.hasMembers = false ∧ sample ++ [v.leaf typeLabel t] = ls ∨ t.hasMembers = true ∧
        ∃ parts, (t.members.mapM fun m => leavesOf hash l depth (v.member typeLabel m)) = .ok parts ∧
          parts.flatten = ls) := by
  rw [leavesOf]
  cases ht : l.resolve? v.type with
  | none => simp
  | some t =>
    have hown (sample : List Leaf) (typeLabel : Text) :
        (if t.hasMembers = true then
          List.flatten <$> t.members.mapM fun m => leavesOf hash l depth (v.member typeLabel m)
        else return sample ++ [v.leaf typeLabel t]) = .ok ls ↔
          t.hasMembers = false ∧ sample ++ [v.leaf typeLabel t] = ls ∨ t.hasMembers = true ∧
            ∃ parts, (t.members.mapM fun m => leavesOf hash l depth (v.member typeLabel m)) =
              .ok parts ∧ parts.flatten = ls := by
      cases t.hasMembers with
      | false => simp [pure, Except.pure]
      | true => simp [map_eq_ok_iff]
    simp only [bind_eq_ok_iff, hown, Option.some.injEq, exists_eq_left', exists_and_left]
    cases v.example? hash t with
    | error e => simp
    | ok element => cases element <;> simp [pure, Except.pure]

/-- The example of a variable has leaves if what has been expanded on the level below has. -/
theorem exists_leavesOf_of_sample {depth : Nat} {v : Spot} {t : TypeInfo} {sample : ByteMap}
    (hbelow : ∀ w map, (expand hash l depth w).result = .ok map →
      ∃ ls, leavesOf hash l depth w = .ok ls ∧ map.WrittenBy ls)
    (h : v.example? hash t = .ok none ∧ sample = ∅ ∨
      ∃ w, v.example? hash t = .ok (some w) ∧ (expand hash l depth w).result = .ok sample) :
    ∃ ls, (v.example? hash t = .ok none ∧ ls = [] ∨
      ∃ w, v.example? hash t = .ok (some w) ∧ leavesOf hash l depth w = .ok ls) ∧
        sample.WrittenBy ls := by
  rcases h with ⟨hnone, rfl⟩ | ⟨w, hw, hsample⟩
  · exact ⟨[], .inl ⟨hnone, rfl⟩, .empty⟩
  · obtain ⟨ls, hls, hwritten⟩ := hbelow w sample hsample
    exact ⟨ls, .inr ⟨w, hw, hls⟩, hwritten⟩

/-- A variable that has a map has leaves, and they write the map. -/
theorem exists_leavesOf_of_expand {depth : Nat} {v : Spot} {map : ByteMap}
    (h : (expand hash l depth v).result = .ok map) :
    ∃ ls, leavesOf hash l depth v = .ok ls ∧ map.WrittenBy ls := by
  induction depth generalizing v map with
  | zero => cases h
  | succ depth ih =>
    obtain ⟨t, sample, typeLabel, ht, hsample, hlabel, hown⟩ := expand_succ_eq_ok_iff.mp h
    obtain ⟨ls, hls, hwritten⟩ := exists_leavesOf_of_sample (fun _ _ => ih) hsample
    simp only [leavesOf_succ_eq_ok_iff]
    rcases hown with ⟨hm, -, rfl⟩ | ⟨hm, hstack⟩
    · exact ⟨_, ⟨t, ls, typeLabel, ht, hls, hlabel, .inl ⟨hm, rfl⟩⟩,
        hwritten.union (.interval v typeLabel t)⟩
    · obtain ⟨parts, hparts, hmap⟩ :=
        ByteMap.WrittenBy.stack hstack (fun _ _ _ hpart => ih hpart) .empty
      exact ⟨_, ⟨t, ls, typeLabel, ht, hls, hlabel, .inr ⟨hm, parts, hparts, rfl⟩⟩, hmap⟩

/-- Leaves that have been computed are the leaves, whatever the number of levels. -/
theorem hasLeaves_of_leavesOf {depth : Nat} {v : Spot} {ls : List Leaf}
    (h : leavesOf hash l depth v = .ok ls) : HasLeaves hash l [v] ls := by
  induction depth generalizing v ls with
  | zero => cases h
  | succ depth ih =>
    obtain ⟨t, sample, typeLabel, ht, hsample, hlabel, hown⟩ := leavesOf_succ_eq_ok_iff.mp h
    rcases hown with ⟨hm, rfl⟩ | ⟨hm, parts, hparts, rfl⟩
    · rcases hsample with ⟨hnone, rfl⟩ | ⟨e, he, hsample⟩
      · obtain ⟨harray, hmapping⟩ := not_container_of_example? hnone
        exact .plain ht hlabel hm harray hmapping .nil
      · exact .container ht hlabel hm (hasExample_of_example? he) (ih hsample) .nil
    · have hall := (mapM_eq_ok_iff.mp hparts).imp fun _ _ => ih
      simpa using HasLeaves.struct ht hlabel hm (.ofParts hall) .nil

theorem hasLeaves_of_mapM (depth : Nat) {vs : List Variable} {ls : List Leaf}
    (h : (List.flatten <$> vs.mapM fun v => leavesOf hash l depth (.ofVariable v)) = .ok ls) :
    HasLeaves hash l (vs.map .ofVariable) ls := by
  obtain ⟨parts, hparts, rfl⟩ := map_eq_ok_iff.mp h
  exact .ofParts ((mapM_eq_ok_iff.mp hparts).imp fun _ _ => hasLeaves_of_leavesOf)

theorem hasLeaves_of_leaves {ls : List Leaf} (h : l.leaves hash = .ok ls) :
    HasLeaves hash l (l.storage.map .ofVariable) ls :=
  hasLeaves_of_mapM l.depth h

theorem HasExample.encoding {v element : Spot} {t : TypeInfo} (h : HasExample hash v t element) :
    t.encoding = .dynamicArray ∨ t.encoding = .mapping := by
  cases h with
  | array henc => exact .inl henc
  | mapping henc => exact .inr henc

theorem HasExample.unique {v e e' : Spot} {t : TypeInfo} (h : HasExample hash v t e)
    (h' : HasExample hash v t e') : e = e' := by
  cases h <;> cases h' <;> simp_all

/-- Variables have one list of leaves. -/
theorem HasLeaves.unique {vs : List Spot} {ls ms : List Leaf} (h : HasLeaves hash l vs ls)
    (h' : HasLeaves hash l vs ms) : ls = ms := by
  induction h generalizing ms with
  | nil => cases h'; rfl
  | plain ht hlabel hm harray hmapping _ ih =>
    cases h' with
    | plain ht' hlabel' _ _ _ hrest' =>
      obtain rfl := Option.some.inj (ht.symm.trans ht')
      obtain rfl := Except.ok.inj (hlabel.symm.trans hlabel')
      rw [ih hrest']
    | container ht' _ _ he' =>
      obtain rfl := Option.some.inj (ht.symm.trans ht')
      exact (he'.encoding.elim harray hmapping).elim
    | struct ht' _ hm' =>
      obtain rfl := Option.some.inj (ht.symm.trans ht')
      exact absurd (hm.symm.trans hm') Bool.false_ne_true
  | container ht hlabel hm he _ _ ihsample ih =>
    cases h' with
    | plain ht' _ _ harray' hmapping' =>
      obtain rfl := Option.some.inj (ht.symm.trans ht')
      exact (he.encoding.elim harray' hmapping').elim
    | container ht' hlabel' _ he' hsample' hrest' =>
      obtain rfl := Option.some.inj (ht.symm.trans ht')
      obtain rfl := Except.ok.inj (hlabel.symm.trans hlabel')
      obtain rfl := he.unique he'
      rw [ihsample hsample', ih hrest']
    | struct ht' _ hm' =>
      obtain rfl := Option.some.inj (ht.symm.trans ht')
      exact absurd (hm.symm.trans hm') Bool.false_ne_true
  | struct ht hlabel hm _ _ ihparts ih =>
    cases h' with
    | plain ht' _ hm' | container ht' _ hm' =>
      obtain rfl := Option.some.inj (ht.symm.trans ht')
      exact absurd (hm'.symm.trans hm) Bool.false_ne_true
    | struct ht' hlabel' _ hparts' hrest' =>
      obtain rfl := Option.some.inj (ht.symm.trans ht')
      obtain rfl := Except.ok.inj (hlabel.symm.trans hlabel')
      rw [ihparts hparts', ih hrest']

end HasLeaves

/-- A layout that has a footprint has leaves, and they write the footprint. -/
theorem exists_leaves_eq_of_footprint {hash : Hash} {l : Layout} {map : ByteMap}
    (h : (l.footprint hash).result = .ok map) :
    ∃ ls, l.leaves hash = .ok ls ∧ map.WrittenBy ls := by
  obtain ⟨parts, hparts, hmap⟩ := ByteMap.WrittenBy.stack (footprint_eq_ok_iff.mp h)
    (fun _ _ _ hpart => exists_leavesOf_of_expand hpart) .empty
  exact ⟨_, map_eq_ok_iff.mpr ⟨parts, hparts, rfl⟩, hmap⟩

/-- A footprint is what the leaves of the variables write. -/
theorem exists_leaves_of_footprint {hash : Hash} {l : Layout} {map : ByteMap}
    (h : (l.footprint hash).result = .ok map) :
    ∃ ls, HasLeaves hash l (l.storage.map .ofVariable) ls ∧ map.WrittenBy ls := by
  obtain ⟨ls, hls, hmap⟩ := exists_leaves_eq_of_footprint h
  exact ⟨ls, hasLeaves_of_leaves hls, hmap⟩

/-- A footprint that can be computed is what the leaves write. -/
theorem exists_footprint_of_toBool {hash : Hash} {l : Layout} {ls : List Leaf}
    (hls : l.leaves hash = .ok ls) (h : (l.footprint hash).result.toBool = true) :
    ∃ map, (l.footprint hash).result = .ok map ∧ map.WrittenBy ls := by
  obtain ⟨map, hmap⟩ := exists_ok_of_toBool h
  obtain ⟨ls', hls', hwritten⟩ := exists_leaves_eq_of_footprint hmap
  obtain rfl := Except.ok.inj (hls'.symm.trans hls)
  exact ⟨map, hmap, hwritten⟩

/-- **A footprint has exactly the bytes that some leaf covers, and each belongs to the last leaf
that covers it.** -/
theorem footprint_last_leaf {hash : Hash} {l : Layout} {map : ByteMap}
    (h : (l.footprint hash).result = .ok map) :
    ∃ ls, HasLeaves hash l (l.storage.map .ofVariable) ls ∧
      (∀ ms, HasLeaves hash l (l.storage.map .ofVariable) ms → ms = ls) ∧
      (∀ byte, byte ∈ map ↔ ∃ leaf ∈ ls, leaf.Covers byte) ∧
      ∀ before leaf after byte, ls = before ++ leaf :: after → leaf.Covers byte →
        (∀ other ∈ after, ¬other.Covers byte) → map[byte]? = some leaf.detail := by
  obtain ⟨ls, hls, hmap⟩ := exists_leaves_of_footprint h
  refine ⟨ls, hls, fun ms hms => hms.unique hls, fun byte => ?_, ?_⟩
  · exact hmap.mem_iff byte
  · intro before leaf after byte hsplit hcovers hafter
    subst hsplit
    rw [hmap byte, Leaf.last?_split hcovers hafter]

/-- A type of its own size, without parts. -/
def TypeInfo.elementary (label : Text) (size : Int) : TypeInfo :=
  ⟨.inplace, .text label, some size, [], .null, .null, .null⟩

/-- A mapping to structs whose own bytes a later variable takes as well. -/
def Layout.overlapping : Layout where
  storage := [⟨"pairs", "t_mapping", 0, 0, .null, .null⟩, ⟨"extra", "t_uint8", 0, 2, .null, .null⟩]
  types := [
    ("t_uint8", .elementary "uint8" 1),
    ("t_struct(Pair)1_storage", { TypeInfo.elementary "struct Pair" 32 with
      members := [⟨"a", "t_uint8", 0, 0, .null, .null⟩, ⟨"b", "t_uint8", 0, 2, .null, .null⟩] }),
    ("t_mapping", { TypeInfo.elementary "mapping(uint8 => struct Pair)" 4 with
      encoding := .mapping, key := .text "t_uint8", value := .text "t_struct(Pair)1_storage" })]

/-- A hash that tells byte strings apart by their lengths alone. -/
def lengthHash : Hash := fun bytes => BitVec.ofNat 256 bytes.length

/-- The later variable has the byte that the mapping takes, too. -/
theorem footprint_overlapping :
    ∃ map, (Layout.overlapping.footprint lengthHash).result = .ok map ∧
      map[(2 : Int)]? = some ⟨"extra", "t_uint8", 0, 2, "extra", "uint8", 2, none⟩ := by
  obtain ⟨map, hmap, -⟩ := exists_footprint_of_toBool
    (show Layout.overlapping.leaves lengthHash = .ok _ from rfl) (by decide +kernel)
  obtain ⟨ls, _, hunique, _, hlast⟩ := footprint_last_leaf hmap
  -- the leaves of both members of the example, of the mapping and of the later variable
  have hleaves := hunique
    (_ :: _ :: _ :: [⟨⟨"extra", "t_uint8", 0, 2, "extra", "uint8", 2, none⟩, 1⟩])
    (hasLeaves_of_leaves rfl)
  exact ⟨map, hmap, hlast [_, _, _] _ [] 2 hleaves.symm (by decide) nofun⟩

end UpgradeSafety
