import UpgradeSafety.Proofs.Diff.Relabelling
import UpgradeSafety.Proofs.Diff.Renumbering

/-! Other names in a new build. Some variables get other names, and the compiler gives the types
other ids, which are the old ones when stripped. Either change passes for what it is: a check tells
the names and says nothing of the ids. Together they do not. Under another full label two ids are
compared as they are, not as what is left of them, so a variable that has got another name and whose
type has got another id is told as another variable in its place (`Layout.check_recompiled`). -/
namespace UpgradeSafety

/-- Names for the variables of a layout: one for each, and where it is another one, without brackets
as the old one. No room turns into a variable, and no variable into room. -/
structure Layout.Renames (l : Layout) (names : List Text) : Prop where
  length : names.length = l.storage.length
  plain : ∀ entry ∈ l.storage.zip names, entry.2 ≠ entry.1.label →
    PlainName entry.1.label ∧ PlainName entry.2
  reserved : ∀ entry ∈ l.storage.zip names, entry.1.label = gapLabel ↔ entry.2 = gapLabel

/-- A leaf of a variable, and the same where the variable may have another name. -/
inductive Leaf.UnderName (old new : Text) (a : Leaf) : Leaf → Prop where
  | kept (hname : new = old) : UnderName old new a a
  | renamed {b : Leaf} (hname : new ≠ old) (h : a.Relabelled old new b) : UnderName old new a b

theorem Leaf.Relabelled.type {old new : Text} {a b : Leaf} (h : a.Relabelled old new b) :
    b.detail.type = a.detail.type := by
  by_cases hparent : a.detail.parent = none
  · obtain ⟨-, k, -, hb⟩ := h.whole hparent
    rw [hb]
  · exact (h.part hparent).1

theorem Leaf.UnderName.aligned {old new : Text} {a b : Leaf} (h : a.UnderName old new b) :
    a.Aligned b := by
  cases h with
  | kept => exact ⟨rfl, rfl⟩
  | renamed _ h => exact h.aligned

/-- The ids of a layout do not depend on the names of its variables. -/
theorem Layout.ids_relabel {l : Layout} {names : List Text}
    (hlength : names.length = l.storage.length) : (l.relabel names).ids = l.ids := by
  have hfst : (l.storage.zip names).map Prod.fst = l.storage :=
    List.map_fst_zip (Nat.le_of_eq hlength.symm)
  have htypes : (l.relabel names).storage.map Variable.type =
      ((l.storage.zip names).map Prod.fst).map Variable.type := by
    rw [relabel, List.map_map, List.map_map]
    rfl
  rw [hfst] at htypes
  exact congrArg (· ++ _) htypes

/-! ### What is told of a name -/

section Table
variable {exempt : TypeInfo → TypeInfo → Prop} {src cmp : Layout} {rho : Text → Text}
  {s c : Detail} {kind : DiffKind}

/-- What a check takes another name for: it goes by the id of the type as it is. -/
def renamedAs (rho : Text → Text) (d : Detail) : DiffKind :=
  if rho d.type = d.type then .label else .variable

/-- Where a type has another id but the same when stripped, only its full label tells a variable
from the old one. -/
theorem table_renumbered (hstrip : TypeId.strip (rho s.type) = TypeId.strip s.type)
    (htype : c.type = s.type) (h : Comparison.Table exempt src cmp s (c.renumber rho) kind) :
    kind = renamedAs rho s ∧ c.fullLabel ≠ s.fullLabel := by
  have hid : (c.renumber rho).type = rho s.type := congrArg rho htype
  unfold renamedAs
  cases h with
  | renamed _ hfull _ hsame =>
    rw [if_pos (hid.symm.trans hsame)]
    exact ⟨rfl, hfull⟩
  | replaced _ hfull _ hother =>
    rw [if_neg fun heq => hother (hid.trans heq)]
    exact ⟨rfl, hfull⟩
  | retyped _ _ hother =>
    rw [hid] at hother
    exact absurd hstrip hother

/-- Another name is told, also where the type has another id. -/
theorem table_renamed_renumbered {old new : Text} (hnew : PlainName new)
    (hgap : old = gapLabel ↔ new = gapLabel) (hname : new ≠ old) (hfull : s.fullLabel = s.label)
    (h : s.Renamed old new c) :
    Comparison.Table exempt src cmp s (c.renumber rho) (renamedAs rho s) := by
  have htype : c.type = s.type := by
    obtain ⟨k, -, hc⟩ := h
    rw [hc]
  have hid : (c.renumber rho).type = rho s.type := congrArg rho htype
  have htold : Comparison.Table exempt src cmp s c .label := table_renamed hnew hgap hname hfull h
  cases htold with
  | renamed hreserves hother hunused _ hlabel =>
    unfold renamedAs
    split
    · next heq => exact .renamed hreserves hother hunused (hid.trans heq) hlabel
    · next hne => exact .replaced hreserves hother hunused fun heq => hne (hid.symm.trans heq)

end Table

/-! ### The footprint and the check -/

namespace Layout
variable {hash : Hash} {l : Layout} {names : List Text} {rho : Text → Text}
  {before after : ByteMap}

/-- The footprints before and after a build with other names and other ids: the same leaves are
there in both, and no bytes but theirs. -/
structure Recompilation (hash : Hash) (l : Layout) (names : List Text) (rho : Text → Text)
    (before after : ByteMap) : Prop where
  leaves : ∀ v name leaf, (v, name) ∈ l.storage.zip names → l.HasLeaf hash v leaf →
    ∃ leaf', leaf.UnderName v.label name leaf' ∧ ∀ byte, leaf.Covers byte →
      before[byte]? = some leaf.detail ∧ after[byte]? = some (leaf'.detail.renumber rho) ∧
        leaf.detail.type ∈ l.ids
  bytes : ∀ byte : Int, before[byte]? = none ∧ after[byte]? = none ∨
    ∃ v name leaf, (v, name) ∈ l.storage.zip names ∧ l.HasLeaf hash v leaf ∧ leaf.Covers byte

/-- A variable that keeps its name keeps its leaves. -/
theorem namesCorrespond_underName (hnames : l.Renames names) :
    NamesCorrespond Leaf.UnderName hash l names := by
  intro v name hentry
  by_cases hname : name = v.label
  · subst hname
    have htypes : ∀ id, (l.relabel names).resolve? id = l.resolve? id := fun _ => rfl
    refine ⟨fun ms hms => ⟨ms, (leavesOf_congr htypes l.depth _).trans hms, ?_⟩, fun map hmap => ?_⟩
    · exact List.forall₂_same.mpr fun _ _ => .kept rfl
    · exact ⟨map, (congrArg _ (expand_congr htypes l.depth _)).trans hmap, fun _ => .rfl⟩
  · obtain ⟨hold, hnew⟩ := hnames.plain _ hentry hname
    refine ⟨fun ms hms => ?_, (corresponds_relabelled hold hnew).bytes⟩
    obtain ⟨ms', hms', hall⟩ := (corresponds_relabelled hold hnew).leaves ms hms
    exact ⟨ms', hms', hall.imp fun _ _ h => .renamed hname h⟩

theorem exists_recompilation (hnames : l.Renames names) (hrho : l.Renumbers rho)
    (hbefore : (l.footprint hash).result = .ok before) (hapart : l.LiesApart hash) :
    ∃ after, (((l.relabel names).renumber rho).footprint hash).result = .ok after ∧
      Recompilation hash l names rho before after := by
  obtain ⟨between, hbetween, hleaves, hbytes⟩ := exists_footprint_relabelled hnames.length
    (fun _ _ _ _ h => Leaf.UnderName.aligned h) (namesCorrespond_underName hnames) hbefore hapart
  have hids := ids_relabel hnames.length
  have hrelabelled : (l.relabel names).Renumbers rho :=
    ⟨hids.symm ▸ hrho.injective, hids.symm ▸ hrho.strip⟩
  obtain ⟨after, hafter, hmap⟩ := exists_footprint_renumber hrelabelled hbetween
  refine ⟨after, hafter, fun v name leaf hentry hleaf => ?_, fun byte => ?_⟩
  · obtain ⟨leaf', hpair, hcovered⟩ := hleaves v name leaf hentry hleaf
    refine ⟨leaf', hpair, fun byte hcovers => ?_⟩
    obtain ⟨hs, hc⟩ := hcovered byte hcovers
    obtain ⟨hrenumbered, htypes⟩ := hmap byte
    have htype : leaf'.detail.type = leaf.detail.type := by
      cases hpair with
      | kept => rfl
      | renamed _ h => exact h.type
    rw [hrenumbered, hc]
    exact ⟨hs, rfl, htype ▸ hids ▸ htypes _ hc⟩
  · rw [(hmap byte).1]
    refine (hbytes byte).imp_left fun ⟨hs, hc⟩ => ⟨hs, ?_⟩
    rw [hc, Option.map_none]

/-- What is found of a byte is found of a variable with another name, and is taken for what the id
of its type says. -/
theorem Recompilation.of_finding (h : Recompilation hash l names rho before after)
    (hrho : l.Renumbers rho) {exempt : TypeInfo → TypeInfo → Prop} {src cmp : Layout}
    {checkRemovals : Bool} {byte : Int} {kind : DiffKind} {s c : Option Detail}
    (hfinding : Finding exempt src cmp before after checkRemovals byte kind s c) :
    ∃ v name leaf, (v, name) ∈ l.storage.zip names ∧ name ≠ v.label ∧ l.HasLeaf hash v leaf ∧
      s = some leaf.detail ∧ kind = renamedAs rho leaf.detail := by
  rcases h.bytes byte with ⟨hnone, hnone'⟩ | ⟨v, name, leaf, hentry, hleaf, hcovers⟩
  · cases hfinding with
    | changed hs => cases hnone.symm.trans hs
    | removed _ hs => cases hnone.symm.trans hs
  · obtain ⟨leaf', hpair, hbytes⟩ := h.leaves v name leaf hentry hleaf
    obtain ⟨hs', hc', hid⟩ := hbytes byte hcovers
    cases hfinding with
    | changed hs hc htable =>
      obtain rfl := Option.some.inj (hs'.symm.trans hs)
      obtain rfl := Option.some.inj (hc'.symm.trans hc)
      cases hpair with
      | kept => exact absurd rfl (table_renumbered (hrho.strip _ hid) rfl htable).2
      | renamed hname hrelabelled =>
        obtain ⟨hkind, -⟩ := table_renumbered (hrho.strip _ hid) hrelabelled.type htable
        exact ⟨v, name, leaf, hentry, hname, hleaf, rfl, hkind⟩
    | removed _ _ hc => exact absurd (ByteMap.mem_of_getElem? hc') hc

/-- A variable with another name is found at its first byte. -/
theorem Recompilation.finding (h : Recompilation hash l names rho before after)
    (hnames : l.Renames names) {exempt : TypeInfo → TypeInfo → Prop} {src cmp : Layout}
    {checkRemovals : Bool} {v : Variable} {name : Text} {leaf : Leaf}
    (hentry : (v, name) ∈ l.storage.zip names) (hname : name ≠ v.label)
    (hleaf : l.HasLeaf hash v leaf) (hparent : leaf.detail.parent = none)
    (hcount : 1 ≤ leaf.count) :
    ∃ c, Finding exempt src cmp before after checkRemovals leaf.detail.startByte
      (renamedAs rho leaf.detail) (some leaf.detail) c := by
  obtain ⟨leaf', hpair, hbytes⟩ := h.leaves v name leaf hentry hleaf
  obtain ⟨hs, hc, -⟩ := hbytes _ (Leaf.covers_start hcount)
  cases hpair with
  | kept hsame => exact absurd hsame hname
  | renamed _ hrelabelled =>
    obtain ⟨hfull, hrenamed⟩ := hrelabelled.whole hparent
    obtain ⟨-, hnew⟩ := hnames.plain _ hentry hname
    exact ⟨_, .changed hs hc
      (table_renamed_renumbered hnew (hnames.reserved _ hentry) hname hfull hrenamed)⟩

/-- **In a new build, where other ids are the old ones when stripped, a check without a chain tells
nothing but variables that have other names. Each of them is told as renamed if the id of its type
has stayed, and as another variable if it has not.** -/
theorem check_recompiled (hnames : l.Renames names) (hrho : l.Renumbers rho)
    (hbefore : (l.footprint hash).result = .ok before) (hapart : l.LiesApart hash) :
    ∃ after, (((l.relabel names).renumber rho).footprint hash).result = .ok after ∧
      ∀ checkRemovals address reader workers,
        address = none ∨ address = some [] ∨ reader = none →
        ∃ ds, (check hash l ((l.relabel names).renumber rho) checkRemovals address reader
            workers).result = .ok ds ∧
          (∀ d ∈ ds, ∃ v name leaf, (v, name) ∈ l.storage.zip names ∧ name ≠ v.label ∧
            l.HasLeaf hash v leaf ∧ d.reference = some leaf.detail ∧
            d.kind = renamedAs rho leaf.detail) ∧
          ∀ v name leaf, (v, name) ∈ l.storage.zip names → name ≠ v.label → l.HasLeaf hash v leaf →
            leaf.detail.parent = none → 1 ≤ leaf.count →
            ∃ d ∈ ds, d.reference = some leaf.detail ∧ d.kind = renamedAs rho leaf.detail := by
  obtain ⟨after, hafter, hboth⟩ := exists_recompilation hnames hrho hbefore hapart
  refine ⟨after, hafter, fun checkRemovals address reader workers hoff => ?_⟩
  obtain ⟨ds, hds, hcomplete⟩ := check_tells_findings hbefore hafter checkRemovals hoff workers
  refine ⟨ds, hds, fun d hd => ?_, fun v name leaf hentry hname hleaf hparent hcount => ?_⟩
  · obtain ⟨byte, -, hfinding, -⟩ := hcomplete.least d hd
    exact hboth.of_finding hrho hfinding
  · obtain ⟨c, hfinding⟩ := hboth.finding hnames hentry hname hleaf hparent hcount
    obtain ⟨d, hd, hkind, hreference, -⟩ := (hcomplete.told _ _ _).mpr ⟨_, hfinding⟩
    exact ⟨d, hd, hreference, hkind⟩

/-- A contract and an account, each in a slot of its own. -/
def vault : Layout where
  storage := [⟨"token", "t_contract(Token)7", 0, 0, .null, .null⟩,
    ⟨"admin", "t_address", 1, 0, .null, .null⟩]
  types := [("t_contract(Token)7", .elementary "contract Token" 20),
    ("t_address", .elementary "address" 20)]

/-- Another number for the declaration of the contract. -/
def tokenNumber (id : Text) : Text :=
  if id = "t_contract(Token)7" then "t_contract(Token)9" else id

theorem vault_renames : vault.Renames ["asset", "owner"] :=
  ⟨rfl, by decide, by decide⟩

theorem vault_renumbers : vault.Renumbers tokenNumber :=
  ⟨by decide, by decide +kernel⟩

theorem vault_liesApart (hash : Hash) : vault.LiesApart hash :=
  liesApart_of_leaves rfl (by decide)

/-- Both variables have other names, but the id of an address has no number: only the account is
told as renamed. -/
theorem check_recompiled_vault : ∃ ds,
    (check lengthHash vault ((vault.relabel ["asset", "owner"]).renumber tokenNumber) true none none
      (.inOrder 1)).result = .ok ds ∧
    (∃ d ∈ ds, d.reference.map Detail.label = some "token" ∧ d.kind = .variable) ∧
    ∃ d ∈ ds, d.reference.map Detail.label = some "admin" ∧ d.kind = .label := by
  have hbefore : ∃ map, (vault.footprint lengthHash).result = .ok map :=
    exists_ok_of_toBool (by decide +kernel)
  obtain ⟨before, hbefore⟩ := hbefore
  obtain ⟨after, -, hcheck⟩ := check_recompiled vault_renames vault_renumbers hbefore
    (vault_liesApart lengthHash)
  obtain ⟨ds, hds, -, htold⟩ := hcheck true none none (.inOrder 1) (.inl rfl)
  have htoken : leavesOf lengthHash vault vault.depth (.ofVariable vault.storage[0]) =
      .ok [_] := rfl
  have hadmin : leavesOf lengthHash vault vault.depth (.ofVariable vault.storage[1]) =
      .ok [_] := rfl
  obtain ⟨d, hd, hreference, hkind⟩ := htold _ "asset" _ List.mem_cons_self (by decide)
    ⟨_, hasLeaves_of_leavesOf htoken, List.mem_cons_self⟩ rfl (by decide)
  obtain ⟨e, he, hreference', hkind'⟩ := htold _ "owner" _
    (List.mem_cons_of_mem _ List.mem_cons_self) (by decide)
    ⟨_, hasLeaves_of_leavesOf hadmin, List.mem_cons_self⟩ rfl (by decide)
  refine ⟨ds, hds, ⟨d, hd, ?_, ?_⟩, e, he, ?_, ?_⟩
  · rw [hreference]
    rfl
  · rw [hkind]
    decide
  · rw [hreference']
    rfl
  · rw [hkind']
    decide

/-- A variable is told as another one though it has got nothing but another name in a new build. -/
theorem renamed_told_as_variable :
    vault.Renames ["asset", "owner"] ∧ vault.Renumbers tokenNumber ∧
      vault.LiesApart Keccak.digest ∧ (∀ entry ∈ vault.types, entry.2.hasMembers = false) ∧
      ∃ ds, (check Keccak.digest vault ((vault.relabel ["asset", "owner"]).renumber tokenNumber)
        true none none (.inOrder 1)).result = .ok ds ∧ ∃ d ∈ ds, d.kind ≠ .label := by
  obtain ⟨before, hbefore, -⟩ := exists_footprint_of_toBool
    (show vault.leaves Keccak.digest = .ok _ from rfl) (by decide +kernel)
  obtain ⟨after, hafter, hboth⟩ := exists_recompilation vault_renames vault_renumbers hbefore
    (vault_liesApart Keccak.digest)
  have htoken : leavesOf Keccak.digest vault vault.depth (.ofVariable vault.storage[0]) =
      .ok [_] := rfl
  have hentry : (vault.storage[0], Text.ofString "asset") ∈
      vault.storage.zip (["asset", "owner"] : List Text) :=
    List.mem_cons_self
  obtain ⟨c, hfinding⟩ := hboth.finding vault_renames hentry (by decide)
    ⟨_, hasLeaves_of_leavesOf htoken, List.mem_cons_self⟩ rfl (by decide)
  obtain ⟨ds, hds, hcomplete⟩ := check_tells_findings hbefore hafter true (.inl rfl) (.inOrder 1)
  obtain ⟨d, hd, hkind, -⟩ := (hcomplete.told _ _ _).mpr ⟨_, hfinding⟩
  refine ⟨vault_renames, vault_renumbers, vault_liesApart _, by decide, ds, hds, d, hd, ?_⟩
  rw [hkind]
  decide

end Layout

end UpgradeSafety
