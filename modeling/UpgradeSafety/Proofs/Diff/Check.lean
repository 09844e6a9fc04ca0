import UpgradeSafety.Keccak.Digest
import UpgradeSafety.Proofs.Diff.Findings
import UpgradeSafety.Proofs.Footprint.Existence

/-! The check of one layout against another, put together of its parts. Two layouts with footprints
can always be compared, and what the chain adds follows what the comparison has found
(`Layout.exists_check`). Without a chain the answer is the comparison's, in full
(`Layout.check_tells_findings`). -/
namespace UpgradeSafety.Layout
open CheckEvent

section Parts
variable {hash : Hash} {src cmp : Layout} {before after : ByteMap}

/-- A footprint that is logged is the footprint, and no reader is asked for it. -/
theorem loggedFootprint_of_footprint {l : Layout} {map : ByteMap}
    (h : (l.footprint hash).result = .ok map) :
    (l.loggedFootprint hash).result = .ok map ∧ requested (l.loggedFootprint hash).notes = [] := by
  unfold loggedFootprint
  have hmap : (((l.footprint hash).mapNotes fun o => CheckEvent.chain (.log o.logLine false)).mapError
      CheckFault.expansion).result = .ok map := by
    rw [Journal.result_mapError, Journal.result_mapNotes, h]
    rfl
  constructor
  · rw [Journal.result_bind, hmap]
    rfl
  · rw [Journal.notes_bind_ok _ hmap, requested_append, Journal.notes_mapError,
      Journal.notes_mapNotes, requested_map_chain]
    rfl

/-- A layout without a footprint ends a check, the old one first. -/
theorem check_of_expansionFault {e : ExpansionFault} (checkRemovals : Bool)
    (address : Option Text) (reader : Option Reader) (workers : Workers)
    (h : (src.footprint hash).result = .error e ∨
      (∃ map, (src.footprint hash).result = .ok map) ∧ (cmp.footprint hash).result = .error e) :
    (check hash src cmp checkRemovals address reader workers).result = .error (.expansion e) := by
  have hfault {l : Layout} (hl : (l.footprint hash).result = .error e) :
      (l.loggedFootprint hash).result = .error (.expansion e) := by
    unfold loggedFootprint
    rw [Journal.result_bind, Journal.result_mapError, Journal.result_mapNotes, hl]
    rfl
  unfold check
  rcases h with hsrc | ⟨⟨before, hsrc⟩, hcmp⟩
  · rw [Journal.result_bind, hfault hsrc]
    rfl
  · rw [Journal.result_bind_ok _ (loggedFootprint_of_footprint hsrc).1, Journal.result_bind,
      hfault hcmp]
    rfl

/-- Both layouts have footprints, or a check ends with the fault of one. -/
theorem exists_footprints_or_fault (hash : Hash) (src cmp : Layout) (checkRemovals : Bool)
    (address : Option Text) (reader : Option Reader) (workers : Workers) :
    (∃ before after, (src.footprint hash).result = .ok before ∧
        (cmp.footprint hash).result = .ok after) ∨
      ∃ e, ((src.footprint hash).result = .error e ∨ (cmp.footprint hash).result = .error e) ∧
        (check hash src cmp checkRemovals address reader workers).result =
          .error (.expansion e) := by
  cases hbefore : (src.footprint hash).result with
  | error e =>
    exact .inr ⟨e, .inl rfl, check_of_expansionFault checkRemovals address reader workers
      (.inl hbefore)⟩
  | ok before =>
    cases hafter : (cmp.footprint hash).result with
    | error e =>
      exact .inr ⟨e, .inr rfl, check_of_expansionFault checkRemovals address reader workers
        (.inr ⟨⟨before, hbefore⟩, hafter⟩)⟩
    | ok after => exact .inl ⟨before, after, rfl, rfl⟩

/-- A check with two footprints compares them and then asks the chain about the added bytes. -/
theorem check_eq (hbefore : (src.footprint hash).result = .ok before)
    (hafter : (cmp.footprint hash).result = .ok after) {checkRemovals : Bool} {c : Comparison}
    (hc : Comparison.of src cmp before after checkRemovals = .ok c) (address : Option Text)
    (reader : Option Reader) (workers : Workers) :
    (check hash src cmp checkRemovals address reader workers).result =
        ((Added.check c.added address reader workers).result.mapError (.ofAdded c.diffs) >>=
          fun more => .ok (c.diffs ++ more)) ∧
      requested (check hash src cmp checkRemovals address reader workers).notes =
        requested (Added.check c.added address reader workers).notes := by
  obtain ⟨hsrc, hsrcnotes⟩ := loggedFootprint_of_footprint hbefore
  obtain ⟨hcmp, hcmpnotes⟩ := loggedFootprint_of_footprint hafter
  have hof : (Journal.ofExcept ((Comparison.of src cmp before after checkRemovals).mapError
      CheckFault.ofReference) : Journal CheckEvent CheckFault Comparison).result = .ok c := by
    rw [Journal.result_ofExcept, hc]
    rfl
  unfold check
  constructor
  · rw [Journal.result_bind_ok _ hsrc, Journal.result_bind_ok _ hcmp, Journal.result_bind_ok _ hof,
      Journal.result_bind_ok _ (Journal.result_note _), Journal.result_bind]
    rfl
  · rw [Journal.notes_bind_ok _ hsrc, requested_append, hsrcnotes, Journal.notes_bind_ok _ hcmp,
      requested_append, hcmpnotes, Journal.notes_bind_ok _ hof,
      Journal.notes_bind_ok _ (Journal.result_note _), Journal.notes_bind_pure]
    rfl

/-- What a check comes to: a comparison that tells all there is to tell, the bytes that it adds, and
what the chain has to say of these. -/
theorem exists_check (hbefore : (src.footprint hash).result = .ok before)
    (hafter : (cmp.footprint hash).result = .ok after) (checkRemovals : Bool) :
    ∃ c : Comparison,
      Comparison.Complete Comparison.Outright src cmp before after checkRemovals c.diffs ∧
      (c.added.map Added.location).Nodup ∧
      (∀ a, a ∈ c.added ↔ Comparison.Adds before after a) ∧
      ∀ address reader workers,
        (check hash src cmp checkRemovals address reader workers).result =
            ((Added.check c.added address reader workers).result.mapError (.ofAdded c.diffs) >>=
              fun more => .ok (c.diffs ++ more)) ∧
          requested (check hash src cmp checkRemovals address reader workers).notes =
            requested (Added.check c.added address reader workers).notes := by
  obtain ⟨c, hc, hcomplete, hnodup, hadded⟩ := Comparison.exists_of (settles_of_footprint hbefore)
    (settles_of_footprint hafter) checkRemovals
  exact ⟨c, hcomplete, hnodup, hadded, check_eq hbefore hafter hc⟩

/-- Where no chain is asked, the answer is what the comparison has found. -/
theorem result_of_unasked {x : Journal CheckEvent CheckFault (List Diff)} {c : Comparison}
    {address : Option Text} {reader : Option Reader} {workers : Workers}
    (hoff : address = none ∨ address = some [] ∨ reader = none)
    (hx : x.result = ((Added.check c.added address reader workers).result.mapError
      (.ofAdded c.diffs) >>= fun more => .ok (c.diffs ++ more))) : x.result = .ok c.diffs := by
  rw [hx, Added.check_unasked c.added hoff, Journal.result_pure]
  exact congrArg Except.ok (List.append_nil c.diffs)

/-- Without a chain the answer has the findings, each at its least byte, in the order of storage. -/
theorem exists_told (hbefore : (src.footprint hash).result = .ok before)
    (hafter : (cmp.footprint hash).result = .ok after) (checkRemovals : Bool)
    {address : Option Text} {reader : Option Reader}
    (hoff : address = none ∨ address = some [] ∨ reader = none) (workers : Workers) :
    ∃ ds, (check hash src cmp checkRemovals address reader workers).result = .ok ds ∧
      ds.Pairwise (fun d e => d.location < e.location) ∧
      ∀ d, d ∈ ds ↔ ∃ byte kind s c,
        Finding Comparison.Outright src cmp before after checkRemovals byte kind s c ∧
        (∀ other, Finding Comparison.Outright src cmp before after checkRemovals other kind s c →
          byte ≤ other) ∧
        d = Comparison.diffAt byte kind s c := by
  obtain ⟨c, hc, hcomplete, -, -⟩ := Comparison.exists_of (settles_of_footprint hbefore)
    (settles_of_footprint hafter) checkRemovals
  exact ⟨c.diffs, result_of_unasked hoff (check_eq hbefore hafter hc address reader workers).1,
    hcomplete.ordered, hcomplete.mem_iff fun _ => Comparison.diffAt_of_mem hc⟩

/-- Where there is no finding, the answer is empty. -/
theorem check_eq_nil (hbefore : (src.footprint hash).result = .ok before)
    (hafter : (cmp.footprint hash).result = .ok after) {checkRemovals : Bool}
    (hnone : ∀ byte kind s c,
      ¬Finding Comparison.Outright src cmp before after checkRemovals byte kind s c)
    {address : Option Text} {reader : Option Reader}
    (hoff : address = none ∨ address = some [] ∨ reader = none) (workers : Workers) :
    (check hash src cmp checkRemovals address reader workers).result = .ok [] := by
  obtain ⟨ds, hds, -, hmem⟩ := exists_told hbefore hafter checkRemovals hoff workers
  have hnil : ds = [] := by
    refine List.eq_nil_iff_forall_not_mem.mpr fun d hd => ?_
    obtain ⟨byte, kind, s, c, hfinding, -⟩ := (hmem d).mp hd
    exact hnone byte kind s c hfinding
  rw [hds, hnil]

/-- Where there are two findings, each from some byte on, the answer tells both. -/
theorem check_eq_sort_pair (hbefore : (src.footprint hash).result = .ok before)
    (hafter : (cmp.footprint hash).result = .ok after) {checkRemovals : Bool}
    {address : Option Text} {reader : Option Reader}
    (hoff : address = none ∨ address = some [] ∨ reader = none) (workers : Workers)
    {first second : Int} {kind kind' : DiffKind} {s s' c c' : Option Detail}
    (hne : kind = kind' → s = s' → c ≠ c')
    (hfirst : Finding Comparison.Outright src cmp before after checkRemovals first kind s c)
    (hsecond : Finding Comparison.Outright src cmp before after checkRemovals second kind' s' c')
    (honly : ∀ byte k d e, Finding Comparison.Outright src cmp before after checkRemovals byte k d e →
      (k = kind ∧ d = s ∧ e = c ∧ first ≤ byte) ∨ (k = kind' ∧ d = s' ∧ e = c' ∧ second ≤ byte)) :
    (check hash src cmp checkRemovals address reader workers).result = .ok (Diff.sort
      [Comparison.diffAt first kind s c, Comparison.diffAt second kind' s' c']) := by
  obtain ⟨ds, hds, hordered, hmem⟩ := exists_told hbefore hafter checkRemovals hoff workers
  have htold (d : Diff) : d ∈ ds ↔
      d = Comparison.diffAt first kind s c ∨ d = Comparison.diffAt second kind' s' c' := by
    rw [hmem]
    constructor
    · intro htold
      obtain ⟨byte, k, d, e, hfinding, hleast, rfl⟩ := htold
      rcases honly byte k d e hfinding with ⟨rfl, rfl, rfl, hle⟩ | ⟨rfl, rfl, rfl, hle⟩
      · exact .inl (by rw [Int.le_antisymm (hleast first hfirst) hle])
      · exact .inr (by rw [Int.le_antisymm (hleast second hsecond) hle])
    · intro htold
      rcases htold with rfl | rfl
      · refine ⟨first, kind, s, c, hfirst, fun other h => ?_, rfl⟩
        rcases honly other _ _ _ h with ⟨-, -, -, hle⟩ | ⟨hkind, hs, hc, -⟩
        · exact hle
        · exact absurd hc (hne hkind hs)
      · refine ⟨second, kind', s', c', hsecond, fun other h => ?_, rfl⟩
        rcases honly other _ _ _ h with ⟨hkind, hs, hc, -⟩ | ⟨-, -, -, hle⟩
        · exact absurd hc.symm (hne hkind.symm hs.symm)
        · exact hle
  have hpair : [Comparison.diffAt first kind s c, Comparison.diffAt second kind' s' c'].Nodup := by
    rw [List.nodup_cons, List.mem_singleton]
    refine ⟨fun heq => ?_, List.nodup_singleton _⟩
    exact hne (congrArg Diff.kind heq) (congrArg Diff.reference heq) (congrArg Diff.candidate heq)
  have hperm : ds.Perm [Comparison.diffAt first kind s c, Comparison.diffAt second kind' s' c'] := by
    refine (List.perm_ext_iff_of_nodup (Diff.nodup_location_of_ordered hordered).of_map hpair).mpr
      fun d => (htold d).trans ?_
    rw [List.mem_cons, List.mem_singleton]
  rw [hds, Diff.sort, Diff.eq_of_perm_of_ordered hordered (Location.pairwise_sort _ _)
    (hperm.trans (Location.sort_perm _ _).symm)]

/-- **Without a chain a check tells every finding exactly once, at the least of its bytes.** -/
theorem check_tells_findings (hbefore : (src.footprint hash).result = .ok before)
    (hafter : (cmp.footprint hash).result = .ok after) (checkRemovals : Bool)
    {address : Option Text} {reader : Option Reader}
    (hoff : address = none ∨ address = some [] ∨ reader = none) (workers : Workers) :
    ∃ ds, (check hash src cmp checkRemovals address reader workers).result = .ok ds ∧
      Comparison.Complete Comparison.Outright src cmp before after checkRemovals ds := by
  obtain ⟨c, hcomplete, -, -, hcheck⟩ := exists_check hbefore hafter checkRemovals
  exact ⟨c.diffs, result_of_unasked hoff (hcheck address reader workers).1, hcomplete⟩

end Parts

/-- A dynamic array of single bytes whose type has an id of its own. -/
def arrayNamed (id : Text) : Layout where
  storage := [⟨"x", id, 0, 0, .null, .null⟩]
  types := [
    (id, { TypeInfo.elementary id 1 with encoding := .dynamicArray, base := .text "t_uint8" }),
    ("t_uint8", .elementary "uint8" 1)]

/-- A mapping with a variable over it gives way to an array; the bytes of its example are gone. -/
theorem check_tells_findings_overlapping :
    ∃ before after, (overlapping.footprint lengthHash).result = .ok before ∧
      ((arrayNamed "t_address").footprint lengthHash).result = .ok after ∧
      ∃ ds, (check lengthHash overlapping (arrayNamed "t_address") true none none
          (.inOrder 1)).result = .ok ds ∧
        Comparison.Complete Comparison.Outright overlapping (arrayNamed "t_address") before after
          true ds := by
  obtain ⟨before, hbefore⟩ := exists_ok_of_toBool
    (show (overlapping.footprint lengthHash).result.toBool = true by decide +kernel)
  obtain ⟨after, hafter⟩ := exists_ok_of_toBool
    (show ((arrayNamed "t_address").footprint lengthHash).result.toBool = true by decide +kernel)
  exact ⟨before, after, hbefore, hafter,
    check_tells_findings hbefore hafter true (.inl rfl) (.inOrder 1)⟩

/-- The detail of the array itself. -/
def arrayDetail (id : Text) : Detail :=
  ⟨"x", id, 0, 0, "x", id, 0, none⟩

/-- The array itself has the first byte, wherever the hash puts its element. -/
theorem exists_footprint_arrayNamed {hash : Hash} {id : Text} {element : Leaf}
    (h : (arrayNamed id).leaves hash = .ok [element, ⟨arrayDetail id, 1⟩]) :
    ∃ map, ((arrayNamed id).footprint hash).result = .ok map ∧
      map[(0 : Int)]? = some (arrayDetail id) := by
  have hplain (type : Text) (t : TypeInfo) (_ : (arrayNamed id).Uses type)
      (ht : (arrayNamed id).resolve? type = some t) : ¬t.DropsExample := by
    rcases mem_types_of_resolve? ht with _ | ⟨_, _ | ⟨_, hnone⟩⟩
    · exact fun h => Bool.false_ne_true h.1
    · exact fun h => Bool.false_ne_true h.1
    · cases hnone
  have hshort (byte : Int) (h : Leaf.Covers ⟨arrayDetail id, 1⟩ byte) : Numeral.Short byte := by
    obtain rfl : byte = 0 := by
      obtain ⟨hle, hlt⟩ : 0 ≤ byte ∧ byte < 0 + 1 := h
      omega
    decide +kernel
  obtain ⟨map, hmap, hwritten⟩ := exists_footprint_of_short h hplain
    (List.pairwise_pair.mpr fun byte _ => hshort byte)
  have hcovers : Leaf.Covers ⟨arrayDetail id, 1⟩ 0 :=
    show (0 : Int) ≤ 0 ∧ (0 : Int) < 0 + 1 by decide
  have hlast : Leaf.last? ([element] ++ [⟨arrayDetail id, 1⟩]) 0 = some (arrayDetail id) :=
    Leaf.last?_split hcovers nofun
  exact ⟨map, hmap, (hwritten 0).trans hlast⟩

/-- Two arrays of one element type are told apart by the ids of their own types, also where both
ids are those of addresses: addresses are exempt as such, but not the arrays that are named so. -/
theorem retyped_array_of_addresses :
    ∃ before after ds, ((arrayNamed "t_address").footprint Keccak.digest).result = .ok before ∧
      ((arrayNamed "t_contract(Token)7").footprint Keccak.digest).result = .ok after ∧
      (check Keccak.digest (arrayNamed "t_address") (arrayNamed "t_contract(Token)7") false none
        none (.inOrder 1)).result = .ok ds ∧
      ¬Comparison.Complete (fun _ _ => True) (arrayNamed "t_address")
        (arrayNamed "t_contract(Token)7") before after false ds := by
  obtain ⟨before, hbefore, hs⟩ := exists_footprint_arrayNamed
    (show (arrayNamed "t_address").leaves Keccak.digest = _ from rfl)
  obtain ⟨after, hafter, hc⟩ := exists_footprint_arrayNamed
    (show (arrayNamed "t_contract(Token)7").leaves Keccak.digest = _ from rfl)
  obtain ⟨found, hcomplete, -, -, hcheck⟩ := exists_check hbefore hafter false
  refine ⟨before, after, found.diffs, hbefore, hafter,
    result_of_unasked (.inl rfl) (hcheck none none (.inOrder 1)).1, fun hexempt => ?_⟩
  -- the arrays do not fit each other, so the difference is told
  obtain ⟨b, hb, hfits⟩ := Comparison.exists_compatible (settles_of_footprint hbefore 0 _ hs)
    (settles_of_footprint hafter 0 _ hc)
  have hcompatible : Comparison.compatible (arrayNamed "t_address")
    (arrayNamed "t_contract(Token)7") (arrayDetail "t_address")
    (arrayDetail "t_contract(Token)7") = .ok false := rfl
  obtain rfl := Except.ok.inj (hb.symm.trans hcompatible)
  have hstrip : TypeId.strip "t_contract(Token)7" ≠ TypeId.strip "t_address" := by decide +kernel
  have htable : Comparison.Table Comparison.Outright (arrayNamed "t_address")
      (arrayNamed "t_contract(Token)7") (arrayDetail "t_address")
      (arrayDetail "t_contract(Token)7") .variableType :=
    .retyped (by decide) rfl hstrip fun h => Bool.false_ne_true (hfits.mpr h)
  have htold := (hcomplete.told _ _ _).mpr ⟨0, .changed hs hc htable⟩
  -- but both ids are those of addresses
  obtain ⟨byte, hfinding⟩ := (hexempt.told _ _ _).mp htold
  cases hfinding with
  | changed _ _ h =>
    cases h with
    | retyped _ _ _ h =>
      exact h ⟨_, _, rfl, rfl, .addresses rfl (by decide) (by decide) trivial⟩

end UpgradeSafety.Layout
