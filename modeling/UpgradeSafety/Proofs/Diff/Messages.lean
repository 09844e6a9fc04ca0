import UpgradeSafety.Diagnostic.Message
import UpgradeSafety.Proofs.Chain.Additions
import UpgradeSafety.Proofs.Chain.Coverage

/-! Differences that can be told. A check comes to what the comparison has found and, after it, to
what the chain has told of the slots that were read (`Layout.exists_parts_of_tells`). A message
names variables, and a difference of some kind may lack them (`Diff.message_isOk_iff`). None of
these does: each is formed as its kind has it (`Diff.Formed`), from what is on the byte in both
footprints or in the word that was read. So every difference becomes a diagnostic
(`Layout.check_tells_formed`). -/
namespace UpgradeSafety

namespace Hex

/-- What digits a number can have. -/
def alphabet : List Char := "0123456789abcdef".toList

theorem digit_spec : ∀ n < 16, digit n ∈ alphabet ∧ (digit n = '0' → n = 0) := by
  decide

/-- A byte has two digits, and both are zero in the zero byte only. -/
theorem ofByte_spec (b : UInt8) : ∃ high low, ofByte b = [high, low] ∧ high ∈ alphabet ∧
    low ∈ alphabet ∧ (b ≠ 0 → [high, low] ≠ ['0', '0']) := by
  have hb : b.toNat < 256 := b.toNat_lt
  obtain ⟨hhigh, hhighzero⟩ := digit_spec (b.toNat / 16) (by omega)
  obtain ⟨hlow, hlowzero⟩ := digit_spec (b.toNat % 16) (by omega)
  refine ⟨_, _, rfl, hhigh, hlow, fun hne hzeros => hne ?_⟩
  simp only [List.cons.injEq, and_true] at hzeros
  have h16 := hhighzero hzeros.1
  have h1 := hlowzero hzeros.2
  rw [← UInt8.toNat_inj, UInt8.toNat_zero]
  omega

end Hex

/-- Only a new name is no error. -/
theorem DiffKind.level_eq_error_iff (kind : DiffKind) : kind.level = .error ↔ kind ≠ .label := by
  cases kind <;> decide

/-- A difference as its kind has it: at a byte, with the variables that are concerned, and told
apart from the other kinds by what these have in common. -/
inductive Diff.Formed : Diff → Prop where
  | renamed {byte : Int} {s c : Detail} (htype : c.type = s.type) (hlabel : c.label ≠ s.label) :
      Formed ⟨.label, .ofByte byte, none, some s, some c, none⟩
  | replaced {byte : Int} {s c : Detail} (hfull : c.fullLabel ≠ s.fullLabel)
      (htype : c.type ≠ s.type) : Formed ⟨.variable, .ofByte byte, none, some s, some c, none⟩
  | retyped {byte : Int} {s c : Detail} (hfull : c.fullLabel = s.fullLabel)
      (htype : TypeId.strip c.type ≠ TypeId.strip s.type) :
      Formed ⟨.variableType, .ofByte byte, none, some s, some c, none⟩
  | removed {byte : Int} {s : Detail} :
      Formed ⟨.variableRemoved, .ofByte byte, none, some s, none, none⟩
  | unclear {byte : Int} {c : Detail} {high low : Char} (hhigh : high ∈ Hex.alphabet)
      (hlow : low ∈ Hex.alphabet) (hclear : [high, low] ≠ ['0', '0']) :
      Formed ⟨.nonZeroAddedSlot, .ofByte byte, none, none, some c,
        some (String.ofList [high, low])⟩

/-- The difference has the variables that its message names. -/
def Diff.Tellable (d : Diff) : Prop :=
  ∃ message, d.message = .ok message

namespace Diff.Formed
variable {d : Diff}

theorem offset (h : d.Formed) : 0 ≤ d.location.offset ∧ d.location.offset < wordSize := by
  cases h <;> exact Location.offset_ofByte _

theorem tellable (h : d.Formed) : d.Tellable := by
  have hplace : ∃ s, d.place = .ok s := by
    have hoffset : Numeral.Short d.location.offset := by
      have hword : wordSize ≤ Nat.pow 10 Numeral.decimalLimit := by decide +kernel
      obtain ⟨hle, hlt⟩ := h.offset
      exact Numeral.short_of_natAbs_lt wordSize (by omega) hword
    cases h <;> exact Diff.exists_place rfl hoffset
  refine (message_isOk_iff d).mpr ⟨hplace, ?_⟩
  cases h with
  | renamed | replaced | retyped => exact ⟨fun _ => rfl, fun _ => rfl⟩
  | removed => exact ⟨fun _ => rfl, nofun⟩
  | unclear => exact ⟨nofun, fun _ => rfl⟩

end Diff.Formed

theorem Diagnostic.kind_of_ofDiff {locator : Option Source.Locator} {d : Diff} {item : Diagnostic}
    (h : ofDiff locator d = .ok item) : item.kind = d.kind := by
  obtain ⟨message, -, rfl⟩ := map_eq_ok_iff.mp h
  rfl

/-- A difference that can be told becomes a diagnostic, whatever source is at hand. -/
theorem Diff.Tellable.exists_diagnostic {d : Diff} (h : d.Tellable)
    (locator : Option Source.Locator) : ∃ item, Diagnostic.ofDiff locator d = .ok item := by
  obtain ⟨message, hmessage⟩ := h
  exact ⟨_, map_eq_ok_iff.mpr ⟨message, hmessage, rfl⟩⟩

/-! ### What is found in the footprints -/

/-- A finding is formed as its kind has it, at whichever byte it is told. -/
theorem Finding.formed {exempt : TypeInfo → TypeInfo → Prop} {src cmp : Layout}
    {before after : ByteMap} {checkRemovals : Bool} {other : Int} {kind : DiffKind}
    {s c : Option Detail} (h : Finding exempt src cmp before after checkRemovals other kind s c)
    (byte : Int) : (Comparison.diffAt byte kind s c).Formed := by
  cases h with
  | changed _ _ htable =>
    cases htable with
    | renamed _ _ _ htype hlabel => exact .renamed htype hlabel
    | replaced _ hfull _ htype => exact .replaced hfull htype
    | retyped _ hfull htype => exact .retyped hfull htype
  | removed => exact .removed

/-! ### What is told of the chain -/

namespace Added

/-- What the chain tells of a byte is that it is not clear. -/
theorem formed_of_inspect {words : List (Int × Bytes)} {a : Added} {byte : Int}
    (hlocation : a.location = .ofByte byte) {d : Diff} (h : inspect words a = .ok (some d)) :
    d.Formed ∧ d.kind = .nonZeroAddedSlot := by
  unfold inspect at h
  split at h
  · cases h
  · split at h
    · cases h
    · next b _ =>
      split at h
      · cases h
      · next hclear =>
        obtain ⟨high, low, hdigits, hhigh, hlow, hzeros⟩ := Hex.ofByte_spec b
        rw [hlocation, hdigits] at h
        rw [← Option.some.inj (Except.ok.inj h)]
        exact ⟨.unclear hhigh hlow (hzeros hclear), rfl⟩

/-- A word that is too short is no slot that was not read. -/
theorem inspect_eq_error {words : List (Int × Bytes)} {a : Added} {fault : AddedFault}
    (h : inspect words a = .error fault) : fault = .shortWord := by
  unfold inspect at h
  split at h
  · cases h
  · split at h
    · exact (Except.error.inj h).symm
    · split at h <;> cases h

/-- What is told of added bytes, in full or not, has been found of one of them in its word. -/
theorem exists_inspected_of_judge {sorted : List Added} {reading : Reading} {ds : List Diff}
    (h : judge sorted reading = .ok ds ∨
      ∃ fault, judge sorted reading = .error (.unread fault ds)) :
    ∀ d ∈ ds, ∃ a ∈ sorted, inspect reading.words a = .ok (some d) := by
  cases hfound : sorted.mapM (inspect reading.words) with
  | error e =>
    obtain ⟨a, -, ha⟩ := exists_error_of_mapM hfound
    obtain rfl := inspect_eq_error ha
    rw [judge, hfound] at h
    rcases h with h | ⟨_, h⟩ <;> cases h
  | ok found =>
    have hinspected : ∀ d ∈ Diff.unique true (found.filterMap id),
        ∃ a ∈ sorted, inspect reading.words a = .ok (some d) := by
      intro d hd
      obtain ⟨d', hd', hsome⟩ := List.mem_filterMap.mp ((Diff.firstPer_sublist _ _).mem hd)
      obtain rfl : d' = some d := hsome
      exact (mem_of_mapM hfound _).mp hd'
    rcases judge_of_inspected hfound with ⟨-, hjudge⟩ | ⟨fault, -, -, hjudge⟩
    · rw [hjudge] at h
      rcases h with h | ⟨_, h⟩
      · rwa [← Except.ok.inj h]
      · cases h
    · rw [hjudge] at h
      rcases h with h | ⟨_, h⟩
      · cases h
      · cases h
        exact hinspected

theorem exists_inspected_of_check {added : List Added} {address : Option Text}
    {reader : Option Reader} {workers : Workers} {ds : List Diff}
    (h : (check added address reader workers).result = .ok ds ∨
      ∃ fault, (check added address reader workers).result = .error (.unread fault ds)) :
    ∀ d ∈ ds, ∃ a ∈ added, ∃ words, inspect words a = .ok (some d) := by
  rcases check_eq_judge added address reader workers with hnil | ⟨reading, hjudge⟩
  · rw [hnil] at h
    rcases h with h | ⟨_, h⟩
    · rw [← Except.ok.inj h]
      exact List.forall_mem_nil _
    · cases h
  · rw [hjudge] at h
    intro d hd
    obtain ⟨a, ha, hinspect⟩ := exists_inspected_of_judge h d hd
    exact ⟨a, (Location.sort_perm location added).mem_iff.mp ha, reading.words, hinspect⟩

/-- What is told of added bytes, in full or not, is that they are not clear. -/
theorem formed_of_check {added : List Added} {address : Option Text} {reader : Option Reader}
    {workers : Workers} {ds : List Diff} (hbytes : ∀ a ∈ added, ∃ byte, a.location = .ofByte byte)
    (h : (check added address reader workers).result = .ok ds ∨
      ∃ fault, (check added address reader workers).result = .error (.unread fault ds)) :
    ∀ d ∈ ds, d.Formed ∧ d.kind = .nonZeroAddedSlot := by
  intro d hd
  obtain ⟨a, ha, words, hinspect⟩ := exists_inspected_of_check h d hd
  obtain ⟨byte, hlocation⟩ := hbytes a ha
  exact formed_of_inspect hlocation hinspect

end Added

/-- What a check comes to: differences, and whether some slots were not read. -/
inductive Layout.Tells (result : Except CheckFault (List Diff)) (ds : List Diff) : Bool → Prop where
  | inFull (h : result = .ok ds) : Tells result ds false
  | inPart {fault : ReadFault} (h : result = .error (.unread fault ds)) : Tells result ds true

namespace Layout
variable {hash : Hash} {src cmp : Layout} {checkRemovals : Bool} {address : Option Text}
  {reader : Option Reader} {workers : Workers} {ds : List Diff} {unread : Bool}

/-- A layout without a footprint leaves nothing to tell. -/
theorem not_tells_expansionFault {e : ExpansionFault} :
    ¬Tells (.error (.expansion e)) ds unread := by
  intro h
  cases h with
  | inFull h | inPart h => cases h

/-- A check that comes to differences, in full or not, has the footprints of both layouts. -/
theorem exists_footprints_of_tells
    (h : Tells (check hash src cmp checkRemovals address reader workers).result ds unread) :
    ∃ before after, (src.footprint hash).result = .ok before ∧
      (cmp.footprint hash).result = .ok after := by
  rcases exists_footprints_or_fault hash src cmp checkRemovals address reader workers with
    hfootprints | ⟨e, -, hfault⟩
  · exact hfootprints
  · rw [hfault] at h
    exact absurd h not_tells_expansionFault

/-- What a check comes to is what it finds without a chain and, after it, what the chain has told of
the slots that were read. -/
theorem exists_parts_of_tells
    (h : Tells (check hash src cmp checkRemovals address reader workers).result ds unread) :
    ∃ found more, (∀ workers,
        (check hash src cmp checkRemovals none none workers).result = .ok found) ∧
      (∀ d ∈ found, d.Formed) ∧ (∀ d ∈ more, d.Formed ∧ d.kind = .nonZeroAddedSlot) ∧
      ds = found ++ more := by
  obtain ⟨before, after, hbefore, hafter⟩ := exists_footprints_of_tells h
  obtain ⟨c, hc, hcomplete, -, hadds⟩ := Comparison.exists_of (settles_of_footprint hbefore)
    (settles_of_footprint hafter) checkRemovals
  have hcheck := check_eq hbefore hafter hc
  have hfound (workers : Workers) : (check hash src cmp checkRemovals none none workers).result =
      .ok c.diffs := result_of_unasked (.inl rfl) (hcheck none none workers).1
  have hformed : ∀ d ∈ c.diffs, d.Formed := by
    intro d hd
    obtain ⟨byte, hdiff⟩ := Comparison.diffAt_of_mem hc hd
    obtain ⟨_, -, hfinding, -⟩ := hcomplete.least d hd
    rw [hdiff]
    exact hfinding.formed byte
  have hbytes : ∀ a ∈ c.added, ∃ byte, a.location = .ofByte byte := by
    intro a ha
    obtain ⟨byte, -, hlocation, -⟩ := (hadds a).mp ha
    exact ⟨byte, hlocation⟩
  rw [(hcheck address reader workers).1] at h
  cases hadded : (Added.check c.added address reader workers).result with
  | ok more =>
    rw [hadded] at h
    cases h with
    | inFull h =>
      exact ⟨c.diffs, more, hfound, hformed, Added.formed_of_check hbytes (.inl hadded),
        (Except.ok.inj h).symm⟩
    | inPart h => cases h
  | error fault =>
    rw [hadded] at h
    cases fault with
    | shortWord =>
      cases h with
      | inFull h | inPart h => cases h
    | unread fault more =>
      cases h with
      | inFull h => cases h
      | inPart h =>
        cases h
        exact ⟨c.diffs, more, hfound, hformed, Added.formed_of_check hbytes (.inr ⟨_, hadded⟩),
          rfl⟩

/-- Every difference that a check comes to is formed as its kind has it, also where some slots were
not read. -/
theorem formed_of_tells
    (h : Tells (check hash src cmp checkRemovals address reader workers).result ds unread) :
    ∀ d ∈ ds, d.Formed := by
  obtain ⟨found, more, -, hformed, hchain, rfl⟩ := exists_parts_of_tells h
  exact List.forall_mem_append.mpr ⟨hformed, fun d hd => (hchain d hd).1⟩

/-- Two footprints are compared, and a reader of whole words comes to an answer about them. -/
theorem exists_tells {before after : ByteMap} (hbefore : (src.footprint hash).result = .ok before)
    (hafter : (cmp.footprint hash).result = .ok after) (checkRemovals : Bool)
    (address : Option Text) (hfit : ∀ r, reader = some r → Added.WordsFit r)
    (workers : Workers) :
    ∃ ds unread,
      Tells (check hash src cmp checkRemovals address reader workers).result ds unread := by
  obtain ⟨c, -, -, hadds, hcheck⟩ := exists_check hbefore hafter checkRemovals
  have hresult := (hcheck address reader workers).1
  by_cases hoff : address = none ∨ address = some [] ∨ reader = none
  · exact ⟨c.diffs, false, .inFull (result_of_unasked hoff hresult)⟩
  · rw [not_or, not_or] at hoff
    obtain ⟨hsome, hwritten, hreader⟩ := hoff
    obtain ⟨address, rfl⟩ := Option.ne_none_iff_exists'.mp hsome
    obtain ⟨reader, rfl⟩ := Option.ne_none_iff_exists'.mp hreader
    have hoffsets : ∀ a ∈ c.added, 0 ≤ a.location.offset ∧ a.location.offset < wordSize := by
      intro a ha
      obtain ⟨byte, -, hlocation, -⟩ := (hadds a).mp ha
      rw [hlocation]
      exact Location.offset_ofByte byte
    obtain ⟨more, hmore | ⟨fault, hmore⟩⟩ := Added.exists_found hoffsets
      (fun h => hwritten (h ▸ rfl)) (hfit reader rfl) workers
    · rw [hmore] at hresult
      exact ⟨c.diffs ++ more, false, .inFull hresult⟩
    · rw [hmore] at hresult
      exact ⟨c.diffs ++ more, true, .inPart hresult⟩

/-- **A check of two footprints comes to differences, in full or not. Each of them is formed as its
kind has it, at one of the bytes of a slot, and becomes a diagnostic whatever source is at hand: an
error unless it tells of a new name.** -/
theorem check_tells_formed {before after : ByteMap}
    (hbefore : (src.footprint hash).result = .ok before)
    (hafter : (cmp.footprint hash).result = .ok after) (checkRemovals : Bool)
    (address : Option Text) (hfit : ∀ r, reader = some r → Added.WordsFit r)
    (workers : Workers) :
    ∃ ds unread,
      Tells (check hash src cmp checkRemovals address reader workers).result ds unread ∧
      ∀ d ∈ ds, d.Formed ∧ (0 ≤ d.location.offset ∧ d.location.offset < wordSize) ∧
        ∀ locator, ∃ item, Diagnostic.ofDiff locator d = .ok item ∧
          (item.kind.level = .error ↔ d.kind ≠ .label) := by
  obtain ⟨ds, unread, htells⟩ :=
    exists_tells hbefore hafter checkRemovals address hfit workers
  refine ⟨ds, unread, htells, fun d hd => ?_⟩
  have hformed := formed_of_tells htells d hd
  refine ⟨hformed, hformed.offset, fun locator => ?_⟩
  obtain ⟨item, hitem⟩ := hformed.tellable.exists_diagnostic locator
  refine ⟨item, hitem, ?_⟩
  rw [Diagnostic.kind_of_ofDiff hitem]
  exact DiffKind.level_eq_error_iff d.kind

/-- A new name is told of, and the difference is formed, with a reader at hand for the new byte. -/
theorem check_tells_formed_renamed :
    ∃ ds unread, Tells (check lengthHash (bytesNamed ["x"]) (bytesNamed ["y", "z"]) false (some "0x0")
        (some (.single fun _ _ => pure (List.replicate wordSize 7))) (.inOrder 1)).result ds unread ∧
      (∃ d ∈ ds, d.kind = .label) ∧ ∀ d ∈ ds, d.Formed := by
  obtain ⟨before, hbefore, hx⟩ := exists_footprint_of_toBool
    (show (bytesNamed ["x"]).leaves lengthHash = .ok [⟨byteDetail "x" 0, 1⟩] from rfl) (by decide +kernel)
  obtain ⟨after, hafter, hyz⟩ := exists_footprint_of_toBool
    (show (bytesNamed ["y", "z"]).leaves lengthHash =
      .ok [⟨byteDetail "y" 0, 1⟩, ⟨byteDetail "z" 1, 1⟩] from rfl) (by decide +kernel)
  have hfit : ∀ r, some (Reader.single fun _ _ => pure (List.replicate wordSize 7)) = some r →
      Added.WordsFit r := by
    intro r hr
    obtain rfl := Option.some.inj hr
    intro _ _ word hword
    rw [← Except.ok.inj hword]
    rfl
  obtain ⟨ds, unread, htells, hformed⟩ :=
    check_tells_formed hbefore hafter false (some "0x0") hfit (.inOrder 1)
  refine ⟨ds, unread, htells, ?_, fun d hd => (hformed d hd).1⟩
  obtain ⟨found, more, hfound, -, -, rfl⟩ := exists_parts_of_tells htells
  obtain ⟨c, hcomplete, -, -, hcheck⟩ := exists_check hbefore hafter false
  obtain rfl := Except.ok.inj ((hfound (.inOrder 1)).symm.trans
    (result_of_unasked (.inl rfl) (hcheck none none _).1))
  obtain ⟨d, hd, hkind, -⟩ := (hcomplete.told .label _ _).mpr ⟨0, .changed (hx 0) (hyz 0)
    (.renamed (by decide) (by decide) (fun h => absurd h.2 (by decide)) rfl (by decide))⟩
  exact ⟨d, List.mem_append_left more hd, hkind⟩

end Layout

end UpgradeSafety
