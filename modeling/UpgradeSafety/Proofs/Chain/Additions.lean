import UpgradeSafety.Proofs.Chain.Reading
import UpgradeSafety.Proofs.Diff.Check

/-! What a chain has to say beside a comparison. With a reader the check finds all that it finds
without one, and after that what the chain tells of the added bytes; where slots are not read, the
fault carries both (`check_extends_comparison`). -/
namespace UpgradeSafety.Layout
open CheckEvent

section Extension
variable {hash : Hash} {src cmp : Layout} {before after : ByteMap}

/-- **A reader only adds to what the comparison has found, on success and on failure, and is asked
for no slot but those of added bytes.** -/
theorem check_extends_comparison (hbefore : (src.footprint hash).result = .ok before)
    (hafter : (cmp.footprint hash).result = .ok after) (checkRemovals : Bool) {address : Text}
    (haddress : address ≠ []) {reader : Reader} (hfit : Added.WordsFit reader) (workers : Workers)
    {added : List Added} (hnodup : added.Nodup)
    (hadded : ∀ a, a ∈ added ↔ Comparison.Adds before after a) :
    ∃ found,
      (∀ address workers,
        (check hash src cmp checkRemovals address none workers).result = .ok found) ∧
      ((∃ more, (Added.check added (some address) (some reader) workers).result = .ok more ∧
          (check hash src cmp checkRemovals (some address) (some reader) workers).result =
            .ok (found ++ more)) ∨
        ∃ fault more,
          (Added.check added (some address) (some reader) workers).result =
            .error (.unread fault more) ∧
          (check hash src cmp checkRemovals (some address) (some reader) workers).result =
            .error (.unread fault (found ++ more))) ∧
      ∀ slot ∈ requested
          (check hash src cmp checkRemovals (some address) (some reader) workers).notes,
        ∃ a ∈ added, a.location.slot = slot := by
  obtain ⟨c, -, hlocations, hmem, hcheck⟩ := exists_check hbefore hafter checkRemovals
  have hperm : c.added.Perm added :=
    (List.perm_ext_iff_of_nodup hlocations.of_map hnodup).mpr
      fun a => (hmem a).trans (hadded a).symm
  have hsame := Added.check_eq_of_perm hperm hlocations (some address) (some reader) workers
  obtain ⟨hresult, hrequested⟩ := hcheck (some address) (some reader) workers
  rw [hsame] at hresult hrequested
  have hoffsets : ∀ a ∈ added, 0 ≤ a.location.offset ∧ a.location.offset < wordSize := by
    intro a ha
    obtain ⟨byte, -, hlocation, -⟩ := (hadded a).mp ha
    rw [hlocation]
    exact Location.offset_ofByte byte
  refine ⟨c.diffs, fun address workers => ?_, ?_, fun slot hslot => ?_⟩
  · exact result_of_unasked (.inr (.inr rfl)) (hcheck address none workers).1
  · obtain ⟨more, hmore | ⟨fault, hmore⟩⟩ := Added.exists_found hoffsets haddress hfit workers
    · rw [hmore] at hresult
      exact .inl ⟨more, hmore, hresult⟩
    · rw [hmore] at hresult
      exact .inr ⟨fault, more, hmore, hresult⟩
  · rw [hrequested] at hslot
    exact ((Added.requested_check added haddress reader workers).2 slot).mp hslot

end Extension

/-- Single bytes, each at the start of a slot of its own. -/
def bytesNamed (labels : List Text) : Layout where
  storage := labels.zipIdx.map fun (label, slot) => ⟨label, "t_uint8", slot, 0, .null, .null⟩
  types := [("t_uint8", .elementary "uint8" 1)]

/-- The detail of such a byte. -/
def byteDetail (label : Text) (slot : Int) : Detail :=
  ⟨label, "t_uint8", slot, 0, label, "uint8", slot * wordSize, none⟩

/-- Beside a variable that has a new name, only the new variable has a byte to be clear. -/
theorem adds_bytesNamed_iff {before after : ByteMap}
    (hbefore : before.WrittenBy [⟨byteDetail "x" 0, 1⟩])
    (hafter : after.WrittenBy [⟨byteDetail "y" 0, 1⟩, ⟨byteDetail "z" 1, 1⟩]) (a : Added) :
    Comparison.Adds before after a ↔ a = ⟨⟨1, 0⟩, byteDetail "z" 1⟩ := by
  constructor
  · intro h
    obtain ⟨byte, hc, hlocation, hs⟩ := h
    obtain ⟨leaf, hleaf, hcovers, hdetail⟩ := Leaf.exists_leaf_of_last? ((hafter byte).symm.trans hc)
    simp only [List.mem_cons, List.not_mem_nil, or_false] at hleaf
    rcases hleaf with rfl | rfl
    · have hbyte : byte = 0 := by
        have : (0 : Int) ≤ byte ∧ byte < 0 + 1 := hcovers
        omega
      subst hbyte
      rcases hs with hnone | ⟨s, hs, hadded⟩
      · exact absurd ((hbefore 0).symm.trans hnone) nofun
      · obtain rfl := Option.some.inj ((hbefore 0).symm.trans hs)
        rw [← hdetail] at hadded
        exact absurd hadded (by decide)
    · have hbyte : byte = 32 := by
        have : (32 : Int) ≤ byte ∧ byte < 32 + 1 := hcovers
        omega
      subst hbyte
      obtain ⟨location, candidate⟩ := a
      obtain rfl : location = ⟨1, 0⟩ := hlocation
      obtain rfl : byteDetail "z" 1 = candidate := hdetail
      rfl
  · intro h
    subst h
    exact ⟨32, hafter 32, rfl, .inl (hbefore 32)⟩

/-- A new name is told with and without the chain, and the new byte where it is not clear. -/
theorem check_extends_comparison_renamed :
    ∃ found,
      (check lengthHash (bytesNamed ["x"]) (bytesNamed ["y", "z"]) false none none
        (.inOrder 1)).result = .ok found ∧
      (check lengthHash (bytesNamed ["x"]) (bytesNamed ["y", "z"]) false (some "0x0")
          (some (.single fun _ _ => pure (List.replicate wordSize 7))) (.inOrder 1)).result =
        .ok (found ++ [⟨.nonZeroAddedSlot, ⟨1, 0⟩, none, none, some (byteDetail "z" 1), some "07"⟩]) := by
  obtain ⟨before, hbefore, hx⟩ := exists_footprint_of_toBool
    (show (bytesNamed ["x"]).leaves lengthHash = .ok [⟨byteDetail "x" 0, 1⟩] from rfl) (by decide +kernel)
  obtain ⟨after, hafter, hyz⟩ := exists_footprint_of_toBool
    (show (bytesNamed ["y", "z"]).leaves lengthHash =
      .ok [⟨byteDetail "y" 0, 1⟩, ⟨byteDetail "z" 1, 1⟩] from rfl) (by decide +kernel)
  have hfit : Added.WordsFit (.single fun _ _ => pure (List.replicate wordSize 7)) := by
    intro _ _ word hword
    rw [← Except.ok.inj hword]
    rfl
  have hadded (a : Added) : a ∈ [⟨⟨1, 0⟩, byteDetail "z" 1⟩] ↔ Comparison.Adds before after a :=
    List.mem_singleton.trans (adds_bytesNamed_iff hx hyz a).symm
  obtain ⟨found, hfound, hchecked, -⟩ := check_extends_comparison hbefore hafter false
    (by decide : ("0x0" : Text) ≠ []) hfit (.inOrder 1) (List.nodup_singleton _) hadded
  have hmore : (Added.check [⟨⟨1, 0⟩, byteDetail "z" 1⟩] (some "0x0")
      (some (.single fun _ _ => pure (List.replicate wordSize 7))) (.inOrder 1)).result =
        .ok [⟨.nonZeroAddedSlot, ⟨1, 0⟩, none, none, some (byteDetail "z" 1), some "07"⟩] := by
    have hsort : Location.sort Added.location [⟨⟨1, 0⟩, byteDetail "z" 1⟩] =
        [⟨⟨1, 0⟩, byteDetail "z" 1⟩] := Location.sort_of_pairwise _ (List.pairwise_singleton _ _)
    unfold Added.check
    rw [hsort]
    rfl
  refine ⟨found, hfound none _, ?_⟩
  rcases hchecked with ⟨more, hok, hresult⟩ | ⟨fault, more, herror, -⟩
  · rw [hresult, Except.ok.inj (hok.symm.trans hmore)]
  · exact absurd (herror.symm.trans hmore) nofun

end UpgradeSafety.Layout
