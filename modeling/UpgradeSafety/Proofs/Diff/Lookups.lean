import UpgradeSafety.Proofs.Diff.Check

/-! What a comparison looks up. Only a byte whose variable has kept its full label under another type
makes the weighing ask whether the type may change (`Comparison.AsksForTypes`); no other byte has a
look-up made for it (`Comparison.classify_of_not_asksForTypes`). On footprints the look-ups find
what they are for, and the type that is to come is never one with members, although the weighing
provides for it. So a check without a chain fails only where a layout has no footprint
(`Layout.check_looks_up_known_types`). -/
namespace UpgradeSafety

namespace Comparison

/-- The verdict on a byte depends on whether a type may change into another. -/
def AsksForTypes (s c : Detail) : Prop :=
  sameVariable s c = false ∧ ¬Reserves s c ∧ c.fullLabel = s.fullLabel ∧
    TypeId.strip c.type ≠ TypeId.strip s.type

section Weighing
variable {s c : Detail}

theorem classify_of_asksForTypes (h : AsksForTypes s c) (src cmp : Layout) :
    classify src cmp s c = (fun b => if b then .unchanged else .differs .variableType) <$>
      compatible src cmp s c := by
  obtain ⟨hsame, hgap, hfull, htype⟩ := h
  unfold classify
  rw [hsame, if_neg Bool.false_ne_true, if_neg (by simpa [Reserves] using hgap),
    if_neg (by simpa using hfull), if_neg (by simpa using htype)]
  cases compatible src cmp s c with
  | error e => rfl
  | ok b => cases b <;> rfl

/-- The verdict on any other byte is the same whatever the layouts are. -/
theorem classify_of_not_asksForTypes (h : ¬AsksForTypes s c) :
    ∃ v, ∀ l l', classify l l' s c = .ok v := by
  unfold classify
  by_cases hsame : sameVariable s c = true
  · simp only [if_pos hsame]
    exact ⟨_, fun _ _ => rfl⟩
  · by_cases hgap : (s.label == gapLabel || c.label == gapLabel) = true
    · simp only [if_neg hsame, if_pos hgap]
      exact ⟨_, fun _ _ => rfl⟩
    · by_cases hfull : c.fullLabel = s.fullLabel
      · have htype : TypeId.strip c.type = TypeId.strip s.type := by
          by_contra htype
          exact h ⟨Bool.not_eq_true _ ▸ hsame, by simpa [Reserves] using hgap, hfull, htype⟩
        simp only [if_neg hsame, if_neg hgap, hfull, bne_self_eq_false, Bool.false_eq_true, htype,
          beq_self_eq_true, if_false, if_true]
        exact ⟨_, fun _ _ => rfl⟩
      · simp only [if_neg hsame, if_neg hgap, if_pos (bne_iff_ne.mpr hfull)]
        split
        · exact ⟨_, fun _ _ => rfl⟩
        · split
          · exact ⟨_, fun _ _ => rfl⟩
          · exact ⟨_, fun _ _ => rfl⟩

end Weighing

end Comparison

namespace Layout

/-- **Everything that a footprint refers to is known, so the weighing of types on two footprints comes
to an answer, and never by the members of the type that is to come; without a chain a check fails
only where one of the layouts has no footprint.** -/
theorem check_looks_up_known_types (hash : Hash) (src cmp : Layout) :
    (∀ (l : Layout) (map : ByteMap), (l.footprint hash).result = .ok map → l.SettlesAll map) ∧
      (∀ before after, (src.footprint hash).result = .ok before →
        (cmp.footprint hash).result = .ok after → ∀ (byte : Int) (s c : Detail),
          before[byte]? = some s → after[byte]? = some c →
            (∃ st ct b, src.resolve? s.type = some st ∧ cmp.resolve? c.type = some ct ∧
              ct.hasMembers = false ∧ Comparison.compatible src cmp s c = .ok b ∧
              (Comparison.AsksForTypes s c → Comparison.classify src cmp s c =
                .ok (if b then .unchanged else .differs .variableType))) ∧
            (¬Comparison.AsksForTypes s c →
              ∃ v, ∀ l l', Comparison.classify l l' s c = .ok v)) ∧
      ∀ checkRemovals address workers,
        ((∃ before, (src.footprint hash).result = .ok before) ∧
            (∃ after, (cmp.footprint hash).result = .ok after) ∧
            ∃ ds, (check hash src cmp checkRemovals address none workers).result = .ok ds) ∨
          ∃ e, ((src.footprint hash).result = .error e ∨ (cmp.footprint hash).result = .error e) ∧
            (check hash src cmp checkRemovals address none workers).result =
              .error (.expansion e) := by
  refine ⟨fun l map h => settles_of_footprint h, ?_, fun checkRemovals address workers => ?_⟩
  · intro before after hbefore hafter byte s c hs hc
    obtain ⟨st, hst, hsrest⟩ := settles_of_footprint hbefore byte s hs
    obtain ⟨ct, hct, hm, hcrest⟩ := settles_of_footprint hafter byte c hc
    obtain ⟨b, hb, -⟩ := Comparison.exists_compatible ⟨st, hst, hsrest⟩ ⟨ct, hct, hm, hcrest⟩
    refine ⟨⟨st, ct, b, hst, hct, hm, hb, fun hasks => ?_⟩, Comparison.classify_of_not_asksForTypes⟩
    rw [Comparison.classify_of_asksForTypes hasks, hb]
    rfl
  · rcases exists_footprints_or_fault hash src cmp checkRemovals address none workers with
      ⟨before, after, hbefore, hafter⟩ | hfault
    · obtain ⟨ds, hds, -⟩ := exists_told hbefore hafter checkRemovals (.inr (.inr rfl)) workers
      exact .inl ⟨⟨before, hbefore⟩, ⟨after, hafter⟩, ds, hds⟩
    · exact .inr hfault

/-- Two arrays under one label ask for their types, and the check comes to an end. -/
theorem check_looks_up_known_types_arrays :
    Comparison.AsksForTypes (arrayDetail "t_address") (arrayDetail "t_contract(Token)7") ∧
      (∃ b : Bool, Comparison.classify (arrayNamed "t_address") (arrayNamed "t_contract(Token)7")
        (arrayDetail "t_address") (arrayDetail "t_contract(Token)7") =
          .ok (if b then .unchanged else .differs .variableType)) ∧
      ∃ ds, (check lengthHash (arrayNamed "t_address") (arrayNamed "t_contract(Token)7") true none
        none (.inOrder 1)).result = .ok ds := by
  have hasks : Comparison.AsksForTypes (arrayDetail "t_address")
      (arrayDetail "t_contract(Token)7") := ⟨by decide, by decide, rfl, by decide +kernel⟩
  obtain ⟨before, hbefore, hs⟩ := exists_footprint_arrayNamed
    (show (arrayNamed "t_address").leaves lengthHash = _ from rfl)
  obtain ⟨after, hafter, hc⟩ := exists_footprint_arrayNamed
    (show (arrayNamed "t_contract(Token)7").leaves lengthHash = _ from rfl)
  obtain ⟨-, hweighed, hend⟩ := check_looks_up_known_types lengthHash (arrayNamed "t_address")
    (arrayNamed "t_contract(Token)7")
  obtain ⟨⟨-, -, b, -, -, -, -, hverdict⟩, -⟩ := hweighed before after hbefore hafter 0 _ _ hs hc
  refine ⟨hasks, ⟨b, hverdict hasks⟩, ?_⟩
  rcases hend true none (.inOrder 1) with ⟨-, -, hds⟩ | ⟨e, hfault | hfault, -⟩
  · exact hds
  · cases hbefore.symm.trans hfault
  · cases hafter.symm.trans hfault

end Layout

end UpgradeSafety
