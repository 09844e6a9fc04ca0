import Mathlib.Data.List.Nodup
import UpgradeSafety.Diff.Check
import UpgradeSafety.Proofs.Diff.Representatives
import UpgradeSafety.Proofs.Diff.Table

/-! What a check finds without a chain. Each byte has at most one `Finding`, by the table or as a
byte that is gone, and the check answers with the findings themselves, each told once, at the least
of its bytes and in the order of storage (`Comparison.Complete`). -/
namespace UpgradeSafety

/-- What is to be told of a byte: the kind of difference, and the variables before and after. -/
inductive Finding (exempt : TypeInfo → TypeInfo → Prop) (src cmp : Layout) (before after : ByteMap)
    (checkRemovals : Bool) (byte : Int) : DiffKind → Option Detail → Option Detail → Prop where
  | changed {s c : Detail} {kind : DiffKind} (hs : before[byte]? = some s)
      (hc : after[byte]? = some c) (h : Comparison.Table exempt src cmp s c kind) :
      Finding exempt src cmp before after checkRemovals byte kind (some s) (some c)
  | removed {s : Detail} (hremovals : checkRemovals = true) (hs : before[byte]? = some s)
      (hc : byte ∉ after) :
      Finding exempt src cmp before after checkRemovals byte .variableRemoved (some s) none

/-- The differences tell every finding once, at its least byte, and nothing else. -/
structure Comparison.Complete (exempt : TypeInfo → TypeInfo → Prop) (src cmp : Layout)
    (before after : ByteMap) (checkRemovals : Bool) (ds : List Diff) : Prop where
  ordered : ds.Pairwise fun d e => d.location < e.location
  distinct : (ds.map fun d => (d.kind, d.reference, d.candidate)).Nodup
  told : ∀ kind s c, (∃ d ∈ ds, d.kind = kind ∧ d.reference = s ∧ d.candidate = c) ↔
    ∃ byte, Finding exempt src cmp before after checkRemovals byte kind s c
  least : ∀ d ∈ ds, ∃ byte, d.location = .ofByte byte ∧
    Finding exempt src cmp before after checkRemovals byte d.kind d.reference d.candidate ∧
    ∀ other, Finding exempt src cmp before after checkRemovals other d.kind d.reference d.candidate →
      byte ≤ other

namespace Comparison

/-- A byte of the new layout that has to be clear: the old one makes no use of it, or none that
counts. -/
def Adds (before after : ByteMap) (a : Added) : Prop :=
  ∃ byte, after[byte]? = some a.candidate ∧ a.location = .ofByte byte ∧
    (before[byte]? = none ∨ ∃ s, before[byte]? = some s ∧ CountsAsAdded s a.candidate)

/-! ### The bytes one by one -/

section Bytes
variable {src cmp : Layout} {before after : ByteMap}

/-- A byte of the new layout has a verdict. -/
theorem exists_judge (hsrc : src.SettlesAll before) {c : Detail}
    (hc : cmp.Settles c) (byte : Int) :
    ∃ v, judge src cmp before byte c = .ok v ∧
      (v = .added ↔ before[byte]? = none ∨ ∃ s, before[byte]? = some s ∧ CountsAsAdded s c) ∧
      ∀ kind, v = .differs kind ↔ ∃ s, before[byte]? = some s ∧ Table Outright src cmp s c kind := by
  unfold judge
  cases hs : before[byte]? with
  | none => exact ⟨_, rfl, ⟨fun _ => .inl rfl, fun _ => rfl⟩, fun kind => ⟨nofun, nofun⟩⟩
  | some s =>
    obtain ⟨v, hv, htells⟩ := exists_verdict (hsrc byte s hs) hc
    refine ⟨v, hv, htells.added.trans ⟨fun h => .inr ⟨s, rfl, h⟩, ?_⟩, fun kind =>
      (htells.differs kind).trans ⟨fun h => ⟨s, rfl, h⟩, ?_⟩⟩
    · intro hclear
      rcases hclear with h | ⟨_, h, hadded⟩
      · cases h
      · exact Option.some.inj h ▸ hadded
    · intro htold
      obtain ⟨_, h, htable⟩ := htold
      exact Option.some.inj h ▸ htable

/-- The verdicts on all the bytes of the new layout, in the order of storage. -/
structure Verdicts (src cmp : Layout) (before after : ByteMap)
    (vs : List ((Int × Detail) × Verdict)) : Prop where
  entries : vs.map Prod.fst = after.entries
  mem_iff : ∀ byte c v, ((byte, c), v) ∈ vs ↔
    after[byte]? = some c ∧ judge src cmp before byte c = .ok v

theorem exists_verdicts (hsrc : src.SettlesAll before) (hcmp : cmp.SettlesAll after) :
    ∃ vs, (after.entries.mapM fun entry => do
        return (entry, ← judge src cmp before entry.1 entry.2)) = .ok vs ∧
      Verdicts src cmp before after vs := by
  have hall : ∀ entry ∈ after.entries, ∃ y,
      (do return (entry, ← judge src cmp before entry.1 entry.2)) = Except.ok y := by
    intro entry hentry
    obtain ⟨byte, c⟩ := entry
    obtain ⟨v, hv, -⟩ := exists_judge hsrc (hcmp byte c (ByteMap.mem_entries_iff.mp hentry)) byte
    exact ⟨_, bind_eq_ok_iff.mpr ⟨v, hv, rfl⟩⟩
  obtain ⟨vs, hvs⟩ := exists_mapM hall
  refine ⟨vs, hvs, map_of_mapM hvs fun entry y hy => ?_, fun byte c v => ?_⟩
  · obtain ⟨v, -, hv⟩ := bind_eq_ok_iff.mp hy
    rw [← Except.ok.inj hv]
  · rw [mem_of_mapM hvs]
    constructor
    · intro h
      obtain ⟨⟨byte', c'⟩, hentry, hy⟩ := h
      obtain ⟨v', hv, hy⟩ := bind_eq_ok_iff.mp hy
      cases hy
      exact ⟨ByteMap.mem_entries_iff.mp hentry, hv⟩
    · intro h
      obtain ⟨hc, hv⟩ := h
      exact ⟨(byte, c), ByteMap.mem_entries_iff.mpr hc, bind_eq_ok_iff.mpr ⟨v, hv, rfl⟩⟩

/-! ### The findings before they are put in order -/

/-- Where each element comes from a place of its own, so does what is kept of them. -/
theorem map_filterMap_sublist {α β γ : Type} {f : α → Option β} {g : β → γ} {k : α → γ}
    (h : ∀ x y, f x = some y → g y = k x) (xs : List α) :
    ((xs.filterMap f).map g).Sublist (xs.map k) := by
  induction xs with
  | nil => exact .slnil
  | cons x rest ih =>
    cases hx : f x with
    | none =>
      rw [List.filterMap_cons_none hx]
      exact ih.cons (k x)
    | some y =>
      rw [List.filterMap_cons_some hx, List.map_cons, List.map_cons, h x y hx]
      exact ih.cons_cons (k x)

theorem nodup_locations (map : ByteMap) :
    (map.entries.map fun entry => Location.ofByte entry.1).Nodup := by
  have hbytes : map.entries.map (fun entry => Location.ofByte entry.1) =
      map.bytes.map Location.ofByte := by
    rw [← map.map_fst_entries, List.map_map]
    rfl
  rw [hbytes]
  exact List.Nodup.map (fun _ _ => Location.ofByte_injective) map.nodup_bytes

/-- The difference that tells a finding at a byte. -/
def diffAt (byte : Int) (kind : DiffKind) (s c : Option Detail) : Diff :=
  ⟨kind, .ofByte byte, none, s, c, none⟩

namespace Verdicts
variable {vs : List ((Int × Detail) × Verdict)}

theorem nodup_filterMap {β : Type} {f : (Int × Detail) × Verdict → Option β}
    {location : β → Location} (h : Verdicts src cmp before after vs)
    (hf : ∀ x y, f x = some y → location y = .ofByte x.1.1) :
    ((vs.filterMap f).map location).Nodup := by
  refine List.Nodup.sublist (map_filterMap_sublist hf vs) ?_
  have hnodup := nodup_locations after
  rwa [← h.entries, List.map_map] at hnodup

theorem mem_found (h : Verdicts src cmp before after vs) (hsrc : src.SettlesAll before)
    (hcmp : cmp.SettlesAll after) (d : Diff) :
    d ∈ vs.filterMap (diffOf? before) ↔ ∃ byte s c kind, before[byte]? = some s ∧
      after[byte]? = some c ∧ Table Outright src cmp s c kind ∧
      d = diffAt byte kind (some s) (some c) := by
  rw [List.mem_filterMap]
  constructor
  · intro hfound
    obtain ⟨⟨⟨byte, c⟩, v⟩, hmem, hd⟩ := hfound
    obtain ⟨hc, hjudge⟩ := (h.mem_iff byte c v).mp hmem
    obtain ⟨v', hv', -, hdiffers⟩ := exists_judge hsrc (hcmp byte c hc) byte
    obtain rfl := Except.ok.inj (hjudge.symm.trans hv')
    cases v with
    | unchanged | added => cases hd
    | differs kind =>
      obtain ⟨s, hs, htable⟩ := (hdiffers kind).mp rfl
      refine ⟨byte, s, c, kind, hs, hc, htable, ?_⟩
      rw [← Option.some.inj hd, hs]
      rfl
  · intro htold
    obtain ⟨byte, s, c, kind, hs, hc, htable, rfl⟩ := htold
    obtain ⟨v, hv, -, hdiffers⟩ := exists_judge hsrc (hcmp byte c hc) byte
    obtain rfl := (hdiffers kind).mpr ⟨s, hs, htable⟩
    refine ⟨((byte, c), .differs kind), (h.mem_iff byte c _).mpr ⟨hc, hv⟩, ?_⟩
    rw [diffOf?, hs]
    rfl

theorem mem_added (h : Verdicts src cmp before after vs) (hsrc : src.SettlesAll before)
    (hcmp : cmp.SettlesAll after) (a : Added) :
    a ∈ vs.filterMap addedOf? ↔ Adds before after a := by
  rw [List.mem_filterMap]
  constructor
  · intro hfound
    obtain ⟨⟨⟨byte, c⟩, v⟩, hmem, ha⟩ := hfound
    obtain ⟨hc, hjudge⟩ := (h.mem_iff byte c v).mp hmem
    obtain ⟨v', hv', hadded, -⟩ := exists_judge hsrc (hcmp byte c hc) byte
    obtain rfl := Except.ok.inj (hjudge.symm.trans hv')
    cases v with
    | unchanged | differs => cases ha
    | added =>
      rw [← Option.some.inj ha]
      exact ⟨byte, hc, rfl, hadded.mp rfl⟩
  · intro hclear
    obtain ⟨byte, hc, hlocation, hadds⟩ := hclear
    obtain ⟨v, hv, hadded, -⟩ := exists_judge hsrc (hcmp byte _ hc) byte
    obtain rfl := hadded.mpr hadds
    refine ⟨((byte, a.candidate), .added), (h.mem_iff byte _ _).mpr ⟨hc, hv⟩, ?_⟩
    rw [addedOf?, ← hlocation]

end Verdicts

theorem mem_removals (d : Diff) : d ∈ removals before after ↔
    ∃ byte s, before[byte]? = some s ∧ byte ∉ after ∧
      d = diffAt byte .variableRemoved (some s) none := by
  unfold removals
  rw [List.mem_filterMap]
  constructor
  · intro h
    obtain ⟨⟨byte, s⟩, hmem, hd⟩ := h
    dsimp only at hd
    split at hd
    · cases hd
    · next hc =>
      exact ⟨byte, s, ByteMap.mem_entries_iff.mp hmem, hc,
        (Option.some.inj hd).symm⟩
  · intro h
    obtain ⟨byte, s, hs, hc, rfl⟩ := h
    exact ⟨(byte, s), ByteMap.mem_entries_iff.mpr hs, if_neg hc⟩

theorem nodup_removals : ((removals before after).map Diff.location).Nodup := by
  refine List.Nodup.sublist (map_filterMap_sublist ?_ _) (nodup_locations before)
  intro entry d hd
  obtain ⟨byte, s⟩ := entry
  dsimp only at hd
  split at hd
  · cases hd
  · rw [← Option.some.inj hd]

/-- The findings of a comparison, each byte's for itself. -/
structure Raw (src cmp : Layout) (before after : ByteMap) (checkRemovals : Bool)
    (ds : List Diff) : Prop where
  nodup : (ds.map Diff.location).Nodup
  mem_iff : ∀ d, d ∈ ds ↔ ∃ byte kind s c,
    Finding Outright src cmp before after checkRemovals byte kind s c ∧ d = diffAt byte kind s c

theorem Verdicts.raw {vs : List ((Int × Detail) × Verdict)} (h : Verdicts src cmp before after vs)
    (hsrc : src.SettlesAll before) (hcmp : cmp.SettlesAll after) (checkRemovals : Bool) :
    Raw src cmp before after checkRemovals
      (vs.filterMap (diffOf? before) ++ if checkRemovals then removals before after else []) := by
  have hfound : ((vs.filterMap (diffOf? before)).map Diff.location).Nodup := by
    refine h.nodup_filterMap ?_
    intro entry d hd
    obtain ⟨⟨byte, c⟩, v⟩ := entry
    cases v with
    | unchanged | added => cases hd
    | differs kind => rw [← Option.some.inj hd]
  have hgone (d : Diff) : d ∈ (if checkRemovals then removals before after else []) ↔
      checkRemovals = true ∧ d ∈ removals before after := by
    cases checkRemovals <;> simp
  constructor
  · rw [List.map_append, List.nodup_append]
    refine ⟨hfound, ?_, ?_⟩
    · cases checkRemovals with
      | true => exact nodup_removals
      | false => exact List.nodup_nil
    · intro l hl l' hl' heq
      obtain ⟨d, hd, rfl⟩ := List.mem_map.mp hl
      obtain ⟨e, he, rfl⟩ := List.mem_map.mp hl'
      obtain ⟨byte, _, c, _, _, hc, _, rfl⟩ := (h.mem_found hsrc hcmp d).mp hd
      obtain ⟨other, _, _, hnot, rfl⟩ := (mem_removals e).mp ((hgone e).mp he).2
      obtain rfl := Location.ofByte_injective heq
      exact hnot (ByteMap.mem_of_getElem? hc)
  · intro d
    rw [List.mem_append, h.mem_found hsrc hcmp, hgone, mem_removals]
    constructor
    · intro hfound
      rcases hfound with ⟨byte, s, c, kind, hs, hc, htable, rfl⟩ | ⟨hremovals, byte, s, hs, hc, rfl⟩
      · exact ⟨byte, kind, _, _, .changed hs hc htable, rfl⟩
      · exact ⟨byte, _, _, _, .removed hremovals hs hc, rfl⟩
    · intro htold
      obtain ⟨byte, kind, _, _, hfinding, rfl⟩ := htold
      cases hfinding with
      | changed hs hc htable => exact .inl ⟨byte, _, _, kind, hs, hc, htable, rfl⟩
      | removed hremovals hs hc => exact .inr ⟨hremovals, byte, _, hs, hc, rfl⟩

namespace Raw
variable {checkRemovals : Bool} {ds : List Diff}

/-- A finding tells nothing beside its kind and its two variables. -/
theorem identity_eq (h : Raw src cmp before after checkRemovals ds) {d e : Diff} (hd : d ∈ ds)
    (he : e ∈ ds) (hkind : d.kind = e.kind) (href : d.reference = e.reference)
    (hcand : d.candidate = e.candidate) : d.identity false = e.identity false := by
  obtain ⟨_, _, _, _, _, rfl⟩ := (h.mem_iff d).mp hd
  obtain ⟨_, _, _, _, _, rfl⟩ := (h.mem_iff e).mp he
  cases hkind
  cases href
  cases hcand
  rfl

theorem mem_of_kept {d : Diff} (hd : d ∈ Diff.unique false (Diff.sort ds)) : d ∈ ds :=
  (Location.sort_perm Diff.location ds).mem_iff.mp ((Diff.unique_sublist false).mem hd)

/-- What is kept tells no finding twice. -/
theorem nodup_kept (h : Raw src cmp before after checkRemovals ds) :
    ((Diff.unique false (Diff.sort ds)).map fun d => (d.kind, d.reference, d.candidate)).Nodup := by
  have hnodup : ((Diff.unique false (Diff.sort ds)).map (Diff.identity false)).Nodup :=
    Diff.nodup_identity_unique false
  refine List.Nodup.map_on (fun d hd e he heq => ?_) hnodup.of_map
  obtain ⟨hkind, hrest⟩ := Prod.mk.inj heq
  obtain ⟨href, hcand⟩ := Prod.mk.inj hrest
  exact List.inj_on_of_nodup_map hnodup hd he
    (h.identity_eq (mem_of_kept hd) (mem_of_kept he) hkind href hcand)

/-- What is kept tells every finding. -/
theorem exists_kept (h : Raw src cmp before after checkRemovals ds) {byte : Int} {kind : DiffKind}
    {s c : Option Detail}
    (hfinding : Finding Outright src cmp before after checkRemovals byte kind s c) :
    ∃ d ∈ Diff.unique false (Diff.sort ds), d.kind = kind ∧ d.reference = s ∧ d.candidate = c := by
  have hd : diffAt byte kind s c ∈ Diff.sort ds := (Location.sort_perm Diff.location ds).mem_iff.mpr
    ((h.mem_iff _).mpr ⟨byte, kind, s, c, hfinding, rfl⟩)
  obtain ⟨e, he, heq⟩ := Diff.exists_mem_unique_of_mem false hd
  refine ⟨e, he, ?_, ?_, ?_⟩
  · exact congrArg Diff.Identity.kind heq
  · exact congrArg Diff.Identity.reference heq
  · exact congrArg Diff.Identity.candidate heq

/-- Findings that have been put in order are told in full. -/
theorem complete (h : Raw src cmp before after checkRemovals ds) :
    Complete Outright src cmp before after checkRemovals (Diff.unique false (Diff.sort ds)) := by
  refine ⟨Diff.pairwise_unique_sort false h.nodup, h.nodup_kept, fun kind s c => ⟨?_, ?_⟩, ?_⟩
  · intro htold
    obtain ⟨d, hd, rfl, rfl, rfl⟩ := htold
    obtain ⟨byte, _, _, _, hfinding, rfl⟩ := (h.mem_iff d).mp (mem_of_kept hd)
    exact ⟨byte, hfinding⟩
  · intro hfound
    obtain ⟨byte, hfinding⟩ := hfound
    exact h.exists_kept hfinding
  · intro d hd
    obtain ⟨hmem, hleast⟩ := (Diff.mem_unique_sort_iff false h.nodup).mp hd
    obtain ⟨byte, kind, s, c, hfinding, rfl⟩ := (h.mem_iff d).mp hmem
    refine ⟨byte, rfl, hfinding, fun other hother => ?_⟩
    have hle := hleast (diffAt other kind s c) ((h.mem_iff _).mpr ⟨other, kind, s, c, hother, rfl⟩) rfl
    exact (Location.le_ofByte_iff byte other).mp hle

end Raw

/-- Layouts whose references are known can be compared. -/
theorem exists_of (hsrc : src.SettlesAll before) (hcmp : cmp.SettlesAll after)
    (checkRemovals : Bool) :
    ∃ c, Comparison.of src cmp before after checkRemovals = .ok c ∧
      Complete Outright src cmp before after checkRemovals c.diffs ∧
      (c.added.map Added.location).Nodup ∧ ∀ a, a ∈ c.added ↔ Adds before after a := by
  obtain ⟨vs, hvs, h⟩ := exists_verdicts hsrc hcmp
  refine ⟨_, bind_eq_ok_iff.mpr ⟨vs, hvs, rfl⟩, (h.raw hsrc hcmp checkRemovals).complete, ?_,
    h.mem_added hsrc hcmp⟩
  refine h.nodup_filterMap ?_
  intro entry a ha
  obtain ⟨⟨byte, c⟩, v⟩ := entry
  cases v with
  | unchanged | differs => cases ha
  | added => rw [← Option.some.inj ha]

/-- A difference that a comparison tells is a finding at a byte, and nothing beside. -/
theorem diffAt_of_mem {checkRemovals : Bool} {c : Comparison}
    (hc : Comparison.of src cmp before after checkRemovals = .ok c) {d : Diff} (hd : d ∈ c.diffs) :
    ∃ byte, d = diffAt byte d.kind d.reference d.candidate := by
  obtain ⟨vs, -, hc⟩ := bind_eq_ok_iff.mp hc
  rw [← Except.ok.inj hc] at hd
  rcases List.mem_append.mp (Raw.mem_of_kept hd) with hfound | hgone
  · obtain ⟨⟨⟨byte, c⟩, v⟩, -, hd⟩ := List.mem_filterMap.mp hfound
    cases v with
    | unchanged | added => cases hd
    | differs kind =>
      rw [← Option.some.inj hd]
      exact ⟨byte, rfl⟩
  · cases checkRemovals with
    | false => exact absurd hgone List.not_mem_nil
    | true =>
      obtain ⟨byte, s, -, -, rfl⟩ := (mem_removals d).mp hgone
      exact ⟨byte, rfl⟩

/-- What is told are the findings, each at its least byte. -/
theorem Complete.mem_iff {exempt : TypeInfo → TypeInfo → Prop} {checkRemovals : Bool}
    {ds : List Diff} (h : Complete exempt src cmp before after checkRemovals ds)
    (hplain : ∀ d ∈ ds, ∃ byte, d = diffAt byte d.kind d.reference d.candidate) (d : Diff) :
    d ∈ ds ↔ ∃ byte kind s c, Finding exempt src cmp before after checkRemovals byte kind s c ∧
      (∀ other, Finding exempt src cmp before after checkRemovals other kind s c → byte ≤ other) ∧
      d = diffAt byte kind s c := by
  have hleast {d : Diff} (hd : d ∈ ds) : ∃ byte, d = diffAt byte d.kind d.reference d.candidate ∧
      Finding exempt src cmp before after checkRemovals byte d.kind d.reference d.candidate ∧
      ∀ other, Finding exempt src cmp before after checkRemovals other d.kind d.reference
        d.candidate → byte ≤ other := by
    obtain ⟨byte, hlocation, hfinding, hleast⟩ := h.least d hd
    obtain ⟨byte', heq⟩ := hplain d hd
    rw [heq] at hlocation
    obtain rfl : byte' = byte := Location.ofByte_injective hlocation
    exact ⟨byte', heq, hfinding, hleast⟩
  constructor
  · intro hd
    obtain ⟨byte, heq, hfinding, hleast⟩ := hleast hd
    exact ⟨byte, _, _, _, hfinding, hleast, heq⟩
  · intro htold
    obtain ⟨byte, kind, s, c, hfinding, hmin, rfl⟩ := htold
    obtain ⟨d, hd, rfl, rfl, rfl⟩ := (h.told kind s c).mpr ⟨byte, hfinding⟩
    obtain ⟨byte', heq, hfinding', hmin'⟩ := hleast hd
    obtain rfl : byte = byte' := Int.le_antisymm (hmin byte' hfinding') (hmin' byte hfinding)
    rwa [← heq]

end Bytes

end Comparison

end UpgradeSafety
