import UpgradeSafety.Proofs.Layout.Legible
import UpgradeSafety.Proofs.Session.Verdict

/-! How a run ends that compares the reports in two files. A file is flawed if its bytes are no
report of a layout that has a footprint. Most flaws are told, and the exit status is 2; bytes that
are no text and four faults of a footprint are not, and a run that meets one of these ends without a
status. So does one that finds something that the output cannot show
(`Session.run_ends_on_reports`). -/
namespace UpgradeSafety

/-- A fault of a report that is not told as one. -/
inductive ExpansionFault.Untold : ExpansionFault → Prop where
  | notAName : Untold .notAName
  | slotOutOfRange (slot : Int) : Untold (.slotOutOfRange slot)
  | labelNotText (type : Text) : Untold (.labelNotText type)
  | longNumber (fault : LongNumber) : Untold (.longNumber fault)

namespace Session

/-! ### Flaws of a file -/

section Flaws
variable (hash : Hash) (bytes : Bytes)

/-- The bytes of a file are no report of a layout that has a footprint. -/
def Flawed : Prop :=
  ¬∃ l map, reportIn bytes = .ok l ∧ (l.footprint hash).result = .ok map

/-- A flaw of a file that ends a run without a status. -/
inductive Unforeseen : Crash → Prop where
  | notText (h : Text.ofUtf8? bytes = none) : Unforeseen .notText
  | untold {l : Layout} {e : ExpansionFault} (hl : reportIn bytes = .ok l)
      (h : (l.footprint hash).result = .error e) (he : e.Untold) : Unforeseen (.expansion e)

/-- What a flaw of a file stops a run with. -/
inductive Flaw : Stop → Prop where
  | report {stop : Stop} (h : reportIn bytes = .error stop) : Flaw stop
  | expansion {l : Layout} {e : ExpansionFault} (hl : reportIn bytes = .ok l)
      (h : (l.footprint hash).result = .error e) : Flaw (.ofExpansion e)

variable {hash : Hash} {bytes : Bytes} {stop : Stop} {c : Crash}

theorem Flaw.flawed (h : Flaw hash bytes stop) : Flawed hash bytes := by
  intro hsound
  obtain ⟨l, map, hl, hmap⟩ := hsound
  cases h with
  | report h => cases h.symm.trans hl
  | expansion hl' h =>
    obtain rfl := Except.ok.inj (hl.symm.trans hl')
    cases h.symm.trans hmap

theorem Unforeseen.flawed (h : Unforeseen hash bytes c) : Flawed hash bytes := by
  cases h with
  | notText h => exact Flaw.flawed (.report (reportIn_of_notText h))
  | untold hl h => exact Flaw.flawed (.expansion hl h)

/-- A flaw is told, or it is one of those that are not. -/
theorem Flaw.outcome (h : Flaw hash bytes stop)
    (hrecursive : ∀ l, reportIn bytes = .ok l → ∀ v ∈ l.storage, ¬l.Recursive v.type) :
    stop.outcome = .ok (.status 2) ∨
      ∃ c, stop.outcome = .error c ∧ Unforeseen hash bytes c := by
  cases h with
  | report h =>
    rcases reportIn_eq_error h with ⟨hnone, rfl⟩ | ⟨fault, ⟨text, htext⟩, rfl⟩
    · exact .inr ⟨_, rfl, .notText hnone⟩
    · have hmessage : (InputFault.report fault).message = .ok text := htext
      refine .inl ?_
      rw [Stop.outcome, hmessage]
  | @expansion l e hl h =>
    have hfault : (∃ shown, e.malformed? = some shown) ∨ e.Untold := by
      rcases exists_hasFault_of_footprint (hrecursive l hl) h with ⟨v, -, hfault⟩ | ⟨n, rfl, -⟩
      · cases e with
        | unknownType => exact .inl (hfault.exists_malformed (legible_of_reportIn hl))
        | referenceMissing => exact .inl ⟨_, rfl⟩
        | notAName => exact .inr .notAName
        | slotOutOfRange slot => exact .inr (.slotOutOfRange slot)
        | labelNotText type => exact .inr (.labelNotText type)
        | longNumber n => exact .inr (.longNumber n)
        | recursiveType type => exact absurd rfl (hfault.ne_recursiveType type)
      · exact .inr (.longNumber n)
    rcases hfault with ⟨shown, hshown⟩ | he
    · refine .inl ?_
      rw [Stop.ofExpansion, hshown]
      rfl
    · refine .inr ⟨.expansion e, ?_, .untold hl h he⟩
      cases he <;> rfl

/-- A flaw that is not told ends a run in its own way. -/
theorem Flaw.outcome_of_unforeseen (h : Flaw hash bytes stop) (hc : Unforeseen hash bytes c) :
    stop.outcome = .error c := by
  cases hc with
  | notText hnone =>
    have hread := reportIn_of_notText hnone
    cases h with
    | report h =>
      obtain rfl := Except.error.inj (hread.symm.trans h)
      rfl
    | expansion hl => cases hread.symm.trans hl
  | untold hl h' he =>
    cases h with
    | report h => cases h.symm.trans hl
    | expansion hl' h =>
      obtain rfl := Except.ok.inj (hl.symm.trans hl')
      obtain rfl := Except.error.inj (h'.symm.trans h)
      cases he <;> rfl

end Flaws

/-! ### The run -/

namespace ComparesReports
variable {h : Host} {a : Arguments} {src cmp : Bytes}

/-- A check of two files comes to a verdict or to what the output cannot show, or one of them is
flawed. -/
theorem check_cases (hrun : ComparesReports h a src cmp) :
    (¬Flawed h.libraries.hash src ∧ ¬Flawed h.libraries.hash cmp ∧
        ((∃ n, (check h a .standard).result = .ok n ∧ (n = 0 ∨ n = 1)) ∨
          ∃ text, (check h a .standard).result = .error (.crash (.notShown text)) ∧
            ¬h.CanShow text)) ∨
      ∃ stop, (Flaw h.libraries.hash src stop ∨ Flaw h.libraries.hash cmp stop) ∧
        (check h a .standard).result = .error stop := by
  have hprepare := hrun.result_prepare
  have hstop {stop : Stop} (hprepare : (prepare h a .standard).result = .error stop) :
      (check h a .standard).result = .error stop := by
    unfold check
    rw [Journal.result_bind, hprepare]
    rfl
  cases hl : reportIn src with
  | error stop =>
    rw [hl] at hprepare
    exact .inr ⟨stop, .inl (.report hl), hstop hprepare⟩
  | ok l =>
    cases hl' : reportIn cmp with
    | error stop =>
      rw [hl, hl'] at hprepare
      exact .inr ⟨stop, .inr (.report hl'), hstop hprepare⟩
    | ok l' =>
      rw [hl, hl'] at hprepare
      rcases Layout.exists_footprints_or_fault h.libraries.hash l l'
        (a.checkRemovals || Settings.standard.checkRemovals) none none
        (.inOrder Settings.standard.maxWorkers) with
        ⟨before, after, hbefore, hafter⟩ | ⟨e, hfault, hcheck⟩
      · have hunasked : (none : Option Text) = none ∨ (none : Option Text) = some [] ∨
          (none : Option Reader) = none := .inl rfl
        obtain ⟨ds, hds, -⟩ := Layout.exists_told hbefore hafter
          (a.checkRemovals || Settings.standard.checkRemovals) hunasked
          (.inOrder Settings.standard.maxWorkers)
        obtain ⟨-, texts, r, -, -, hpresents, hresult⟩ := check_tells hprepare (.inFull hds)
        refine .inl ⟨fun hflawed => hflawed ⟨l, before, hl, hbefore⟩,
          fun hflawed => hflawed ⟨l', after, hl', hafter⟩, ?_⟩
        cases hpresents with
        | told _ hn => exact .inl ⟨_, hresult, hn⟩
        | notShown _ _ htext => exact .inr ⟨_, hresult, htext⟩
      · have hexamine : (examine h ⟨l, l', h.files, none, none⟩
            (a.checkRemovals || Settings.standard.checkRemovals)
            (.inOrder Settings.standard.maxWorkers)).result = .error (.ofExpansion e) := by
          rw [result_examine, hcheck]
        refine .inr ⟨.ofExpansion e, hfault.imp (.expansion hl) (.expansion hl'), ?_⟩
        unfold check
        rw [Journal.result_bind_ok _ hprepare, Journal.result_bind, hexamine]
        rfl

theorem run_cases {argv : List String} (hargv : Arguments.read argv = .done a)
    (hrun : ComparesReports h a src cmp) :
    (¬Flawed h.libraries.hash src ∧ ¬Flawed h.libraries.hash cmp ∧
        ((∃ n, (run h argv).result = .ok (.status n) ∧ (n = 0 ∨ n = 1)) ∨
          ∃ text, (run h argv).result = .error (.notShown text) ∧ ¬h.CanShow text)) ∨
      ∃ stop, (Flaw h.libraries.hash src stop ∨ Flaw h.libraries.hash cmp stop) ∧
        (run h argv).result = stop.outcome := by
  have hlevel : ∃ rank, threshold? a .standard = some rank := by
    unfold threshold?
    split <;> exact ⟨_, rfl⟩
  rw [(run_of_settings hargv hrun.settings hlevel).1, result_conclude]
  rcases hrun.check_cases with
    ⟨hsrc, hcmp, ⟨n, hn, hstatus⟩ | ⟨text, htext, hshow⟩⟩ | ⟨stop, hflaw, hstop⟩
  · rw [hn]
    exact .inl ⟨hsrc, hcmp, .inl ⟨n, rfl, hstatus⟩⟩
  · rw [htext]
    exact .inl ⟨hsrc, hcmp, .inr ⟨text, rfl, hshow⟩⟩
  · rw [hstop]
    exact .inr ⟨stop, hflaw, rfl⟩

/-- Where one file has a flaw that is not told and the other has none, the run has no status. -/
theorem run_of_unforeseen {argv : List String} (hargv : Arguments.read argv = .done a)
    (hrun : ComparesReports h a src cmp) {c : Crash}
    (hc : Unforeseen h.libraries.hash src c ∧ ¬Flawed h.libraries.hash cmp ∨
      ¬Flawed h.libraries.hash src ∧ Unforeseen h.libraries.hash cmp c) :
    (run h argv).result = .error c := by
  rcases hrun.run_cases hargv with ⟨hsrc, hcmp, -⟩ | ⟨stop, hflaw, hstop⟩
  · rcases hc with ⟨hc, -⟩ | ⟨-, hc⟩
    · exact absurd hc.flawed hsrc
    · exact absurd hc.flawed hcmp
  · rw [hstop]
    rcases hc with ⟨hc, hcmp⟩ | ⟨hsrc, hc⟩
    · exact (hflaw.resolve_right fun hflaw => hcmp hflaw.flawed).outcome_of_unforeseen hc
    · exact (hflaw.resolve_left fun hflaw => hsrc hflaw.flawed).outcome_of_unforeseen hc

end ComparesReports

/-- **A run on two reports whose types do not lead back to themselves ends with 0, 1 or 2, and with
2 exactly when a file is flawed, unless a file has a flaw that is not told, or neither is flawed and
the output cannot show what is found. Where one file has a flaw that is not told and the other is
without flaws, the run ends without a status.** -/
theorem run_ends_on_reports {h : Host} {argv : List String} {a : Arguments}
    (hargv : Arguments.read argv = .done a) {src cmp : Bytes}
    (hrun : ComparesReports h a src cmp)
    (hrecursive : ∀ l, reportIn src = .ok l ∨ reportIn cmp = .ok l →
      ∀ v ∈ l.storage, ¬l.Recursive v.type) :
    ((∃ n, (run h argv).result = .ok (.status n) ∧ n ≤ 2 ∧
          (n = 2 ↔ Flawed h.libraries.hash src ∨ Flawed h.libraries.hash cmp)) ∨
        (∃ c, (run h argv).result = .error c ∧
          (Unforeseen h.libraries.hash src c ∨ Unforeseen h.libraries.hash cmp c)) ∨
        ¬Flawed h.libraries.hash src ∧ ¬Flawed h.libraries.hash cmp ∧
          ∃ text, (run h argv).result = .error (.notShown text) ∧ ¬h.CanShow text) ∧
      ∀ c, Unforeseen h.libraries.hash src c ∧ ¬Flawed h.libraries.hash cmp ∨
          ¬Flawed h.libraries.hash src ∧ Unforeseen h.libraries.hash cmp c →
        (run h argv).result = .error c := by
  refine ⟨?_, fun c hc => hrun.run_of_unforeseen hargv hc⟩
  rcases hrun.run_cases hargv with
    ⟨hsrc, hcmp, ⟨n, hn, hstatus⟩ | hshow⟩ | ⟨stop, hflaw, hstop⟩
  · refine .inl ⟨n, hn, by omega, fun htwo => ?_, fun hflawed => ?_⟩
    · omega
    · exact absurd hflawed (not_or.mpr ⟨hsrc, hcmp⟩)
  · exact .inr (.inr ⟨hsrc, hcmp, hshow⟩)
  · have hflawed : Flawed h.libraries.hash src ∨ Flawed h.libraries.hash cmp :=
      hflaw.imp Flaw.flawed Flaw.flawed
    have houtcome : stop.outcome = .ok (.status 2) ∨ ∃ c, stop.outcome = .error c ∧
        (Unforeseen h.libraries.hash src c ∨ Unforeseen h.libraries.hash cmp c) := by
      rcases hflaw with hflaw | hflaw
      · exact (hflaw.outcome fun l hl => hrecursive l (.inl hl)).imp_right
          fun ⟨c, hc, hunforeseen⟩ => ⟨c, hc, .inl hunforeseen⟩
      · exact (hflaw.outcome fun l hl => hrecursive l (.inr hl)).imp_right
          fun ⟨c, hc, hunforeseen⟩ => ⟨c, hc, .inr hunforeseen⟩
    rw [hstop]
    exact houtcome.imp (fun htwo => ⟨2, htwo, Nat.le_refl 2, fun _ => hflawed, fun _ => rfl⟩) .inl

/-- A file that is no document ends the run with 2. -/
theorem run_ends_on_reports_notJson :
    (run (.ofReports (Text.toUtf8 Layout.solitaryText) (Text.toUtf8 "\x7b"))
      (Arguments.reportWords [])).result = .ok (.status 2) := by
  have hcmp : reportIn (Text.toUtf8 "\x7b") = .error (.input (.report .notJson)) := by
    have hread : Layout.ofText "\x7b" = .error .notJson := by decide +kernel
    exact congrArg (Except.mapError _) hread
  have hargv : Arguments.read (Arguments.reportWords []) = .done (.ofReports false false) := rfl
  have hleaves : leavesOf Keccak.digest .solitary 2 (.ofVariable ⟨"x", "t", 0, 0, .null, .null⟩) =
    .ok [_] := rfl
  have hrecursive : ∀ l, reportIn (Text.toUtf8 Layout.solitaryText) = .ok l ∨
      reportIn (Text.toUtf8 "\x7b") = .ok l → ∀ v ∈ l.storage, ¬l.Recursive v.type := by
    intro l hl v hv
    rw [reportIn_solitaryText, hcmp] at hl
    rcases hl with hl | hl
    · obtain rfl := Except.ok.inj hl
      rw [List.mem_singleton.mp hv]
      exact not_recursive_of_leavesOf hleaves
    · cases hl
  have hsrc : ¬Flawed Keccak.digest (Text.toUtf8 Layout.solitaryText) :=
    fun hflawed => hflawed ⟨.solitary, _, reportIn_solitaryText, rfl⟩
  obtain ⟨hend, -⟩ := run_ends_on_reports hargv (.ofReports _ _ false false) hrecursive
  rcases hend with ⟨n, hn, -, htwo⟩ | ⟨c, -, hc⟩ | ⟨-, hcmp', -⟩
  · rwa [htwo.mpr (.inr (Flaw.flawed (.report hcmp)))] at hn
  · rcases hc with hc | hc
    · exact absurd hc.flawed hsrc
    · cases hc with
      | notText h => cases (reportIn_of_notText h).symm.trans hcmp
      | untold hl => cases hcmp.symm.trans hl
  · exact absurd (Flaw.flawed (.report hcmp)) hcmp'

/-- Bytes that are no text end the run without a status. -/
theorem notText_ends_run :
    Flawed Keccak.digest [0xff] ∧ (run (.ofReports [0xff] (Text.toUtf8 Layout.vacantText))
      (Arguments.reportWords [])).result = .error .notText := by
  have hsrc : Unforeseen Keccak.digest [0xff] .notText := .notText rfl
  have hcmp : ¬Flawed Keccak.digest (Text.toUtf8 Layout.vacantText) :=
    fun hflawed => hflawed ⟨⟨[], []⟩, ∅, reportIn_vacantText, rfl⟩
  have hargv : Arguments.read (Arguments.reportWords []) = .done (.ofReports false false) := rfl
  exact ⟨hsrc.flawed, (ComparesReports.ofReports _ _ false false).run_of_unforeseen hargv
    (.inl ⟨hsrc, hcmp⟩)⟩

end Session

end UpgradeSafety
