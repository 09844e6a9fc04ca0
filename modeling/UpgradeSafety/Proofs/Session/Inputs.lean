import UpgradeSafety.Host.Standard
import UpgradeSafety.Proofs.Layout.Legible
import UpgradeSafety.Session.Needs

/-! The inputs of a run that compares two reports in files. What a file is read as is a matter of
its bytes alone (`Session.reportIn`). Where no address and no settings are given
(`Session.ComparesReports`), the standard settings are in force and the two layouts are all that a
check needs (`Session.ComparesReports.result_prepare`). -/
namespace UpgradeSafety

namespace Session

/-- What the bytes of a file are read as. -/
def reportIn (bytes : Bytes) : Except Stop Layout :=
  match Text.ofUtf8? bytes with
  | none => .error (.crash .notText)
  | some cs =>
    (Layout.ofText (String.ofList (Text.unixLines cs))).mapError fun fault =>
      .input (.report fault)

/-- Bytes without a report are no text, or a text with a fault that has a message. -/
theorem reportIn_eq_error {bytes : Bytes} {stop : Stop} (h : reportIn bytes = .error stop) :
    Text.ofUtf8? bytes = none ∧ stop = .crash .notText ∨
      ∃ fault, (∃ text, fault.message = .ok text) ∧ stop = .input (.report fault) := by
  unfold reportIn at h
  split at h
  · next hnone => exact .inl ⟨hnone, (Except.error.inj h).symm⟩
  · next cs _ =>
    cases hl : Layout.ofText (String.ofList (Text.unixLines cs)) with
    | ok l =>
      rw [hl] at h
      cases h
    | error fault =>
      rw [hl] at h
      exact .inr ⟨fault, Layout.exists_message_of_ofText hl, (Except.error.inj h).symm⟩

/-- The references of a layout that is read can be shown. -/
theorem legible_of_reportIn {bytes : Bytes} {l : Layout} (h : reportIn bytes = .ok l) :
    l.Legible := by
  unfold reportIn at h
  split at h
  · cases h
  · next cs _ =>
    cases hl : Layout.ofText (String.ofList (Text.unixLines cs)) with
    | error fault =>
      rw [hl] at h
      cases h
    | ok own =>
      rw [hl] at h
      exact Except.ok.inj h ▸ Layout.legible_of_ofText hl

theorem reportIn_of_notText {bytes : Bytes} (h : Text.ofUtf8? bytes = none) :
    reportIn bytes = .error (.crash .notText) := by
  unfold reportIn
  rw [h]

theorem result_readReport (text : String) :
    (readReport text).result =
      (Layout.ofText text).mapError fun fault => .input (.report fault) := by
  unfold readReport
  cases Layout.ofText text with
  | ok l => rfl
  | error fault => cases fault <;> rfl

theorem result_loadReport {files : Files} {name : String} {bytes : Bytes}
    (h : files.readBytes (.ofText name) = .ok bytes) :
    (loadReport files name).result = reportIn bytes := by
  unfold loadReport
  rw [Journal.result_bind_ok _ (Journal.result_note _), Journal.result_bind,
    Journal.result_ofExcept, Files.readText, h]
  unfold reportIn
  dsimp only
  cases Text.ofUtf8? bytes with
  | none => rfl
  | some cs => exact result_readReport _

/-- Without a file of settings and without variables for them, the standard ones are in force. -/
theorem result_load_standard {lib : Libraries} {files : Files} {e : Environment}
    (hfile : files.contains (.ofName standardFile) = false)
    (hurl : e.nonempty? Settings.rpcUrlVariable = none)
    (haddress : e.nonempty? Settings.addressVariable = none) :
    (Settings.load lib files e none).result = .ok .standard := by
  unfold Settings.load
  dsimp only
  rw [hfile, if_neg Bool.false_ne_true]
  show Except.ok (Settings.standard.override e) = _
  unfold Settings.override
  rw [hurl, haddress]
  rfl

/-- A run compares the reports in two files: the standard settings are in force, there is no
address, and whatever is said of a node can be made sense of. -/
structure ComparesReports (h : Host) (a : Arguments) (src cmp : Bytes) : Prop where
  src : h.files.readBytes (.ofText a.src) = .ok src
  cmp : ∃ name, a.candidate = .report name ∧ name ≠ "" ∧
    h.files.readBytes (.ofText name) = .ok cmp
  unconfigured : a.config = none ∧ h.files.contains (.ofName standardFile) = false
  unset : ∀ name ∈ settingVariables, h.environment.nonempty? name = none
  unaddressed : a.address = none
  endpoint : ∃ url, (nodeUrl h h.files a .standard).result = .ok url

namespace ComparesReports
variable {h : Host} {a : Arguments} {src cmp : Bytes}

theorem settings (hrun : ComparesReports h a src cmp) :
    (Settings.load h.libraries h.files h.environment a.config).result = .ok .standard := by
  rw [hrun.unconfigured.1]
  exact result_load_standard hrun.unconfigured.2 (hrun.unset _ List.mem_cons_self)
    (hrun.unset _ (List.mem_cons_of_mem _ List.mem_cons_self))

theorem result_loadCandidate (hrun : ComparesReports h a src cmp) :
    (loadCandidate h a .standard).result = (·, h.files) <$> reportIn cmp := by
  obtain ⟨name, hcandidate, hname, hcmp⟩ := hrun.cmp
  unfold loadCandidate
  rw [hcandidate]
  split
  · next heq => exact absurd (Candidate.report.inj heq) hname
  · next heq =>
    obtain rfl := Candidate.report.inj heq
    rw [Journal.result_bind, result_loadReport hcmp]
    cases reportIn cmp <;> rfl
  · next heq => cases heq

/-- The two layouts are all the inputs. -/
theorem result_prepare (hrun : ComparesReports h a src cmp) :
    (prepare h a .standard).result = (do
      let l ← reportIn src
      let l' ← reportIn cmp
      return ⟨l, l', h.files, none, none⟩) := by
  obtain ⟨url, hurl⟩ := hrun.endpoint
  unfold prepare
  rw [Journal.result_bind, result_loadReport hrun.src]
  refine bind_congr fun l => ?_
  rw [Journal.result_bind, hrun.result_loadCandidate]
  cases reportIn cmp with
  | error e => rfl
  | ok l' =>
    show (nodeUrl h h.files a .standard >>= _).result = _
    rw [Journal.result_bind_ok _ hurl, hrun.unaddressed]
    rfl

end ComparesReports

end Session

/-! ### Two files and nothing else -/

/-- A host with two files, for the layout in use and the one to come, and nothing else. -/
def Host.ofReports (src cmp : Bytes) : Host where
  libraries := .standard
  files := ⟨[(.ofName "src.json", .file src), (.ofName "cmp.json", .file cmp)]⟩
  environment := ⟨[]⟩
  forge := .notFound
  node := fun _ _ => .raised ""
  shows := fun _ => true

/-- The words that name the two files, and any others. -/
def Arguments.reportWords (more : List String) : List String :=
  "--src" :: "src.json" :: "--cmp" :: "cmp.json" :: more

/-- What is asked for by naming the two files. -/
def Arguments.ofReports (checkRemovals json : Bool) : Arguments :=
  ⟨"src.json", .report "cmp.json", ".", none, none, none, none, none, checkRemovals, json, false⟩

theorem Session.ComparesReports.ofReports (src cmp : Bytes) (checkRemovals json : Bool) :
    ComparesReports (.ofReports src cmp) (.ofReports checkRemovals json) src cmp where
  src := show (Host.ofReports src cmp).files.readBytes (.ofText "src.json") = .ok src from rfl
  cmp := ⟨"cmp.json", rfl, by decide, rfl⟩
  unconfigured := ⟨rfl, rfl⟩
  unset := fun _ _ => rfl
  unaddressed := rfl
  endpoint := ⟨none, rfl⟩

/-- A layout with one variable. -/
def Layout.solitary : Layout where
  storage := [⟨"x", "t", 0, 0, .null, .null⟩]
  types := [("t", { TypeInfo.elementary "t" 1 with size := none })]

/-- A report of the layout with one variable. -/
def Layout.solitaryText : String :=
  "\x7b\"storage\":[\x7b\"label\":\"x\",\"type\":\"t\",\"slot\":0\x7d]," ++
    "\"types\":\x7b\"t\":\x7b\x7d\x7d\x7d"

/-- A report of a layout without variables. -/
def Layout.vacantText : String := "\x7b\"storage\":[]\x7d"

namespace Session

theorem reportIn_solitaryText : reportIn (Text.toUtf8 Layout.solitaryText) = .ok .solitary := by
  have hread : Layout.ofText Layout.solitaryText = .ok .solitary := by decide +kernel
  exact congrArg (Except.mapError _) hread

theorem reportIn_vacantText : reportIn (Text.toUtf8 Layout.vacantText) = .ok ⟨[], []⟩ := by
  have hread : Layout.ofText Layout.vacantText = .ok ⟨[], []⟩ := by decide +kernel
  exact congrArg (Except.mapError _) hread

end Session

end UpgradeSafety
