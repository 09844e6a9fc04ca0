import UpgradeSafety.Host.Standard
import UpgradeSafety.Proofs.Toml.Names
import UpgradeSafety.Settings.Load

/-! What settings come to. Each setting takes values of its own type (`Key.Takes`), a field of a
section sets what it names and nothing else (`Settings.setField_spec`), and so a section is refused
exactly when one of its fields does not fit, for the first one that does not (`Settings.Refuses`), and
otherwise every setting has the value of its field. The environment has its word after that and no
part in what is refused. As no name stands twice in a document, the order of the fields does not
count (`Settings.load_merges`). A value is refused with a message that shows it, unless there is a
number in it that no message can show (`Settings.longFlag_refused`). -/
namespace UpgradeSafety

theorem Value.ofText?_injective {a b : Option Text} (h : ofText? a = ofText? b) : a = b := by
  cases a <;> cases b <;> simp_all [ofText?]

/-- The values that a setting takes: those of its type, and of the numbers that count something no
other than one or more. -/
def Key.Takes : Key → Value → Prop
  | .checkRemovals, v => ∃ b, v = .bool b
  | .address, v | .rpcUrl, v | .logLevel, v => ∃ s, v = .text s
  | .block, v => (∃ s, v = .text s) ∨ ∃ n, v = .int n
  | .rpcTimeout, v | .forgeTimeout, v => ∃ n, v = .int n
  | .rpcRetryTimes, v | .maxWorkers, v => ∃ n, v = .int n ∧ 1 ≤ n
  | .rpcRetryDelay, v => (∃ n, v = .int n) ∨ ∃ x, v = .real x

namespace Settings

/-- The value of a setting; one that is not given has none. -/
def value (s : Settings) : Key → Value
  | .checkRemovals => .bool s.checkRemovals
  | .address => .ofText? s.address
  | .rpcUrl => .ofText? s.rpcUrl
  | .block => s.block
  | .rpcTimeout => .int s.rpcTimeout
  | .rpcRetryTimes => .int s.rpcRetryTimes
  | .rpcRetryDelay => s.rpcRetryDelay
  | .maxWorkers => .int s.maxWorkers
  | .forgeTimeout => .int s.forgeTimeout
  | .logLevel => .text s.logLevel

/-- Settings are told apart by their values. -/
theorem ext_value {s t : Settings} (h : ∀ key, s.value key = t.value key) : s = t := by
  obtain ⟨removals, address, url, block, timeout, times, delay, workers, forge, level⟩ := s
  obtain ⟨removals', address', url', block', timeout', times', delay', workers', forge', level'⟩ := t
  obtain rfl := Value.bool.inj (h .checkRemovals)
  obtain rfl := Value.ofText?_injective (h .address)
  obtain rfl := Value.ofText?_injective (h .rpcUrl)
  obtain rfl : block = block' := h .block
  obtain rfl := Value.int.inj (h .rpcTimeout)
  obtain rfl := Value.int.inj (h .rpcRetryTimes)
  obtain rfl : delay = delay' := h .rpcRetryDelay
  obtain rfl := Value.int.inj (h .maxWorkers)
  obtain rfl := Value.int.inj (h .forgeTimeout)
  obtain rfl := Value.text.inj (h .logLevel)
  rfl

end Settings

/-! ### One setting -/

namespace Key

theorem ofName?_eq_some_iff {name : Text} {key : Key} :
    ofName? name = some key ↔ key.name = name := by
  constructor
  · intro h
    unfold ofName? at h
    have hfound := List.find?_some h
    exact beq_iff_eq.mp hfound
  · intro h
    rw [← h, ofName?_name]

theorem positive_eq_ok_iff {key : Key} {n : Int} {s t : Settings} :
    key.positive n s = .ok t ↔ 1 ≤ n ∧ s = t := by
  unfold positive
  split
  · next hn => exact ⟨nofun, fun h => absurd hn (Int.not_lt.mpr h.1)⟩
  · next hn => exact ⟨fun h => ⟨Int.not_lt.mp hn, Except.ok.inj h⟩, fun h => congrArg _ h.2⟩

/-- A setting is given a value exactly when it takes it. -/
theorem exists_set_iff (key : Key) (v : Value) (s : Settings) :
    (∃ t, key.set v s = .ok t) ↔ key.Takes v := by
  cases key <;> cases v <;> simp [set, Takes, positive_eq_ok_iff]

/-- A value that a setting does not take is refused under the setting's name. -/
theorem fault_of_set {key : Key} {v : Value} {s : Settings} {fault : SettingFault}
    (h : key.set v s = .error fault) : fault.key = key ∧ fault.value = v := by
  unfold set at h
  split at h
  case h_7 | h_10 =>
    unfold positive at h
    split at h
    · rw [← Except.error.inj h]
      exact ⟨rfl, rfl⟩
    · cases h
  all_goals cases h <;> exact ⟨rfl, rfl⟩

/-- A setting that is given a value has it, and no other setting changes. -/
theorem value_set {key : Key} {v : Value} {s t : Settings} (h : key.set v s = .ok t) (other : Key) :
    t.value other = if other = key then v else s.value other := by
  unfold set at h
  split at h
  case h_7 | h_10 =>
    obtain ⟨-, rfl⟩ := positive_eq_ok_iff.mp h
    cases other <;> rfl
  all_goals cases h <;> cases other <;> rfl

end Key

/-- A fault has a message exactly if the value that is refused can be shown. -/
theorem SettingFault.exists_message_iff (fault : SettingFault) :
    (∃ text, fault.message = .ok text) ↔ fault.value.Short := by
  rw [← Value.exists_describe_iff]
  unfold message
  cases fault.value.describe <;> simp [Except.map]

namespace Settings

/-! ### The fields of a section -/

/-- Every field with a known name has a value that its setting takes. -/
def Fits (fields : List (Text × Value)) : Prop :=
  ∀ field ∈ fields, ∀ key : Key, key.name = field.1 → key.Takes field.2

/-- A field with a known name sets what it names, and any other field sets nothing. -/
theorem setField_spec (s : Settings) (field : Text × Value) :
    ((∃ t, (s.setField field).result = .ok t) ↔ ∀ key : Key, key.name = field.1 → key.Takes field.2) ∧
      ∀ t, (s.setField field).result = .ok t →
        ∀ key : Key, t.value key = if key.name = field.1 then field.2 else s.value key := by
  unfold setField
  cases hname : Key.ofName? field.1 with
  | none =>
    have hunknown (key : Key) : key.name ≠ field.1 := fun h =>
      nomatch hname.symm.trans (Key.ofName?_eq_some_iff.mpr h)
    refine ⟨⟨fun _ key h => absurd h (hunknown key), fun _ => ⟨s, rfl⟩⟩, fun t ht key => ?_⟩
    obtain rfl : s = t := Except.ok.inj ht
    rw [if_neg (hunknown key)]
  | some known =>
    have hknown (key : Key) : key.name = field.1 ↔ key = known := by
      rw [← Key.ofName?_eq_some_iff, hname, Option.some.injEq, eq_comm]
    refine ⟨(Key.exists_set_iff known field.2 s).trans ?_, fun t ht key => ?_⟩
    · exact ⟨fun h key hkey => (hknown key).mp hkey ▸ h, fun h => h known ((hknown known).mpr rfl)⟩
    · rw [Key.value_set ht, if_congr (hknown key).symm rfl rfl]

theorem fault_of_setField {s : Settings} {field : Text × Value} {fault : SettingFault}
    (h : (s.setField field).result = .error fault) :
    fault.key.name = field.1 ∧ fault.value = field.2 ∧ ¬fault.key.Takes field.2 := by
  unfold setField at h
  cases hname : Key.ofName? field.1 with
  | none =>
    rw [hname] at h
    cases h
  | some key =>
    rw [hname] at h
    obtain ⟨rfl, hvalue⟩ := Key.fault_of_set h
    refine ⟨Key.ofName?_eq_some_iff.mp hname, hvalue, fun htakes => ?_⟩
    obtain ⟨t, ht⟩ := (Key.exists_set_iff fault.key field.2 s).mpr htakes
    exact nomatch ht.symm.trans h

/-- Fields one after another are taken exactly when each of them fits. -/
theorem exists_setFields_iff (fields : List (Text × Value)) (s : Settings) :
    (∃ t, (fields.foldlM setField s).result = .ok t) ↔ Fits fields := by
  induction fields generalizing s with
  | nil => exact ⟨fun _ => List.forall_mem_nil _, fun _ => ⟨s, rfl⟩⟩
  | cons field rest ih =>
    obtain ⟨hfits, -⟩ := setField_spec s field
    rw [List.foldlM_cons, Journal.result_bind, Fits, List.forall_mem_cons, ← hfits]
    constructor
    · intro h
      obtain ⟨t, ht⟩ := h
      obtain ⟨mid, hmid, hrest⟩ := bind_eq_ok_iff.mp ht
      exact ⟨⟨mid, hmid⟩, (ih mid).mp ⟨t, hrest⟩⟩
    · intro h
      obtain ⟨⟨mid, hmid⟩, hrest⟩ := h
      obtain ⟨t, ht⟩ := (ih mid).mpr hrest
      exact ⟨t, bind_eq_ok_iff.mpr ⟨mid, hmid, ht⟩⟩

/-- The first field that does not fit, of those with known names, is the one that a fault is about. -/
def Unfit (fields : List (Text × Value)) (fault : SettingFault) : Prop :=
  ∃ before after, fields = before ++ (fault.key.name, fault.value) :: after ∧ Fits before ∧
    ¬fault.key.Takes fault.value

theorem unfit_of_setFields {fields : List (Text × Value)} {s : Settings} {fault : SettingFault}
    (h : (fields.foldlM setField s).result = .error fault) : Unfit fields fault := by
  induction fields generalizing s with
  | nil => cases h
  | cons field rest ih =>
    rw [List.foldlM_cons, Journal.result_bind] at h
    rcases bind_eq_error_iff.mp h with h | ⟨mid, hmid, h⟩
    · obtain ⟨hname, hvalue, hnot⟩ := fault_of_setField h
      rw [← hvalue] at hnot
      exact ⟨[], rest, by rw [hname, hvalue]; rfl, List.forall_mem_nil _, hnot⟩
    · obtain ⟨before, after, rfl, hbefore, hnot⟩ := ih h
      have hfits := (setField_spec s field).1.mp ⟨mid, hmid⟩
      exact ⟨field :: before, after, rfl, List.forall_mem_cons.mpr ⟨hfits, hbefore⟩, hnot⟩

/-- Fields that name no setting twice set each to the value beside its name. -/
theorem value_setFields {fields : List (Text × Value)} (hnodup : (fields.map Prod.fst).Nodup)
    {s t : Settings} (h : (fields.foldlM setField s).result = .ok t) (key : Key) :
    t.value key = (fields.lookup key.name).getD (s.value key) := by
  induction fields generalizing s with
  | nil =>
    obtain rfl : s = t := Except.ok.inj h
    rfl
  | cons field rest ih =>
    obtain ⟨name, v⟩ := field
    obtain ⟨hname, hrest⟩ := List.nodup_cons.mp hnodup
    rw [List.foldlM_cons, Journal.result_bind] at h
    obtain ⟨mid, hmid, h⟩ := bind_eq_ok_iff.mp h
    rw [ih hrest h, (setField_spec s _).2 mid hmid, List.lookup_cons]
    by_cases hkey : key.name = name
    · subst hkey
      rw [lookup_eq_none_of_notMem hname, if_pos rfl, beq_self_eq_true]
      rfl
    · rw [if_neg hkey, beq_eq_false_iff_ne.mpr hkey]

/-! ### A document -/

/-- The fields of a document's section, which is a table; a document without it has none. -/
inductive Section (document : Value) : List (Text × Value) → Prop where
  | absent (h : document.field? sectionName = none) : Section document []
  | table {fields : List (Text × Value)}
      (h : document.field? sectionName = some (.record fields)) : Section document fields

/-- Every known field of the document's section has a value that its setting takes. -/
def Accepts (document : Value) : Prop :=
  ∃ fields, Section document fields ∧ Fits fields

theorem Section.unique {document : Value} {fields fields' : List (Text × Value)}
    (h : Section document fields) (h' : Section document fields') : fields = fields' := by
  cases h with
  | absent h =>
    cases h' with
    | absent => rfl
    | table h' => cases h.symm.trans h'
  | table h =>
    cases h' with
    | absent h' => cases h.symm.trans h'
    | table h' => exact Value.record.inj (Option.some.inj (h.symm.trans h'))

/-- A document is read as its section is, if it has one to read. -/
theorem result_ofDocument {document : Value} {fields : List (Text × Value)}
    (h : Section document fields) :
    (ofDocument document).result = (ofSection fields).result.mapError .setting := by
  unfold ofDocument
  cases h with
  | absent h | table h =>
    rw [h]
    rfl

theorem ofDocument_of_not_section {document : Value} (h : ¬∃ fields, Section document fields) :
    (ofDocument document).result = .error .sectionNotTable := by
  unfold ofDocument
  split
  · next habsent => exact absurd ⟨[], .absent habsent⟩ h
  · next fields htable => exact absurd ⟨fields, .table htable⟩ h
  · rfl

/-- Why a document gives no settings: its section is no table, or a field of it does not fit. -/
inductive Refuses (document : Value) : SettingsFault → Prop where
  | sectionNotTable (h : ¬∃ fields, Section document fields) : Refuses document .sectionNotTable
  | setting {fields : List (Text × Value)} {fault : SettingFault} (h : Section document fields)
      (hunfit : Unfit fields fault) : Refuses document (.setting fault)

/-- A document gives settings exactly when it is accepted, and otherwise it is at fault itself. -/
theorem ofDocument_spec (document : Value) :
    Accepts document ∧ (∃ s, (ofDocument document).result = .ok s) ∨
      ¬Accepts document ∧
        ∃ fault, (ofDocument document).result = .error fault ∧ Refuses document fault := by
  by_cases hsection : ∃ fields, Section document fields
  · obtain ⟨fields, hsection⟩ := hsection
    have hresult := result_ofDocument hsection
    have hfits := exists_setFields_iff fields standard
    cases h : (ofSection fields).result with
    | ok s =>
      rw [h] at hresult
      exact .inl ⟨⟨fields, hsection, hfits.mp ⟨s, h⟩⟩, s, hresult⟩
    | error fault =>
      rw [h] at hresult
      refine .inr ⟨fun haccepts => ?_, _, hresult, .setting hsection (unfit_of_setFields h)⟩
      obtain ⟨fields', hsection', hfits'⟩ := haccepts
      obtain rfl := hsection.unique hsection'
      obtain ⟨s, hs⟩ := hfits.mpr hfits'
      exact nomatch h.symm.trans hs
  · refine .inr ⟨fun haccepts => ?_, _, ofDocument_of_not_section hsection,
      .sectionNotTable hsection⟩
    obtain ⟨fields, h, -⟩ := haccepts
    exact hsection ⟨fields, h⟩

theorem value_ofDocument {document : Value} {fields : List (Text × Value)}
    (hsection : Section document fields) (hnodup : (fields.map Prod.fst).Nodup) {s : Settings}
    (h : (ofDocument document).result = .ok s) (key : Key) :
    s.value key = (fields.lookup key.name).getD (standard.value key) := by
  rw [result_ofDocument hsection] at h
  cases hfields : (ofSection fields).result with
  | ok t =>
    rw [hfields] at h
    obtain rfl : t = s := Except.ok.inj h
    exact value_setFields hnodup hfields key
  | error fault =>
    rw [hfields] at h
    cases h

/-! ### A file, and the environment -/

/-- The file that settings are read from. -/
def consulted : Option String → Path
  | some name => .ofText name
  | none => .ofName standardFile

section Read
variable {lib : Libraries} {files : Files} {path : Path} {document : Value}

theorem contains_of_readDocument (h : readDocument lib files path = .ok document) :
    files.contains path = true := by
  unfold readDocument at h
  unfold Files.contains
  cases hfind : files.find path with
  | ok entry => rfl
  | error problem =>
    have hbytes : files.readBytes path = .error problem := by
      unfold Files.readBytes
      rw [hfind]
      rfl
    have htext : files.readText path = .error ⟨path, problem⟩ := by
      unfold Files.readText
      rw [hbytes]
    rw [htext] at h
    dsimp only at h
    split at h <;> cases h

/-- No name stands twice in the section of a document that is read, as none does in a table. -/
theorem nodup_of_readDocument (htoml : ∀ text v, lib.toml? text = some v → v.Distinct)
    (h : readDocument lib files path = .ok document) {fields : List (Text × Value)}
    (hsection : Section document fields) : (fields.map Prod.fst).Nodup := by
  have hdistinct : document.Distinct := by
    unfold readDocument at h
    split at h
    · split at h <;> cases h
    · split at h
      · cases h
      · next hread =>
        obtain rfl := Except.ok.inj h
        exact htoml _ _ hread
  cases hsection with
  | absent => exact .nil
  | table htable =>
    cases document with
    | record entries => exact (hdistinct.of_lookup htable).names
    | _ => cases htable

/-- The settings of a run are those of the document, and then the environment has its word. -/
theorem result_load {name : Option String}
    (h : readDocument lib files (consulted name) = .ok document) (e : Environment) :
    (load lib files e name).result = override e <$> (ofDocument document).result := by
  have hcontains := contains_of_readDocument h
  have hfile : (ofFile lib files (consulted name)).result = (ofDocument document).result := by
    unfold ofFile
    rw [Journal.result_bind_ok _ ((Journal.result_ofExcept _).trans h), Journal.result_bind]
    cases (ofDocument document).result <;> rfl
  unfold load
  cases name with
  | some name =>
    have hnamed : files.contains (.ofText name) = true := hcontains
    dsimp only
    rw [if_pos hnamed, Journal.result_bind, ← hfile]
    rfl
  | none =>
    have hstandard : files.contains (.ofName standardFile) = true := hcontains
    dsimp only
    rw [if_pos hstandard, Journal.result_bind, ← hfile]
    rfl

end Read

/-- The variable of the environment that has the last word on a setting. -/
def overriding? : Key → Option Text
  | .address => some addressVariable
  | .rpcUrl => some rpcUrlVariable
  | _ => none

/-- What the environment says of a setting. -/
def inEnvironment (e : Environment) (key : Key) : Option Value :=
  ((overriding? key).bind e.nonempty?).map .text

theorem value_override (e : Environment) (s : Settings) (key : Key) :
    (s.override e).value key = (inEnvironment e key).getD (s.value key) := by
  cases key with
  | address =>
    show Value.ofText? ((e.nonempty? addressVariable).or s.address) =
      ((e.nonempty? addressVariable).map .text).getD (.ofText? s.address)
    cases e.nonempty? addressVariable <;> rfl
  | rpcUrl =>
    show Value.ofText? ((e.nonempty? rpcUrlVariable).or s.rpcUrl) =
      ((e.nonempty? rpcUrlVariable).map .text).getD (.ofText? s.rpcUrl)
    cases e.nonempty? rpcUrlVariable <;> rfl
  | _ => rfl

/-! ### Loading -/

/-- What a document says of a setting. -/
def inDocument (document : Value) (key : Key) : Option Value :=
  (document.field? sectionName).bind (·.field? key.name)

theorem inDocument_eq_lookup {document : Value} {fields : List (Text × Value)}
    (h : Section document fields) (key : Key) : inDocument document key = fields.lookup key.name := by
  unfold inDocument
  cases h with
  | absent h | table h =>
    rw [h]
    rfl

/-- The same fields with known names, in whatever order and whatever else there is. -/
def KnownAlike (fields fields' : List (Text × Value)) : Prop :=
  (fields.filter fun field => (Key.ofName? field.1).isSome).Perm
    (fields'.filter fun field => (Key.ofName? field.1).isSome)

theorem KnownAlike.mem_iff {fields fields' : List (Text × Value)} (h : KnownAlike fields fields')
    (key : Key) (v : Value) : (key.name, v) ∈ fields ↔ (key.name, v) ∈ fields' := by
  have hmem : (key.name, v) ∈ _ ↔ (key.name, v) ∈ _ := List.Perm.mem_iff h
  simpa [List.mem_filter, Key.ofName?_name] using hmem

theorem KnownAlike.fits {fields fields' : List (Text × Value)} (h : KnownAlike fields fields')
    (hfits : Fits fields) : Fits fields' := by
  intro field hfield key hkey
  obtain ⟨name, v⟩ := field
  subst hkey
  exact hfits (key.name, v) ((h.mem_iff key v).mpr hfield) key rfl

theorem KnownAlike.lookup_eq {fields fields' : List (Text × Value)} (h : KnownAlike fields fields')
    (hnodup : (fields.map Prod.fst).Nodup) (hnodup' : (fields'.map Prod.fst).Nodup) (key : Key) :
    fields.lookup key.name = fields'.lookup key.name := by
  refine Option.ext fun v => ?_
  rw [lookup_eq_some_iff_mem hnodup, lookup_eq_some_iff_mem hnodup', h.mem_iff key v]

section Load
variable {lib : Libraries} {files files' : Files} {name name' : Option String}
  {document document' : Value}

theorem exists_load_iff (hread : readDocument lib files (consulted name) = .ok document)
    (e : Environment) : (∃ s, (load lib files e name).result = .ok s) ↔ Accepts document := by
  rw [result_load hread]
  rcases ofDocument_spec document with ⟨haccepts, s, hs⟩ | ⟨hnot, fault, hfault, -⟩
  · exact ⟨fun _ => haccepts, fun _ => ⟨_, map_eq_ok_iff.mpr ⟨s, hs, rfl⟩⟩⟩
  · refine ⟨fun h => ?_, fun h => absurd h hnot⟩
    obtain ⟨_, h⟩ := h
    obtain ⟨s, hs, -⟩ := map_eq_ok_iff.mp h
    cases hs.symm.trans hfault

/-- A document that is not accepted is refused, whatever the environment says. -/
theorem refuses_of_not_accepts (hread : readDocument lib files (consulted name) = .ok document)
    (hnot : ¬Accepts document) : ∃ fault, Refuses document fault ∧
      ∀ e, (load lib files e name).result = .error fault := by
  rcases ofDocument_spec document with ⟨haccepts, -⟩ | ⟨-, fault, hfault, hrefuses⟩
  · exact absurd haccepts hnot
  · refine ⟨fault, hrefuses, fun e => ?_⟩
    rw [result_load hread]
    exact map_eq_error_iff.mpr hfault

theorem value_load (htoml : ∀ text v, lib.toml? text = some v → v.Distinct)
    (hread : readDocument lib files (consulted name) = .ok document) {e : Environment}
    {s : Settings} (h : (load lib files e name).result = .ok s) (key : Key) :
    s.value key =
      (inEnvironment e key).getD ((inDocument document key).getD (standard.value key)) := by
  obtain ⟨fields, hsection, -⟩ := (exists_load_iff hread e).mp ⟨s, h⟩
  rw [result_load hread] at h
  obtain ⟨t, ht, rfl⟩ := map_eq_ok_iff.mp h
  rw [value_override, inDocument_eq_lookup hsection,
    value_ofDocument hsection (nodup_of_readDocument htoml hread hsection) ht]

/-- Documents whose sections have the same known fields give the same settings. -/
theorem load_of_knownAlike (htoml : ∀ text v, lib.toml? text = some v → v.Distinct)
    (hread : readDocument lib files (consulted name) = .ok document)
    (hread' : readDocument lib files' (consulted name') = .ok document')
    {fields fields' : List (Text × Value)} (hsection : Section document fields)
    (hsection' : Section document' fields') (halike : KnownAlike fields fields') {e : Environment}
    {s : Settings} (h : (load lib files e name).result = .ok s) :
    (load lib files' e name').result = .ok s := by
  obtain ⟨_, hown, hfits⟩ := (exists_load_iff hread e).mp ⟨s, h⟩
  obtain rfl := hsection.unique hown
  obtain ⟨t, ht⟩ := (exists_load_iff hread' e).mpr ⟨fields', hsection', halike.fits hfits⟩
  have hsame : s = t := by
    refine ext_value fun key => ?_
    rw [value_load htoml hread h, value_load htoml hread' ht, inDocument_eq_lookup hsection,
      inDocument_eq_lookup hsection', halike.lookup_eq (nodup_of_readDocument htoml hread hsection)
        (nodup_of_readDocument htoml hread' hsection')]
  rw [ht, hsame]

/-- **A document gives settings exactly when its section is a table, if it has one, whose known
fields all have values that their settings take. Otherwise it is refused for the section or for the
first field that does not fit, whatever the environment says, and with a message unless the refused
value has a number that cannot be shown. A setting then is what the environment says, or else the
document, or else the standard; and neither the order of the fields nor any with unknown names make a
difference.** -/
theorem load_merges (htoml : ∀ text v, lib.toml? text = some v → v.Distinct)
    (hread : readDocument lib files (consulted name) = .ok document) :
    (∀ e, (∃ s, (load lib files e name).result = .ok s) ↔ Accepts document) ∧
      (¬Accepts document → ∃ fault, Refuses document fault ∧
        (∀ e, (load lib files e name).result = .error fault) ∧
        ((∃ text, fault.message = .ok text) ↔
          ∀ refused, fault = .setting refused → refused.value.Short)) ∧
      (∀ e s, (load lib files e name).result = .ok s → ∀ key, s.value key =
        (inEnvironment e key).getD ((inDocument document key).getD (standard.value key))) ∧
      ∀ files' name' document', readDocument lib files' (consulted name') = .ok document' →
        ∀ fields fields', Section document fields → Section document' fields' →
          KnownAlike fields fields' →
            ∀ e s, (load lib files e name).result = .ok s ↔
              (load lib files' e name').result = .ok s := by
  refine ⟨exists_load_iff hread, fun hnot => ?_, fun e s h => value_load htoml hread h, ?_⟩
  · obtain ⟨fault, hrefuses, hload⟩ := refuses_of_not_accepts hread hnot
    refine ⟨fault, hrefuses, hload, ?_⟩
    cases hrefuses with
    | sectionNotTable => exact ⟨fun _ => nofun, fun _ => ⟨_, rfl⟩⟩
    | @setting _ refused =>
      refine refused.exists_message_iff.trans ⟨fun h other heq => ?_, fun h => h refused rfl⟩
      exact SettingsFault.setting.inj heq ▸ h
  · intro files' name' document' hread' fields fields' hsection hsection' halike e s
    exact ⟨load_of_knownAlike htoml hread hread' hsection hsection' halike,
      load_of_knownAlike htoml hread' hread hsection' hsection halike.symm⟩

end Load

/-- The standard file, with a node and a number of workers in it. -/
def mainnetFiles : Files where
  entries := [(.ofName standardFile, .file (Text.toUtf8
    "[layout_checker]\nrpc_url = \"mainnet\"\nmax_workers = 4\n"))]

/-- A node in the environment takes the place of the one in the document. -/
theorem load_merges_overridden :
    ∃ document s, readDocument .standard mainnetFiles (consulted none) = .ok document ∧
      Accepts document ∧
      (load .standard mainnetFiles ⟨[(rpcUrlVariable, "http://node")]⟩ none).result = .ok s ∧
      s.value .rpcUrl = .text "http://node" := by
  have hreads : (readDocument .standard mainnetFiles (consulted none)).toBool = true := by
    decide +kernel
  have hloads :
      (load .standard mainnetFiles ⟨[(rpcUrlVariable, "http://node")]⟩ none).result.toBool = true :=
    by decide +kernel
  obtain ⟨document, hread⟩ := exists_ok_of_toBool hreads
  obtain ⟨s, hload⟩ := exists_ok_of_toBool hloads
  obtain ⟨haccepts, -, hvalue, -⟩ :=
    load_merges (fun _ _ => Toml.distinct_of_read?) hread
  exact ⟨document, s, hread, (haccepts _).mp ⟨s, hload⟩, hload, hvalue _ s hload .rpcUrl⟩

/-- The standard file, with a hexadecimal number of 3600 digits where a flag belongs. -/
def longFlagFiles : Files where
  entries := [(.ofName standardFile, .file (Text.toUtf8
    "[layout_checker]\ncheck_removals = 0x" ++ List.replicate 3600 0x66))]

def longFlagText : List Char :=
  "[layout_checker]\ncheck_removals = 0x".toList ++ List.replicate 3600 'f'

def longFlag : Int := (Nat.pow 16 3600 : Nat) - 1

/-- A document with a number for the flag. -/
def flagDocument (n : Int) : Value :=
  .record [(sectionName, .record [("check_removals", .int n)])]

theorem readDocument_of_ofUtf8? {lib : Libraries} {bytes : Bytes} {cs : List Char} {v : Value}
    (hbytes : Text.ofUtf8? bytes = some cs)
    (hv : lib.toml? (String.ofList (Text.unixLines cs)) = some v) :
    readDocument lib ⟨[(.ofName standardFile, .file bytes)]⟩ (consulted none) = .ok v := by
  have hfile : Files.readBytes ⟨[(.ofName standardFile, .file bytes)]⟩ (consulted none) =
      .ok bytes := rfl
  unfold readDocument Files.readText
  rw [hfile]
  dsimp only
  rw [hbytes]
  dsimp only
  rw [hv]

theorem standard_toml? (cs : List Char) :
    Libraries.standard.toml? (String.ofList cs) = Toml.read? cs :=
  congrArg Toml.read? String.toList_ofList

theorem readDocument_longFlag :
    readDocument .standard longFlagFiles (consulted none) = .ok (flagDocument longFlag) := by
  have hread : Toml.read? longFlagText = some (flagDocument longFlag) := by decide +kernel
  have hlines : Text.unixLines longFlagText = longFlagText := by decide +kernel
  have hbytes : Text.ofUtf8? (Text.toUtf8 "[layout_checker]\ncheck_removals = 0x" ++
      List.replicate 3600 0x66) = some longFlagText := by decide +kernel
  refine readDocument_of_ofUtf8? hbytes ?_
  rw [hlines, standard_toml?, hread]

/-- The number is refused, and not even its message can be written. -/
theorem longFlag_refused : ∃ document fault,
    readDocument .standard longFlagFiles (consulted none) = .ok document ∧ ¬Accepts document ∧
      (∀ e, (load .standard longFlagFiles e none).result = .error fault) ∧
      ¬∃ text, fault.message = .ok text := by
  have hload (e : Environment) : (load .standard longFlagFiles e none).result =
      .error (.setting (.wrongType .checkRemovals (.int longFlag))) := by
    rw [result_load readDocument_longFlag, result_ofDocument (.table rfl)]
    rfl
  have hlong : ¬Numeral.Short longFlag := by decide +kernel
  refine ⟨_, _, readDocument_longFlag, fun haccepts => ?_, hload, fun htold => ?_⟩
  · obtain ⟨s, hs⟩ := (exists_load_iff readDocument_longFlag ⟨[]⟩).mpr haccepts
    rw [hload] at hs
    cases hs
  · have hshort := (SettingFault.exists_message_iff (.wrongType .checkRemovals (.int longFlag))).mp htold
    rw [SettingFault.value, Value.Short] at hshort
    exact hlong hshort

end Settings

end UpgradeSafety
