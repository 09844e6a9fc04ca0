import UpgradeSafety.Proofs.Diff.Messages
import UpgradeSafety.Proofs.Json.Ascii
import UpgradeSafety.Proofs.Json.Documents
import UpgradeSafety.Proofs.Session.Inputs

/-! What a run prints and how it ends once a check has come to differences. The inputs are read and
examined in silence (`Session.silent_prepare`, `Session.silent_examine`), so nothing but the
differences is printed (`Session.check_tells`). Each of them is printed once, and the exit status is
zero exactly when every slot was read and there are no differences but new names
(`Session.run_tells_verdict`). A document is judged by what is read back from it
(`Json.read?_indented`), and has ASCII characters only (`Json.ascii_write`). A text that the output
cannot show ends the printing and the run (`Session.Presents`). -/
namespace UpgradeSafety

/-! ### What is printed -/

/-- The text that an event puts on the output. -/
def SessionEvent.text? : SessionEvent → Option Text
  | .printed text => some text
  | _ => none

/-- What is printed, piece by piece. -/
def printed (events : List SessionEvent) : List Text :=
  events.filterMap SessionEvent.text?

theorem printed_append (events more : List SessionEvent) :
    printed (events ++ more) = printed events ++ printed more :=
  List.filterMap_append

/-- What is printed is no part of the log, whatever the log leaves out. -/
theorem printed_filter_passes (threshold : Nat) (events : List SessionEvent) :
    printed (events.filter (SessionEvent.passes threshold)) = printed events := by
  unfold printed
  rw [List.filterMap_filter]
  refine List.filterMap_congr fun e _ => ?_
  cases e with
  | printed text => rfl
  | _ => exact ite_self none

/-- Prints nothing. -/
def Silent {ε α : Type} (x : Journal SessionEvent ε α) : Prop :=
  printed x.notes = []

section Silent
variable {ε ε' α β : Type}

theorem Silent.pure (a : α) : Silent (pure a : Journal SessionEvent ε α) := rfl

theorem Silent.fail (e : ε) : Silent (.fail e : Journal SessionEvent ε α) := rfl

theorem Silent.ofExcept (r : Except ε α) : Silent (.ofExcept r) := rfl

theorem Silent.logged (severity : Severity) (text : Text) :
    Silent (.note (.logged severity text) : Journal SessionEvent ε Unit) := rfl

theorem Silent.bind {x : Journal SessionEvent ε α} {f : α → Journal SessionEvent ε β}
    (hx : Silent x) (hf : ∀ a, Silent (f a)) : Silent (x >>= f) := by
  unfold Silent
  cases h : x.result with
  | error e => rwa [Journal.notes_bind_error f h]
  | ok a => rw [Journal.notes_bind_ok f h, printed_append, hx, hf a, List.append_nil]

theorem Silent.mapError {x : Journal SessionEvent ε α} (hx : Silent x) (f : ε → ε') :
    Silent (x.mapError f) := hx

theorem Silent.attempt {x : Journal SessionEvent ε α} (hx : Silent x) :
    Silent (x.attempt : Journal SessionEvent ε' (Except ε α)) := hx

/-- Events of another kind print nothing. -/
theorem Silent.mapNotes {ω : Type} {f : ω → SessionEvent} (hf : ∀ n, (f n).text? = none)
    (x : Journal ω ε α) : Silent (x.mapNotes f) := by
  show (x.notes.map f).filterMap SessionEvent.text? = []
  rw [List.filterMap_map, List.filterMap_eq_nil_iff]
  exact fun n _ => hf n

/-- What comes after a silent step is all that is printed. -/
theorem printed_bind {x : Journal SessionEvent ε α} {a : α} (hx : Silent x)
    (h : x.result = .ok a) (f : α → Journal SessionEvent ε β) :
    printed (x >>= f).notes = printed (f a).notes := by
  rw [Journal.notes_bind_ok f h, printed_append, hx, List.nil_append]

end Silent

/-- How a run ends that is stopped. -/
def Stop.outcome : Stop → Except Crash Outcome
  | .crash c => .error c
  | .input fault =>
    match fault.message with
    | .ok _ => .ok (.status 2)
    | .error long => .error (.longNumber long)
  | .unsound _ => .ok (.status 2)

/-- Whether the output can show all of a text. -/
def Host.CanShow (h : Host) (text : Text) : Prop :=
  text.all h.shows = true

namespace Session

/-! ### Inputs are read in silence -/

theorem silent_readReport (text : String) : Silent (readReport text) := by
  unfold readReport
  split
  · exact .bind (.logged ..) fun _ => .pure _
  · exact .bind (.logged ..) fun _ => .fail _
  · exact .fail _

theorem silent_loadReport (files : Files) (name : String) : Silent (loadReport files name) :=
  .bind (.logged ..) fun _ => .bind (.ofExcept _) silent_readReport

theorem silent_keep (files : Files) (name : Option String) (text : String) :
    Silent (keep files name text) := by
  unfold keep
  split
  · exact .pure _
  · exact .bind (.ofExcept _) fun _ => .bind rfl fun _ => .bind (.logged ..) fun _ => .pure _

theorem silent_inspect (outcome : CommandOutcome) (contract cwd : String) (timeout : Int) :
    Silent (Forge.inspect outcome contract cwd timeout) := by
  refine .bind (.logged ..) fun _ => .bind rfl fun _ => ?_
  cases outcome with
  | notFound => exact .fail _
  | timedOut => exact .fail _
  | finished code output errors =>
    dsimp only
    split
    · exact .pure _
    · exact .bind (.logged ..) fun _ => .fail _

theorem silent_loadCandidate (h : Host) (a : Arguments) (s : Settings) :
    Silent (loadCandidate h a s) := by
  unfold loadCandidate
  split
  · exact .fail _
  · exact .bind (silent_loadReport ..) fun _ => .pure _
  · refine .bind ((silent_inspect ..).mapError _) fun text => .bind (silent_keep ..) fun files => ?_
    exact .bind (silent_readReport text) fun _ => .pure _

theorem silent_connect (h : Host) (s : Settings) (address url : Option Text) :
    Silent (connect h s address url) := by
  unfold connect
  dsimp only
  split
  · exact .bind rfl fun _ => .pure _
  · exact .pure _

theorem silent_prepare (h : Host) (a : Arguments) (s : Settings) : Silent (prepare h a s) := by
  refine .bind (silent_loadReport ..) fun src => .bind (silent_loadCandidate ..) fun (cmp, files) =>
    .bind ((Silent.mapNotes (fun _ => rfl) _).mapError _) fun url => ?_
  dsimp only
  split
  · exact .fail _
  · exact .bind (silent_connect ..) fun _ => .pure _

theorem silent_examine (h : Host) (i : Inputs) (checkRemovals : Bool) (workers : Workers) :
    Silent (examine h i checkRemovals workers) := by
  refine .bind (.attempt (.mapNotes (fun _ => rfl) _)) fun answer => ?_
  split
  · exact .pure _
  · exact .fail _
  · exact .fail _
  · exact .bind (.logged ..) fun _ => .pure _

/-- A source is opened or done without, and nothing is printed of it. -/
theorem exists_located (files : Files) (a : Arguments) (diffs : List Diff) :
    ∃ source, (locate files a diffs).result = .ok source ∧ Silent (locate files a diffs) := by
  unfold locate
  split
  · exact ⟨none, rfl, .pure _⟩
  · dsimp only
    split
    · exact ⟨none, rfl, .pure _⟩
    · split
      · exact ⟨_, rfl, .pure _⟩
      · exact ⟨none, rfl, .bind (.logged ..) fun _ => .pure _⟩

/-! ### The findings are shown -/

/-- The line of a difference: the level, the title and the message of its diagnostic, and where a
source is named, the position in it. -/
def IsLine (locator : Option Source.Locator) (path : Option Path) (d : Diff) (text : Text) : Prop :=
  ∃ item, Diagnostic.ofDiff locator d = .ok item ∧ ∃ position : Text,
    text = "[" ++ item.kind.level.name ++ "] " ++ item.kind.title ++ ": " ++ item.message ++
      position ++ "\n" ∧
    match path with
    | none => position = []
    | some path => position = " (" ++ path.text ++ ":" ++ toString item.range.start.line ++ ":" ++
        toString item.range.start.column ++ ")"

/-- What is read of a record in a document: the fields of the difference, beside those of its
diagnostic. A surrogate pair is read as one character. -/
def IsRecord (locator : Option Source.Locator) (d : Diff) (r : Value) : Prop :=
  ∃ item, Diagnostic.ofDiff locator d = .ok item ∧
    ∀ key, r.field? key = ((d.fields.lookup key).or (item.fields.lookup key)).map Value.joined

/-- Texts that show differences, one item for each and in their order: a line, or a record of a single
document. The document is ASCII and is read back as these records, as long as no number in them is too
long for a reader. -/
inductive Shows (locator : Option Source.Locator) (path : Option Path) (diffs : List Diff) :
    Bool → List Text → Prop where
  | lines {texts : List Text} (hlines : List.Forall₂ (IsLine locator path) diffs texts) :
      Shows locator path diffs false texts
  | document {records : List Value} {text : Text}
      (hrecords : List.Forall₂ (IsRecord locator) diffs records)
      (hread : (∀ r ∈ records, r.Short) → Json.read? text = some (.list records))
      (hascii : text.Ascii) :
      Shows locator path diffs true [text]

theorem nodup_fields (d : Diff) : (d.fields.map Prod.fst).Nodup := by
  show List.Nodup (α := Text)
    ["type", "slot", "offset", "parent", "src", "src_type", "cmp", "cmp_type", "value"]
  decide

/-- The names of the fields in the record of a difference. -/
def recordNames : List Text :=
  ["type", "level", "title", "message", "loc", "slot", "offset", "parent", "src", "src_type", "cmp",
    "cmp_type", "value"]

/-- In the record of a difference its own fields come first. -/
theorem field?_record (item : Diagnostic) (d : Diff) (key : Text) :
    (record item d).joined.field? key =
      ((d.fields.lookup key).or (item.fields.lookup key)).map Value.joined := by
  have hnames : ∀ name ∈ recordNames, name.joinHalves = name := by decide
  have hown (fields : List (Text × Value)) (field : Text × Value) :
      (Value.put fields field.1 field.2).lookup field.1 = some field.2 := by
    rw [Value.lookup_put, if_pos rfl]
  have hother (fields : List (Text × Value)) (field : Text × Value) (key : Text)
      (h : key ≠ field.1) : (Value.put fields field.1 field.2).lookup key = fields.lookup key := by
    rw [Value.lookup_put, if_neg h]
  have hput := get_foldl_put (fun fields key => fields.lookup key)
    (fun fields field => Value.put fields field.1 field.2) hown hother (nodup_fields d) item.fields key
  rw [← hput]
  refine Value.lookup_joinedFields _ ?_ key
  exact hnames

/-- The record of a difference is read as it was written, if its numbers can be. -/
theorem returns_record {item : Diagnostic} {d : Diff} (h : (record item d).joined.Short) :
    (record item d).Returns := by
  have htext (s : Option Text) : (Value.ofText? s).Returns := by
    cases s <;> trivial
  obtain ⟨-, -, -, -, ⟨⟨hline, hcolumn, -⟩, ⟨hline', hcolumn', -⟩, -⟩, -, hoffset, -⟩ := h
  have hnames : (recordNames.map Text.joinHalves).Nodup := by decide
  have hends : (["start", "end"].map fun name : Text => name.joinHalves).Nodup := by decide
  have hplace : (["line", "column"].map fun name : Text => name.joinHalves).Nodup := by decide
  exact ⟨hnames, trivial, trivial, trivial, trivial,
    ⟨hends, ⟨hplace, hline, hcolumn, trivial⟩, ⟨hplace, hline', hcolumn', trivial⟩, trivial⟩,
    trivial, hoffset, htext _, htext _, htext _, htext _, htext _, htext _, trivial⟩

theorem display_shows {locator : Option Source.Locator} {diffs : List Diff}
    {items : List Diagnostic} (json : Bool) (path : Option Path)
    (hitems : List.Forall₂ (fun d item => Diagnostic.ofDiff locator d = .ok item) diffs items) :
    Shows locator path diffs json (display json path (items.zip diffs)) := by
  -- the differences stand beside their diagnostics
  have hpaired {α : Type} (R : Diff → α → Prop) (f : Diagnostic × Diff → α)
      (h : ∀ item d, Diagnostic.ofDiff locator d = .ok item → R d (f (item, d))) :
      List.Forall₂ R diffs ((items.zip diffs).map f) := by
    have hsnd : (items.zip diffs).map Prod.snd = diffs :=
      List.map_snd_zip (Nat.le_of_eq hitems.length_eq)
    conv in diffs => rw [← hsnd]
    rw [List.forall₂_map_left_iff, List.forall₂_map_right_iff, List.forall₂_same]
    exact fun entry hentry => h _ _ ((List.forall₂_iff_zip.mp hitems.flip).2 hentry)
  cases json with
  | false =>
    refine .lines (hpaired _ _ fun item d hitem => ⟨item, hitem, _, rfl, ?_⟩)
    cases path <;> rfl
  | true =>
    refine .document (hpaired _ (fun entry => (record entry.1 entry.2).joined)
      fun item d hitem => ⟨item, hitem, field?_record item d⟩) (fun hshort => ?_)
      ((Json.ascii_write 0 _).append (by decide))
    have hreturns : (document (items.zip diffs)).Returns :=
      Value.returnsItems_iff.mpr (List.forall_mem_map.mpr fun entry hentry =>
        returns_record (hshort _ (List.mem_map_of_mem hentry)))
    rw [Json.read?_indented hreturns (by decide), document, Value.joined, Value.joinedItems_eq_map,
      List.map_map]
    rfl

/-- The exit status is zero where every slot was read and nothing is worse than a new name. -/
theorem status_eq_zero_iff {locator : Option Source.Locator} {diffs : List Diff}
    {items : List Diagnostic} (unread : Bool)
    (hitems : List.Forall₂ (fun d item => Diagnostic.ofDiff locator d = .ok item) diffs items) :
    status unread items = 0 ↔ unread = false ∧ ∀ d ∈ diffs, d.kind = .label := by
  have hlevel : items.any (·.kind.level == .error) = false ↔ ∀ d ∈ diffs, d.kind = .label := by
    induction hitems with
    | nil => exact ⟨fun _ => List.forall_mem_nil _, fun _ => rfl⟩
    | @cons d item _ _ hitem _ ih =>
      have hkind : item.kind = d.kind := Diagnostic.kind_of_ofDiff hitem
      rw [List.any_cons, Bool.or_eq_false_iff, List.forall_mem_cons, ih, hkind,
        beq_eq_false_iff_ne, ne_eq, DiffKind.level_eq_error_iff, not_not]
  unfold status
  cases unread with
  | true => exact ⟨nofun, fun h => nomatch h.1⟩
  | false =>
    rw [Bool.false_or, ← hlevel]
    cases items.any (·.kind.level == .error) <;> simp

/-! ### The run -/

/-- What texts come to that are printed one after another, and what a run comes to that has printed
them. All of them can be shown, and the status is zero in the good case, or else one; or the first one
that cannot be shown is the end. -/
inductive Presents (h : Host) (texts : List Text) (good : Prop) :
    List Text → Except Crash Nat → Prop where
  | told (hshown : ∀ text ∈ texts, h.CanShow text) {n : Nat} (hn : n = 0 ∨ n = 1)
      (hgood : n = 0 ↔ good) : Presents h texts good texts (.ok n)
  | notShown {before after : List Text} {text : Text} (htexts : texts = before ++ text :: after)
      (hbefore : ∀ text ∈ before, h.CanShow text) (htext : ¬h.CanShow text) :
      Presents h texts good before (.error (.notShown text))

/-- Texts are printed up to the first one that cannot be shown, if there is one. -/
theorem forM_print_spec (h : Host) (texts : List Text) :
    ((texts.forM (print h)).result = .ok () ∧ printed (texts.forM (print h)).notes = texts ∧
        ∀ text ∈ texts, h.CanShow text) ∨
      ∃ before text after, texts = before ++ text :: after ∧ (∀ text ∈ before, h.CanShow text) ∧
        ¬h.CanShow text ∧ (texts.forM (print h)).result = .error (.crash (.notShown text)) ∧
        printed (texts.forM (print h)).notes = before := by
  induction texts with
  | nil => exact .inl ⟨rfl, rfl, List.forall_mem_nil _⟩
  | cons text rest ih =>
    rw [List.forM]
    by_cases htext : h.CanShow text
    · have hprint : print h text = .note (.printed text) := if_pos htext
      rw [hprint, Journal.result_bind_ok _ (Journal.result_note _),
        Journal.notes_bind_ok _ (Journal.result_note _), printed_append]
      rcases ih with ⟨hresult, hprinted, hshown⟩ |
        ⟨before, long, after, rfl, hbefore, hlong, hresult, hprinted⟩
      · exact .inl ⟨hresult, congrArg (text :: ·) hprinted, List.forall_mem_cons.mpr ⟨htext, hshown⟩⟩
      · exact .inr ⟨text :: before, long, after, rfl, List.forall_mem_cons.mpr ⟨htext, hbefore⟩, hlong,
          hresult, congrArg (text :: ·) hprinted⟩
    · have hprint : print h text = .fail (.crash (.notShown text)) := if_neg htext
      rw [hprint]
      exact .inr ⟨[], text, rest, rfl, List.forall_mem_nil _, htext, rfl, rfl⟩

/-- Differences that can be told are shown as far as the output can, and judged by their kinds. -/
theorem present_tellable (h : Host) (a : Arguments) (files : Files) (f : Findings)
    (htellable : ∀ d ∈ f.diffs, d.Tellable) :
    ∃ source texts r, (locate files a f.diffs).result = .ok source ∧
      Shows (source.map (·.2)) (source.map (·.1)) f.diffs a.json texts ∧
      Presents h texts (f.unread = false ∧ ∀ d ∈ f.diffs, d.kind = .label)
        (printed (present h a files f).notes) r ∧
      (present h a files f).result = r.mapError .crash := by
  obtain ⟨source, hsource, hsilent⟩ := exists_located files a f.diffs
  have htold : ∀ d ∈ f.diffs, ∃ item, Diagnostic.ofDiff (source.map (·.2)) d = .ok item :=
    fun d hd => (htellable d hd).exists_diagnostic _
  obtain ⟨items, hitems⟩ := exists_mapM htold
  have hforall := mapM_eq_ok_iff.mp hitems
  have hformatted : (.ofExcept ((f.diffs.mapM (Diagnostic.ofDiff (source.map (·.2)))).mapError
      fun fault => .crash (.untold fault)) : Journal SessionEvent Stop _).result = .ok items := by
    rw [Journal.result_ofExcept, hitems]
    rfl
  have hstatus := status_eq_zero_iff f.unread hforall
  have hone : status f.unread items = 0 ∨ status f.unread items = 1 := by
    unfold status
    split
    · exact .inr rfl
    · exact .inl rfl
  -- the line that ends the log prints nothing
  have hlast (severity : Severity) (text : Text) (n : Nat) : Silent (ε := Stop)
      (.note (.logged severity text) >>= fun _ => pure n) :=
    .bind (.logged ..) fun _ => .pure _
  refine ⟨source, display a.json (source.map (·.1)) (items.zip f.diffs), ?_⟩
  unfold present
  rw [printed_bind hsilent hsource, printed_bind (.ofExcept _) hformatted,
    Journal.result_bind_ok _ hsource, Journal.result_bind_ok _ hformatted]
  rcases forM_print_spec h (display a.json (source.map (·.1)) (items.zip f.diffs)) with
    ⟨hresult, hprinted, hshown⟩ | ⟨before, text, after, htexts, hbefore, htext, hresult, hprinted⟩
  · refine ⟨.ok (status f.unread items), hsource, display_shows a.json _ hforall, ?_, ?_⟩
    · rw [Journal.notes_bind_ok _ hresult, printed_append, hprinted]
      dsimp only
      split
      · rw [hlast, List.append_nil]
        exact .told hshown hone hstatus
      · rw [hlast, List.append_nil]
        exact .told hshown hone hstatus
    · rw [Journal.result_bind_ok _ hresult]
      dsimp only
      split <;> rfl
  · refine ⟨.error (.notShown text), hsource, display_shows a.json _ hforall, ?_, ?_⟩
    · rw [Journal.notes_bind_error _ hresult, hprinted]
      exact .notShown htexts hbefore htext
    · rw [Journal.result_bind, hresult]
      rfl

/-- A fault of a layout or a word that is too short stops a run, slots that were not read do not. -/
theorem result_examine (h : Host) (i : Inputs) (checkRemovals : Bool) (workers : Workers) :
    (examine h i checkRemovals workers).result =
      match (Layout.check h.libraries.hash i.src i.cmp checkRemovals i.address i.reader
        workers).result with
      | .ok ds => .ok ⟨ds, false⟩
      | .error (.expansion fault) => .error (.ofExpansion fault)
      | .error .shortWord => .error (.crash .shortWord)
      | .error (.unread _ ds) => .ok ⟨ds, true⟩ := by
  unfold examine
  dsimp only
  rw [Journal.result_bind_ok _ (Journal.result_attempt _), Journal.result_mapNotes]
  generalize (Layout.check h.libraries.hash i.src i.cmp checkRemovals i.address i.reader
    workers).result = answer
  cases answer with
  | ok ds => rfl
  | error fault => cases fault <;> rfl

/-- A check that comes to differences, in full or not, has been examined. -/
theorem examine_tells {h : Host} {i : Inputs} {checkRemovals : Bool} {workers : Workers}
    {ds : List Diff} {unread : Bool}
    (hcheck : Layout.Tells (Layout.check h.libraries.hash i.src i.cmp checkRemovals i.address i.reader
      workers).result ds unread) :
    (examine h i checkRemovals workers).result = .ok ⟨ds, unread⟩ := by
  rw [result_examine]
  cases hcheck with
  | inFull hcheck | inPart hcheck => rw [hcheck]

/-- Every end of a check has a status, unless it is a crash or its message cannot be written. -/
theorem result_conclude (x : Journal SessionEvent Stop Nat) :
    (conclude x).result =
      match x.result with
      | .ok n => .ok (.status n)
      | .error stop => stop.outcome := by
  unfold conclude
  rw [Journal.result_bind_ok _ (Journal.result_attempt _)]
  cases x.result with
  | ok n => rfl
  | error stop =>
    cases stop with
    | crash | unsound => rfl
    | input fault =>
      dsimp only [Stop.outcome]
      cases fault.message <;> rfl

theorem printed_conclude (x : Journal SessionEvent Stop Nat) :
    printed (conclude x).notes = printed x.notes := by
  unfold conclude
  rw [Journal.notes_bind_ok _ (Journal.result_attempt _), printed_append]
  cases x.result with
  | ok n => exact List.append_nil _
  | error stop =>
    cases stop with
    | crash | unsound => exact List.append_nil _
    | input fault =>
      dsimp only
      cases fault.message <;> exact List.append_nil _

/-- With settings that name a level, a run is a check, and the settings are read in silence. -/
theorem perform_of_settings {h : Host} {a : Arguments} {s : Settings}
    (hsettings : (Settings.load h.libraries h.files h.environment a.config).result = .ok s)
    (hlevel : ∃ rank, threshold? a s = some rank) :
    (perform h a).result = (conclude (check h a s)).result ∧
      printed (perform h a).notes = printed (check h a s).notes := by
  obtain ⟨rank, hrank⟩ := hlevel
  have hloaded : ((((Settings.load h.libraries h.files h.environment a.config).mapNotes
      SessionEvent.log).filterNotes (SessionEvent.passes Severity.warning.rank)).attempt :
      Journal SessionEvent Crash _).result = .ok (.ok s) := congrArg Except.ok hsettings
  have hsilent : Silent ((((Settings.load h.libraries h.files h.environment a.config).mapNotes
      SessionEvent.log).filterNotes (SessionEvent.passes Severity.warning.rank)).attempt :
      Journal SessionEvent Crash (Except SettingsFault Settings)) :=
    (printed_filter_passes _ _).trans (Silent.mapNotes (fun _ => rfl) _)
  unfold perform
  dsimp only
  constructor
  · rw [Journal.result_bind_ok _ hloaded]
    dsimp only
    rw [hrank]
    rfl
  · rw [printed_bind hsilent hloaded]
    dsimp only
    rw [hrank]
    exact (printed_filter_passes _ _).trans (printed_conclude _)

/-- With settings a run is a check that is brought to an end. -/
theorem run_of_settings {h : Host} {argv : List String} {a : Arguments}
    (hargv : Arguments.read argv = .done a) {s : Settings}
    (hsettings : (Settings.load h.libraries h.files h.environment a.config).result = .ok s)
    (hlevel : ∃ rank, threshold? a s = some rank) :
    (run h argv).result = (conclude (check h a s)).result ∧
      printed (run h argv).notes = printed (check h a s).notes := by
  have hrun : run h argv = perform h a := by
    unfold run
    rw [hargv]
  rw [hrun]
  exact perform_of_settings hsettings hlevel

/-- The part that the settings govern shows what the check has come to, and judges it. -/
theorem check_tells {h : Host} {a : Arguments} {s : Settings} {i : Inputs}
    (hinputs : (prepare h a s).result = .ok i) {ds : List Diff} {unread : Bool}
    (hcheck : Layout.Tells (Layout.check h.libraries.hash i.src i.cmp
      (a.checkRemovals || s.checkRemovals) i.address i.reader (.inOrder s.maxWorkers)).result ds
      unread) :
    ∃ source texts r, (locate i.files a ds).result = .ok source ∧
      Shows (source.map (·.2)) (source.map (·.1)) ds a.json texts ∧
      Presents h texts (unread = false ∧ ∀ d ∈ ds, d.kind = .label)
        (printed (check h a s).notes) r ∧
      (check h a s).result = r.mapError .crash := by
  have hfound := examine_tells hcheck
  have hresult : (check h a s).result = (present h a i.files ⟨ds, unread⟩).result := by
    unfold check
    rw [Journal.result_bind_ok _ hinputs, Journal.result_bind_ok _ hfound]
  have hprinted : printed (check h a s).notes = printed (present h a i.files ⟨ds, unread⟩).notes := by
    unfold check
    rw [printed_bind (silent_prepare h a s) hinputs, printed_bind (silent_examine ..) hfound]
  rw [hprinted, hresult]
  exact present_tellable h a i.files ⟨ds, unread⟩
    fun d hd => (Layout.formed_of_tells hcheck d hd).tellable

end Session

end UpgradeSafety
