import UpgradeSafety.Text.Basic

/-! A computation that takes notes and may fail. The notes taken before a failure are kept, so a
`Journal` is the list of notes beside the result, and running one step after another appends their
notes (`notes_bind_ok`, `notes_bind_error`). -/
namespace UpgradeSafety

structure Journal (ω ε α : Type) where
  notes : List ω
  result : Except ε α

namespace Journal
variable {ω ω' ε ε' α β : Type}

protected def pure (a : α) : Journal ω ε α := ⟨[], .ok a⟩

protected def bind (x : Journal ω ε α) (f : α → Journal ω ε β) : Journal ω ε β :=
  match x.result with
  | .ok a =>
    let y := f a
    ⟨x.notes ++ y.notes, y.result⟩
  | .error e => ⟨x.notes, .error e⟩

instance : Monad (Journal ω ε) where
  pure := Journal.pure
  bind := Journal.bind

/-- Takes one note. -/
def note (n : ω) : Journal ω ε Unit := ⟨[n], .ok ()⟩

def fail (e : ε) : Journal ω ε α := ⟨[], .error e⟩

/-- A result that was found without taking notes. -/
def ofExcept (r : Except ε α) : Journal ω ε α := ⟨[], r⟩

def mapNotes (f : ω → ω') (x : Journal ω ε α) : Journal ω' ε α := ⟨x.notes.map f, x.result⟩

def mapError (f : ε → ε') (x : Journal ω ε α) : Journal ω ε' α :=
  ⟨x.notes, x.result.mapError f⟩

/-- Without the notes that do not matter. -/
def filterNotes (p : ω → Bool) (x : Journal ω ε α) : Journal ω ε α :=
  ⟨x.notes.filter p, x.result⟩

/-- The result as a value, so that the computation goes on after a failure. -/
def attempt (x : Journal ω ε α) : Journal ω ε' (Except ε α) := ⟨x.notes, .ok x.result⟩

@[simp] theorem result_pure (a : α) : (pure a : Journal ω ε α).result = .ok a := rfl

@[simp] theorem notes_pure (a : α) : (pure a : Journal ω ε α).notes = [] := rfl

@[simp] theorem result_note (n : ω) : (note n : Journal ω ε Unit).result = .ok () := rfl

@[simp] theorem notes_note (n : ω) : (note n : Journal ω ε Unit).notes = [n] := rfl

@[simp] theorem result_ofExcept (r : Except ε α) : (ofExcept r : Journal ω ε α).result = r := rfl

@[simp] theorem notes_ofExcept (r : Except ε α) : (ofExcept r : Journal ω ε α).notes = [] := rfl

@[simp] theorem result_mapNotes (f : ω → ω') (x : Journal ω ε α) :
    (x.mapNotes f).result = x.result := rfl

@[simp] theorem notes_mapNotes (f : ω → ω') (x : Journal ω ε α) :
    (x.mapNotes f).notes = x.notes.map f := rfl

@[simp] theorem result_mapError (f : ε → ε') (x : Journal ω ε α) :
    (x.mapError f).result = x.result.mapError f := rfl

@[simp] theorem notes_mapError (f : ε → ε') (x : Journal ω ε α) :
    (x.mapError f).notes = x.notes := rfl

@[simp] theorem result_attempt (x : Journal ω ε α) :
    (x.attempt : Journal ω ε' (Except ε α)).result = .ok x.result := rfl

@[simp] theorem notes_attempt (x : Journal ω ε α) :
    (x.attempt : Journal ω ε' (Except ε α)).notes = x.notes := rfl

theorem notes_bind_ok {x : Journal ω ε α} {a : α} (f : α → Journal ω ε β) (h : x.result = .ok a) :
    (x >>= f).notes = x.notes ++ (f a).notes := by
  simp [Bind.bind, Journal.bind, h]

theorem notes_bind_error {x : Journal ω ε α} {e : ε} (f : α → Journal ω ε β)
    (h : x.result = .error e) : (x >>= f).notes = x.notes := by
  simp [Bind.bind, Journal.bind, h]

theorem result_bind (x : Journal ω ε α) (f : α → Journal ω ε β) :
    (x >>= f).result = (x.result >>= fun a => (f a).result) := by
  show (Journal.bind x f).result = _
  unfold Journal.bind
  split <;> rename_i h <;> rw [h] <;> rfl

theorem result_bind_ok {x : Journal ω ε α} {a : α} (f : α → Journal ω ε β)
    (h : x.result = .ok a) : (x >>= f).result = (f a).result := by
  rw [result_bind, h]
  rfl

/-- What is done with an answer without taking notes leaves the notes as they are. -/
theorem notes_bind_pure (x : Journal ω ε α) (g : α → β) :
    (x >>= fun a => pure (g a)).notes = x.notes := by
  cases h : x.result with
  | error e => exact notes_bind_error _ h
  | ok a => rw [notes_bind_ok _ h, notes_pure, List.append_nil]

protected theorem id_map (x : Journal ω ε α) : id <$> x = x := by
  obtain ⟨notes, _ | _⟩ := x <;> simp [Functor.map, Journal.bind, Journal.pure]

protected theorem pure_bind (a : α) (f : α → Journal ω ε β) : (pure a >>= f) = f a := by
  simp [Bind.bind, Pure.pure, Journal.bind, Journal.pure]

protected theorem bind_assoc {γ : Type} (x : Journal ω ε α) (f : α → Journal ω ε β)
    (g : β → Journal ω ε γ) : ((x >>= f) >>= g) = (x >>= fun a => f a >>= g) := by
  obtain ⟨notes, e | a⟩ := x
  · simp [Bind.bind, Journal.bind]
  · simp only [Bind.bind, Journal.bind]
    split <;> simp_all

instance : LawfulMonad (Journal ω ε) :=
  .mk' _ Journal.id_map Journal.pure_bind Journal.bind_assoc

/-- The results of a traversal are the traversal of the results. -/
theorem result_mapM (f : α → Journal ω ε β) (xs : List α) :
    (xs.mapM f).result = xs.mapM fun x => (f x).result := by
  induction xs with
  | nil => rfl
  | cons x rest ih => simp only [List.mapM_cons, result_bind, result_pure, ih]; rfl

/-- Where no step fails, the notes of a traversal are those of its steps. -/
theorem notes_mapM {f : α → Journal ω ε β} {xs : List α}
    (h : ∀ x ∈ xs, ∃ y, (f x).result = .ok y) :
    (xs.mapM f).notes = xs.flatMap fun x => (f x).notes := by
  induction xs with
  | nil => rfl
  | cons x rest ih =>
    obtain ⟨y, hy⟩ := h x List.mem_cons_self
    have hrest := ih fun z hz => h z (List.mem_cons_of_mem x hz)
    rw [List.mapM_cons, notes_bind_ok _ hy, notes_bind_pure, hrest, List.flatMap_cons]

end Journal

/-- How much a log line matters. -/
inductive Severity where
  | debug
  | info
  | warning
  | error
  deriving DecidableEq, Repr

namespace Severity

def name : Severity → String
  | .debug => "DEBUG"
  | .info => "INFO"
  | .warning => "WARNING"
  | .error => "ERROR"

/-- The rank of a severity, for comparison with a threshold. -/
def rank : Severity → Nat
  | .debug => 10
  | .info => 20
  | .warning => 30
  | .error => 40

end Severity

/-- A line of the log. -/
structure LogLine where
  severity : Severity
  text : Text
  deriving DecidableEq, Repr

/-- Stands in messages for a reason that is not spelt out. -/
def unstatedReason : String := "<detail>"

/-- The line as it is shown. -/
def LogLine.render (l : LogLine) : Text :=
  l.severity.name ++ " " ++ l.text

end UpgradeSafety
