import UpgradeSafety.Json.Token

/-! JSON documents from their tokens. The reader is a stack machine: a `Frame` is a list or a
record that has not closed yet, and a `State` says which token may come next. One token makes one
step (`step`), so a document is read by a fold, and `read?` accepts a text when the machine ends
with one complete value. A field that is written twice keeps its first place and its last
value. -/
namespace UpgradeSafety.Json

/-- A container that is still open; the items of a list are kept last first. -/
inductive Frame where
  | list (items : List Value)
  | record (fields : List (Text × Value)) (key : Text)

/-- What the machine waits for. -/
inductive State where
  /-- A value. -/
  | value (stack : List Frame)
  /-- A value, or the end of a list that has just been opened. -/
  | item (stack : List Frame)
  /-- A key, or the end of a record that has just been opened. -/
  | entry (stack : List Frame)
  /-- A key, after a comma. -/
  | key (fields : List (Text × Value)) (stack : List Frame)
  /-- The colon after a key. -/
  | colon (fields : List (Text × Value)) (key : Text) (stack : List Frame)
  /-- What follows a complete value inside the containers. -/
  | after (v : Value) (stack : List Frame)

/-- A value begins: a container opens, or a value without parts is complete. -/
def begin? (stack : List Frame) : Token → Option State
  | .openList => some (.item (.list [] :: stack))
  | .openRecord => some (.entry stack)
  | .atom v => some (.after v stack)
  | _ => none

/-- One token. -/
def step : State → Token → Option State
  | .value stack, t => begin? stack t
  | .item (.list [] :: stack), .closeList => some (.after (.list []) stack)
  | .item stack, t => begin? stack t
  | .entry stack, .closeRecord => some (.after (.record []) stack)
  | .entry stack, .atom (.text key) => some (.colon [] key stack)
  | .entry _, _ => none
  | .key fields stack, .atom (.text key) => some (.colon fields key stack)
  | .key _ _, _ => none
  | .colon fields key stack, .colon => some (.value (.record fields key :: stack))
  | .colon _ _ _, _ => none
  | .after v (.list items :: stack), .comma => some (.value (.list (v :: items) :: stack))
  | .after v (.list items :: stack), .closeList => some (.after (.list (v :: items).reverse) stack)
  | .after v (.record fields key :: stack), .comma => some (.key (Value.put fields key v) stack)
  | .after v (.record fields key :: stack), .closeRecord =>
    some (.after (.record (Value.put fields key v)) stack)
  | .after _ _, _ => none

/-- The value that a list of tokens writes. -/
def ofTokens? (ts : List Token) : Option Value :=
  match ts.foldlM step (.value []) with
  | some (.after v []) => some v
  | _ => none

/-- The value that a text writes. -/
def read? (s : Text) : Option Value :=
  (scan s).bind ofTokens?

/-- The value that bytes write, in whichever Unicode encoding they are. -/
def readBytes? (bs : Bytes) : Option Value :=
  let (encoding, bs) := Text.Encoding.guess bs
  (encoding.decode? bs).bind read?

end UpgradeSafety.Json
