import Interpose.Json.Token

/-!
Reading JSON: one pass over the tokens of a text.

The reader is a cursor that stands at a place of the text where a certain token may come next,
inside the arrays and objects that are still open. A token moves it or stops it, and the text
is read when the cursor has come behind a value with nothing left open.
-/

namespace Interpose.Json

/-- An array or object that is still open, with its parts so far (last first). -/
inductive Frame where
  | items (before : List Json)
  | member (before : List (Option String × Json)) (key : Option String)
  deriving Repr

/-- Where the reader stands: behind a value, or before what must come next. At a first item or key the
closing bracket may come instead. `frames` are the open arrays and objects, innermost first. -/
inductive Cursor where
  | atValue (frames : List Frame)
  | atFirstItem (frames : List Frame)
  | atFirstKey (frames : List Frame)
  | atKey (before : List (Option String × Json)) (frames : List Frame)
  | atColon (before : List (Option String × Json)) (key : Option String) (frames : List Frame)
  | behind (value : Json) (frames : List Frame)
  deriving Repr

namespace Cursor

def value? (frames : List Frame) : Token → Option Cursor
  | .openArray => some (.atFirstItem frames)
  | .openObject => some (.atFirstKey frames)
  | .null => some (.behind .null frames)
  | .bool b => some (.behind (.bool b) frames)
  | .num x => some (.behind (.num x) frames)
  | .str s => some (.behind (.str s) frames)
  | _ => none

/-- The step that a token makes; none if it cannot stand here. -/
def step? : Cursor → Token → Option Cursor
  | .atValue frames, t => value? frames t
  | .atFirstItem frames, .closeArray => some (.behind (.arr []) frames)
  | .atFirstItem frames, t => value? (.items [] :: frames) t
  | .atFirstKey frames, .closeObject => some (.behind (.obj []) frames)
  | .atFirstKey frames, .str key => some (.atColon [] key frames)
  | .atFirstKey _, _ => none
  | .atKey before frames, .str key => some (.atColon before key frames)
  | .atKey _ _, _ => none
  | .atColon before key frames, .colon => some (.atValue (.member before key :: frames))
  | .atColon _ _ _, _ => none
  | .behind v (.items before :: frames), .comma => some (.atValue (.items (v :: before) :: frames))
  | .behind v (.items before :: frames), .closeArray =>
    some (.behind (.arr (v :: before).reverse) frames)
  | .behind v (.member before key :: frames), .comma => some (.atKey ((key, v) :: before) frames)
  | .behind v (.member before key :: frames), .closeObject =>
    some (.behind (.obj ((key, v) :: before).reverse) frames)
  | .behind _ _, _ => none

def run? (c : Cursor) : List Token → Option Cursor
  | [] => some c
  | t :: ts => (c.step? t).bind (run? · ts)

end Cursor

def ofTokens? (ts : List Token) : Option Json :=
  match (Cursor.atValue []).run? ts with
  | some (.behind v []) => some v
  | _ => none

def parse? (text : String) : Option Json := (Token.scan? [] text.toList).bind ofTokens?

end Interpose.Json
