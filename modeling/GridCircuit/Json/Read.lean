import GridCircuit.Json.Basic
import GridCircuit.Json.Token

/-!
# Reading JSON

The reader is a machine over tokens with the open containers on a stack, so values may be nested to
any depth.
-/

namespace GridCircuit

/-- A container that waits for a value. Its earlier contents are kept latest first. -/
inductive JsonFrame where
  | items (read : List Json)
  | field (read : List (Option String × Json)) (key : Option String)

/-- What may come next. -/
inductive JsonMode where
  /-- Any value. -/
  | value
  /-- An opening bracket was read. -/
  | firstItem
  /-- An item was read. -/
  | afterItem (read : List Json)
  /-- An opening brace was read. -/
  | firstKey
  /-- A comma was read after a field. -/
  | nextKey (read : List (Option String × Json))
  /-- A key was read. -/
  | afterKey (read : List (Option String × Json)) (key : Option String)
  /-- A field was read. -/
  | afterField (read : List (Option String × Json))
  /-- The text is complete. -/
  | done (value : Json)

structure JsonReader where
  mode : JsonMode
  frames : List JsonFrame

namespace JsonReader

def start : JsonReader := ⟨.value, []⟩

def deliver (frames : List JsonFrame) (v : Json) : JsonReader :=
  match frames with
  | [] => ⟨.done v, []⟩
  | .items read :: frames => ⟨.afterItem (v :: read), frames⟩
  | .field read key :: frames => ⟨.afterField ((key, v) :: read), frames⟩

def beginValue (frames : List JsonFrame) : Token → Option JsonReader
  | .null => some (deliver frames .null)
  | .bool b => some (deliver frames (.bool b))
  | .int n => some (deliver frames (.int n))
  | .decimal negative mantissa exponent => some (deliver frames (.decimal negative mantissa exponent))
  | .string text => some (deliver frames (.string text))
  | .openBracket => some ⟨.firstItem, frames⟩
  | .openBrace => some ⟨.firstKey, frames⟩
  | _ => none

/-- Read one token; `none` when no text goes on this way. -/
def step (r : JsonReader) (t : Token) : Option JsonReader :=
  match r.mode, t with
  | .value, t => beginValue r.frames t
  | .firstItem, .closeBracket => some (deliver r.frames (.array []))
  | .firstItem, t => beginValue (.items [] :: r.frames) t
  | .afterItem read, .comma => some ⟨.value, .items read :: r.frames⟩
  | .afterItem read, .closeBracket => some (deliver r.frames (.array read.reverse))
  | .firstKey, .closeBrace => some (deliver r.frames (.object []))
  | .firstKey, .string key => some ⟨.afterKey [] key, r.frames⟩
  | .nextKey read, .string key => some ⟨.afterKey read key, r.frames⟩
  | .afterKey read key, .colon => some ⟨.value, .field read key :: r.frames⟩
  | .afterField read, .comma => some ⟨.nextKey read, r.frames⟩
  | .afterField read, .closeBrace => some (deliver r.frames (.object read.reverse))
  | _, _ => none

def result? (r : JsonReader) : Option Json :=
  match r.mode with
  | .done v => some v
  | _ => none

end JsonReader

namespace Json

/-- The value that a list of tokens stands for. -/
def ofTokens? (ts : List Token) : Option Json :=
  (ts.foldlM JsonReader.step JsonReader.start).bind JsonReader.result?

/-- Read a text that holds one value and nothing else. -/
def parse? (text : String) : Option Json := (Token.scan text.toList).bind ofTokens?

end Json

end GridCircuit
