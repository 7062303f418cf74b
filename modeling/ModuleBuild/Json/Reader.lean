import ModuleBuild.Json.Token

/-!
# Reading JSON

A text is read one token at a time by a machine that remembers the open arrays and objects,
innermost first, and what may come next. At most `greatestDepth` of them may be open at once. Of
several members with one key the last counts.
-/

namespace ModuleBuild.Json

namespace Reader

/-- An array or object that is open around the place being read. -/
inductive Frame where
  /-- An array, with the items so far, the last one first. -/
  | items (before : List Json)
  /-- An object, with the members so far and the key of the value that is being read. -/
  | members (before : List (String × Json)) (key : String)

/-- What may come next. -/
inductive Stage where
  /-- A value must come. -/
  | value
  /-- The first item of an array, or its end. -/
  | firstItem
  /-- The first key of an object, or its end. -/
  | firstKey
  /-- The next key of an object that has these members. -/
  | key (members : List (String × Json))
  /-- The colon behind a key of an object that has these members. -/
  | colon (members : List (String × Json)) (key : String)
  /-- What follows this finished value. -/
  | after (value : Json)

/-- How far the text is read. -/
structure State where
  /-- The open arrays and objects, innermost first. -/
  frames : List Frame := []
  /-- What may come next. -/
  stage : Stage := .value

/-- The greatest number of arrays and objects that may be open at once. -/
def greatestDepth : Nat := 127

/-- Begins the value whose first token is `t`. -/
def begin? (frames : List Frame) (t : Token) : Option State :=
  match t with
  | .string s => some ⟨frames, .after (string s)⟩
  | .scalar v => some ⟨frames, .after v⟩
  | .openArray =>
    if frames.length < greatestDepth then some ⟨.items [] :: frames, .firstItem⟩ else none
  | .openObject => if frames.length < greatestDepth then some ⟨frames, .firstKey⟩ else none
  | _ => none

/-- Goes on behind the finished value `v`. -/
def continue? (frames : List Frame) (v : Json) (t : Token) : Option State :=
  match frames with
  | [] => none
  | .items before :: frames =>
    match t with
    | .comma => some ⟨.items (v :: before) :: frames, .value⟩
    | .closeArray => some ⟨frames, .after (array (v :: before).reverse)⟩
    | _ => none
  | .members before key :: frames =>
    let members := insertMember key v before
    match t with
    | .comma => some ⟨frames, .key members⟩
    | .closeObject => some ⟨frames, .after (object members)⟩
    | _ => none

/-- Reads one token. -/
def step? (s : State) (t : Token) : Option State :=
  match s.stage, t with
  | .value, t => begin? s.frames t
  | .firstItem, .closeArray => some ⟨s.frames.tail, .after (array [])⟩
  | .firstItem, t => begin? s.frames t
  | .firstKey, .closeObject => some ⟨s.frames, .after (object [])⟩
  | .firstKey, .string key => some ⟨s.frames, .colon [] key⟩
  | .key members, .string key => some ⟨s.frames, .colon members key⟩
  | .colon members key, .colon => some ⟨.members members key :: s.frames, .value⟩
  | .after v, t => continue? s.frames v t
  | _, _ => none

/-- The value that has been read when the text ends. -/
def result? (s : State) : Option Json :=
  match s.frames, s.stage with
  | [], .after v => some v
  | _, _ => none

end Reader

/-- The value that a text writes; `none` if it is not JSON. -/
def read? (text : String) : Option Json := do
  let tokens ← Token.all? text.toList
  let state ← tokens.foldlM Reader.step? {}
  Reader.result? state

end ModuleBuild.Json
