import TagGraph.Property.Value

/-!
# Stored texts of values

A value is stored as tagged JSON, `{"type":…,"value":…}`, so that its shape survives. Texts that
other tools have written are read too: plain JSON scalars become the matching values, arrays and
objects become blobs. Reading never fails loudly.
-/

namespace TagGraph.PropertyValue

/-! ## Writing -/

/-- A value with its tag. -/
def tagged (tag : String) (payload : Json) : Json :=
  .object [("type", .string tag), ("value", payload)]

/-- The stored form of a value as JSON. A number that is not finite has none. -/
def toJson? : PropertyValue → Option Json
  | .string s => some (tagged "string" (.string s))
  | .number (.finite x) => some (tagged "number" (.number (.double x)))
  | .number _ => none
  | .boolean b => some (tagged "boolean" (.bool b))
  | .node id => some (tagged "node" (idJson id))
  | .nodes ids => some (tagged "nodes" (.array (ids.map idJson)))
  | .json d => some (tagged "json" d.json)

/-- The stored text of a value. A number that is not finite has none. -/
def encode? (v : PropertyValue) : Option String :=
  v.toJson?.map Json.render

/-- Why a value has no stored text. -/
def encodeFault (v : PropertyValue) : String :=
  match v with
  | .number n => "number \x60" ++ n.text ++ "\x60 is not finite"
  | _ => ""

/-! ## Reading -/

/-- The identifiers that the items of an array write. -/
def idItems? : List Json → Option (List NodeId)
  | [] => some []
  | .string s :: rest => do
    let id ← NodeId.ofString? s
    let ids ← idItems? rest
    some (id :: ids)
  | _ => none

/-- The value that a payload stands for under a tag. The outer answer is missing if the tag is
unknown, the inner one if the payload does not fit the tag. -/
def ofTag? (tag : String) (payload : Json) : Option (Option PropertyValue) :=
  match tag with
  | "string" => some (payload.asString?.map .string)
  | "number" =>
    match payload with
    | .number n => some (some (.number (.finite n.toBinary64)))
    | _ => some none
  | "boolean" =>
    match payload with
    | .bool b => some (some (.boolean b))
    | _ => some none
  | "node" => some ((payload.asString?.bind NodeId.ofString?).map .node)
  | "nodes" =>
    match payload with
    | .array items => some ((idItems? items).map .nodes)
    | _ => some none
  | "json" => some (some (.json (Document.ofJson payload)))
  | _ => none

/-- The value that JSON without a known tag stands for. -/
def ofPlain? (d : Document) : Option PropertyValue :=
  match d.json with
  | .null => none
  | .string s => some (.string s)
  | .bool b => some (.boolean b)
  | .number n => some (.number (.finite n.toBinary64))
  | .array _ | .object _ => some (.json d)

/-- The value that a stored document stands for. -/
def ofDocument? (d : Document) : Option PropertyValue :=
  match (d.json.get? "type").bind Json.asString?, d.json.get? "value" with
  | some tag, some payload => (ofTag? tag payload).getD (ofPlain? d)
  | _, _ => ofPlain? d

/-- The value that a stored text stands for, if it stands for one. -/
def decode? (raw : String) : Option PropertyValue :=
  (Document.ofString? raw).bind ofDocument?

/-- The value that a stored text stands for, if it fits the type. -/
def decodeAs? (raw : String) (expected : FieldType) : Option PropertyValue :=
  (decode? raw).filter (·.conformsTo expected)

end TagGraph.PropertyValue
