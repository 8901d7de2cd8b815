import TagGraph.Handle
import TagGraph.Property.Codec

/-!
# Assembled nodes

A live node together with the values of its fields and its supertags, as feature code reads it.
Values are found by the name of a field or by its identifier. Two fields may have one name; the name
then belongs to one of them, and the values of the other are found by identifier only.
-/

namespace TagGraph

/-- A live supertag of a node. -/
structure SupertagRef where
  id : NodeId
  systemId : Option String
  content : String
deriving DecidableEq

/-- The short name of a supertag: behind `supertag:` in its handle, or else its content. -/
def SupertagRef.name (t : SupertagRef) : String :=
  (t.systemId.bind (Handle.name? .supertag)).getD t.content

/-- A live node joined with its fields. -/
structure AssembledNode where
  id : NodeId
  content : String
  systemId : Option String
  ownerId : Option NodeId
  createdAt : Int
  updatedAt : Int
  /-- The values under each field name, by name. -/
  properties : List (String × List PropertyValue)
  /-- The field that each name belongs to, by name. -/
  fieldIds : List (String × NodeId)
  /-- The values of each field, by identifier. -/
  fieldValues : List (NodeId × List PropertyValue)
  /-- The supertags in the order of assignment. -/
  supertags : List SupertagRef

namespace AssembledNode

/-- The values under a field name. -/
def values (n : AssembledNode) (name : String) : List PropertyValue :=
  (n.properties.lookup name).getD []

/-- The values of a field. -/
def valuesByFieldId (n : AssembledNode) (field : NodeId) : List PropertyValue :=
  (n.fieldValues.lookup field).getD []

/-- The first value under a field name. -/
def firstValue? (n : AssembledNode) (name : String) : Option PropertyValue :=
  (n.values name).head?

/-- The first value under a field name, if it is a string. -/
def text? (n : AssembledNode) (name : String) : Option String :=
  (n.firstValue? name).bind (·.asString?)

/-- The values under the name of a field that is given by handle. -/
def valuesForField (n : AssembledNode) (field : String) : List PropertyValue :=
  n.values (Handle.fieldKey (some field) field)

/-- The first value under the name of a field that is given by handle, in its text form. -/
def textForField? (n : AssembledNode) (field : String) : Option String :=
  (n.valuesForField field).head?.bind (·.text?)

/-- Whether a supertag with the handle is assigned. -/
def hasSupertag (n : AssembledNode) (supertag : String) : Bool :=
  n.supertags.any (·.systemId == some supertag)

/-- Whether a supertag with the identifier is assigned. -/
def hasSupertagId (n : AssembledNode) (supertag : NodeId) : Bool :=
  n.supertags.any (·.id == supertag)

/-- The first supertag, which is the type of the node. -/
def primarySupertag? (n : AssembledNode) : Option SupertagRef :=
  n.supertags.head?

/-- The name that belongs to a field. -/
def fieldNameForId? (n : AssembledNode) (field : NodeId) : Option String :=
  (n.fieldIds.find? (·.2 == field)).map (·.1)

end AssembledNode

end TagGraph
