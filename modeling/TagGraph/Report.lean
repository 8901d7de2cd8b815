import TagGraph.Command
import TagGraph.Item
import TagGraph.Query.Saved
import TagGraph.Seed
import TagGraph.Tag

/-!
# Results as JSON

The written forms of what the library hands out. Missing parts are `null`, and the parts of an
object stand in a fixed order.
-/

namespace TagGraph

namespace Json

/-- A value that may be missing. -/
def ofOption {α : Type} (write : α → Json) : Option α → Json
  | some a => write a
  | none => .null

/-- A list of values. -/
def ofList {α : Type} (write : α → Json) (items : List α) : Json :=
  .array (items.map write)

/-- A text that may be missing. -/
def ofText? (s : Option String) : Json :=
  ofOption .string s

/-- An identifier that may be missing. -/
def ofId? (id : Option NodeId) : Json :=
  ofOption PropertyValue.idJson id

end Json

/-! ## Values and rows -/

/-- A value with its tag. A number that is not finite is written as `null`. -/
def PropertyValue.toJson (v : PropertyValue) : Json :=
  v.toJson?.getD (PropertyValue.tagged "number" .null)

/-- A node. -/
def Node.toJson (n : Node) : Json :=
  .object [
    ("id", PropertyValue.idJson n.id),
    ("content", .string n.content),
    ("contentPlain", .string n.contentPlain),
    ("systemId", Json.ofText? n.systemId),
    ("ownerId", Json.ofId? n.ownerId),
    ("createdAt", .int n.createdAt),
    ("updatedAt", .int n.updatedAt),
    ("deletedAt", Json.ofOption Json.int n.deletedAt)]

/-- A row of a field. -/
def Property.toJson (p : Property) : Json :=
  .object [
    ("id", .int p.id),
    ("nodeId", PropertyValue.idJson p.nodeId),
    ("fieldNodeId", PropertyValue.idJson p.fieldId),
    ("value", .string p.value),
    ("order", .int p.order),
    ("createdAt", .int p.createdAt),
    ("updatedAt", .int p.updatedAt)]

/-! ## Assembled nodes and pages -/

/-- A supertag of a node. -/
def SupertagRef.toJson (t : SupertagRef) : Json :=
  .object [
    ("id", PropertyValue.idJson t.id),
    ("systemId", Json.ofText? t.systemId),
    ("content", .string t.content)]

/-- An assembled node, with its values by name. -/
def AssembledNode.toJson (n : AssembledNode) : Json :=
  .object [
    ("id", PropertyValue.idJson n.id),
    ("content", .string n.content),
    ("systemId", Json.ofText? n.systemId),
    ("ownerId", Json.ofId? n.ownerId),
    ("createdAt", .int n.createdAt),
    ("updatedAt", .int n.updatedAt),
    ("properties",
      .object (n.properties.map fun (name, values) =>
        (name, Json.ofList PropertyValue.toJson values))),
    ("supertags", Json.ofList SupertagRef.toJson n.supertags)]

/-- A page of nodes. -/
def QueryPage.toJson (page : QueryPage) : Json :=
  .object [
    ("nodes", Json.ofList AssembledNode.toJson page.nodes),
    ("totalCount", .nat page.totalCount)]

/-- The kept answer of a saved query. -/
def CachedResult.toJson (c : CachedResult) : Json :=
  .object [
    ("nodeIds", Json.ofList PropertyValue.idJson c.nodeIds),
    ("evaluatedAt", .int c.evaluatedAt)]

/-- The outcome of a seeding. -/
def SeedSummary.toJson (s : SeedSummary) : Json :=
  .object [
    ("nodeCount", .nat s.nodeCount),
    ("propertyCount", .nat s.propertyCount),
    ("nodesCreated", .nat s.nodesCreated),
    ("alreadyBootstrapped", .bool s.alreadyBootstrapped)]

/-! ## Flat views -/

/-- An item. -/
def Item.toJson (i : Item) : Json :=
  .object [
    ("id", PropertyValue.idJson i.id),
    ("title", .string i.title),
    ("itemType", .string i.itemType),
    ("supertags", Json.ofList Json.string i.supertags),
    ("status", Json.ofText? i.status),
    ("description", Json.ofText? i.description),
    ("url", Json.ofText? i.url),
    ("createdAt", .int i.createdAt),
    ("updatedAt", .int i.updatedAt)]

/-- A tag. -/
def Tag.toJson (t : Tag) : Json :=
  .object [
    ("id", PropertyValue.idJson t.id),
    ("name", .string t.name),
    ("color", Json.ofText? t.color)]

/-- A command. -/
def Command.toJson (c : Command) : Json :=
  .object [
    ("id", PropertyValue.idJson c.id),
    ("title", .string c.title),
    ("itemId", Json.ofId? c.itemId),
    ("command", Json.ofText? c.command),
    ("description", Json.ofText? c.description)]

end TagGraph
