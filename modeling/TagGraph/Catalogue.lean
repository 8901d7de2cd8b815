import TagGraph.Query.Definition
import TagGraph.Handle

/-!
# The built-in catalogue

The nodes that every graph starts with: the fields that describe fields and supertags, the supertags
that describe the graph itself, the supertags and fields of everyday items, and four saved queries.
Parents stand before the supertags that extend them.
-/

namespace TagGraph

/-- A field of the catalogue with the type of its values. -/
structure CatalogueField where
  systemId : String
  name : String
  type : FieldType

/-- A supertag of the catalogue with the supertag that it extends. -/
structure CatalogueSupertag where
  systemId : String
  name : String
  parent : Option String

/-- A saved query of the catalogue. -/
structure CatalogueQuery where
  systemId : String
  name : String
  definition : QueryDefinition

namespace Catalogue

/-! ## Fields -/

/-- The fields that the description of all others needs. -/
def coreFields : List CatalogueField := [
  ⟨Handle.fieldSupertag, "Supertag", .nodes⟩,
  ⟨Handle.fieldExtends, "Extends", .node⟩,
  ⟨Handle.fieldFieldType, "Field Type", .text⟩]

/-- The fields of everyday nodes and of saved queries. -/
def commonFields : List CatalogueField := [
  ⟨Handle.fieldStatus, "Status", .text⟩,
  ⟨Handle.fieldDescription, "Description", .text⟩,
  ⟨Handle.fieldUrl, "URL", .text⟩,
  ⟨Handle.fieldColor, "Color", .text⟩,
  ⟨Handle.fieldIcon, "Icon", .text⟩,
  ⟨Handle.fieldPriority, "Priority", .number⟩,
  ⟨Handle.fieldDueDate, "Due Date", .date⟩,
  ⟨Handle.fieldStartDate, "Start Date", .date⟩,
  ⟨Handle.fieldEndDate, "End Date", .date⟩,
  ⟨Handle.fieldAllDay, "All Day", .boolean⟩,
  ⟨Handle.fieldLocation, "Location", .text⟩,
  ⟨Handle.fieldRrule, "Recurrence Rule", .text⟩,
  ⟨Handle.fieldCommand, "Command", .text⟩,
  ⟨Handle.fieldTags, "Tags", .nodes⟩,
  ⟨Handle.fieldQueryDefinition, "Query Definition", .json⟩,
  ⟨Handle.fieldResultCache, "Result Cache", .nodes⟩,
  ⟨Handle.fieldEvaluatedAt, "Evaluated At", .number⟩]

/-! ## Supertags -/

/-- The supertags of supertags, of fields, and of everything built in. -/
def metaSupertags : List CatalogueSupertag := [
  ⟨Handle.supertagSupertag, "Supertag", none⟩,
  ⟨Handle.supertagField, "Field", none⟩,
  ⟨Handle.supertagSystem, "System", none⟩]

/-- The supertags of everyday nodes. -/
def entitySupertags : List CatalogueSupertag := [
  ⟨Handle.supertagItem, "Item", none⟩,
  ⟨Handle.supertagTool, "Tool", some Handle.supertagItem⟩,
  ⟨Handle.supertagRepo, "Repo", some Handle.supertagItem⟩,
  ⟨Handle.supertagTag, "Tag", none⟩,
  ⟨Handle.supertagTask, "Task", some Handle.supertagItem⟩,
  ⟨Handle.supertagEvent, "Event", some Handle.supertagItem⟩,
  ⟨Handle.supertagCommand, "Command", none⟩,
  ⟨Handle.supertagQuery, "Query", none⟩]

/-! ## Queries -/

/-- A filter for a supertag and those below it. -/
def tagged (supertag : String) : Filter :=
  .supertag supertag true

/-- A filter that compares the status with a text. -/
def status (op : PropertyOp) (wanted : String) : Filter :=
  .property Handle.fieldStatus op (.ofJson (.string wanted))

/-- Items whose status is pending, the newest first. -/
def inboxPending : QueryDefinition where
  filters := [tagged Handle.supertagItem, status .eq "pending"]
  sort := some ⟨"createdAt", .desc⟩
  limit := QueryDefinition.defaultLimit

/-- Tasks that are not done, by due date. -/
def openTasks : QueryDefinition where
  filters := [tagged Handle.supertagTask, status .neq "done"]
  sort := some ⟨Handle.fieldDueDate, .asc⟩
  limit := QueryDefinition.defaultLimit

/-- Events that have a start, by start. -/
def upcomingEvents : QueryDefinition where
  filters := [tagged Handle.supertagEvent, .hasField Handle.fieldStartDate false]
  sort := some ⟨Handle.fieldStartDate, .asc⟩
  limit := QueryDefinition.defaultLimit

/-- Up to fifty items that changed in the last seven days, the latest first. -/
def recentItems : QueryDefinition where
  filters := [tagged Handle.supertagItem, .temporal .updatedAt .within (some 7) none]
  sort := some ⟨"updatedAt", .desc⟩
  limit := 50

/-- The saved queries. -/
def queries : List CatalogueQuery := [
  ⟨Handle.queryInboxPending, "Inbox: Pending Items", inboxPending⟩,
  ⟨Handle.queryOpenTasks, "Open Tasks", openTasks⟩,
  ⟨Handle.queryUpcomingEvents, "Upcoming Events", upcomingEvents⟩,
  ⟨Handle.queryRecentItems, "Recently Updated Items", recentItems⟩]

end Catalogue

end TagGraph
