/-!
# Handles

A handle (`systemId`) names a node by a readable text with a name space in front: `field:` for
fields, `supertag:` for supertags, `item:` for imported instances, `query:` for saved queries. Other
parts of a system rely on these texts, so they never change.
-/

namespace TagGraph.Handle

/-! ## Name spaces -/

/-- The four name spaces of handles. -/
inductive Namespace where
  | field
  | supertag
  | item
  | query
deriving DecidableEq

/-- The text in front of the names of a name space. -/
def Namespace.lead : Namespace → String
  | .field => "field:"
  | .supertag => "supertag:"
  | .item => "item:"
  | .query => "query:"

/-- The handle of a name in a name space. -/
def make (space : Namespace) (name : String) : String :=
  space.lead ++ name

/-- The name behind the name space of a handle. A handle of another name space has none, and the
empty name is none. -/
def name? (space : Namespace) (handle : String) : Option String :=
  let lead := space.lead.toList
  let chars := handle.toList
  if lead.isPrefixOf chars then
    match chars.drop lead.length with
    | [] => none
    | rest => some (String.ofList rest)
  else none

/-- The name under which the values of a field are shown: the name behind `field:`, any other handle
as it is, and the content of a field without handle. -/
def fieldKey (handle : Option String) (content : String) : String :=
  match handle with
  | some handle => (name? .field handle).getD handle
  | none => content

/-! ## Built-in fields -/

def fieldSupertag : String := "field:supertag"
def fieldExtends : String := "field:extends"
def fieldFieldType : String := "field:fieldType"
def fieldStatus : String := "field:status"
def fieldDescription : String := "field:description"
def fieldUrl : String := "field:url"
def fieldColor : String := "field:color"
def fieldIcon : String := "field:icon"
def fieldPriority : String := "field:priority"
def fieldDueDate : String := "field:due_date"
def fieldStartDate : String := "field:start_date"
def fieldEndDate : String := "field:end_date"
def fieldAllDay : String := "field:all_day"
def fieldLocation : String := "field:location"
def fieldRrule : String := "field:rrule"
def fieldCommand : String := "field:command"
def fieldTags : String := "field:tags"
def fieldQueryDefinition : String := "field:queryDefinition"
def fieldResultCache : String := "field:resultCache"
def fieldEvaluatedAt : String := "field:evaluatedAt"

/-! ## Built-in supertags -/

def supertagSupertag : String := "supertag:supertag"
def supertagField : String := "supertag:field"
def supertagSystem : String := "supertag:system"
def supertagItem : String := "supertag:item"
def supertagTool : String := "supertag:tool"
def supertagRepo : String := "supertag:repo"
def supertagTag : String := "supertag:tag"
def supertagTask : String := "supertag:task"
def supertagEvent : String := "supertag:event"
def supertagCommand : String := "supertag:command"
def supertagQuery : String := "supertag:query"

/-! ## Built-in queries -/

def queryInboxPending : String := "query:inbox-pending"
def queryOpenTasks : String := "query:open-tasks"
def queryUpcomingEvents : String := "query:upcoming-events"
def queryRecentItems : String := "query:recent-items"

end TagGraph.Handle
