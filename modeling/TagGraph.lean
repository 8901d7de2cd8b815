import TagGraph.Main
import TagGraph.Proofs.Alike
import TagGraph.Proofs.Assembly.Names
import TagGraph.Proofs.Assembly.Shared
import TagGraph.Proofs.Calendar.Written
import TagGraph.Proofs.Disk.Path
import TagGraph.Proofs.Field.Appending
import TagGraph.Proofs.Field.Frame
import TagGraph.Proofs.Field.Handles
import TagGraph.Proofs.Field.Outcome
import TagGraph.Proofs.Field.Typing
import TagGraph.Proofs.Inheritance.Runs
import TagGraph.Proofs.Inheritance.Traversal
import TagGraph.Proofs.Logging
import TagGraph.Proofs.Lookup
import TagGraph.Proofs.Query.Caseless
import TagGraph.Proofs.Query.Dates
import TagGraph.Proofs.Query.Evaluation
import TagGraph.Proofs.Query.Forms
import TagGraph.Proofs.Query.Halfway
import TagGraph.Proofs.Query.Kept
import TagGraph.Proofs.Query.Links
import TagGraph.Proofs.Query.Operators
import TagGraph.Proofs.Query.Refreshed
import TagGraph.Proofs.Query.Saved
import TagGraph.Proofs.Query.Seeded
import TagGraph.Proofs.Query.Sorting
import TagGraph.Proofs.Query.Sparing
import TagGraph.Proofs.Query.Splitting
import TagGraph.Proofs.Schema.Atomic
import TagGraph.Proofs.Seed.Admission
import TagGraph.Proofs.Seed.Effect
import TagGraph.Proofs.Seed.Multiplicity
import TagGraph.Proofs.Store.Times
import TagGraph.Proofs.Supertag
import TagGraph.Proofs.Tagged
import TagGraph.Proofs.Text.Plain
import TagGraph.Proofs.Tombstone
import TagGraph.Proofs.Views
import TagGraph.Proofs.Whole
import TagGraph.Session
import TagGraph.Store.Raw
