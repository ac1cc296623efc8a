import DocQuery.Main
import DocQuery.Proofs.Build.Run
import DocQuery.Proofs.Document.Access
import DocQuery.Proofs.Draft.Fresh
import DocQuery.Proofs.Schema.Resolve
import DocQuery.Proofs.Build.Assemble
import DocQuery.Proofs.Build.Conditions
import DocQuery.Proofs.Build.References
import DocQuery.Proofs.Build.Scope
import DocQuery.Proofs.Mask.Build
import DocQuery.Proofs.Mask.Plan
import DocQuery.Proofs.Nesting.Document
import DocQuery.Proofs.Parameters.Lists
import DocQuery.Proofs.Parameters.Mentions
import DocQuery.Proofs.Positional.Agree
import DocQuery.Proofs.Quotes.Plan
import DocQuery.Proofs.Through.Document
import DocQuery.Proofs.Where.Compile
import DocQuery.Proofs.Failure.Visits
import DocQuery.Proofs.Includes.Plan
import DocQuery.Proofs.Columns.Produced
import DocQuery.Proofs.Predicate.Printed
import DocQuery.Proofs.Append.Plan
import DocQuery.Proofs.Functions.Plan
import DocQuery.Proofs.Predicate.Pruned
import DocQuery.Proofs.Text.Key
import DocQuery.Proofs.Document.Dispatch
import DocQuery.Proofs.Rows.Correlation
import DocQuery.Proofs.Schema.Joinable
import DocQuery.Proofs.Operand.Exact
import DocQuery.Proofs.Draft.Reachable
import DocQuery.Proofs.Derived.Own
import DocQuery.Proofs.Columns.Spelling
import DocQuery.Proofs.Schema.Written
import DocQuery.Proofs.Order.Spelled
import DocQuery.Proofs.Draft.Allocation
import DocQuery.Proofs.Text.Template
import DocQuery.Proofs.Time.Spelled
