import PlanSql.Proofs.Ddl.Lexing
import PlanSql.Proofs.Ddl.ViewColumns
import PlanSql.Proofs.Expr.Widening
import PlanSql.Proofs.Fragment.Availability
import PlanSql.Proofs.Fragment.DistinctOrder
import PlanSql.Proofs.Fragment.Division
import PlanSql.Proofs.Fragment.Features
import PlanSql.Proofs.Fragment.GroupClauses
import PlanSql.Proofs.Fragment.GroupFilters
import PlanSql.Proofs.Fragment.Grouping
import PlanSql.Proofs.Fragment.OrderCapture
import PlanSql.Proofs.Fragment.Placeholders
import PlanSql.Proofs.Fragment.Positions
import PlanSql.Proofs.Fragment.Presentation
import PlanSql.Proofs.Fragment.QualifyClauses
import PlanSql.Proofs.Fragment.Reading
import PlanSql.Proofs.Fragment.Unsharing
import PlanSql.Proofs.Fragment.WindowRanges
import PlanSql.Proofs.Fragment.Coverage
import PlanSql.Proofs.Plan.Codec
import PlanSql.Proofs.Plan.JoinNames
import PlanSql.Proofs.Plan.Leaves
import PlanSql.Proofs.Plan.Soundness
import PlanSql.Proofs.Plan.TemporalLiterals
import PlanSql.Proofs.Relation.Carrying
import PlanSql.Proofs.Semantics.Absence
import PlanSql.Proofs.Semantics.BagPreservation
import PlanSql.Proofs.Semantics.FilteredAggregates
import PlanSql.Proofs.Semantics.GroupValues
import PlanSql.Proofs.Semantics.SequencePreservation
import PlanSql.Proofs.Semantics.Sqlite
import PlanSql.Proofs.Service.Runs
import PlanSql.Service.Log
import PlanSql.Service.Routing
