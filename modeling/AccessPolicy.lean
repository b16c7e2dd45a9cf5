import AccessPolicy.Action
import AccessPolicy.AuthorizationError
import AccessPolicy.Availability
import AccessPolicy.Binary64
import AccessPolicy.Blank
import AccessPolicy.CommandLine
import AccessPolicy.Comparison
import AccessPolicy.Condition
import AccessPolicy.Condition.Compile
import AccessPolicy.Condition.Format
import AccessPolicy.ConfigurationError
import AccessPolicy.Database
import AccessPolicy.Database.Entities
import AccessPolicy.Database.Location
import AccessPolicy.Database.Migration
import AccessPolicy.Database.Roles
import AccessPolicy.Database.Snapshot
import AccessPolicy.Deployment
import AccessPolicy.Digits
import AccessPolicy.EnvironmentFile
import AccessPolicy.Extended
import AccessPolicy.FieldPath
import AccessPolicy.Http.BearerToken
import AccessPolicy.Http.Document
import AccessPolicy.Http.MediaType
import AccessPolicy.Http.Server
import AccessPolicy.Http.Target
import AccessPolicy.Json
import AccessPolicy.Json.Draft
import AccessPolicy.Json.Pointer
import AccessPolicy.Json.Reader
import AccessPolicy.Json.Shape
import AccessPolicy.Json.Text
import AccessPolicy.Main
import AccessPolicy.Permission
import AccessPolicy.Permission.Definition
import AccessPolicy.Predicate
import AccessPolicy.Predicate.Load
import AccessPolicy.Predicate.Query
import AccessPolicy.Predicate.Row
import AccessPolicy.Principal
import AccessPolicy.Proofs.Ambient.Programs
import AccessPolicy.Proofs.Condition.Acceptance
import AccessPolicy.Proofs.Condition.Atoms
import AccessPolicy.Proofs.Condition.Defects
import AccessPolicy.Proofs.Condition.Encoding
import AccessPolicy.Proofs.Condition.Meaning
import AccessPolicy.Proofs.Condition.Placeholders
import AccessPolicy.Proofs.Condition.Stored
import AccessPolicy.Proofs.Database.Attributes
import AccessPolicy.Proofs.Database.Conditions
import AccessPolicy.Proofs.Database.Definitions
import AccessPolicy.Proofs.Database.Deploying
import AccessPolicy.Proofs.Database.Equality
import AccessPolicy.Proofs.Database.Listing
import AccessPolicy.Proofs.Database.Loaders
import AccessPolicy.Proofs.Database.Memory
import AccessPolicy.Proofs.Database.Permissions
import AccessPolicy.Proofs.Database.Populated
import AccessPolicy.Proofs.Database.Records
import AccessPolicy.Proofs.Database.Runs
import AccessPolicy.Proofs.Database.Stored
import AccessPolicy.Proofs.Database.Supply
import AccessPolicy.Proofs.Database.Transaction
import AccessPolicy.Proofs.Doubles
import AccessPolicy.Proofs.FieldPaths
import AccessPolicy.Proofs.Http.Availability
import AccessPolicy.Proofs.Integers
import AccessPolicy.Proofs.Json.Literals
import AccessPolicy.Proofs.Json.Members
import AccessPolicy.Proofs.Json.Numbers
import AccessPolicy.Proofs.Json.Records
import AccessPolicy.Proofs.Json.Texts
import AccessPolicy.Proofs.Outcome
import AccessPolicy.Proofs.Permission.Encoding
import AccessPolicy.Proofs.Predicate.Alike
import AccessPolicy.Proofs.Predicate.Built
import AccessPolicy.Proofs.Predicate.Calls
import AccessPolicy.Proofs.Predicate.Interpretation
import AccessPolicy.Proofs.Predicate.Loading
import AccessPolicy.Proofs.Predicate.Monotone
import AccessPolicy.Proofs.Predicate.Normal
import AccessPolicy.Proofs.Predicate.Scopes
import AccessPolicy.Proofs.Predicate.Subqueries
import AccessPolicy.Proofs.Predicate.Termination
import AccessPolicy.Proofs.Service.Anonymous
import AccessPolicy.Proofs.Service.Callers
import AccessPolicy.Proofs.Service.Candidates
import AccessPolicy.Proofs.Service.Delegation
import AccessPolicy.Proofs.Service.Discovery
import AccessPolicy.Proofs.Service.Failures
import AccessPolicy.Proofs.Service.Granting
import AccessPolicy.Proofs.Service.Holdings
import AccessPolicy.Proofs.Service.Justification
import AccessPolicy.Proofs.Service.Lookups
import AccessPolicy.Proofs.Service.Namesakes
import AccessPolicy.Proofs.Service.Refusals
import AccessPolicy.Proofs.Specification.Compiling
import AccessPolicy.Proofs.Specification.Decision
import AccessPolicy.Proofs.Specification.Folding
import AccessPolicy.Proofs.Specification.Policy
import AccessPolicy.Proofs.Specification.Related
import AccessPolicy.Proofs.Specification.Satisfiability
import AccessPolicy.Proofs.Specification.Terms
import AccessPolicy.Proofs.Sql.Denotation
import AccessPolicy.Proofs.Sql.Lexing
import AccessPolicy.Proofs.Sql.Membership
import AccessPolicy.Proofs.Sql.Outline
import AccessPolicy.Proofs.Sql.Parameters
import AccessPolicy.Proofs.Sql.Reading
import AccessPolicy.Proofs.Sql.Rendering
import AccessPolicy.Proofs.Sql.Scoping
import AccessPolicy.Proofs.Sql.Site
import AccessPolicy.Proofs.Sql.Standing
import AccessPolicy.Registry
import AccessPolicy.Repository
import AccessPolicy.Request
import AccessPolicy.Resource
import AccessPolicy.Role
import AccessPolicy.Service
import AccessPolicy.ServiceError
import AccessPolicy.Settings
import AccessPolicy.Specification
import AccessPolicy.Sql.Evaluation
import AccessPolicy.Sql.Expr
import AccessPolicy.Sql.Limits
import AccessPolicy.Sql.Mapping
import AccessPolicy.Sql.Real
import AccessPolicy.Sql.Render
import AccessPolicy.Sql.Token
import AccessPolicy.Sql.Value
import AccessPolicy.Uuid
import AccessPolicy.Workflow
