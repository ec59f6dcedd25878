import FluentQuery.Proofs.Addresses
import FluentQuery.Proofs.Assignments
import FluentQuery.Proofs.Atomicity
import FluentQuery.Proofs.Connection
import FluentQuery.Proofs.Diagnostics
import FluentQuery.Proofs.Fetching
import FluentQuery.Proofs.Fields
import FluentQuery.Proofs.Filters
import FluentQuery.Proofs.FrameShape
import FluentQuery.Proofs.Freezing
import FluentQuery.Proofs.Immutability
import FluentQuery.Proofs.JoinConditions
import FluentQuery.Proofs.Loading
import FluentQuery.Proofs.Nesting
import FluentQuery.Proofs.NullPredicates
import FluentQuery.Proofs.Parameters
import FluentQuery.Proofs.Preview
import FluentQuery.Proofs.Refs
import FluentQuery.Proofs.Repetition
import FluentQuery.Proofs.Roots
import FluentQuery.Proofs.RowBounds
import FluentQuery.Proofs.Spellings
import FluentQuery.Proofs.Substreams
import FluentQuery.Proofs.Surroundings
