import Narrowing.Catalog
import Narrowing.Decimal.Basic
import Narrowing.Decimal.Shortest
import Narrowing.Equation.Basic
import Narrowing.Equation.Choice
import Narrowing.Equation.Corner
import Narrowing.Formula
import Narrowing.Inputs
import Narrowing.Interval
import Narrowing.Number.CubeRoot
import Narrowing.Number.Magnitude
import Narrowing.Planet
import Narrowing.Proofs.Catalog.Admission
import Narrowing.Proofs.Equation.Agreement
import Narrowing.Proofs.Equation.Choice
import Narrowing.Proofs.Equation.Corner
import Narrowing.Proofs.Equation.Enclosure
import Narrowing.Proofs.Equation.Exactness
import Narrowing.Proofs.Equation.Image
import Narrowing.Proofs.Equation.Sampling
import Narrowing.Proofs.Equation.Selection
import Narrowing.Proofs.Equation.Validity
import Narrowing.Proofs.Formula.Exact
import Narrowing.Proofs.Formula.PowerLaw
import Narrowing.Proofs.Formula.Scheme
import Narrowing.Proofs.Interval.Algebra
import Narrowing.Proofs.Interval.Overlap
import Narrowing.Proofs.Number.Infinities
import Narrowing.Proofs.Number.Order
import Narrowing.Proofs.Number.Product
import Narrowing.Proofs.Number.Reading
import Narrowing.Proofs.Number.Rounding
import Narrowing.Proofs.Number.TotalOrder
import Narrowing.Proofs.Planet.Inversion
import Narrowing.Proofs.Planet.Units
import Narrowing.Proofs.SeedFile.Rereading
import Narrowing.Proofs.SeedFile.Rescaling
import Narrowing.Proofs.SeedFile.RoundTrip
import Narrowing.Proofs.Solver.Application
import Narrowing.Proofs.Solver.Chronicle
import Narrowing.Proofs.Solver.Errors
import Narrowing.Proofs.Solver.Exact
import Narrowing.Proofs.Solver.Exclusion
import Narrowing.Proofs.Solver.Failure
import Narrowing.Proofs.Solver.Frame
import Narrowing.Proofs.Solver.Irrelevance
import Narrowing.Proofs.Solver.Log
import Narrowing.Proofs.Solver.Observation
import Narrowing.Proofs.Solver.Reordering
import Narrowing.Proofs.Solver.Run
import Narrowing.Proofs.Solver.Soundness
import Narrowing.Proofs.Solver.Status
import Narrowing.Proofs.Solver.Targetwise
import Narrowing.Proofs.Solver.Termination
import Narrowing.Proofs.Solver.Trace
import Narrowing.Proofs.Solver.Truncation
import Narrowing.Proofs.Solver.Uninformative
import Narrowing.Proofs.Solver.Updates
import Narrowing.Proofs.Store.Lookup
import Narrowing.Proofs.Store.Planting
import Narrowing.Proofs.Store.Seeding
import Narrowing.Proofs.Store.Stages
import Narrowing.Proofs.Variable.History
import Narrowing.Proofs.Variable.Meeting
import Narrowing.Proofs.Variable.Ranges
import Narrowing.Proofs.Variable.Room
import Narrowing.Proofs.Variable.Succession
import Narrowing.Roster
import Narrowing.SeedFile
import Narrowing.Solver.Application
import Narrowing.Solver.Cycle
import Narrowing.Solver.Event
import Narrowing.Solver.Limit
import Narrowing.Solver.Log
import Narrowing.Solver.Run
import Narrowing.Store
import Narrowing.Text.Extending
import Narrowing.Text.Quoted
import Narrowing.Text.Ranges
import Narrowing.Text.Unprintable
import Narrowing.Toml.Blank
import Narrowing.Toml.Datum
import Narrowing.Toml.Document
import Narrowing.Toml.Draft
import Narrowing.Toml.Moment
import Narrowing.Toml.Numbers
import Narrowing.Toml.Printer
import Narrowing.Toml.Reader
import Narrowing.Toml.Strings
import Narrowing.Value
import Narrowing.Variable
