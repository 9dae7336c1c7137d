import Wiring.Main
import Wiring.Plan.Text
import Wiring.Proofs.Resolve.Task
import Wiring.Proofs.Plan.Derivation
import Wiring.Proofs.Resolve.Asks
import Wiring.Proofs.Resolve.Universe
import Wiring.Proofs.Resolve.Termination
import Wiring.Proofs.Component.Requirements
import Wiring.Proofs.Component.Termination
import Wiring.Proofs.Component.Cycles
import Wiring.Proofs.Resolve.Nodes
import Wiring.Proofs.Component.Scopes
import Wiring.Proofs.Catalogue.Losses
import Wiring.Proofs.Catalogue.Levels
import Wiring.Proofs.Component.Parents
import Wiring.Proofs.Component.Caches
import Wiring.Proofs.Model.Ancestry
import Wiring.Proofs.Catalogue.Overrides
import Wiring.Proofs.Component.Captures
import Wiring.Proofs.Catalogue.Places
import Wiring.Proofs.Component.Accessors
import Wiring.Proofs.Resolve.Origins
import Wiring.Proofs.Model.Instantiation
import Wiring.Proofs.Catalogue.Outline
import Wiring.Proofs.Resolve.Outline
import Wiring.Proofs.Component.Generics
import Wiring.Proofs.Component.Independence
import Wiring.Proofs.Resolve.Paths
import Wiring.Proofs.Component.Nesting
import Wiring.Proofs.Component.Supplies
import Wiring.Proofs.Catalogue.Requirements
import Wiring.Proofs.Component.Getters
import Wiring.Proofs.Component.Lambdas
import Wiring.Proofs.Component.Traces
import Wiring.Proofs.Component.Inclusion
import Wiring.Proofs.Catalogue.Paths
import Wiring.Proofs.Layout.Printed
import Wiring.Proofs.Emit.Classes
import Wiring.Proofs.Component.Holders
import Wiring.Proofs.Emit.Processing
import Wiring.Proofs.Component.Locality
import Wiring.Proofs.Layout.Content
import Wiring.Proofs.Layout.Lines
import Wiring.Proofs.Type.Naming
import Wiring.Proofs.Catalogue.Multibindings
import Wiring.Proofs.Declaration.RoundTrip
import Wiring.Proofs.Catalogue.Precedence
import Wiring.Proofs.Component.Reach
import Wiring.Proofs.Component.Legacy
import Wiring.Proofs.Component.NamedFunctions
import Wiring.Proofs.Layout.Groups
import Wiring.Proofs.Type.Replacement
import Wiring.Proofs.Model.Supertypes
import Wiring.Proofs.Model.Assignability
import Wiring.Proofs.Model.Subtyping
import Wiring.Proofs.Resolve.Moments
import Wiring.Proofs.Report.Labels
import Wiring.Proofs.Options.Precedence
import Wiring.Proofs.Model.Lineage
import Wiring.Proofs.Emit.CacheKeys
