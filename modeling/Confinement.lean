import Confinement.Main
import Confinement.Script.Program
import Confinement.Proofs.Access.Authority
import Confinement.Proofs.Access.Noninterference
import Confinement.Proofs.Access.Restriction
import Confinement.Proofs.Emission.Confined
import Confinement.Proofs.Emission.Reading
import Confinement.Proofs.Guardian.Immutability
import Confinement.Proofs.Invocation.Containment
import Confinement.Proofs.Invocation.Escape
import Confinement.Proofs.Module.Loading
import Confinement.Proofs.Registry.Attenuation
import Confinement.Proofs.Registry.Permanence
import Confinement.Proofs.Registry.Overwriting
import Confinement.Proofs.Invocation.Construction
import Confinement.Proofs.Invocation.Wrapper
import Confinement.Proofs.Invocation.Boundary
import Confinement.Proofs.Stylesheet.Grammar
import Confinement.Proofs.Stylesheet.Canonical
import Confinement.Proofs.Config.Order
import Confinement.Proofs.Access.Effect
import Confinement.Proofs.Registry.Precedence
import Confinement.Proofs.Access.PlainObject
import Confinement.Proofs.Access.WriteBack
import Confinement.Proofs.Invocation.Check
import Confinement.Proofs.Invocation.Binding
import Confinement.Proofs.Taming.History
import Confinement.Proofs.Bindings.History
import Confinement.Proofs.Access.Display
import Confinement.Proofs.Module.Linkage
import Confinement.Proofs.Emission.ScopedId
import Confinement.Proofs.Guardian.Handlers
import Confinement.Proofs.Access.Arguments
import Confinement.Proofs.Config.Check
import Confinement.Proofs.Registry.Listing
import Confinement.Proofs.Script.Program
