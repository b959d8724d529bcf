import Ecma.Code.Assembly
import Ecma.Code.Picture
import Ecma.Engine.HostValue
import Ecma.Json.Writer
import Ecma.Main
import Ecma.Proofs.Enumeration
import Ecma.Proofs.Generators
import Ecma.Proofs.Interchange
import Ecma.Proofs.JobQueue
import Ecma.Proofs.Limits
import Ecma.Proofs.Merging
import Ecma.Proofs.Instantiation
import Ecma.Proofs.Nesting
import Ecma.Proofs.Options.Transparency
import Ecma.Proofs.Permanence
import Ecma.Proofs.PropertyOrder
import Ecma.Proofs.RecordViews
import Ecma.Proofs.Resolution
import Ecma.Scope.Picture
import Ecma.Syntax.Shorthand
import Ecma.Text.Lines
