import Pagewright.Main
import Pagewright.Proofs.Binding.Escapes
import Pagewright.Proofs.CommandLine.Bindings
import Pagewright.Proofs.Condition.WholeNumbers
import Pagewright.Proofs.Contract.Apart
import Pagewright.Proofs.Contract.Neutral
import Pagewright.Proofs.Contract.Order
import Pagewright.Proofs.Contract.Reported
import Pagewright.Proofs.Contract.Transforms
import Pagewright.Proofs.Layout.Caps
import Pagewright.Proofs.Layout.Dependence
import Pagewright.Proofs.Layout.DesignMode
import Pagewright.Proofs.Layout.Fewest
import Pagewright.Proofs.Layout.FlowRoom
import Pagewright.Proofs.Layout.Flows
import Pagewright.Proofs.Layout.Hidden
import Pagewright.Proofs.Layout.Selection
import Pagewright.Proofs.Layout.Tables
import Pagewright.Proofs.Layout.Traceless
import Pagewright.Proofs.Markup.Gaps
import Pagewright.Proofs.Record.Lens
import Pagewright.Proofs.Rendering.Gate
import Pagewright.Proofs.Rendering.Preview
import Pagewright.Proofs.Service.Rejection
import Pagewright.Proofs.Store.Appending
import Pagewright.Proofs.Store.AuditList
import Pagewright.Proofs.Store.Lines
import Pagewright.Proofs.Store.Overlap
import Pagewright.Proofs.Store.Recency
import Pagewright.Proofs.Template.Checks
import Pagewright.Proofs.Template.Ids
import Pagewright.Proofs.Template.Reachable
import Pagewright.Service.Answer
