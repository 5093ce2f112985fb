import GraphKit.Exchange.Cluster
import GraphKit.Exchange.Console
import GraphKit.Exchange.Lowering
import GraphKit.Exchange.Shape
import GraphKit.Exchange.Upgrade
import GraphKit.HyperParam.Stored
import GraphKit.Proofs.Cluster.Tasks
import GraphKit.Proofs.Console.Completions
import GraphKit.Proofs.Console.Redirects
import GraphKit.Proofs.Console.Registration
import GraphKit.Proofs.Console.Texts
import GraphKit.Proofs.Console.Visits
import GraphKit.Proofs.Console.Wrapping
import GraphKit.Proofs.Device.Scopes
import GraphKit.Proofs.Flow.BlockScopes
import GraphKit.Proofs.Flow.LiveNames
import GraphKit.Proofs.Flow.Precision
import GraphKit.Proofs.HyperParam.Updates
import GraphKit.Proofs.Lowering.Breaks
import GraphKit.Proofs.Lowering.Comprehensions
import GraphKit.Proofs.Lowering.Continues
import GraphKit.Proofs.Lowering.Convertible
import GraphKit.Proofs.Lowering.EntityNames
import GraphKit.Proofs.Lowering.Guarded
import GraphKit.Proofs.Lowering.Logic
import GraphKit.Proofs.Lowering.SingleReturns
import GraphKit.Proofs.Message.Lossless
import GraphKit.Proofs.Message.Sources
import GraphKit.Proofs.Shape.Broadcasts
import GraphKit.Proofs.Shape.Parts
import GraphKit.Proofs.Syntax.Matching
import GraphKit.Proofs.Syntax.Substituting
import GraphKit.Proofs.Trace.Lanes
import GraphKit.Proofs.Upgrade.Substitution
import GraphKit.Syntax.Outline
import GraphKit.Upgrade.First
import GraphKit.Upgrade.Second
