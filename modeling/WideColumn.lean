import WideColumn.Catalog.Load
import WideColumn.Json.Parser
import WideColumn.Proofs.Codec.ReadBack
import WideColumn.Proofs.Expression.Stored
import WideColumn.Proofs.Record.Baseline
import WideColumn.Proofs.Record.Immutable
import WideColumn.Proofs.Table.Batches
import WideColumn.Proofs.Table.Pages
import WideColumn.Proofs.Table.Placeholders
import WideColumn.Proofs.Update.Effect
import WideColumn.Proofs.WireValue.Grammar
import WideColumn.Proofs.Condition.KeyShape
import WideColumn.Proofs.Expression.KeyCondition
import WideColumn.Proofs.Table.Guard
import WideColumn.Proofs.Codec.Storable
import WideColumn.Proofs.Record.WriteBack
import WideColumn.Proofs.Codec.Integral
import WideColumn.Proofs.Codec.Reread
import WideColumn.Proofs.Record.Rejoined
import WideColumn.Proofs.Expression.Shape
import WideColumn.Proofs.Record.Refusal
import WideColumn.Proofs.Record.Commute
import WideColumn.Proofs.Codec.NumberText
import WideColumn.Proofs.Codec.Rewrite
import WideColumn.Proofs.Record.Views
import WideColumn.Proofs.Catalog.Admitted
import WideColumn.Proofs.Schema.Order
import WideColumn.Proofs.Record.Given
import WideColumn.Proofs.Record.Construction
import WideColumn.Proofs.Value.Equality
import WideColumn.Proofs.Value.Json
import WideColumn.Proofs.Diff.Patch
import WideColumn.Proofs.Table.SingleCall
import WideColumn.Proofs.Store.Messages
import WideColumn.Proofs.Expression.Writer
import WideColumn.Proofs.Schema.TwoWay
import WideColumn.Proofs.Update.Writer
