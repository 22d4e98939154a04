import SchemaScript.Main
import SchemaScript.Proofs.Definition.ConstraintNames
import SchemaScript.Proofs.Definition.Declarations
import SchemaScript.Proofs.Definition.ModifierOrder
import SchemaScript.Proofs.Definition.Nesting
import SchemaScript.Proofs.Definition.OuterParens
import SchemaScript.Proofs.Definition.Positions
import SchemaScript.Proofs.Definition.SingleColumn
import SchemaScript.Proofs.Render.Cells
import SchemaScript.Proofs.Render.Defaults
import SchemaScript.Proofs.Render.DroppedComments
import SchemaScript.Proofs.Render.ForeignKeys
import SchemaScript.Proofs.Render.IndexAccounts
import SchemaScript.Proofs.Render.Listings
import SchemaScript.Proofs.Render.LongestPrefix
import SchemaScript.Proofs.Render.StandIns
import SchemaScript.Proofs.Render.Translation
import SchemaScript.Proofs.Render.TypeSpellings
import SchemaScript.Proofs.Schema.Exchange
import SchemaScript.Proofs.Schema.KeyEdits
import SchemaScript.Proofs.Schema.Signatures
import SchemaScript.Proofs.Script.AdditionStatements
import SchemaScript.Proofs.Script.DelimiterBlocks
import SchemaScript.Proofs.Script.Descriptions
import SchemaScript.Proofs.Script.DroppedNames
import SchemaScript.Proofs.Script.LeadingComments
import SchemaScript.Proofs.Script.OneStatement
import SchemaScript.Proofs.Script.Segments
import SchemaScript.Proofs.Script.StatementLines
import SchemaScript.Proofs.Text.Qualified
import SchemaScript.Proofs.Text.Respacing
