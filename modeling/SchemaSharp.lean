import SchemaSharp.CSharp.Declaration
import SchemaSharp.CSharp.Literal
import SchemaSharp.CSharp.Primitive
import SchemaSharp.CSharp.Source
import SchemaSharp.CSharp.TypeExpr
import SchemaSharp.CSharp.TypeTable
import SchemaSharp.Decimal
import SchemaSharp.Decode.Error
import SchemaSharp.Decode.Record
import SchemaSharp.Double.Basic
import SchemaSharp.Double.Rounding
import SchemaSharp.Double.Shortest
import SchemaSharp.Error
import SchemaSharp.Generate
import SchemaSharp.Json.Basic
import SchemaSharp.Json.Number
import SchemaSharp.Json.Reader
import SchemaSharp.Numeral
import SchemaSharp.Options
import SchemaSharp.Proofs.Blank
import SchemaSharp.Proofs.ClassText
import SchemaSharp.Proofs.Classification
import SchemaSharp.Proofs.Culprit
import SchemaSharp.Proofs.DecimalGrammar
import SchemaSharp.Proofs.DecimalRounding
import SchemaSharp.Proofs.Declaration
import SchemaSharp.Proofs.DeclaredText
import SchemaSharp.Proofs.Decoding
import SchemaSharp.Proofs.Dependence
import SchemaSharp.Proofs.Encoding
import SchemaSharp.Proofs.EnumText
import SchemaSharp.Proofs.Equality
import SchemaSharp.Proofs.Failure
import SchemaSharp.Proofs.FieldAttributes
import SchemaSharp.Proofs.Generation
import SchemaSharp.Proofs.Identifier
import SchemaSharp.Proofs.IntRange
import SchemaSharp.Proofs.Interchange
import SchemaSharp.Proofs.Lines
import SchemaSharp.Proofs.LiteralGrammar
import SchemaSharp.Proofs.LiteralValue
import SchemaSharp.Proofs.Log
import SchemaSharp.Proofs.MemberOrder
import SchemaSharp.Proofs.MemberValue
import SchemaSharp.Proofs.Namespace
import SchemaSharp.Proofs.Nearest
import SchemaSharp.Proofs.Nesting
import SchemaSharp.Proofs.Normalized
import SchemaSharp.Proofs.Numeral
import SchemaSharp.Proofs.ObjectView
import SchemaSharp.Proofs.Outcome
import SchemaSharp.Proofs.Positional
import SchemaSharp.Proofs.Rearrangement
import SchemaSharp.Proofs.RecordChanges
import SchemaSharp.Proofs.Registration
import SchemaSharp.Proofs.Renaming
import SchemaSharp.Proofs.Resolution
import SchemaSharp.Proofs.Respelling
import SchemaSharp.Proofs.Rounding
import SchemaSharp.Proofs.Scanning
import SchemaSharp.Proofs.Shadowing
import SchemaSharp.Proofs.Shortest
import SchemaSharp.Proofs.SingleRange
import SchemaSharp.Proofs.SourceText
import SchemaSharp.Proofs.Spelling
import SchemaSharp.Proofs.StringLiteral
import SchemaSharp.Proofs.Truncation
import SchemaSharp.Proofs.TypeExpr
import SchemaSharp.Proofs.TypeTable
import SchemaSharp.Proofs.Validation
import SchemaSharp.Proofs.Violation
import SchemaSharp.Proofs.WholeNumber
import SchemaSharp.Proofs.WrittenFraction
import SchemaSharp.Schema.Basic
import SchemaSharp.Schema.Decode
import SchemaSharp.Schema.Load
import SchemaSharp.Schema.MemberValue
import SchemaSharp.Schema.Property
import SchemaSharp.Schema.Validation
import SchemaSharp.Text.Blank
import SchemaSharp.Text.Capital
import SchemaSharp.Text.Invisible
import SchemaSharp.Text.Quoted
