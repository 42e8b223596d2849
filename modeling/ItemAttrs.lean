import ItemAttrs.Span.Range
import ItemAttrs.Interner.Shared
import ItemAttrs.Attr.Dump
import ItemAttrs.Attr.Edit
import ItemAttrs.Attr.Write
import ItemAttrs.Diagnostic.Write
import ItemAttrs.Lint.Unused
import ItemAttrs.Cache.Decode
import ItemAttrs.Proofs.Span.Enclosure
import ItemAttrs.Proofs.Span.Range
import ItemAttrs.Proofs.Name.Packing
import ItemAttrs.Proofs.Name.Order
import ItemAttrs.Proofs.Interner.Invariant
import ItemAttrs.Proofs.Interner.History
import ItemAttrs.Proofs.Interner.FirstCome
import ItemAttrs.Proofs.Interner.Later
import ItemAttrs.Proofs.Interner.Serial
import ItemAttrs.Proofs.Interner.Progress
import ItemAttrs.Proofs.Interner.Linearization
import ItemAttrs.Proofs.Interner.Agreement
import ItemAttrs.Proofs.Text.Boundary
import ItemAttrs.Proofs.Text.Quoted
import ItemAttrs.Proofs.Text.Reading
import ItemAttrs.Proofs.Text.Line
import ItemAttrs.Proofs.Dump.Layout
import ItemAttrs.Proofs.Path.Split
import ItemAttrs.Proofs.Path.Identifier
import ItemAttrs.Proofs.Path.Naming
import ItemAttrs.Proofs.Expr.Tree
import ItemAttrs.Proofs.Expr.Operand
import ItemAttrs.Proofs.Expr.Faithful
import ItemAttrs.Proofs.Attr.Tree
import ItemAttrs.Proofs.Attr.Pieces
import ItemAttrs.Proofs.Attr.Faults
import ItemAttrs.Proofs.Attr.Strip
import ItemAttrs.Proofs.Attr.Naming
import ItemAttrs.Proofs.Expr.Unambiguous
import ItemAttrs.Proofs.Attr.Unambiguous
import ItemAttrs.Proofs.Attr.Faithful
import ItemAttrs.Proofs.Attr.Edit
import ItemAttrs.Proofs.Attr.Marks
import ItemAttrs.Proofs.Lint.Reports
import ItemAttrs.Proofs.Lint.Run
import ItemAttrs.Proofs.Lint.Faults
import ItemAttrs.Proofs.Lint.Marks
import ItemAttrs.Proofs.Lint.Outputs
import ItemAttrs.Proofs.Json.Reading
import ItemAttrs.Proofs.Json.Record
import ItemAttrs.Proofs.Cache.Written
import ItemAttrs.Proofs.Cache.RoundTrip
import ItemAttrs.Proofs.Attr.LookUp
import ItemAttrs.Proofs.Attr.Descent
import ItemAttrs.Proofs.Attr.Locality
import ItemAttrs.Proofs.Lint.Consumed
import ItemAttrs.Proofs.Lint.Lines
import ItemAttrs.Proofs.Cache.Segments
import ItemAttrs.Proofs.Diagnostic.Build
import ItemAttrs.Proofs.Diagnostic.Lines
import ItemAttrs.Proofs.Attr.Lines
import ItemAttrs.Proofs.Attr.Matching
