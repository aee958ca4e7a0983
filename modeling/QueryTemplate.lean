import QueryTemplate.Catalog
import QueryTemplate.Host.Description
import QueryTemplate.Tree.SExpr
import QueryTemplate.Proofs.Catalog.Places
import QueryTemplate.Proofs.Interpreter.Columns
import QueryTemplate.Proofs.Interpreter.Formatted
import QueryTemplate.Proofs.Interpreter.Integers
import QueryTemplate.Proofs.Interpreter.Native
import QueryTemplate.Proofs.Interpreter.Termination
import QueryTemplate.Proofs.Row
import QueryTemplate.Proofs.Scope.Numbered
import QueryTemplate.Proofs.Token.Order
import QueryTemplate.Proofs.Token.Quoting
import QueryTemplate.Proofs.Tree.Dump
import QueryTemplate.Proofs.Tree.EndOfInput
import QueryTemplate.Proofs.Tree.Mappers
import QueryTemplate.Proofs.Value.Combined
import QueryTemplate.Proofs.Value.Comparison
import QueryTemplate.Proofs.Value.Equality
import QueryTemplate.Proofs.Interpreter.Panics
