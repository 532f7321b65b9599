import DeclBundle.Main
import DeclBundle.Proofs.Rewrite.Splice
import DeclBundle.Proofs.Path.Canonical
import DeclBundle.Proofs.Path.Relative
import DeclBundle.Proofs.ModuleId.Segments
import DeclBundle.Proofs.Compiler.Collected
import DeclBundle.Proofs.Compiler.Links
import DeclBundle.Proofs.Declaration.Change
import DeclBundle.Proofs.Declaration.Content
import DeclBundle.Proofs.Bundle.Script
import DeclBundle.Proofs.Bundle.Content
import DeclBundle.Proofs.Bundle.Outcome
import DeclBundle.Proofs.Bundle.Headers
import DeclBundle.Proofs.Compiler.Compiled
import DeclBundle.Proofs.Compiler.Placement
import DeclBundle.Proofs.Bundle.Identifiers
import DeclBundle.Proofs.Compiler.Inputs
import DeclBundle.Proofs.Path.Idempotent
import DeclBundle.Proofs.Compiler.Diagnostics
import DeclBundle.Proofs.Document.Closing
import DeclBundle.Proofs.Document.Session
import DeclBundle.Proofs.Bundle.Closing
import DeclBundle.Proofs.Bundle.Refusal
import DeclBundle.Proofs.Json.Scalar
import DeclBundle.Proofs.Json.Spelling
import DeclBundle.Proofs.Json.Stripping
import DeclBundle.Proofs.Json.Commented
import DeclBundle.Proofs.Json.Plain
import DeclBundle.Proofs.Files.Globbing
import DeclBundle.Proofs.Files.Way
import DeclBundle.Proofs.Configuration.Entries
import DeclBundle.Proofs.Configuration.Excludes
import DeclBundle.Proofs.Configuration.Extends
import DeclBundle.Proofs.Configuration.Inheritance
import DeclBundle.Proofs.Bundle.Containment
import DeclBundle.Proofs.Declaration.Around
import DeclBundle.Proofs.Format.Indent
import DeclBundle.Proofs.Declaration.Literals
import DeclBundle.Proofs.Declaration.StringLiteral
import DeclBundle.Proofs.Declaration.Specifiers
import DeclBundle.Proofs.Declaration.Escapes
import DeclBundle.Proofs.Files.Alike
import DeclBundle.Proofs.Configuration.FilesRead
import DeclBundle.Proofs.Document.Opening
import DeclBundle.Proofs.Bundle.OldOutput
import DeclBundle.Proofs.Configuration.Escapes
import DeclBundle.Proofs.Bundle.Unasked
import DeclBundle.Proofs.Bundle.Anchored
import DeclBundle.Proofs.Bundle.Directory
import DeclBundle.Proofs.Bundle.Repetition
import DeclBundle.Proofs.Compiler.Footprint
import DeclBundle.Proofs.Compiler.Lines
import DeclBundle.Proofs.Compiler.Printing
import DeclBundle.Proofs.Text.Edge
import DeclBundle.Proofs.Rewrite.Pieces
import DeclBundle.Proofs.Rewrite.Siblings
import DeclBundle.Proofs.Declaration.Modifier
import DeclBundle.Proofs.Format.Lines
import DeclBundle.Proofs.ModuleId.Walk
import DeclBundle.Proofs.Compiler.Indented
import DeclBundle.Proofs.Configuration.DefaultInputs
import DeclBundle.Proofs.CommandLine.Unescape
