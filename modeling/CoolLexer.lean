import CoolLexer.Source.Map
import CoolLexer.Diagnostic.Snippet
import CoolLexer.Lexer.Reader
import CoolLexer.Lexer.Scan
import CoolLexer.Rendering.Reader
import CoolLexer.Json.Record
import CoolLexer.Config.Document
import CoolLexer.FileSystem.Tree
import CoolLexer.Command.Program
import CoolLexer.Main
import CoolLexer.Proofs.Lexer.Tiling
import CoolLexer.Proofs.Lexer.Image
import CoolLexer.Proofs.Rendering.RoundTrip
import CoolLexer.Proofs.Lexer.Concatenation
import CoolLexer.Proofs.Lexer.Pull
import CoolLexer.Proofs.Lexer.Call
import CoolLexer.Proofs.Lexer.Prefix
import CoolLexer.Proofs.Lexer.Restart
import CoolLexer.Proofs.Lexer.LineBreaks
import CoolLexer.Proofs.Command.Agreement
import CoolLexer.Proofs.Lexer.LiteralEvents
import CoolLexer.Proofs.Diagnostic.Caret
import CoolLexer.Proofs.Command.Effects
import CoolLexer.Proofs.Json.Records
import CoolLexer.Proofs.Lexer.Nesting
import CoolLexer.Proofs.Lexer.LongestLexeme
import CoolLexer.Proofs.Lexer.Progress
import CoolLexer.Proofs.Lexer.LineComments
import CoolLexer.Proofs.Lexer.StringLimit
import CoolLexer.Proofs.Rendering.ErrorIndex
import CoolLexer.Proofs.Diagnostic.CaretWidth
import CoolLexer.Proofs.Text.Utf8
import CoolLexer.Proofs.Source.Pieces
import CoolLexer.Proofs.Cursor.Peek
import CoolLexer.Proofs.Cursor.Session
import CoolLexer.Proofs.Toml.Line
import CoolLexer.Proofs.Config.Document
import CoolLexer.Proofs.FileSystem.Directories
import CoolLexer.Proofs.Config.Saved
import CoolLexer.Proofs.Command.Limit
import CoolLexer.Proofs.FileSystem.Parts
import CoolLexer.Proofs.FileSystem.Parents
