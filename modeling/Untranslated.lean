import Untranslated.Main
import Untranslated.Proofs.Scan.Pool
import Untranslated.Proofs.Scan.Collect
import Untranslated.Proofs.Blade.Arguments
import Untranslated.Proofs.Blade.Lines
import Untranslated.Proofs.Blade.Structured
import Untranslated.Proofs.Blade.Attributes
import Untranslated.Proofs.Blade.TagEchoes
import Untranslated.Proofs.Blade.Comments
import Untranslated.Proofs.Catalog.Answers
import Untranslated.Proofs.Scan.Calls
import Untranslated.Proofs.Scan.Report
import Untranslated.Proofs.Scan.Successive
import Untranslated.Proofs.Configuration.Faults
import Untranslated.Proofs.Json.Fuel
import Untranslated.Proofs.Call.Positions
import Untranslated.Proofs.Call.Caseless
import Untranslated.Proofs.Catalog.Session
import Untranslated.Proofs.Catalog.Growth
import Untranslated.Proofs.Catalog.KeyPaths
import Untranslated.Proofs.Catalog.Agreement
import Untranslated.Proofs.Catalog.Faults
import Untranslated.Proofs.Call.Findings
import Untranslated.Proofs.Php.Grammar.Formed
import Untranslated.Proofs.Php.Lexer.Measures
import Untranslated.Proofs.Php.Lexer.Quoted
import Untranslated.Proofs.Php.Lexer.Steps
import Untranslated.Proofs.Php.Lexer.Reaches
import Untranslated.Proofs.Php.Lexer.Locality
import Untranslated.Proofs.Php.Lexer.Insertion
import Untranslated.Proofs.Call.Comments
import Untranslated.Proofs.Php.Grammar.Runs
import Untranslated.Proofs.Php.Literal.Spelling
import Untranslated.Proofs.Php.Literal.Bytes
import Untranslated.Proofs.Scan.Completion
import Untranslated.Proofs.Call.Keys
import Untranslated.Proofs.Php.ArrayKeys
import Untranslated.Proofs.Php.Literal.Documents
import Untranslated.Proofs.Php.Import.Clauses
import Untranslated.Proofs.Php.Import.Declarations
import Untranslated.Proofs.FileTree.Regular
import Untranslated.Proofs.Catalog.Comments
import Untranslated.Proofs.Php.Literal.Scanned
import Untranslated.Proofs.CommandLine.Lines
import Untranslated.Proofs.Call.Names
import Untranslated.Proofs.Call.Preorder
import Untranslated.Proofs.Php.ArrayPositions
import Untranslated.Proofs.Blade.Closing
import Untranslated.Proofs.CommandLine.ProgressBar
import Untranslated.Proofs.CommandLine.Settings
