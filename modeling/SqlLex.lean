import SqlLex.Tokenize
import SqlLex.Vocabulary.Standard
import SqlLex.Report.Basic
import SqlLex.CommandLine.Response
import SqlLex.Main
import SqlLex.Proofs.Lexeme.Locality
import SqlLex.Proofs.MaximalMunch
import SqlLex.Proofs.Shift
import SqlLex.Proofs.Grouping
import SqlLex.Proofs.LongestPhrase
import SqlLex.Proofs.Interior
import SqlLex.Proofs.Respacing
import SqlLex.Proofs.Lossless
import SqlLex.Proofs.Lexeme.Shape
import SqlLex.Proofs.Classification
import SqlLex.Proofs.Concatenation
import SqlLex.Proofs.Accounting
import SqlLex.Proofs.Extension
import SqlLex.Proofs.LetterCase
import SqlLex.Proofs.Phrase
import SqlLex.Proofs.TextReport
import SqlLex.Proofs.FragmentReport
import SqlLex.Proofs.Fault
import SqlLex.Proofs.Registers.Representation
import SqlLex.Proofs.SecondPoint
import SqlLex.Proofs.OpenLiteral
import SqlLex.Proofs.Surroundings
import SqlLex.Proofs.Tables
import SqlLex.Proofs.FirstDefect
import SqlLex.Proofs.DeadSpelling
import SqlLex.Proofs.Values
import SqlLex.Proofs.Events
