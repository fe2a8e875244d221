import LetterGrammar.Main
import LetterGrammar.Grammar.Derivation
import LetterGrammar.Search.Depth
import LetterGrammar.Source.Folder
import LetterGrammar.Source.Reading
import LetterGrammar.Proofs.Search.Exhaustive
import LetterGrammar.Proofs.Machine.Forms
import LetterGrammar.Proofs.Language
import LetterGrammar.Proofs.Pruning
import LetterGrammar.Proofs.Termination
import LetterGrammar.Proofs.Search.FirstRun
import LetterGrammar.Proofs.Machine.Leftmost
import LetterGrammar.Proofs.Text.Layout
import LetterGrammar.Proofs.Source.RuleLine
import LetterGrammar.Proofs.Source.Tokens
import LetterGrammar.Proofs.Source.Reading
import LetterGrammar.Proofs.Search.Correspondence
import LetterGrammar.Proofs.Machine.FirstRules
import LetterGrammar.Proofs.Machine.Renaming
import LetterGrammar.Proofs.Search.Reordering
import LetterGrammar.Proofs.Search.Repeats
import LetterGrammar.Proofs.Search.Frame
import LetterGrammar.Proofs.Text.Encoding
import LetterGrammar.Proofs.Source.RoundTrip
import LetterGrammar.Proofs.Search.Balance
import LetterGrammar.Proofs.Search.Links
import LetterGrammar.Proofs.Search.Trace
import LetterGrammar.Proofs.Search.Moments
import LetterGrammar.Proofs.Machine.Orderly
import LetterGrammar.Proofs.Command.Session
import LetterGrammar.Proofs.Machine.Ledger
import LetterGrammar.Proofs.Machine.Lookup
import LetterGrammar.Proofs.Machine.Alphabets
import LetterGrammar.Proofs.Machine.Decompile
