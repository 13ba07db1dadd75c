import SexpScript.Form.Printing
import SexpScript.Main
import SexpScript.Proofs.Brackets
import SexpScript.Proofs.Grammar
import SexpScript.Proofs.Scanning
import SexpScript.Proofs.Numerals
import SexpScript.Proofs.Acceptance
import SexpScript.Proofs.Concatenation
import SexpScript.Proofs.RoundTrip
import SexpScript.Proofs.Regions
import SexpScript.Proofs.Balance
import SexpScript.Proofs.Legibility
import SexpScript.Proofs.JsonGrammar
import SexpScript.Proofs.JsonWriting
import SexpScript.Proofs.Replies
import SexpScript.Proofs.Children
import SexpScript.Proofs.Counter
import SexpScript.Proofs.Flattening
import SexpScript.Proofs.Sending
import SexpScript.Proofs.Reformatting
import SexpScript.Proofs.Literals
import SexpScript.Proofs.Terminators
import SexpScript.Proofs.Operands
import SexpScript.Proofs.Precedence
import SexpScript.Proofs.Slots
import SexpScript.Proofs.Statements
import SexpScript.Proofs.Census
import SexpScript.Proofs.Transcript
import SexpScript.Proofs.Exit
import SexpScript.Proofs.Requests
import SexpScript.Proofs.Clipping
import SexpScript.Proofs.FileCommands
import SexpScript.Proofs.OutputFiles
import SexpScript.Proofs.BrokenReplies
import SexpScript.Proofs.Lifecycle
