import Precedence.Bookmark
import Precedence.Main
import Precedence.Proofs.Lookahead
import Precedence.Proofs.Outcome
import Precedence.Proofs.Reading
import Precedence.Proofs.Sentence
import Precedence.Proofs.Grammar
import Precedence.Proofs.Height
import Precedence.Proofs.Tallest
import Precedence.Proofs.Scanning
import Precedence.Proofs.Rendering
import Precedence.Proofs.Run
import Precedence.Proofs.Moves
import Precedence.Proofs.Operations
import Precedence.Proofs.Threshold
import Precedence.Proofs.Abreast
import Precedence.Proofs.Pulls
import Precedence.Proofs.Containment
import Precedence.Proofs.Adjacency
import Precedence.Proofs.Bookmarks
import Precedence.Proofs.Segments
import Precedence.Proofs.Tokenizing
import Precedence.Proofs.Illegal
import Precedence.Proofs.Shape
import Precedence.Proofs.Log
import Precedence.Proofs.Conversation
import Precedence.Proofs.LongestMatch
import Precedence.Proofs.LowerPower
import Precedence.Proofs.Wording
import Precedence.Proofs.Integers
import Precedence.Proofs.Registration
