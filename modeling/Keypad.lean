import Keypad.Session
import Keypad.Complex.Arithmetic
import Keypad.Display
import Keypad.Proofs.Grammar.Budget
import Keypad.Proofs.Parser.Fuel
import Keypad.Proofs.Grammar.Free
import Keypad.Proofs.Grammar.Phrase
import Keypad.Proofs.Grammar.Soundness
import Keypad.Proofs.Grammar.Keys
import Keypad.Proofs.Grammar.Completeness
import Keypad.Proofs.Grammar.Greedy
import Keypad.Proofs.Grammar.Longest
import Keypad.Proofs.Expr.Unparse
import Keypad.Proofs.Expr.Explicit
import Keypad.Proofs.Lexeme.Spells
import Keypad.Proofs.Expr.Description
import Keypad.Proofs.Complex.Exact
import Keypad.Proofs.Decimal.Numeral
import Keypad.Proofs.Double.Classes
import Keypad.Proofs.Expr.Denotes
import Keypad.Proofs.Display.Reading
import Keypad.Proofs.Display.RoundTrip
import Keypad.Proofs.Grammar.Reentry
import Keypad.Proofs.Lexeme.Munch
import Keypad.Proofs.Lexeme.LongestMatch
import Keypad.Proofs.Lexeme.DisplayText
import Keypad.Proofs.Expr.DescriptionLevels
import Keypad.Proofs.Grammar.Levels
import Keypad.Proofs.Parser.During
import Keypad.Proofs.Parser.Fatality
import Keypad.Parser.Cursor
import Keypad.Proofs.Parser.Discipline
import Keypad.Proofs.Parser.Places
import Keypad.Proofs.Grammar.Answers
import Keypad.Proofs.Lexeme.Answers
import Keypad.Proofs.Session.History
import Keypad.Proofs.Session.Independence
import Keypad.Proofs.Grammar.Places
import Keypad.Proofs.Grammar.Capacity
import Keypad.Proofs.Parser.Stopping
import Keypad.Proofs.Grammar.Mistakes
import Keypad.Proofs.Lexeme.Cut
import Keypad.Proofs.Lexeme.Neighbours
import Keypad.Proofs.Lexeme.Blanks
import Keypad.Proofs.Double.Products
import Keypad.Proofs.Complex.Brackets
import Keypad.Proofs.Expr.Strictness
import Keypad.Proofs.Complex.RealLine
import Keypad.Proofs.Decimal.Canonical
import Keypad.Proofs.Display.Canonical
import Keypad.Proofs.Display.Vanishing
import Keypad.Proofs.Parser.Alternation
import Keypad.Proofs.Parser.Repetition
import Keypad.Proofs.Expr.DescriptionKeys
import Keypad.Proofs.Expr.Height
import Keypad.Proofs.Grammar.Height
import Keypad.Proofs.Decimal.Notation
