import PocketCalc.Binary64.Bits
import PocketCalc.Binary64.Order
import PocketCalc.Expr.Grammar
import PocketCalc.Expr.Value
import PocketCalc.Proofs.Decimal.Encoding
import PocketCalc.Proofs.Readout.Order
import PocketCalc.Proofs.Rpn.Acceptance
import PocketCalc.Proofs.Rpn.Gaps
import PocketCalc.Proofs.Rpn.Grouping
import PocketCalc.Proofs.Rpn.Height
import PocketCalc.Proofs.Rpn.Order
import PocketCalc.Proofs.Rpn.Outcome
import PocketCalc.Proofs.Rpn.Postorder
import PocketCalc.Proofs.Rpn.Recognition
import PocketCalc.Proofs.Rpn.Separators
import PocketCalc.Proofs.Rpn.Stack
import PocketCalc.Proofs.Rpn.Trees
import PocketCalc.Proofs.Session.Buffer
import PocketCalc.Proofs.Session.Constants
import PocketCalc.Proofs.Session.Diagnostics
import PocketCalc.Proofs.Session.Errors
import PocketCalc.Proofs.Session.Factors
import PocketCalc.Proofs.Session.Idempotence
import PocketCalc.Proofs.Session.Operators
import PocketCalc.Proofs.Session.Recovery
import PocketCalc.Proofs.Session.Results
import PocketCalc.Proofs.Session.Steps
import PocketCalc.Proofs.Session.Typing
import PocketCalc.Proofs.Token.Cut
import PocketCalc.Proofs.Token.Offences
import PocketCalc.Proofs.Token.Plain
import PocketCalc.Proofs.Trace
import PocketCalc.Session
