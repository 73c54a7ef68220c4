import Formula.AnyEquation
import Formula.Proofs.Compiled
import Formula.Proofs.Expr.Dual
import Formula.Proofs.Expr.RoundTrip
import Formula.Proofs.Equation.Session
import Formula.Proofs.Equation.Kept
import Formula.Proofs.Equation.Triangle
import Formula.Proofs.Equation.Answers
import Formula.Proofs.Equation.Asked
import Formula.Proofs.Equation.Reached
import Formula.Proofs.Buffer
import Formula.Proofs.Equation.Routes
import Formula.Proofs.Expr.Folded
import Formula.Proofs.Expr.Read
import Formula.Proofs.Program.Slots
import Formula.Proofs.Equation.WellFormed
import Formula.Proofs.Equation.Reread
import Formula.Proofs.Program.Balanced
import Formula.Proofs.Equation.ByNames
import Formula.Proofs.Expr.Absent
import Formula.Proofs.Expr.Mixed
import Formula.Proofs.Program.Safe
import Formula.Proofs.Compiled.Narrowed
import Formula.Proofs.Equation.Written
import Formula.Proofs.Token.Taken
import Formula.Proofs.Token.Lexeme
import Formula.Proofs.Token.Joined
import Formula.Proofs.Term.Blamed
import Formula.Proofs.Expr.Located
import Formula.Proofs.Expr.Resolved
import Formula.Proofs.Compiled.Dependencies
import Formula.Proofs.Term.Parentheses
import Formula.Proofs.Expr.Size
import Formula.Proofs.Program.Loads
import Formula.Proofs.Term.Calls
import Formula.Proofs.AnyEquation
import Formula.Proofs.Token.Longest
