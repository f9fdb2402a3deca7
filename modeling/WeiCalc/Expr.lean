import WeiCalc.Number
import WeiCalc.Operator

/-!
# Expressions

The tree of a line. Every node knows the offset in the line where it starts; an operation starts
where its left operand does.
-/

namespace WeiCalc

/-- An expression. -/
inductive Expr where
  | number (literal : NumberLiteral) (position : Nat)
  | text (contents : String) (position : Nat)
  | identifier (name : String) (position : Nat)
  | negate (operand : Expr) (position : Nat)
  | binary (left : Expr) (op : BinaryOp) (right : Expr) (position : Nat)
  /-- An amount in a unit, `1 ether`. -/
  | measured (amount : Expr) (unit : String) (position : Nat)
  /-- A conversion to a unit, `x to gwei`. -/
  | converted (amount : Expr) (unit : String) (position : Nat)
  | call (name : String) (arguments : List Expr) (position : Nat)
  /-- A part whose arithmetic wraps, `unchecked(x)`. -/
  | unchecked (inner : Expr) (position : Nat)

namespace Expr

/-- The offset in the line where an expression starts. -/
def position : Expr → Nat
  | number _ p => p
  | text _ p => p
  | identifier _ p => p
  | negate _ p => p
  | binary _ _ _ p => p
  | measured _ _ p => p
  | converted _ _ p => p
  | call _ _ p => p
  | unchecked _ p => p

end Expr

end WeiCalc
