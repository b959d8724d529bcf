/-
The operators of the language and their spellings. Arithmetic on two numbers
is shared with the number library; `+` stands apart, because it also joins
strings.
-/
import Ecma.Number.Integer

namespace Ecma.Syntax

/-- Operators in front of an expression. -/
inductive UnaryOperator where
  | minus | plus | not | complement | typeOf | void | delete
  deriving DecidableEq, Repr

/-- The two operators that step a number. -/
inductive UpdateOperator where
  | increment | decrement
  deriving DecidableEq, Repr

/-- Comparisons and membership tests. -/
inductive Relation where
  | equal | notEqual | strictEqual | strictNotEqual
  | less | lessEqual | greater | greaterEqual
  | within | instanceOf
  deriving DecidableEq, Repr

/-- Operators between two expressions that evaluate both. -/
inductive BinaryOperator where
  | add
  | arithmetic (operator : Number.Arithmetic)
  | relation (relation : Relation)
  deriving DecidableEq, Repr

/-- Operators that evaluate their right operand only if needed. -/
inductive LogicalOperator where
  | and | or | coalesce
  deriving DecidableEq, Repr

/-- Plain assignment, or assignment of an operator's value. -/
inductive AssignOperator where
  | plain
  | add
  | arithmetic (operator : Number.Arithmetic)
  deriving DecidableEq, Repr

def AssignOperator.binary? : AssignOperator → Option BinaryOperator
  | .plain => none
  | .add => some .add
  | .arithmetic operator => some (.arithmetic operator)

/-! ## Spellings -/

def lookup? {α : Type} (all : List α) (spelling : α → String) (token : String) : Option α :=
  all.find? fun a => spelling a == token

def arithmeticSymbol : Number.Arithmetic → String
  | .sub => "-"
  | .mul => "*"
  | .div => "/"
  | .rem => "%"
  | .pow => "**"
  | .and => "&"
  | .or => "|"
  | .xor => "^"
  | .shiftLeft => "<<"
  | .shiftRight => ">>"
  | .shiftRightZero => ">>>"

def allArithmetic : List Number.Arithmetic :=
  [.sub, .mul, .div, .rem, .pow, .and, .or, .xor, .shiftLeft, .shiftRight, .shiftRightZero]

namespace UnaryOperator

def symbol : UnaryOperator → String
  | minus => "-"
  | plus => "+"
  | not => "!"
  | complement => "~"
  | typeOf => "typeof"
  | void => "void"
  | delete => "delete"

def all : List UnaryOperator := [minus, plus, not, complement, typeOf, void, delete]

def ofSymbol? : String → Option UnaryOperator := lookup? all symbol

theorem ofSymbol?_symbol (o : UnaryOperator) : ofSymbol? o.symbol = some o := by
  cases o <;> decide

end UnaryOperator

namespace UpdateOperator

def symbol : UpdateOperator → String
  | increment => "++"
  | decrement => "--"

def all : List UpdateOperator := [increment, decrement]

def ofSymbol? : String → Option UpdateOperator := lookup? all symbol

theorem ofSymbol?_symbol (o : UpdateOperator) : ofSymbol? o.symbol = some o := by
  cases o <;> decide

end UpdateOperator

namespace Relation

def symbol : Relation → String
  | equal => "=="
  | notEqual => "!="
  | strictEqual => "==="
  | strictNotEqual => "!=="
  | less => "<"
  | lessEqual => "<="
  | greater => ">"
  | greaterEqual => ">="
  | within => "in"
  | instanceOf => "instanceof"

def all : List Relation :=
  [equal, notEqual, strictEqual, strictNotEqual, less, lessEqual, greater, greaterEqual,
    within, instanceOf]

end Relation

namespace BinaryOperator

def symbol : BinaryOperator → String
  | add => "+"
  | arithmetic operator => arithmeticSymbol operator
  | relation r => r.symbol

def all : List BinaryOperator :=
  add :: allArithmetic.map arithmetic ++ Relation.all.map relation

def ofSymbol? : String → Option BinaryOperator := lookup? all symbol

theorem ofSymbol?_symbol (o : BinaryOperator) : ofSymbol? o.symbol = some o := by
  rcases o with _ | o | o <;> try cases o
  all_goals decide

end BinaryOperator

namespace LogicalOperator

def symbol : LogicalOperator → String
  | and => "&&"
  | or => "||"
  | coalesce => "??"

def all : List LogicalOperator := [and, or, coalesce]

def ofSymbol? : String → Option LogicalOperator := lookup? all symbol

theorem ofSymbol?_symbol (o : LogicalOperator) : ofSymbol? o.symbol = some o := by
  cases o <;> decide

end LogicalOperator

namespace AssignOperator

/-- The spelling of an operator: an equals sign after the operator it applies. -/
def symbol : AssignOperator → String
  | plain => "="
  | add => "+="
  | arithmetic operator => arithmeticSymbol operator ++ "="

def all : List AssignOperator := plain :: add :: allArithmetic.map arithmetic

def ofSymbol? : String → Option AssignOperator := lookup? all symbol

theorem ofSymbol?_symbol (o : AssignOperator) : ofSymbol? o.symbol = some o := by
  rcases o with _ | _ | o <;> try cases o
  all_goals decide

end AssignOperator

end Ecma.Syntax
