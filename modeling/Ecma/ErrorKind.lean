/-
The kinds of errors that the language itself raises.
-/
namespace Ecma

/-- A kind of error, each with a constructor of its own. -/
inductive ErrorKind where
  | error | typeError | referenceError | syntaxError | rangeError | internalError
  deriving DecidableEq, Repr, Inhabited

namespace ErrorKind

/-- Every kind, in the order in which their constructors are made. -/
def all : List ErrorKind :=
  [error, typeError, referenceError, syntaxError, rangeError, internalError]

def name : ErrorKind → String
  | error => "Error"
  | typeError => "TypeError"
  | referenceError => "ReferenceError"
  | syntaxError => "SyntaxError"
  | rangeError => "RangeError"
  | internalError => "InternalError"

end ErrorKind

end Ecma
