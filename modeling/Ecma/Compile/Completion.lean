/-
How control leaves a statement, as far as its form tells. Code that cannot be
reached is not emitted, so a statement must be called abrupt only if control
never falls off its end.
-/
namespace Ecma.Compile

inductive Completion where
  /-- Control may fall through. -/
  | normal
  | returns
  | throws
  | breaks
  | continues
  /-- Every path leaves, not all by the same means. -/
  | abrupt
  deriving DecidableEq, Repr, Inhabited

namespace Completion

def all : List Completion := [normal, returns, throws, breaks, continues, abrupt]

def name : Completion → String
  | normal => "Normal"
  | returns => "Return"
  | throws => "Throw"
  | breaks => "Break"
  | continues => "Continue"
  | abrupt => "Abrupt"

def isAbrupt (c : Completion) : Bool := c != normal

/-- One statement after another: what follows an abrupt one does not count. -/
def andThen (c next : Completion) : Completion := if c.isAbrupt then c else next

/-- Two branches of which one is taken. -/
def select (c d : Completion) : Completion :=
  if c == normal || d == normal then normal
  else if c == d then c
  else abrupt

/-- The completion of a statement whose end is the target of a jump if
`reachable`. -/
def orReachable (c : Completion) (reachable : Bool) : Completion :=
  if reachable then normal else c

theorem andThen_assoc (c d e : Completion) :
    (c.andThen d).andThen e = c.andThen (d.andThen e) := by
  cases c <;> rfl

theorem select_comm (c d : Completion) : c.select d = d.select c := by
  cases c <;> cases d <;> rfl

/-- A sequence is abrupt if one of its parts is. -/
@[simp]
theorem isAbrupt_andThen (c d : Completion) :
    (c.andThen d).isAbrupt = (c.isAbrupt || d.isAbrupt) := by
  cases c <;> rfl

/-- A choice is abrupt if both branches are. -/
@[simp]
theorem isAbrupt_select (c d : Completion) :
    (c.select d).isAbrupt = (c.isAbrupt && d.isAbrupt) := by
  cases c <;> cases d <;> rfl

end Completion

end Ecma.Compile
