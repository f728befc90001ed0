import ScriptFront.Failure
import ScriptFront.Number.Layout
import ScriptFront.Number.Reading

set_option autoImplicit false

/-! # Literals

The scalar values of the language: text, integers of 32 bits, double-precision numbers, truth values
and nothing. Each can be read as text, as a number and as a truth value, whatever it is. Arithmetic
and order work on the numbers that literals are read as, so the order is partial; equality works on
the literals themselves, so literals of two kinds are never equal. -/

namespace ScriptFront

/-- A scalar value. -/
inductive Literal where
  | string (text : Text)
  | integer (value : Int) (inRange : intMin ≤ value ∧ value ≤ intMax)
  | float (value : Double)
  | boolean (value : Bool)
  | none
  deriving DecidableEq, Repr

namespace Literal

/-! ## Building -/

/-- The literal of an integer, if it is in the range of the language. -/
def ofInt (value : Int) : Except Refusal Literal :=
  if inRange : intMin ≤ value ∧ value ≤ intMax then .ok (integer value inRange)
  else .error (.integerOutOfRange value)

/-! ## Kinds -/

/-- The name of a literal's kind. -/
def kindName : Literal → Text
  | string _ => "STRING".toList
  | integer .. => "INTEGER".toList
  | float _ => "FLOAT".toList
  | boolean _ => "BOOLEAN".toList
  | none => "NONE".toList

/-! ## Readings -/

/-- A literal as text. -/
def toText : Literal → Text
  | string text => text
  | integer value _ => Numeral.ofInt value
  | float value => formatDouble value
  | boolean value => if value then "true".toList else "false".toList
  | none => "None".toList

/-- A literal as a number; nothing, and text that is no numeral, are not-a-number. -/
def toDouble : Literal → Double
  | string text => Numeral.toDouble text
  | integer value _ => .ofInt value
  | float value => value
  | boolean value => if value then .one else .zero false
  | none => .nan

/-- A literal as a truth value: false, nothing, the integer zero and not-a-number are false. Text is
    always true, and so is a zero that is no integer. -/
def toBool : Literal → Bool
  | string _ => true
  | integer value _ => value ≠ 0
  | float value => !value.isNaN
  | boolean value => value
  | none => false

/-- The opposite of a literal as a truth value. -/
def not (a : Literal) : Bool := !a.toBool

/-! ## Arithmetic and order -/

/-- The opposite number. -/
def neg (a : Literal) : Double := a.toDouble.neg

/-- The difference of two literals as numbers. -/
def sub (a b : Literal) : Double := a.toDouble.sub b.toDouble

/-- The product of two literals as numbers. -/
def mul (a b : Literal) : Double := a.toDouble.mul b.toDouble

/-- The quotient of two literals as numbers. -/
def div (a b : Literal) : Double := a.toDouble.div b.toDouble

/-- The order of two literals as numbers, if both are numbers. -/
def compare? (a b : Literal) : Option Ordering := a.toDouble.compare? b.toDouble

/-- Whether one literal is less than another. -/
def lt (a b : Literal) : Bool := a.toDouble.lt b.toDouble

/-- Whether one literal is at most another. -/
def le (a b : Literal) : Bool := a.toDouble.le b.toDouble

/-- Whether one literal is greater than another. -/
def gt (a b : Literal) : Bool := b.toDouble.lt a.toDouble

/-- Whether one literal is at least another. -/
def ge (a b : Literal) : Bool := b.toDouble.le a.toDouble

/-! ## Equality -/

/-- Whether two literals are of one kind and have equal values. A not-a-number equals nothing, and
    the two zeros are equal. -/
def same : Literal → Literal → Bool
  | string a, string b => a = b
  | integer a _, integer b _ => a = b
  | float a, float b => a.same b
  | boolean a, boolean b => a = b
  | none, none => true
  | _, _ => false

/-! ## Text for diagnostics -/

/-- A literal with its kind. -/
def display (a : Literal) : Text :=
  "Literal(".toList ++ a.kindName ++
    (match a with
      | string text => ", ".toList ++ Quoted.quote text
      | integer value _ => ", ".toList ++ Numeral.ofInt value
      | float value => ", ".toList ++ NumberLayout.diagnostic.write value
      | boolean value => ", ".toList ++ (if value then "True".toList else "False".toList)
      | none => []) ++ [')']

end Literal

/-! ## Operands from elsewhere -/

/-- The right operand of an operation: a literal, or some value that is none. -/
inductive Operand where
  | literal (value : Literal)
  | foreign
  deriving DecidableEq, Repr

/-- The operations on a literal and a right operand, apart from equality. -/
inductive BinaryOperation where
  | sub | mul | div | lt | le | gt | ge
  deriving DecidableEq, Repr

/-- What an operation on two literals gives: a number or a truth value. -/
inductive OperationResult where
  | number (value : Double)
  | truth (value : Bool)
  deriving DecidableEq, Repr

namespace Literal

/-- An operation on two literals. -/
def operate (a b : Literal) : BinaryOperation → OperationResult
  | .sub => .number (a.sub b)
  | .mul => .number (a.mul b)
  | .div => .number (a.div b)
  | .lt => .truth (a.lt b)
  | .le => .truth (a.le b)
  | .gt => .truth (a.gt b)
  | .ge => .truth (a.ge b)

/-- An operation on a literal and any right operand; none of them accepts one that is no
    literal. -/
def operate? (a : Literal) (b : Operand) (operation : BinaryOperation) : Option OperationResult :=
  match b with
  | .literal b => some (a.operate b operation)
  | .foreign => Option.none

/-- Equality with any right operand; what is no literal equals no literal. -/
def sameOperand (a : Literal) : Operand → Bool
  | .literal b => a.same b
  | .foreign => false

end Literal

/-! ## Counting distinct items

How many items of a list differ from each other, under a comparison that need not be reflexive: an
item that is not even the same as itself always counts on its own. -/

/-- The number of distinct items: an item counts when no later one is the same. -/
def countDistinct {α : Type} (same : α → α → Bool) : List α → Nat
  | [] => 0
  | x :: xs => (if xs.any (same x) then 0 else 1) + countDistinct same xs

/-- The table of a comparison: one row for each item, one column for each item. -/
def comparisonTable {α : Type} (same : α → α → Bool) (items : List α) : List (List Bool) :=
  items.map fun x => items.map (same x)

/-- The items that a hash set has in the end, if it has some and a list is put into it: an item is
    left out if the set has one with the same hash that is the same. -/
def keepDistinct {α : Type} (hash : α → Int) (same : α → α → Bool) (kept : List α) :
    List α → List α
  | [] => kept
  | x :: xs =>
    if kept.any fun y => hash y = hash x && same y x then keepDistinct hash same kept xs
    else keepDistinct hash same (x :: kept) xs

/-! ## Sets of literals

A literal is hashed by its kind and its value, so that literals can be kept in a set. Nothing is
known of the hash functions for values, except that equal numbers have equal hashes. -/

/-- The hash functions for the values of literals, and how two hashes are put together. -/
structure Hashing where
  text : Text → Int
  integer : Int → Int
  double : Double → Int
  truth : Bool → Int
  nothing : Int
  pair : Int → Int → Int
  double_congr : ∀ {x y : Double}, x.same y → double x = double y

namespace Literal

/-- The hash of a literal's value. -/
def valueHash (hashing : Hashing) : Literal → Int
  | string text => hashing.text text
  | integer value _ => hashing.integer value
  | float value => hashing.double value
  | boolean value => hashing.truth value
  | none => hashing.nothing

/-- The hash of a literal. -/
def hash (hashing : Hashing) (a : Literal) : Int :=
  hashing.pair (hashing.text a.kindName) (a.valueHash hashing)

/-- The literals that are kept of a list when it is made a set. They have been built one by one, and
    no object is in the list twice: a set knows an object again without comparing it, so one
    not-a-number that is put into it twice is kept once. -/
def kept (hashing : Hashing) (literals : List Literal) : List Literal :=
  keepDistinct (hash hashing) same [] literals

/-- The number of distinct literals in a list of literals that have been built one by one; each
    not-a-number counts on its own. -/
def countDistinct (literals : List Literal) : Nat := ScriptFront.countDistinct same literals

end Literal

end ScriptFront
