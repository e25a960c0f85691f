namespace HotkeyScript

namespace Token

def space : String := " "
def parenOpen : String := "("
def parenClose : String := ")"
def arrayOpen : String := "["
def arrayClose : String := "]"
def blockOpen : String := "\x7b"
def blockClose : String := "\x7d"

def listSeparator : String := ","

-- Member access and concatenation share one token.
def concatenate : String := "."

def resolve : String := "%"

def assignPre : String := ":"
def equal : String := "="
def assign : String := ":="

def ternaryFirst : String := "?"
def ternarySecond : String := ":"

def quote : Char := '\x22'

def escape : Char := '\x60'

-- Scripts have no null; the empty string stands in for it.
def nullText : String := "\x22\x22"
def trueText : String := "true"
def falseText : String := "false"

def returnWord : String := "return"
def gotoWord : String := "goto"

end Token

inductive BinaryOperator where
  | add | subtract | multiply | divide
  | assign
  | identityEquality | identityInequality | valueEquality
  | bitwiseOr | bitwiseAnd
  | booleanOr | booleanAnd
  | lessThan | lessThanOrEqual | greaterThan | greaterThanOrEqual
deriving DecidableEq, Repr

namespace BinaryOperator

def all : List BinaryOperator :=
  [.add, .subtract, .multiply, .divide, .assign, .identityEquality, .identityInequality,
   .valueEquality, .bitwiseOr, .bitwiseAnd, .booleanOr, .booleanAnd, .lessThan,
   .lessThanOrEqual, .greaterThan, .greaterThanOrEqual]

def token : BinaryOperator → String
  | .add => "+"
  | .subtract => "-"
  | .multiply => "*"
  | .divide => "/"
  | .assign => Token.assign
  | .identityEquality => "=="
  | .identityInequality => "!="
  | .valueEquality => "="
  | .bitwiseOr => "|"
  | .bitwiseAnd => "&"
  | .booleanOr => "||"
  | .booleanAnd => "&&"
  | .lessThan => "<"
  | .lessThanOrEqual => "<="
  | .greaterThan => ">"
  | .greaterThanOrEqual => ">="

def code : BinaryOperator → String
  | .add => "add"
  | .subtract => "subtract"
  | .multiply => "multiply"
  | .divide => "divide"
  | .assign => "assign"
  | .identityEquality => "identity_equality"
  | .identityInequality => "identity_inequality"
  | .valueEquality => "value_equality"
  | .bitwiseOr => "bitwise_or"
  | .bitwiseAnd => "bitwise_and"
  | .booleanOr => "boolean_or"
  | .booleanAnd => "boolean_and"
  | .lessThan => "less_than"
  | .lessThanOrEqual => "less_than_or_equal"
  | .greaterThan => "greater_than"
  | .greaterThanOrEqual => "greater_than_or_equal"

def ofCode? (code : String) : Option BinaryOperator :=
  all.find? fun o => o.code = code

theorem ofCode?_code (o : BinaryOperator) : ofCode? o.code = some o := by cases o <;> decide

end BinaryOperator

inductive ScriptOperator where
  | add | subtract | multiply | divide | floorDivide | power
  | concat
  | bitShiftLeft | bitShiftRight | bitwiseAnd | bitwiseOr | bitwiseXor
  | booleanAnd | booleanOr
  | valueEquality | identityEquality | valueInequality | identityInequality
  | lessThan | lessThanOrEqual | greaterThan | greaterThanOrEqual
  | assign
  | regEx
deriving DecidableEq, Repr

namespace ScriptOperator

def all : List ScriptOperator :=
  [.add, .subtract, .multiply, .divide, .floorDivide, .power, .concat, .bitShiftLeft,
   .bitShiftRight, .bitwiseAnd, .bitwiseOr, .bitwiseXor, .booleanAnd, .booleanOr,
   .valueEquality, .identityEquality, .valueInequality, .identityInequality, .lessThan,
   .lessThanOrEqual, .greaterThan, .greaterThanOrEqual, .assign, .regEx]

def token : ScriptOperator → String
  | .add => "+"
  | .subtract => "-"
  | .multiply => "*"
  | .divide => "/"
  | .floorDivide => "//"
  | .power => "**"
  | .concat => Token.concatenate
  | .bitShiftLeft => "<<"
  | .bitShiftRight => ">>"
  | .bitwiseAnd => "&"
  | .bitwiseOr => "|"
  | .bitwiseXor => "^"
  | .booleanAnd => "&&"
  | .booleanOr => "||"
  | .valueEquality => "="
  | .identityEquality => "=="
  | .valueInequality => "!="
  | .identityInequality => "!=="
  | .lessThan => "<"
  | .lessThanOrEqual => "<="
  | .greaterThan => ">"
  | .greaterThanOrEqual => ">="
  | .assign => Token.assign
  | .regEx => "~="

def name : ScriptOperator → String
  | .add => "Add"
  | .subtract => "Subtract"
  | .multiply => "Multiply"
  | .divide => "Divide"
  | .floorDivide => "FloorDivide"
  | .power => "Power"
  | .concat => "Concat"
  | .bitShiftLeft => "BitShiftLeft"
  | .bitShiftRight => "BitShiftRight"
  | .bitwiseAnd => "BitwiseAnd"
  | .bitwiseOr => "BitwiseOr"
  | .bitwiseXor => "BitwiseXor"
  | .booleanAnd => "BooleanAnd"
  | .booleanOr => "BooleanOr"
  | .valueEquality => "ValueEquality"
  | .identityEquality => "IdentityEquality"
  | .valueInequality => "ValueInequality"
  | .identityInequality => "IdentityInequality"
  | .lessThan => "LessThan"
  | .lessThanOrEqual => "LessThanOrEqual"
  | .greaterThan => "GreaterThan"
  | .greaterThanOrEqual => "GreaterThanOrEqual"
  | .assign => "Assign"
  | .regEx => "RegEx"

def ofName? (name : String) : Option ScriptOperator :=
  all.find? fun o => o.name = name

theorem ofName?_name (o : ScriptOperator) : ofName? o.name = some o := by cases o <;> decide

end ScriptOperator

inductive Intrinsic where
  | labelJump
  | conditional
  | operate
  | arrayExtend
  -- Key, index, container and value, written in the order index, container, key, value.
  | indexedAssign
  | indexAccess
  | mapLiteral
deriving DecidableEq, Repr

namespace Intrinsic

def all : List Intrinsic :=
  [.labelJump, .conditional, .operate, .arrayExtend, .indexedAssign, .indexAccess, .mapLiteral]

def name : Intrinsic → String
  | .labelJump => "LabelCall"
  | .conditional => "IfElse"
  | .operate => "Operate"
  | .arrayExtend => "ExtendArray"
  | .indexedAssign => "SetObject"
  | .indexAccess => "Index"
  | .mapLiteral => "Dictionary"

def arity : Intrinsic → Nat
  | .labelJump => 1
  | .conditional => 1
  | .operate => 3
  | .arrayExtend => 1
  | .indexedAssign => 4
  | .indexAccess => 2
  | .mapLiteral => 2

def find? (method : String) (arguments : Nat) : Option Intrinsic :=
  all.find? fun i => i.name = method && i.arity = arguments

theorem find?_self (i : Intrinsic) : find? i.name i.arity = some i := by cases i <;> decide

theorem find?_eq_some_iff {method : String} {arguments : Nat} {i : Intrinsic} :
    find? method arguments = some i ↔ i.name = method ∧ i.arity = arguments := by
  constructor
  · intro found
    have matched := List.find?_some found
    simpa using matched
  · rintro ⟨rfl, rfl⟩
    exact find?_self i

end Intrinsic

end HotkeyScript
