import HotkeyScript.Binary64
import HotkeyScript.Numeral
import HotkeyScript.Token
namespace HotkeyScript

inductive Primitive where
  | null
  | string (text : String)
  | boolean (value : Bool)
  | integer (value : Int64)
  | float (value : Binary64)
  | decimal (value : Decimal)
  | char (value : Char)
deriving DecidableEq, Repr

namespace Primitive

inductive Kind where
  | null | string | boolean | integer | float | decimal | char
deriving DecidableEq, Repr

def Kind.name : Kind → String
  | .null => "Null"
  | .string => "String"
  | .boolean => "Boolean"
  | .integer => "Integer"
  | .float => "Float"
  | .decimal => "Decimal"
  | .char => "Char"

def kind : Primitive → Kind
  | .null => .null
  | .string _ => .string
  | .boolean _ => .boolean
  | .integer _ => .integer
  | .float _ => .float
  | .decimal _ => .decimal
  | .char _ => .char

def text? : Primitive → Option String
  | .string text => some text
  | _ => none

instance : Coe String Primitive := ⟨.string⟩
instance : Coe Bool Primitive := ⟨.boolean⟩
instance : Coe Int64 Primitive := ⟨.integer⟩
instance : Coe Binary64 Primitive := ⟨.float⟩
instance : Coe Decimal Primitive := ⟨.decimal⟩

end Primitive

-- A type by its full name. The name of an internal type never appears in a script.
structure TypeRef where
  name : String
  internal : Bool := false
deriving DecidableEq, Repr

mutual

inductive Expr where
  | invocation (target : Option Expr) (method : String) (args : List Expr) (marker : Bool)
  | arrayLiteral (elements : List Expr)
  | primitive (value : Primitive)
  | binaryOp (operator : BinaryOperator) (left right : Expr)
  | ternaryOp (condition whenTrue whenFalse : Expr)
  | complexReference (name : QualifiedName)
  | variableRef (name : String)
  | fieldRef (target : Option Expr) (field : String)
  | typeRef (type : TypeRef)
  | this
  | cast (targetType : String) (expr : Expr)

-- A variable name: fixed, or put together at run time from literal segments and references.
inductive QualifiedName where
  | literal (text : String)
  | parts (segments : List Expr)

end

namespace Expr

inductive Kind where
  | invocation | arrayLiteral | primitive | binaryOp | ternaryOp | complexReference
  | variableRef | fieldRef | typeRef | this | cast
deriving DecidableEq, Repr

def Kind.name : Kind → String
  | .invocation => "Invocation"
  | .arrayLiteral => "ArrayLiteral"
  | .primitive => "Primitive"
  | .binaryOp => "BinaryOp"
  | .ternaryOp => "TernaryOp"
  | .complexReference => "ComplexReference"
  | .variableRef => "VariableRef"
  | .fieldRef => "FieldRef"
  | .typeRef => "TypeRef"
  | .this => "This"
  | .cast => "Cast"

def kind : Expr → Kind
  | .invocation .. => .invocation
  | .arrayLiteral _ => .arrayLiteral
  | .primitive _ => .primitive
  | .binaryOp .. => .binaryOp
  | .ternaryOp .. => .ternaryOp
  | .complexReference _ => .complexReference
  | .variableRef _ => .variableRef
  | .fieldRef .. => .fieldRef
  | .typeRef _ => .typeRef
  | .this => .this
  | .cast .. => .cast

def description : Expr → String
  | .primitive value => value.kind.name
  | e => e.kind.name

def isInternalType : Expr → Bool
  | .typeRef type => type.internal
  | _ => false

def var (name : String) : Expr := .variableRef name

def string (text : String) : Expr := .primitive (.string text)

def int (value : Int64) : Expr := .primitive (.integer value)

def float (value : Binary64) : Expr := .primitive (.float value)

def boolean (value : Bool) : Expr := .primitive (.boolean value)

def null : Expr := .primitive .null

def binary (left : Expr) (operator : BinaryOperator) (right : Expr) : Expr :=
  .binaryOp operator left right

def ternary (condition whenTrue whenFalse : Expr) : Expr :=
  .ternaryOp condition whenTrue whenFalse

def call (method : String) (args : List Expr) : Expr := .invocation none method args false

def method (target : Expr) (name : String) (args : List Expr) : Expr :=
  .invocation (some target) name args false

-- A call on the marker type, which may stand for another construct.
def markerCall (method : String) (args : List Expr) : Expr := .invocation none method args true

def field (target : Option Expr) (name : String) : Expr := .fieldRef target name

def array (elements : List Expr) : Expr := .arrayLiteral elements

def typeNamed (name : String) : Expr := .typeRef ⟨name, false⟩

def internalType (name : String) : Expr := .typeRef ⟨name, true⟩

def complex (name : String) : Expr := .complexReference (.literal name)

def complexParts (segments : List Expr) : Expr := .complexReference (.parts segments)

instance : Coe Primitive Expr := ⟨.primitive⟩

end Expr

inductive Stmt where
  | expression (expr : Expr)
  | variableDeclaration (name : String) (init : Option Expr)
  | assignment (left right : Expr)
  | returning (value : Option Expr)
  | goto (label : String)

end HotkeyScript
