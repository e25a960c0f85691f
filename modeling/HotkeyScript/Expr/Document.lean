import HotkeyScript.Binary64
import HotkeyScript.Expr.Basic
import HotkeyScript.Json.Reader
import HotkeyScript.Numeral
import HotkeyScript.Token
namespace HotkeyScript

def Primitive.int64? (value : Int) : Option Int64 :=
  if Int64.minValue.toInt ≤ value && value ≤ Int64.maxValue.toInt then some (.ofInt value)
  else none

-- A decimal from a number: a whole number of a word as it is, any other by the digits of the
-- binary number it means.
def Decimal.ofNumeral? (n : Numeral) : Option Decimal :=
  match n.integer? with
  | some value => Decimal.ofParts? (value < 0) value.natAbs 0
  | none => n.binary64?.bind fun value => Decimal.readPlain value.scriptNumeral.text

def Decimal.ofJson? : Json → Option Decimal
  | .string text => text.bind fun text => Decimal.ofText? text.toList
  | .number numeral => Decimal.ofNumeral? numeral
  | _ => none

def Primitive.char? (j : Json) : Option Char :=
  match j.text?.map String.toList with
  | some [c] => some c
  | _ => none

namespace Primitive

def toJson : Primitive → Json
  | .null => .ofString "null"
  | .string text => .tagged "string" (.ofString text)
  | .boolean value => .tagged "boolean" (.bool value)
  | .integer value => .tagged "integer" (.number (.ofInt value.toInt))
  | .float value =>
    .tagged "float" (if value.isFinite then .number value.documentNumeral else .null)
  | .decimal value => .tagged "decimal" (.ofString (String.ofList value.text))
  | .char value => .tagged "char" (.ofString (String.singleton value))

def ofPayload? (tag : String) (payload : Json) : Option Primitive :=
  match tag with
  | "string" => payload.text?.map .string
  | "boolean" => payload.bool?.map .boolean
  | "integer" => (payload.numeral?.bind Numeral.integer?).bind fun value =>
      (int64? value).map .integer
  | "float" => (payload.numeral?.bind Numeral.binary64?).map .float
  | "decimal" => (Decimal.ofJson? payload).map .decimal
  | "char" => (char? payload).map .char
  | _ => none

def ofJson? (room : Nat) (j : Json) : Option Primitive :=
  if j.name? room = some "null" then some .null
  else
    match room, j with
    | _ + 1, .object [(some tag, payload)] => ofPayload? tag payload
    | _, _ => none

end Primitive

def BinaryOperator.toJson (o : BinaryOperator) : Json := .ofString o.code

def BinaryOperator.ofJson? (room : Nat) (j : Json) : Option BinaryOperator :=
  (j.name? room).bind ofCode?

def ScriptOperator.toJson (o : ScriptOperator) : Json := .ofString o.name

def ScriptOperator.ofJson? (room : Nat) (j : Json) : Option ScriptOperator :=
  (j.name? room).bind ofName?

def TypeRef.toJson (t : TypeRef) : Json :=
  .record [("name", .ofString t.name), ("internal", .bool t.internal)]

mutual

def Expr.toJson : Expr → Json
  | .invocation target method args marker =>
    .tagged "invocation" (.record [("target", Expr.optionalToJson target),
      ("method", .ofString method), ("args", .array (Expr.listToJson args)),
      ("intrinsic", .bool marker)])
  | .arrayLiteral elements => .tagged "array_literal" (.array (Expr.listToJson elements))
  | .primitive value => .tagged "primitive" value.toJson
  | .binaryOp operator left right =>
    .tagged "binary_op" (.record [("operator", operator.toJson), ("left", left.toJson),
      ("right", right.toJson)])
  | .ternaryOp condition whenTrue whenFalse =>
    .tagged "ternary_op" (.record [("condition", condition.toJson),
      ("when_true", whenTrue.toJson), ("when_false", whenFalse.toJson)])
  | .complexReference name => .tagged "complex_reference" name.toJson
  | .variableRef name => .tagged "variable_ref" (.ofString name)
  | .fieldRef target field =>
    .tagged "field_ref" (.record [("target", Expr.optionalToJson target),
      ("field", .ofString field)])
  | .typeRef type => .tagged "type_ref" type.toJson
  | .this => .ofString "this"
  | .cast targetType expr =>
    .tagged "cast" (.record [("target_type", .ofString targetType), ("expr", expr.toJson)])

def QualifiedName.toJson : QualifiedName → Json
  | .literal text => .tagged "literal" (.ofString text)
  | .parts segments => .tagged "parts" (.array (Expr.listToJson segments))

def Expr.optionalToJson : Option Expr → Json
  | none => .null
  | some e => e.toJson

def Expr.listToJson : List Expr → List Json
  | [] => []
  | e :: rest => e.toJson :: Expr.listToJson rest

end

-- Reading. Each reader takes the room that is left: opening an array or an object of the model
-- uses up one of it, and every reader of a nested value gets what remains.

def TypeRef.ofJson? (room : Nat) (j : Json) : Option TypeRef := do
  guard (0 < room)
  match ← j.fields? ["name", "internal"] with
  | [some name, internal] =>
    some ⟨← name.text?, ← Json.orDefault? false Json.bool? internal⟩
  | _ => none

mutual

def Expr.ofJson? : Nat → Json → Option Expr
  | 0, j => if j.name? 0 = some "this" then some .this else none
  | room + 1, j =>
    if j.name? (room + 1) = some "this" then some .this
    else
      match j with
      | .object [(some tag, payload)] =>
        match tag with
        | "invocation" => Expr.invocationOfJson? room payload
        | "array_literal" => (Expr.listOfJson? room payload).map .arrayLiteral
        | "primitive" => (Primitive.ofJson? room payload).map .primitive
        | "binary_op" => Expr.binaryOpOfJson? room payload
        | "ternary_op" => Expr.ternaryOpOfJson? room payload
        | "complex_reference" => (QualifiedName.ofJson? room payload).map .complexReference
        | "variable_ref" => payload.text?.map .variableRef
        | "field_ref" => Expr.fieldRefOfJson? room payload
        | "type_ref" => (TypeRef.ofJson? room payload).map .typeRef
        | "cast" => Expr.castOfJson? room payload
        | _ => none
      | _ => none

def Expr.invocationOfJson? : Nat → Json → Option Expr
  | 0, _ => none
  | room + 1, j => do
    match ← j.fields? ["target", "method", "args", "intrinsic"] with
    | [target, some method, args, marker] =>
      some (.invocation (← Json.optional? (Expr.ofJson? room) target) (← method.text?)
        (← Json.orDefault? [] (Expr.listOfJson? room) args)
        (← Json.orDefault? false Json.bool? marker))
    | _ => none

def Expr.binaryOpOfJson? : Nat → Json → Option Expr
  | 0, _ => none
  | room + 1, j => do
    match ← j.fields? ["operator", "left", "right"] with
    | [some operator, some left, some right] =>
      some (.binaryOp (← BinaryOperator.ofJson? room operator) (← Expr.ofJson? room left)
        (← Expr.ofJson? room right))
    | _ => none

def Expr.ternaryOpOfJson? : Nat → Json → Option Expr
  | 0, _ => none
  | room + 1, j => do
    match ← j.fields? ["condition", "when_true", "when_false"] with
    | [some condition, some whenTrue, some whenFalse] =>
      some (.ternaryOp (← Expr.ofJson? room condition) (← Expr.ofJson? room whenTrue)
        (← Expr.ofJson? room whenFalse))
    | _ => none

def Expr.fieldRefOfJson? : Nat → Json → Option Expr
  | 0, _ => none
  | room + 1, j => do
    match ← j.fields? ["target", "field"] with
    | [target, some field] =>
      some (.fieldRef (← Json.optional? (Expr.ofJson? room) target) (← field.text?))
    | _ => none

def Expr.castOfJson? : Nat → Json → Option Expr
  | 0, _ => none
  | room + 1, j => do
    match ← j.fields? ["target_type", "expr"] with
    | [some targetType, some expr] =>
      some (.cast (← targetType.text?) (← Expr.ofJson? room expr))
    | _ => none

def QualifiedName.ofJson? : Nat → Json → Option QualifiedName
  | 0, _ => none
  | room + 1, j =>
    match j with
    | .object [(some tag, payload)] =>
      match tag with
      | "literal" => payload.text?.map .literal
      | "parts" => (Expr.listOfJson? room payload).map .parts
      | _ => none
    | _ => none

def Expr.listOfJson? : Nat → Json → Option (List Expr)
  | 0, _ => none
  | room + 1, j =>
    match j with
    | .array items => items.mapM (Expr.ofJson? room)
    | _ => none

end

def Stmt.toJson : Stmt → Json
  | .expression expr => .tagged "expression" expr.toJson
  | .variableDeclaration name init =>
    .tagged "variable_declaration" (.record [("name", .ofString name),
      ("init", Expr.optionalToJson init)])
  | .assignment left right =>
    .tagged "assignment" (.record [("left", left.toJson), ("right", right.toJson)])
  | .returning value => .tagged "return" (Expr.optionalToJson value)
  | .goto label => .tagged "goto" (.ofString label)

def Stmt.listToJson (statements : List Stmt) : Json := .array (statements.map Stmt.toJson)

def Stmt.variableDeclarationOfJson? : Nat → Json → Option Stmt
  | 0, _ => none
  | room + 1, j => do
    match ← j.fields? ["name", "init"] with
    | [some name, init] =>
      some (.variableDeclaration (← name.text?) (← Json.optional? (Expr.ofJson? room) init))
    | _ => none

def Stmt.assignmentOfJson? : Nat → Json → Option Stmt
  | 0, _ => none
  | room + 1, j => do
    match ← j.fields? ["left", "right"] with
    | [some left, some right] =>
      some (.assignment (← Expr.ofJson? room left) (← Expr.ofJson? room right))
    | _ => none

def Stmt.ofJson? : Nat → Json → Option Stmt
  | 0, _ => none
  | room + 1, j =>
    match j with
    | .object [(some tag, payload)] =>
      match tag with
      | "expression" => (Expr.ofJson? room payload).map .expression
      | "variable_declaration" => Stmt.variableDeclarationOfJson? room payload
      | "assignment" => Stmt.assignmentOfJson? room payload
      | "return" => (Json.optional? (Expr.ofJson? room) (some payload)).map .returning
      | "goto" => payload.text?.map .goto
      | _ => none
    | _ => none

def Stmt.listOfJson? : Nat → Json → Option (List Stmt)
  | 0, _ => none
  | room + 1, j =>
    match j with
    | .array items => items.mapM (Stmt.ofJson? room)
    | _ => none

end HotkeyScript
