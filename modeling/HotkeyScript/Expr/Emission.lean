import HotkeyScript.Binary64
import HotkeyScript.Emission
import HotkeyScript.Expr.Basic
import HotkeyScript.Numeral
import HotkeyScript.Options
namespace HotkeyScript

def escapedChar (c : Char) : List Char :=
  if c = Token.quote then [Token.quote, Token.quote]
  else if c = '\n' then [Token.escape, 'n']
  else if c = '\r' then [Token.escape, 'r']
  else if c = '\t' then [Token.escape, 't']
  else if c = Token.escape then [Token.escape, Token.escape]
  else [c]

-- The pieces that a character is written in. A doubled quote is a single piece.
def escapedPieces (c : Char) : List String :=
  if c = Token.quote then [String.ofList (escapedChar c)]
  else (escapedChar c).map String.singleton

def stringPieces (options : Options) (text : String) : List String :=
  if options.escapeStrings then text.toList.flatMap escapedPieces else [text]

def stringLiteral (options : Options) (text : String) : Emission :=
  .text (String.singleton Token.quote) ++ .ofPieces (stringPieces options text)
    ++ .text (String.singleton Token.quote)

def Primitive.emission (options : Options) : Primitive → Emission
  | .null => .text Token.nullText
  | .string text => stringLiteral options text
  | .boolean value => .text (if value then Token.trueText else Token.falseText)
  | .integer value => .text (String.ofList (Numeral.ofInt value.toInt).text)
  | .float value =>
    if value.isFinite then .text (String.ofList value.scriptNumeral.text)
    else if value.isNaN then .fail (.unsupportedLiteral .notANumber)
    else .fail (.unsupportedLiteral (.infinity value.isNegative))
  | .decimal value => .text (String.ofList value.text)
  | .char value => .fail (.unsupportedLiteral (.char value))

mutual

def Expr.emission (options : Options) (e : Expr) (context : Context) : Emission :=
  if options.maxDepth < context.depth then .fail (.depthLimitExceeded options.maxDepth)
  else
    match e with
    | .invocation target method args marker =>
      (match target with
      | none => .nothing
      | some target =>
        if target.isInternalType then .nothing
        else if marker then
          .fail (.malformedIntrinsic
            (.targeted (Intrinsic.find? method args.length) method target.kind))
        else target.emission options context.nested ++ .text Token.concatenate) ++
      -- A marker call of a registered shape is the construct it stands for, any other call
      -- is a call.
      (match (if marker then Intrinsic.find? method args.length else none), args with
      | some .labelJump, [label] =>
        match label with
        | .primitive (.string name) => .jump name
        | _ => .fail (.malformedIntrinsic (.labelNotText label.description))
      | some .conditional, [condition] => condition.emission options context
      | some .operate, [selector, left, right] =>
        match selector with
        | .fieldRef _ name =>
          match ScriptOperator.ofName? name with
          | some operator =>
            left.emission options context.operand ++ .spaced operator.token
              ++ right.emission options context.operand
          | none => .fail (.malformedIntrinsic (.unknownOperator name))
        | _ => .fail (.malformedIntrinsic (.selectorNotField selector.kind))
      | some .arrayExtend, [_] => .nothing
      | some .indexedAssign, [key, index, container, value] =>
        index.emission options context.operand ++ container.emission options context.operand
          ++ key.emission options context.operand ++ .assignment
          ++ value.emission options context.operand
      | some .indexAccess, [container, index] =>
        container.emission options context.operand ++ .text Token.arrayOpen
          ++ index.emission options context.operand ++ .text Token.arrayClose
      | some .mapLiteral, [keys, values] =>
        match keys, values with
        | .arrayLiteral keys, .arrayLiteral values =>
          if keys.length = values.length then
            .map (Emission.entries (Expr.emissions options keys context.nested)
              (Expr.emissions options values context.nested))
          else .fail (.malformedIntrinsic (.mapLengthsDiffer keys.length values.length))
        | _, _ => .fail (.malformedIntrinsic (.mapNotArrays keys.kind values.kind))
      | _, args => .call method (Expr.emissions options args context.nested))
    | .arrayLiteral elements => .array (Expr.emissions options elements context.nested)
    | .primitive value => value.emission options
    | .binaryOp operator left right =>
      .parenthesizedUnless context.statement
        (left.emission options context.nested ++ .spaced operator.token
          ++ right.emission options context.nested)
    | .ternaryOp condition whenTrue whenFalse =>
      condition.emission options context.nested ++ .spaced Token.ternaryFirst
        ++ whenTrue.emission options context.nested ++ .spaced Token.ternarySecond
        ++ whenFalse.emission options context.nested
    | .complexReference name => name.emission options context
    | .variableRef name => .text name
    | .fieldRef target field =>
      match target with
      | none => .text field
      | some target =>
        target.emission options context.nested
          ++ (if options.fieldSeparator && !target.isInternalType
              then .text Token.concatenate else .nothing)
          ++ .text field
    | .typeRef type => if type.internal then .nothing else .text type.name
    | .this | .cast _ _ => .fail (.unsupportedExpression e.kind)

def Expr.emissions (options : Options) (es : List Expr) (context : Context) : List Emission :=
  match es with
  | [] => []
  | e :: rest => e.emission options context :: Expr.emissions options rest context

def QualifiedName.emission (options : Options) (name : QualifiedName) (context : Context) :
    Emission :=
  match name with
  | .literal text => .text text
  | .parts segments => .concat (Expr.segmentEmissions options segments context)

def Expr.segmentEmissions (options : Options) (segments : List Expr) (context : Context) :
    List Emission :=
  match segments with
  | [] => []
  | segment :: rest =>
    (match segment with
    | .primitive (.string text) => .text text
    | .primitive value => value.emission options
    | .complexReference _ =>
      .text Token.resolve ++ segment.emission options context.nested ++ .text Token.resolve
    | _ => .fail (.malformedReference segment.kind))
    :: Expr.segmentEmissions options rest context

end

def Stmt.emission (options : Options) (s : Stmt) (context : Context) : Emission :=
  match s with
  | .expression expr => expr.emission options context.asStatement
  | .variableDeclaration name init =>
    .text name ++ .assignment
      ++ (match init with
          | some init => init.emission options context.nested
          | none => .text Token.nullText)
  | .assignment left right =>
    left.emission options context.operand ++ .assignment
      ++ right.emission options context.operand
  | .returning value =>
    .text Token.returnWord
      ++ (match value with
          | some value => .space ++ value.emission options context.nested
          | none => .nothing)
  | .goto label => .jump label

def indentation (options : Options) (level : Nat) : Emission :=
  .concat (List.replicate level (.text options.indent))

def Stmt.line (options : Options) (level : Nat) (s : Stmt) : Emission :=
  indentation options level ++ s.emission options .root ++ .text options.newLine.text

def Stmt.lines (options : Options) (level : Nat) (statements : List Stmt) : Emission :=
  .concat (statements.map (Stmt.line options level))

end HotkeyScript
