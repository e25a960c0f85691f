import HotkeyScript.Expr.Basic
import HotkeyScript.Expr.Emission
import HotkeyScript.Writer
namespace HotkeyScript

def Writer.stringLiteral {σ : Type} [Write σ] (options : Options) (text : String) :
    Writer σ Unit := do
  put (String.singleton Token.quote)
  (stringPieces options text).forM put
  put (String.singleton Token.quote)

def Primitive.write {σ : Type} [Write σ] (options : Options) : Primitive → Writer σ Unit
  | .null => .put Token.nullText
  | .string text => .stringLiteral options text
  | .boolean value => .put (if value then Token.trueText else Token.falseText)
  | .integer value => .put (String.ofList (Numeral.ofInt value.toInt).text)
  | .float value =>
    if value.isFinite then .put (String.ofList value.scriptNumeral.text)
    else if value.isNaN then .refuse (.unsupportedLiteral .notANumber)
    else .refuse (.unsupportedLiteral (.infinity value.isNegative))
  | .decimal value => .put (String.ofList value.text)
  | .char value => .refuse (.unsupportedLiteral (.char value))

mutual

def Expr.write {σ : Type} [Write σ] (options : Options) (e : Expr) (context : Context) :
    Writer σ Unit :=
  if options.maxDepth < context.depth then .refuse (.depthLimitExceeded options.maxDepth)
  else
    match e with
    | .invocation target method args marker => do
      if marker then
        match target with
        | some target =>
          unless target.isInternalType do
            Writer.refuse (.malformedIntrinsic
              (.targeted (Intrinsic.find? method args.length) method target.kind))
        | none => pure ()
        unless ← Expr.writeIntrinsic options method args context do
          Writer.call method (Expr.writers options args context.nested)
      else
        match target with
        | some target =>
          unless target.isInternalType do
            target.write options context.nested
            Writer.put Token.concatenate
        | none => pure ()
        Writer.call method (Expr.writers options args context.nested)
    | .arrayLiteral elements => .array (Expr.writers options elements context.nested)
    | .primitive value => value.write options
    | .binaryOp operator left right => do
      unless context.statement do Writer.put Token.parenOpen
      left.write options context.nested
      Writer.spaced operator.token
      right.write options context.nested
      unless context.statement do Writer.put Token.parenClose
    | .ternaryOp condition whenTrue whenFalse => do
      condition.write options context.nested
      Writer.spaced Token.ternaryFirst
      whenTrue.write options context.nested
      Writer.spaced Token.ternarySecond
      whenFalse.write options context.nested
    | .complexReference name => name.write options context
    | .variableRef name => .put name
    | .fieldRef target field => do
      match target with
      | some target =>
        target.write options context.nested
        if options.fieldSeparator && !target.isInternalType then Writer.put Token.concatenate
      | none => pure ()
      Writer.put field
    | .typeRef type => unless type.internal do Writer.put type.name
    | .this | .cast _ _ => .refuse (.unsupportedExpression e.kind)

-- Writes a marker call as the construct it stands for. False, with nothing written, when no
-- construct is registered for its method and number of arguments.
def Expr.writeIntrinsic {σ : Type} [Write σ] (options : Options) (method : String)
    (args : List Expr) (context : Context) : Writer σ Bool :=
  match Intrinsic.find? method args.length, args with
  | some .labelJump, [label] => do
    match label with
    | .primitive (.string name) => Writer.jump name
    | _ => Writer.refuse (.malformedIntrinsic (.labelNotText label.description))
    return true
  | some .conditional, [condition] => do
    condition.write options context
    return true
  | some .operate, [selector, left, right] =>
    match selector with
    | .fieldRef _ name =>
      match ScriptOperator.ofName? name with
      | some operator => do
        left.write options context.operand
        Writer.spaced operator.token
        right.write options context.operand
        return true
      | none => .refuse (.malformedIntrinsic (.unknownOperator name))
    | _ => .refuse (.malformedIntrinsic (.selectorNotField selector.kind))
  | some .arrayExtend, [_] => return true
  | some .indexedAssign, [key, index, container, value] => do
    index.write options context.operand
    container.write options context.operand
    key.write options context.operand
    Writer.assignment
    value.write options context.operand
    return true
  | some .indexAccess, [container, index] => do
    container.write options context.operand
    Writer.put Token.arrayOpen
    index.write options context.operand
    Writer.put Token.arrayClose
    return true
  | some .mapLiteral, [keys, values] =>
    match keys, values with
    | .arrayLiteral keys, .arrayLiteral values => do
      if keys.length = values.length then
        Writer.map (Writer.entries (Expr.writers options keys context.nested)
          (Expr.writers options values context.nested))
      else Writer.refuse (.malformedIntrinsic (.mapLengthsDiffer keys.length values.length))
      return true
    | _, _ => .refuse (.malformedIntrinsic (.mapNotArrays keys.kind values.kind))
  | _, _ => return false

def Expr.writers {σ : Type} [Write σ] (options : Options) (es : List Expr) (context : Context) :
    List (Writer σ Unit) :=
  match es with
  | [] => []
  | e :: rest => e.write options context :: Expr.writers options rest context

def QualifiedName.write {σ : Type} [Write σ] (options : Options) (name : QualifiedName)
    (context : Context) : Writer σ Unit :=
  match name with
  | .literal text => .put text
  | .parts segments => Expr.writeSegments options segments context

def Expr.writeSegments {σ : Type} [Write σ] (options : Options) (segments : List Expr)
    (context : Context) : Writer σ Unit :=
  match segments with
  | [] => pure ()
  | segment :: rest => do
    match segment with
    | .primitive (.string text) => Writer.put text
    | .primitive value => value.write options
    | .complexReference _ =>
      Writer.put Token.resolve
      segment.write options context.nested
      Writer.put Token.resolve
    | _ => Writer.refuse (.malformedReference segment.kind)
    Expr.writeSegments options rest context

end

def Stmt.write {σ : Type} [Write σ] (options : Options) (s : Stmt) (context : Context) :
    Writer σ Unit :=
  match s with
  | .expression expr => expr.write options context.asStatement
  | .variableDeclaration name init => do
    Writer.put name
    Writer.assignment
    match init with
    | some init => init.write options context.nested
    | none => Writer.put Token.nullText
  | .assignment left right => do
    left.write options context.operand
    Writer.assignment
    right.write options context.operand
  | .returning value => do
    Writer.put Token.returnWord
    match value with
    | some value =>
      Writer.space
      value.write options context.nested
    | none => pure ()
  | .goto label => .jump label

def Writer.indentation {σ : Type} [Write σ] (options : Options) : Nat → Writer σ Unit
  | 0 => pure ()
  | level + 1 => do
    put options.indent
    indentation options level

def Stmt.writeLines {σ : Type} [Write σ] (options : Options) (level : Nat) :
    List Stmt → Writer σ Unit
  | [] => pure ()
  | s :: rest => do
    Writer.indentation options level
    s.write options .root
    Writer.put options.newLine.text
    Stmt.writeLines options level rest

inductive Job where
  | expression (expr : Expr) (context : Context)
  | statement (stmt : Stmt) (context : Context)
  | statements (list : List Stmt) (level : Nat)

def Job.write {σ : Type} [Write σ] (options : Options) : Job → Writer σ Unit
  | .expression expr context => expr.write options context
  | .statement stmt context => stmt.write options context
  | .statements list level => Stmt.writeLines options level list

def Job.emission (options : Options) : Job → Emission
  | .expression expr context => expr.emission options context
  | .statement stmt context => stmt.emission options context
  | .statements list level => Stmt.lines options level list

def Job.ofExpr (expr : Expr) : Job := .expression expr .root

def Job.ofExprStatement (expr : Expr) : Job := .expression expr Context.root.asStatement

def Job.ofStmt (stmt : Stmt) : Job := .statement stmt .root

structure Printer where
  options : Options := {}
  sink : Sink := {}

namespace Printer

def emit (p : Printer) (job : Job) : Printer × Option EmitError :=
  let (sink, error) := (job.write p.options).outcome p.sink
  ({ p with sink }, error)

-- A session: the printer after the last job, and how each one ended.
def emitAll (p : Printer) : List Job → Printer × List (Option EmitError)
  | [] => (p, [])
  | job :: rest =>
    let (p, error) := p.emit job
    let (p, errors) := p.emitAll rest
    (p, error :: errors)

def text (p : Printer) : String := p.sink.text

end Printer

def Expr.toText (e : Expr) : Except Fault String := (e.emission {} .root).result

def Stmt.toText (s : Stmt) : Except Fault String := (s.emission {} .root).result

def script (options : Options) (statements : List Stmt) : Except Fault String :=
  (Stmt.lines options 0 statements).result

end HotkeyScript
