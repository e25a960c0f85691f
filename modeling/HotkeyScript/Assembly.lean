import HotkeyScript.Expr.Basic
namespace HotkeyScript.Assembly

-- The command reads its trees from documents and has no use for this module. It is for callers that
-- give a tree in postfix order: steps push expressions on a stack or take some off it to make one,
-- and a step that finds too few there cannot run.
abbrev Stack := List Expr

inductive Step where
  | push (expr : Expr)
  | cast (targetType : String)
  | binary (operator : BinaryOperator)
  | ternary
  | call (method : String) (count : Nat)
  | markerCall (method : String) (count : Nat)
  | method (name : String) (count : Nat)
  | array (count : Nat)
  | complexParts (count : Nat)
  | field (name : String) (targeted : Bool)
  | duplicate
  | swap
  | repeated (times : Nat) (steps : List Step)
  -- A step that was described wrongly. It matters only when it is reached.
  | unusable

def take (count : Nat) (stack : Stack) : Option (List Expr × Stack) :=
  if count ≤ stack.length then some ((stack.take count).reverse, stack.drop count) else none

def times (count : Nat) (run : Stack → Option Stack) (stack : Stack) : Option Stack :=
  match count with
  | 0 => some stack
  | count + 1 => (run stack).bind (times count run)

mutual

def Step.run : Step → Stack → Option Stack
  | .push expr, stack => some (expr :: stack)
  | .cast targetType, e :: stack => some (.cast targetType e :: stack)
  | .binary operator, right :: left :: stack => some (.binary left operator right :: stack)
  | .ternary, whenFalse :: whenTrue :: condition :: stack =>
    some (.ternary condition whenTrue whenFalse :: stack)
  | .call method count, stack =>
    (take count stack).map fun (args, below) => .call method args :: below
  | .markerCall method count, stack =>
    (take count stack).map fun (args, below) => .markerCall method args :: below
  | .method name count, stack =>
    (take count stack).bind fun (args, below) =>
      match below with
      | target :: below => some (.method target name args :: below)
      | [] => none
  | .array count, stack =>
    (take count stack).map fun (elements, below) => .array elements :: below
  | .complexParts count, stack =>
    (take count stack).map fun (segments, below) => .complexParts segments :: below
  | .field name false, stack => some (.field none name :: stack)
  | .field name true, target :: stack => some (.field (some target) name :: stack)
  | .duplicate, e :: stack => some (e :: e :: stack)
  | .swap, first :: second :: stack => some (second :: first :: stack)
  | .repeated count steps, stack => times count (runAll steps) stack
  | _, _ => none

def runAll : List Step → Stack → Option Stack
  | [], stack => some stack
  | step :: rest, stack => (step.run stack).bind (runAll rest)

end

inductive Ending where
  | expression
  | variableDeclaration (name : String)
  | assignment
  | returning
  | goto (label : String)

def Ending.build : Ending → Stack → Option Stmt
  | .expression, e :: _ => some (.expression e)
  | .variableDeclaration name, stack => some (.variableDeclaration name stack.head?)
  | .assignment, right :: left :: _ => some (.assignment left right)
  | .returning, stack => some (.returning stack.head?)
  | .goto label, _ => some (.goto label)
  | _, _ => none

end HotkeyScript.Assembly
