import HotkeyScript.Expr.Basic
namespace HotkeyScript

def Decimal.ticks (d : Decimal) : Nat := d.mantissa * Nat.pow 10 (greatestScale - d.scale)

def Decimal.sameValue (a b : Decimal) : Bool :=
  a.ticks = b.ticks && (a.negative = b.negative || a.ticks = 0)

def Binary64.sameValue (x y : Binary64) : Bool :=
  !x.isNaN && !y.isNaN && (x.bits = y.bits || (x.isZero && y.isZero))

-- Equality as the model has it: decimals by value, floats as numbers, so that a NaN is not
-- equal even to itself.
def Primitive.same : Primitive → Primitive → Bool
  | .null, .null => true
  | .string a, .string b => a = b
  | .boolean a, .boolean b => a = b
  | .integer a, .integer b => a = b
  | .float a, .float b => a.sameValue b
  | .decimal a, .decimal b => a.sameValue b
  | .char a, .char b => a = b
  | _, _ => false

mutual

def Expr.same : Expr → Expr → Bool
  | .invocation t m as k, .invocation t' m' as' k' =>
    Expr.optionalSame t t' && m = m' && Expr.allSame as as' && k = k'
  | .arrayLiteral es, .arrayLiteral es' => Expr.allSame es es'
  | .primitive p, .primitive p' => p.same p'
  | .binaryOp o l r, .binaryOp o' l' r' => o = o' && l.same l' && r.same r'
  | .ternaryOp c t f, .ternaryOp c' t' f' => c.same c' && t.same t' && f.same f'
  | .complexReference n, .complexReference n' => n.same n'
  | .variableRef n, .variableRef n' => n = n'
  | .fieldRef t f, .fieldRef t' f' => Expr.optionalSame t t' && f = f'
  | .typeRef t, .typeRef t' => t = t'
  | .this, .this => true
  | .cast t e, .cast t' e' => t = t' && e.same e'
  | _, _ => false

def QualifiedName.same : QualifiedName → QualifiedName → Bool
  | .literal t, .literal t' => t = t'
  | .parts es, .parts es' => Expr.allSame es es'
  | _, _ => false

def Expr.optionalSame : Option Expr → Option Expr → Bool
  | none, none => true
  | some e, some e' => e.same e'
  | _, _ => false

def Expr.allSame : List Expr → List Expr → Bool
  | [], [] => true
  | e :: es, e' :: es' => e.same e' && Expr.allSame es es'
  | _, _ => false

end

def Stmt.same : Stmt → Stmt → Bool
  | .expression e, .expression e' => e.same e'
  | .variableDeclaration n i, .variableDeclaration n' i' => n = n' && Expr.optionalSame i i'
  | .assignment l r, .assignment l' r' => l.same l' && r.same r'
  | .returning v, .returning v' => Expr.optionalSame v v'
  | .goto l, .goto l' => l = l'
  | _, _ => false

end HotkeyScript
