import HotkeyScript.Expr.Basic
import HotkeyScript.Text.Printable
import HotkeyScript.Token
namespace HotkeyScript

inductive UnwritableLiteral where
  | char (value : Char)
  | notANumber
  | infinity (negative : Bool)
deriving DecidableEq, Repr

def UnwritableLiteral.description : UnwritableLiteral → String
  | .char c => "Char(" ++ Text.quotedChar c ++ ")"
  | .notANumber => "Float(NaN)"
  | .infinity false => "Float(inf)"
  | .infinity true => "Float(-inf)"

inductive Malformation where
  | labelNotText (found : String)
  | selectorNotField (found : Expr.Kind)
  | unknownOperator (name : String)
  | mapNotArrays (keys values : Expr.Kind)
  | mapLengthsDiffer (keys values : Nat)
  -- `registered` is what the call would have been without its target.
  | targeted (registered : Option Intrinsic) (method : String) (target : Expr.Kind)
deriving DecidableEq, Repr

namespace Malformation

def subject : Malformation → String
  | .labelNotText _ => Intrinsic.labelJump.name
  | .selectorNotField _ | .unknownOperator _ => Intrinsic.operate.name
  | .mapNotArrays .. | .mapLengthsDiffer .. => Intrinsic.mapLiteral.name
  | .targeted registered .. => registered.elim "marker call" Intrinsic.name

def reason : Malformation → String
  | .labelNotText found => "label must be a string literal, found " ++ found
  | .selectorNotField found =>
    "operator selector must be a field reference, found " ++ found.name
  | .unknownOperator name => "unknown operator `" ++ name ++ "`"
  | .mapNotArrays keys values =>
    "keys and values must be array literals, found " ++ keys.name ++ " and " ++ values.name
  | .mapLengthsDiffer keys values =>
    Nat.repr keys ++ " keys but " ++ Nat.repr values ++ " values"
  | .targeted _ method target =>
    "`" ++ method ++ "` is tagged as a marker call but targets " ++ target.name

end Malformation

inductive Fault where
  | unsupportedExpression (kind : Expr.Kind)
  | unsupportedLiteral (literal : UnwritableLiteral)
  | malformedReference (part : Expr.Kind)
  | malformedIntrinsic (cause : Malformation)
  | depthLimitExceeded (limit : UInt32)
deriving DecidableEq, Repr

def Fault.message : Fault → String
  | .unsupportedExpression kind => "unrecognised expression: " ++ kind.name
  | .unsupportedLiteral literal => "unrecognised primitive: " ++ literal.description
  | .malformedReference part => "malformed complex reference: unexpected " ++ part.name ++ " part"
  | .malformedIntrinsic cause =>
    "malformed `" ++ cause.subject ++ "` intrinsic: " ++ cause.reason
  | .depthLimitExceeded limit =>
    "expression nesting exceeds the depth limit of " ++ Nat.repr limit.toNat

inductive EmitError where
  | fault (cause : Fault)
  | write
deriving DecidableEq, Repr

def EmitError.message : EmitError → String
  | .fault cause => cause.message
  | .write => "failed to write to the output sink"

structure Emission where
  pieces : List String
  fault : Option Fault := none
deriving DecidableEq, Repr

namespace Emission

def nothing : Emission := ⟨[], none⟩

def text (piece : String) : Emission := ⟨[piece], none⟩

def ofPieces (pieces : List String) : Emission := ⟨pieces, none⟩

def fail (fault : Fault) : Emission := ⟨[], some fault⟩

-- One emission after another. A fault in the first leaves nothing for the second to do.
def andThen (first second : Emission) : Emission :=
  match first.fault with
  | some _ => first
  | none => ⟨first.pieces ++ second.pieces, second.fault⟩

instance : Append Emission := ⟨andThen⟩

def space : Emission := text Token.space

def contents (e : Emission) : String := String.join e.pieces

def outcome (e : Emission) : Except Fault Unit :=
  match e.fault with
  | some fault => .error fault
  | none => .ok ()

def result (e : Emission) : Except Fault String :=
  match e.fault with
  | some fault => .error fault
  | none => .ok e.contents

def concat (parts : List Emission) : Emission := parts.foldr (· ++ ·) nothing

def listSeparator : Emission := text Token.listSeparator ++ space

def separated : List Emission → Emission
  | [] => nothing
  | [part] => part
  | part :: rest => part ++ listSeparator ++ separated rest

def spaced (token : String) : Emission := space ++ text token ++ space

def assignment : Emission := spaced Token.assign

def call (method : String) (args : List Emission) : Emission :=
  text method ++ text Token.parenOpen ++ separated args ++ text Token.parenClose

def array (elements : List Emission) : Emission :=
  text Token.arrayOpen ++ separated elements ++ text Token.arrayClose

def entries (keys values : List Emission) : List Emission :=
  keys.zipWith (fun key value => key ++ assignment ++ value) values

def map (entries : List Emission) : Emission :=
  if entries.isEmpty then text Token.blockOpen ++ text Token.blockClose
  else text Token.blockOpen ++ space ++ separated entries ++ space ++ text Token.blockClose

def parenthesizedUnless (bare : Bool) (body : Emission) : Emission :=
  if bare then body else text Token.parenOpen ++ body ++ text Token.parenClose

def jump (label : String) : Emission := text Token.gotoWord ++ space ++ text label

@[simp] theorem fault_text (s : String) : (text s).fault = none := rfl

@[simp] theorem fault_nothing : nothing.fault = none := rfl

@[simp] theorem fault_fail (f : Fault) : (fail f).fault = some f := rfl

@[simp] theorem contents_nothing : nothing.contents = "" := rfl

@[simp] theorem contents_fail (f : Fault) : (fail f).contents = "" := rfl

@[simp] theorem contents_text (s : String) : (text s).contents = s := by
  simp [contents, text]

theorem andThen_of_fault {a : Emission} (b : Emission) (faulty : a.fault.isSome) : a ++ b = a := by
  show a.andThen b = a
  unfold andThen
  split
  · rfl
  · next none => simp [none] at faulty

theorem andThen_of_none {a : Emission} (b : Emission) (fine : a.fault = none) :
    a ++ b = ⟨a.pieces ++ b.pieces, b.fault⟩ := by
  show a.andThen b = _
  simp [andThen, fine]

@[simp] theorem fail_andThen (f : Fault) (a : Emission) : fail f ++ a = fail f :=
  andThen_of_fault a rfl

theorem andThen_assoc (a b c : Emission) : a ++ b ++ c = a ++ (b ++ c) := by
  cases first : a.fault with
  | some f =>
    have faulty : a.fault.isSome := by simp [first]
    rw [andThen_of_fault b faulty, andThen_of_fault c faulty, andThen_of_fault _ faulty]
  | none =>
    cases second : b.fault with
    | some f =>
      have faulty : b.fault.isSome := by simp [second]
      rw [andThen_of_fault c faulty, andThen_of_none b first]
      exact andThen_of_fault c (by simp [second])
    | none =>
      rw [andThen_of_none b first, andThen_of_none _ first, andThen_of_none c second]
      rw [andThen_of_none (a := ⟨a.pieces ++ b.pieces, b.fault⟩) c second, List.append_assoc]

@[simp] theorem nothing_andThen (a : Emission) : nothing ++ a = a := by
  rw [andThen_of_none a rfl]; rfl

@[simp] theorem andThen_nothing (a : Emission) : a ++ nothing = a := by
  cases fine : a.fault with
  | some f => exact andThen_of_fault _ (by simp [fine])
  | none => rw [andThen_of_none _ fine]; simp [nothing, ← fine]

@[simp] theorem fault_andThen (a b : Emission) : (a ++ b).fault = a.fault.or b.fault := by
  cases fine : a.fault with
  | some f => rw [andThen_of_fault b (by simp [fine]), fine]; rfl
  | none => rw [andThen_of_none b fine]; rfl

theorem contents_andThen {a : Emission} (b : Emission) (fine : a.fault = none) :
    (a ++ b).contents = a.contents ++ b.contents := by
  rw [andThen_of_none b fine]
  simp [contents]

theorem contents_andThen_prefix (a b : Emission) :
    a.contents.toList <+: (a ++ b).contents.toList := by
  cases fine : a.fault with
  | some f =>
    have whole : a ++ b = a := andThen_of_fault b (by simp [fine])
    simp only [whole, List.prefix_rfl]
  | none => simp [contents_andThen b fine]

@[simp] theorem concat_nil : concat [] = nothing := rfl

@[simp] theorem concat_cons (part : Emission) (rest : List Emission) :
    concat (part :: rest) = part ++ concat rest := rfl

@[simp] theorem concat_append (first second : List Emission) :
    concat (first ++ second) = concat first ++ concat second := by
  induction first with
  | nil => simp
  | cons part rest ih => simp [ih, andThen_assoc]

theorem fault_concat_eq_none {parts : List Emission} :
    (concat parts).fault = none ↔ ∀ part ∈ parts, part.fault = none := by
  induction parts with
  | nil => simp
  | cons part rest ih => simp [ih]

theorem contents_concat {parts : List Emission} (fine : ∀ part ∈ parts, part.fault = none) :
    (concat parts).contents = String.join (parts.map contents) := by
  induction parts with
  | nil => rfl
  | cons part rest ih =>
    obtain ⟨own, others⟩ := List.forall_mem_cons.mp fine
    rw [concat_cons, contents_andThen _ own, ih others, List.map_cons, String.join_cons]

end Emission

end HotkeyScript
