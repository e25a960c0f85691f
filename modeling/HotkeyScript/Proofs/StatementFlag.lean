import HotkeyScript.Proofs.SinkLaw
import HotkeyScript.Proofs.TwoRuns
namespace HotkeyScript

namespace Expr

def isConditional : Expr → Bool
  | .invocation target method [_] true =>
    target.all isInternalType && method = Intrinsic.conditional.name
  | _ => false

-- What is left of an expression without the conditional constructs around it.
def core : Expr → Expr
  | .invocation target method [condition] true =>
    if target.all isInternalType && method = Intrinsic.conditional.name then condition.core
    else .invocation target method [condition] true
  | e => e

theorem isConditional_core (e : Expr) : e.core.isConditional = false := by
  fun_induction core e with
  | case1 target method condition taken ih => exact ih
  | case2 target method condition other => simpa [isConditional] using other
  | case3 e other =>
    cases conditional : e.isConditional with
    | false => rfl
    | true =>
      unfold isConditional at conditional
      split at conditional
      · exact absurd rfl (other _ _ _)
      · cases conditional

variable {options : Options}

theorem layout_conditional {target : Option Expr} {method : String}
    (taken : target.all isInternalType && method = Intrinsic.conditional.name) (condition : Expr)
    (bare : Bool) :
    (invocation target method [condition] true).layout options bare = [.part .same condition] := by
  rw [Bool.and_eq_true, decide_eq_true_eq] at taken
  obtain ⟨internal, rfl⟩ := taken
  have found : Intrinsic.find? Intrinsic.conditional.name 1 = some .conditional :=
    Intrinsic.find?_self .conditional
  rw [layout_internal internal]
  simp [layout, Layout.invocation, written?, Layout.markerCall, found]

theorem emission_core (e : Expr) (context : Context) :
    e.core.emission options context = e.emission options context := by
  fun_induction core e with
  | case1 target method condition taken ih =>
    rw [ih, emission_eq_layout options (invocation _ _ _ _)]
    split
    · next exceeded => rw [emission_eq_layout, if_pos exceeded]
    · rw [layout_conditional taken, Layout.emission_cons, Layout.emission_nil,
        Emission.andThen_nothing]
      rfl
  | case2 target method condition other => rfl
  | case3 e other => rfl

theorem layout_descends {e : Expr} (plain : e.isConditional = false) (bare : Bool) :
    (e.layout options bare).Holds (fun d _ => d ≠ .same) (fun _ => True) := by
  cases e with
  | invocation target method args marker =>
    simp only [layout, Layout.invocation]
    split
    · simp
    · simp [Item.Holds]
    · next written =>
      unfold Layout.markerCall
      cases found : Intrinsic.find? method args.length with
      | none => simp
      | some i =>
        have named := (Intrinsic.find?_eq_some_iff.1 found).1
        cases Intrinsic.takes_of_find? found
        case conditional condition =>
          cases target with
          | none => simp [isConditional, named] at plain
          | some target => simp_all [isConditional, written?]
        case labelJump label =>
          simp only [Layout.jumpTo]
          split <;> simp [Item.Holds]
        case operate selector left right =>
          simp only [Layout.operation]
          split
          · split <;> simp [Item.Holds]
          · simp
        case mapLiteral keys values =>
          simp only [Layout.mapOf]
          split
          · split
            · next same => simp [Layout.holds_map same]
            · simp
          · simp
        all_goals simp [Item.Holds]
    · simp
  | arrayLiteral elements => simp [layout]
  | binaryOp operator left right =>
    cases bare <;> simp [layout, Layout.parenthesizedUnless, Item.Holds]
  | ternaryOp condition whenTrue whenFalse => simp [layout, Item.Holds]
  | complexReference name =>
    cases name with
    | literal text => simp [layout, Item.Holds]
    | parts segments =>
      simp only [layout, Layout.holds_flatMap]
      intro segment _
      refine (Layout.segment_self segment).mono ?_ (fun _ _ => trivial)
      rintro _ _ ⟨rfl, _⟩
      simp
  | fieldRef target field => cases target <;> simp [layout, Item.Holds]
  | typeRef type => cases internal : type.internal <;> simp [layout, internal, Item.Holds]
  | _ => simp [layout, Item.Holds]

theorem layout_of_not_binary {e : Expr} (other : e.kind ≠ .binaryOp) (bare bare' : Bool) :
    e.layout options bare = e.layout options bare' := by
  cases e with
  | binaryOp operator left right => exact absurd rfl other
  | complexReference name => cases name <;> rfl
  | fieldRef target field => cases target <;> rfl
  | _ => rfl

-- Parts that lie below the whole see nothing of its being a statement.
theorem layout_emission_flag {l : Layout} (descends : l.Holds (fun d _ => d ≠ .same) (fun _ => True))
    (depth : UInt32) : l.emission options ⟨true, depth⟩ = l.emission options ⟨false, depth⟩ := by
  apply Layout.emission_congr
  intro d c part
  have below := descends _ part
  cases d with
  | same => exact absurd rfl below
  | operand => rfl
  | nested => rfl

theorem emission_flag {e : Expr} (plain : e.isConditional = false) (other : e.kind ≠ .binaryOp)
    (depth : UInt32) : e.emission options ⟨true, depth⟩ = e.emission options ⟨false, depth⟩ := by
  rw [emission_eq_layout, emission_eq_layout, layout_of_not_binary other true false,
    layout_emission_flag (layout_descends plain false)]

theorem emission_binary_flag (operator : BinaryOperator) (left right : Expr) {depth : UInt32}
    (within : ¬ options.maxDepth < depth) :
    (binaryOp operator left right).emission options ⟨false, depth⟩
      = .text Token.parenOpen ++ (binaryOp operator left right).emission options ⟨true, depth⟩
        ++ .text Token.parenClose := by
  have descends : ((binaryOp operator left right).layout options true).Holds
      (fun d _ => d ≠ .same) (fun _ => True) := layout_descends rfl true
  rw [emission_eq_layout, emission_eq_layout, if_neg within, if_neg within,
    layout_emission_flag descends]
  simp [layout, Layout.parenthesizedUnless, Item.emission, Emission.andThen_assoc]

end Expr

theorem Emission.fault_parenthesized (body : Emission) :
    (text Token.parenOpen ++ body ++ text Token.parenClose).fault = body.fault := by
  simp

theorem Emission.contents_parenthesized (body : Emission) :
    (text Token.parenOpen ++ body ++ text Token.parenClose).contents
      = "(" ++ body.contents ++ (if body.fault = none then ")" else "") := by
  have opened : (text Token.parenOpen ++ body).contents = "(" ++ body.contents := by
    rw [contents_andThen _ rfl, contents_text]
    rfl
  cases fault : body.fault with
  | none =>
    rw [contents_andThen _ (by simp [fault]), opened, contents_text]
    rfl
  | some f =>
    rw [andThen_of_fault _ (by simp [fault]), opened]
    simp

-- An expression is written as a statement and in expression position with the same outcome. Where
-- conditional constructs around an operator are all that stands before the limit, the second text
-- is the first with a parenthesis before it and, if all of it could be written, one behind it;
-- otherwise the two texts are the same.
theorem Printer.emit_statement_flag (options : Options) (e : Expr) (depth : UInt32) :
    let whole := Printer.emit { options } (.expression e ⟨true, depth⟩)
    let inner := Printer.emit { options } (.expression e ⟨false, depth⟩)
    inner.2 = whole.2 ∧
      inner.1.text
        = if e.core.kind = .binaryOp ∧ depth ≤ options.maxDepth then
            "(" ++ whole.1.text ++ (if whole.2 = none then ")" else "")
          else whole.1.text := by
  simp only [emit_fresh, text, Job.emission, Option.map_eq_none_iff]
  rw [← e.emission_core, ← e.emission_core]
  by_cases binary : e.core.kind = .binaryOp
  · obtain ⟨operator, left, right, core⟩ :
        ∃ operator left right, e.core = .binaryOp operator left right := by
      cases same : e.core with
      | binaryOp operator left right => exact ⟨operator, left, right, rfl⟩
      | _ => simp [same, Expr.kind] at binary
    by_cases within : depth ≤ options.maxDepth
    · rw [if_pos ⟨binary, within⟩, core,
        Expr.emission_binary_flag operator left right (UInt32.not_lt.mpr within),
        Emission.fault_parenthesized, Emission.contents_parenthesized]
      exact ⟨rfl, rfl⟩
    · have exceeded : options.maxDepth < depth := UInt32.not_le.mp within
      rw [if_neg (by simp [within]), Expr.emission_eq_layout, Expr.emission_eq_layout,
        if_pos exceeded, if_pos exceeded]
      exact ⟨rfl, rfl⟩
  · rw [if_neg (by simp [binary]), Expr.emission_flag e.isConditional_core binary]
    exact ⟨rfl, rfl⟩

example :
    let e : Expr := .markerCall "IfElse" [.markerCall "IfElse"
      [.binary (.var "x") .assign (.binary (.var "y") .add (.int 1))]]
    (Printer.emit {} (.ofExprStatement e)).1.text = "x := (y + 1)" ∧
      (Printer.emit {} (.ofExpr e)).1.text = "(x := (y + 1))" := by
  decide

end HotkeyScript
