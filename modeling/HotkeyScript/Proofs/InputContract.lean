import HotkeyScript.Proofs.SinkLaw
namespace HotkeyScript

def Primitive.wellFormed : Primitive → Bool
  | .char _ => false
  | .float value => value.isFinite
  | _ => true

theorem Primitive.wellFormed_iff (options : Options) (value : Primitive) :
    (value.emission options).fault = none ↔ value.wellFormed := by
  cases value with
  | float value =>
    cases finite : value.isFinite with
    | true => simp [emission, wellFormed, finite]
    | false => cases nan : value.isNaN <;> simp [emission, wellFormed, finite, nan]
  | string text => simp [emission, wellFormed, stringLiteral, Emission.ofPieces]
  | _ => simp [emission, wellFormed]

theorem Item.holds_fixed_of_false (Q : Descent → Expr → Prop) (written : Emission) :
    (Item.fixed written).Holds Q (fun _ => False) ↔ written.fault = none := by
  simp [Holds, Option.eq_none_iff_forall_ne_some]

namespace Expr

def isText : Expr → Bool
  | .primitive (.string _) => true
  | _ => false

def selectsOperator : Expr → Bool
  | .fieldRef _ name => (ScriptOperator.ofName? name).isSome
  | _ => false

mutual

-- The tree has a form in scripts. Only what the writing comes to is looked at.
def wellFormed : Expr → Bool
  | .invocation target _ args false =>
    (match target with
      | none => true
      | some target => target.isInternalType || target.wellFormed) && allWellFormed args
  | .invocation target method args true =>
    target.all isInternalType &&
      match method, args with
      | "LabelCall", [label] => label.isText
      | "IfElse", [condition] => condition.wellFormed
      | "Operate", [selector, left, right] =>
        selector.selectsOperator && left.wellFormed && right.wellFormed
      | "ExtendArray", [_] => true
      | "Dictionary", [keys, values] =>
        match keys, values with
        | .arrayLiteral keys, .arrayLiteral values =>
          keys.length == values.length && allWellFormed keys && allWellFormed values
        | _, _ => false
      | _, args => allWellFormed args
  | .arrayLiteral elements => allWellFormed elements
  | .primitive value => value.wellFormed
  | .binaryOp _ left right => left.wellFormed && right.wellFormed
  | .ternaryOp condition whenTrue whenFalse =>
    condition.wellFormed && whenTrue.wellFormed && whenFalse.wellFormed
  | .complexReference (.literal _) => true
  | .complexReference (.parts segments) => segmentsWellFormed segments
  | .variableRef _ => true
  | .fieldRef none _ => true
  | .fieldRef (some target) _ => target.wellFormed
  | .typeRef _ => true
  | .this | .cast _ _ => false

def allWellFormed : List Expr → Bool
  | [] => true
  | e :: rest => e.wellFormed && allWellFormed rest

def segmentsWellFormed : List Expr → Bool
  | [] => true
  | segment :: rest =>
    (match segment with
      | .primitive value => value.wellFormed
      | .complexReference _ => segment.wellFormed
      | _ => false) && segmentsWellFormed rest

end

mutual

-- The levels that the writing goes down from the tree. Operands of a marker construct lie at
-- the level of the construct itself, and what is never written has no level.
def height : Expr → Nat
  | .invocation target _ args false =>
    max
      (match target with
        | none => 0
        | some target => if target.isInternalType then 0 else target.height + 1)
      (nestedHeight args)
  | .invocation target method args true =>
    if target.all isInternalType then
      match method, args with
      | "LabelCall", [_] => 0
      | "IfElse", [condition] => condition.height
      | "Operate", [selector, left, right] =>
        if selector.selectsOperator then max left.height right.height else 0
      | "ExtendArray", [_] => 0
      | "SetObject", [key, index, container, value] =>
        max (max key.height index.height) (max container.height value.height)
      | "Index", [container, index] => max container.height index.height
      | "Dictionary", [keys, values] =>
        match keys, values with
        | .arrayLiteral keys, .arrayLiteral values =>
          if keys.length = values.length then max (nestedHeight keys) (nestedHeight values)
          else 0
        | _, _ => 0
      | _, args => nestedHeight args
    else 0
  | .arrayLiteral elements => nestedHeight elements
  | .binaryOp _ left right => max (left.height + 1) (right.height + 1)
  | .ternaryOp condition whenTrue whenFalse =>
    max (condition.height + 1) (max (whenTrue.height + 1) (whenFalse.height + 1))
  | .complexReference (.parts segments) => segmentsHeight segments
  | .fieldRef (some target) _ => target.height + 1
  | _ => 0

def nestedHeight : List Expr → Nat
  | [] => 0
  | e :: rest => max (e.height + 1) (nestedHeight rest)

def segmentsHeight : List Expr → Nat
  | [] => 0
  | segment :: rest =>
    max
      (match segment with
        | .complexReference _ => segment.height + 1
        | _ => 0)
      (segmentsHeight rest)

end

theorem allWellFormed_iff (es : List Expr) :
    allWellFormed es ↔ ∀ e ∈ es, e.wellFormed := by
  induction es with
  | nil => simp [allWellFormed]
  | cons e rest ih => simp [allWellFormed, ih]

theorem wellFormed_unregistered {method : String} {args : List Expr}
    (unregistered : Intrinsic.find? method args.length = none) :
    (invocation none method args true).wellFormed = allWellFormed args := by
  rw [wellFormed.eq_def]
  simp only [Option.all_none, Bool.true_and]
  split
  · cases unregistered.symm.trans (Intrinsic.find?_self .labelJump)
  · cases unregistered.symm.trans (Intrinsic.find?_self .conditional)
  · cases unregistered.symm.trans (Intrinsic.find?_self .operate)
  · cases unregistered.symm.trans (Intrinsic.find?_self .arrayExtend)
  · cases unregistered.symm.trans (Intrinsic.find?_self .mapLiteral)
  · rfl

theorem height_unregistered {method : String} {args : List Expr}
    (unregistered : Intrinsic.find? method args.length = none) :
    (invocation none method args true).height = nestedHeight args := by
  rw [height.eq_def]
  simp only [Option.all_none, if_true]
  split
  · cases unregistered.symm.trans (Intrinsic.find?_self .labelJump)
  · cases unregistered.symm.trans (Intrinsic.find?_self .conditional)
  · cases unregistered.symm.trans (Intrinsic.find?_self .operate)
  · cases unregistered.symm.trans (Intrinsic.find?_self .arrayExtend)
  · cases unregistered.symm.trans (Intrinsic.find?_self .indexedAssign)
  · cases unregistered.symm.trans (Intrinsic.find?_self .indexAccess)
  · cases unregistered.symm.trans (Intrinsic.find?_self .mapLiteral)
  · rfl

theorem wellFormed_markerCall (method : String) (args : List Expr) :
    (Layout.markerCall method args).Holds (fun _ c => c.wellFormed) (fun _ => False)
      ↔ (invocation none method args true).wellFormed := by
  unfold Layout.markerCall
  cases found : Intrinsic.find? method args.length with
  | none => simp [wellFormed_unregistered found, allWellFormed_iff]
  | some i =>
    obtain ⟨rfl, _⟩ := Intrinsic.find?_eq_some_iff.1 found
    cases Intrinsic.takes_of_find? found
    case labelJump label =>
      simp only [Layout.jumpTo, Intrinsic.name, wellFormed]
      split <;> simp_all [Item.Holds, isText, Emission.jump, Emission.space]
    case operate selector left right =>
      simp only [Layout.operation, Intrinsic.name, wellFormed, selectsOperator]
      split
      · split <;> simp [*, Item.Holds, Emission.spaced, Emission.space]
      · simp
    case mapLiteral keys values =>
      rw [wellFormed.eq_def]
      simp only [Layout.mapOf, Intrinsic.name]
      split
      · split
        · next same => simp [same, Layout.holds_map same, allWellFormed_iff]
        · next differ => simp [differ]
      · simp
    case conditional condition => simp [Intrinsic.name, wellFormed, Item.Holds]
    case arrayExtend size => simp [Intrinsic.name, wellFormed]
    case indexedAssign key index container value =>
      simp [Intrinsic.name, wellFormed, Item.Holds, allWellFormed, Emission.assignment,
        Emission.spaced, Emission.space]
      grind
    case indexAccess container index =>
      simp [Intrinsic.name, wellFormed, Item.Holds, allWellFormed]

theorem segmentsWellFormed_iff (options : Options) (segments : List Expr) :
    (∀ e ∈ segments, (Layout.segment options e).Holds (fun _ c => c.wellFormed) (fun _ => False))
      ↔ segmentsWellFormed segments := by
  induction segments with
  | nil => simp [segmentsWellFormed]
  | cons head rest ih =>
    rw [List.forall_mem_cons, ih]
    cases head with
    | primitive value =>
      cases value <;>
        simp [Layout.segment, segmentsWellFormed, Item.holds_fixed_of_false,
          Primitive.wellFormed_iff options, Primitive.wellFormed]
    | complexReference name => simp [Layout.segment, segmentsWellFormed, Item.Holds]
    | _ => simp [Layout.segment, segmentsWellFormed, Item.Holds]

theorem wellFormed_iff_layout (e : Expr) (options : Options) (bare : Bool) :
    (e.layout options bare).Holds (fun _ c => c.wellFormed) (fun _ => False) ↔ e.wellFormed := by
  cases e with
  | invocation target method args marker =>
    cases target with
    | none =>
      cases marker with
      | true => exact wellFormed_markerCall method args
      | false => simp [layout, Layout.invocation, written?, wellFormed, allWellFormed_iff]
    | some target =>
      cases internal : target.isInternalType <;> cases marker
      case false.false =>
        simp [layout, Layout.invocation, written?, internal, wellFormed, Item.Holds,
          allWellFormed_iff]
      case false.true =>
        rw [wellFormed.eq_def]
        simp [layout, Layout.invocation, written?, internal]
      case true.false =>
        simp [layout, Layout.invocation, written?, internal, wellFormed, allWellFormed_iff]
      case true.true =>
        have bare := wellFormed_markerCall method args
        rw [wellFormed.eq_def] at bare ⊢
        simpa [layout, Layout.invocation, written?, internal] using bare
  | arrayLiteral elements => simp [layout, wellFormed, allWellFormed_iff]
  | primitive value =>
    simp [layout, wellFormed, Item.holds_fixed_of_false, Primitive.wellFormed_iff options]
  | binaryOp operator left right =>
    cases bare <;>
      simp [layout, Layout.parenthesizedUnless, Item.Holds, wellFormed, Emission.spaced,
        Emission.space]
  | ternaryOp condition whenTrue whenFalse =>
    simp [layout, Item.Holds, wellFormed, Emission.spaced, Emission.space, and_assoc]
  | complexReference name =>
    cases name with
    | literal text => simp [layout, Item.Holds, wellFormed]
    | parts segments => simp [layout, wellFormed, segmentsWellFormed_iff]
  | fieldRef target field =>
    cases target with
    | none => simp [layout, Item.Holds, wellFormed]
    | some target =>
      cases separated : options.fieldSeparator && !target.isInternalType <;>
        simp [layout, separated, Item.Holds, wellFormed]
  | typeRef type =>
    cases internal : type.internal <;> simp [layout, internal, Item.Holds, wellFormed]
  | _ => simp [layout, Item.Holds, wellFormed]

section

variable {P : Nat → Prop} (base : P 0) (both : ∀ a b, P (max a b) ↔ P a ∧ P b)
include base both

theorem nestedHeight_iff (es : List Expr) : P (nestedHeight es) ↔ ∀ e ∈ es, P (e.height + 1) := by
  induction es with
  | nil => simpa [nestedHeight] using base
  | cons e rest ih => simp [nestedHeight, both, ih]

theorem height_markerCall (method : String) (args : List Expr) :
    (Layout.markerCall method args).Holds (fun d c => P (c.height + d.levels)) (fun _ => True)
      ↔ P (invocation none method args true).height := by
  unfold Layout.markerCall
  cases found : Intrinsic.find? method args.length with
  | none => simp [height_unregistered found, nestedHeight_iff base both, Descent.levels]
  | some i =>
    obtain ⟨rfl, _⟩ := Intrinsic.find?_eq_some_iff.1 found
    cases Intrinsic.takes_of_find? found
    case labelJump label =>
      simp only [Layout.jumpTo, Intrinsic.name, height]
      split <;> simp [Item.Holds, base]
    case operate selector left right =>
      simp only [Layout.operation, Intrinsic.name, height, selectsOperator]
      split
      · split <;> simp [*, Item.Holds, Descent.levels]
      · simp [base]
    case mapLiteral keys values =>
      rw [height.eq_def]
      simp only [Layout.mapOf, Intrinsic.name]
      split
      · next ks vs =>
        by_cases same : ks.length = vs.length
        · simp [same, Layout.holds_map same, both, nestedHeight_iff base both, Descent.levels]
        · simp [same, base, Layout.refusal, Item.Holds]
      · simp [base]
    case conditional condition => simp [Intrinsic.name, height, Item.Holds, Descent.levels]
    case arrayExtend size => simp [Intrinsic.name, height, base]
    case indexedAssign key index container value =>
      simp [Intrinsic.name, height, Item.Holds, both, Descent.levels]
      grind
    case indexAccess container index =>
      simp [Intrinsic.name, height, Item.Holds, both, Descent.levels]

theorem segmentsHeight_iff (options : Options) (segments : List Expr) :
    (∀ e ∈ segments,
      (Layout.segment options e).Holds (fun d c => P (c.height + d.levels)) (fun _ => True))
      ↔ P (segmentsHeight segments) := by
  induction segments with
  | nil => simpa [segmentsHeight] using base
  | cons head rest ih =>
    rw [List.forall_mem_cons, ih]
    cases head with
    | primitive value =>
      cases value <;> simp [Layout.segment, segmentsHeight, Item.Holds]
    | complexReference name =>
      simp [Layout.segment, segmentsHeight, Item.Holds, both, Descent.levels]
    | _ => simp [Layout.segment, segmentsHeight, Item.Holds]

theorem height_iff_layout (e : Expr) (options : Options) (bare : Bool) :
    (e.layout options bare).Holds (fun d c => P (c.height + d.levels)) (fun _ => True)
      ↔ P e.height := by
  cases e with
  | invocation target method args marker =>
    cases target with
    | none =>
      cases marker with
      | true => exact height_markerCall base both method args
      | false =>
        simp [layout, Layout.invocation, written?, height, nestedHeight_iff base both,
          Descent.levels]
    | some target =>
      cases internal : target.isInternalType <;> cases marker
      case false.false =>
        simp [layout, Layout.invocation, written?, internal, height, Item.Holds, both,
          nestedHeight_iff base both, Descent.levels]
      case false.true =>
        rw [height.eq_def]
        simp [layout, Layout.invocation, written?, internal, base]
      case true.false =>
        simp [layout, Layout.invocation, written?, internal, height, nestedHeight_iff base both,
          Descent.levels]
      case true.true =>
        have bare := height_markerCall base both method args
        rw [height.eq_def] at bare ⊢
        simpa [layout, Layout.invocation, written?, internal] using bare
  | arrayLiteral elements =>
    simp [layout, height, nestedHeight_iff base both, Descent.levels]
  | binaryOp operator left right =>
    cases bare <;>
      simp [layout, Layout.parenthesizedUnless, Item.Holds, height, both, Descent.levels,
        -Nat.add_max_add_right]
  | ternaryOp condition whenTrue whenFalse =>
    simp [layout, Item.Holds, height, both, Descent.levels, -Nat.add_max_add_right]
  | complexReference name =>
    cases name with
    | literal text => simp [layout, Item.Holds, height, base]
    | parts segments => simp [layout, height, segmentsHeight_iff base both]
  | fieldRef target field =>
    cases target <;> simp [layout, Item.Holds, height, base, Descent.levels]
  | typeRef type =>
    cases internal : type.internal <;> simp [layout, internal, Item.Holds, height, base]
  | _ => simp [layout, Item.Holds, height, base]

end

end Expr

-- The limit allows for levels this far down from a depth. The depth counter goes no further than
-- its greatest value.
def Options.admits (options : Options) (depth : UInt32) (levels : Nat) : Prop :=
  min (depth.toNat + levels) 4294967295 ≤ options.maxDepth.toNat

instance (options : Options) (depth : UInt32) (levels : Nat) :
    Decidable (options.admits depth levels) :=
  inferInstanceAs (Decidable (_ ≤ _))

namespace Options

theorem admits_zero {options : Options} {depth : UInt32}
    (within : ¬ options.maxDepth < depth) : options.admits depth 0 := by
  rw [UInt32.lt_iff_toNat_lt] at within
  unfold admits
  omega

theorem not_admits {options : Options} {depth : UInt32} (exceeded : options.maxDepth < depth)
    (levels : Nat) : ¬ options.admits depth levels := by
  rw [UInt32.lt_iff_toNat_lt] at exceeded
  have bound := depth.toNat_lt
  unfold admits
  omega

theorem admits_max (options : Options) (depth : UInt32) (a b : Nat) :
    options.admits depth (max a b) ↔ options.admits depth a ∧ options.admits depth b := by
  unfold admits
  omega

theorem admits_descent (options : Options) (context : Context) (d : Descent) (levels : Nat) :
    options.admits (d.context context).depth levels
      ↔ options.admits context.depth (levels + d.levels) := by
  cases d with
  | same => rfl
  | operand => rfl
  | nested =>
    have deeper := Context.toNat_deeper context.depth
    simp only [admits, Descent.context, Descent.levels, Context.nested, deeper]
    omega

end Options

-- The outcome is decided by two questions: it is a success when both are answered with yes, the
-- depth fault when only the first is, and another fault when only the second is.
structure Fault.Decided (options : Options) (wellFormed fits : Prop) (fault : Option Fault) :
    Prop where
  success : fault = none ↔ wellFormed ∧ fits
  tooDeep : wellFormed → ¬ fits → fault = some (.depthLimitExceeded options.maxDepth)
  malformed : ¬ wellFormed → fits →
    ∃ f, fault = some f ∧ f.OfShape

namespace Fault.Decided

variable {options : Options}

theorem congr {w f w' f' : Prop} {fault : Option Fault} (decided : Decided options w f fault)
    (forms : w ↔ w') (levels : f ↔ f') : Decided options w' f' fault := by
  rw [← forms, ← levels]
  exact decided

theorem none : Decided options True True none := by
  constructor <;> simp

theorem either {w f w' f' : Prop} {first second : Option Fault}
    (one : Decided options w f first) (two : Decided options w' f' second) :
    Decided options (w ∧ w') (f ∧ f') (first.or second) := by
  cases first with
  | none =>
    obtain ⟨formed, fits⟩ := one.success.mp rfl
    exact two.congr (by simp [formed]) (by simp [fits])
  | some fault =>
    have failed : ¬ (w ∧ f) := fun fine => by cases one.success.mpr fine
    refine ⟨?_, ?_, ?_⟩
    · constructor
      · intro never
        cases never
      · rintro ⟨⟨formed, _⟩, fits, _⟩
        exact absurd ⟨formed, fits⟩ failed
    · rintro ⟨formed, _⟩ _
      exact one.tooDeep formed fun fits => failed ⟨formed, fits⟩
    · rintro _ ⟨fits, _⟩
      exact one.malformed (fun formed => failed ⟨formed, fits⟩) fits

theorem fixed {written : Emission}
    (shape : ∀ f, written.fault = some f → f.OfShape) :
    Decided options (written.fault = .none) True written.fault := by
  cases fault : written.fault with
  | none => exact none.congr (by simp) Iff.rfl
  | some f => exact ⟨by simp, by simp, fun _ _ => ⟨f, rfl, shape f fault⟩⟩

theorem layout {context : Context} {l : Layout}
    (shape : l.Holds (fun _ _ => True) Fault.OfShape)
    (parts : ∀ d c, .part d c ∈ l →
      Decided options c.wellFormed (options.admits (d.context context).depth c.height)
        (c.emission options (d.context context)).fault) :
    Decided options (l.Holds (fun _ c => c.wellFormed) (fun _ => False))
      (l.Holds (fun d c => options.admits context.depth (c.height + d.levels)) (fun _ => True))
      (l.emission options context).fault := by
  induction l with
  | nil => simpa using none
  | cons item rest ih =>
    obtain ⟨here, later⟩ := Layout.holds_cons item rest |>.mp shape
    have others := ih later fun d c part => parts d c (List.mem_cons_of_mem item part)
    rw [Layout.emission_cons, Emission.fault_andThen, Layout.holds_cons, Layout.holds_cons]
    refine either ?_ others
    cases item with
    | fixed written =>
      refine (fixed here).congr (Item.holds_fixed_of_false _ written).symm ?_
      simp [Item.Holds]
    | part d c =>
      refine (parts d c List.mem_cons_self).congr Iff.rfl ?_
      exact Options.admits_descent options context d c.height

end Fault.Decided

theorem Expr.emission_decided (e : Expr) (options : Options) (context : Context) :
    Fault.Decided options e.wellFormed (options.admits context.depth e.height)
      (e.emission options context).fault := by
  induction e using Expr.layout_induction generalizing options context with
  | step e ih =>
    rw [Expr.emission_eq_layout]
    by_cases exceeded : options.maxDepth < context.depth
    · rw [if_pos exceeded]
      have refused := Options.not_admits exceeded e.height
      exact ⟨by simp [refused], fun _ _ => rfl, fun _ fits => absurd fits refused⟩
    · rw [if_neg exceeded]
      have shape := (e.layout_holds options context.statement).mono
        (fun _ _ _ => trivial) (fun _ shape => shape)
      have parts := Fault.Decided.layout shape fun d c part =>
        ih options context.statement d c part options (d.context context)
      refine parts.congr (Expr.wellFormed_iff_layout e options context.statement) ?_
      exact Expr.height_iff_layout (Options.admits_zero exceeded)
        (Options.admits_max options context.depth) e options context.statement

namespace Stmt

def wellFormed : Stmt → Bool
  | .expression expr => expr.wellFormed
  | .variableDeclaration _ init => init.all Expr.wellFormed
  | .assignment left right => left.wellFormed && right.wellFormed
  | .returning value => value.all Expr.wellFormed
  | .goto _ => true

def height? : Stmt → Option Nat
  | .expression expr => some expr.height
  | .variableDeclaration _ init => init.map (·.height + 1)
  | .assignment left right => some (max left.height right.height)
  | .returning value => value.map (·.height + 1)
  | .goto _ => none

def Fits (options : Options) (context : Context) (s : Stmt) : Prop :=
  ∀ levels, s.height? = some levels → options.admits context.depth levels

theorem emission_decided (s : Stmt) (options : Options) (context : Context) :
    Fault.Decided options s.wellFormed (s.Fits options context)
      (s.emission options context).fault := by
  have nested (e : Expr) : Fault.Decided options e.wellFormed
      (options.admits context.depth (e.height + 1)) (e.emission options context.nested).fault :=
    (e.emission_decided options context.nested).congr Iff.rfl
      (options.admits_descent context .nested e.height)
  cases s with
  | expression expr =>
    refine (expr.emission_decided options context.asStatement).congr Iff.rfl ?_
    simp [Fits, height?, Context.asStatement]
  | variableDeclaration name init =>
    cases init with
    | none =>
      simpa [emission, wellFormed, Fits, height?, Emission.assignment, Emission.spaced,
        Emission.space] using Fault.Decided.none
    | some init =>
      simpa [emission, wellFormed, Fits, height?, Emission.assignment, Emission.spaced,
        Emission.space] using nested init
  | assignment left right =>
    have both := Fault.Decided.either (left.emission_decided options context.operand)
      (right.emission_decided options context.operand)
    simpa [emission, wellFormed, Fits, height?, Emission.assignment, Emission.spaced,
      Emission.space, options.admits_max, Context.operand] using both
  | returning value =>
    cases value with
    | none => simpa [emission, wellFormed, Fits, height?] using Fault.Decided.none
    | some value =>
      simpa [emission, wellFormed, Fits, height?, Emission.space] using nested value
  | goto label =>
    simpa [emission, wellFormed, Fits, height?, Emission.jump, Emission.space] using
      Fault.Decided.none

theorem indentation_fault (options : Options) (level : Nat) :
    (indentation options level).fault = none := by
  simp [indentation, Emission.fault_concat_eq_none]

theorem lines_decided (options : Options) (level : Nat) (list : List Stmt) :
    Fault.Decided options (∀ s ∈ list, s.wellFormed) (∀ s ∈ list, s.Fits options .root)
      (lines options level list).fault := by
  induction list with
  | nil => simpa [lines] using Fault.Decided.none
  | cons s rest ih =>
    have both := Fault.Decided.either (s.emission_decided options .root) ih
    simpa [lines, line, indentation_fault] using both

end Stmt

namespace Job

def WellFormed : Job → Prop
  | .expression expr _ => expr.wellFormed
  | .statement stmt _ => stmt.wellFormed
  | .statements list _ => ∀ s ∈ list, s.wellFormed

def Fits (options : Options) : Job → Prop
  | .expression expr context => options.admits context.depth expr.height
  | .statement stmt context => stmt.Fits options context
  | .statements list _ => ∀ s ∈ list, s.Fits options .root

theorem emission_decided (options : Options) (job : Job) :
    Fault.Decided options job.WellFormed (job.Fits options) (job.emission options).fault := by
  cases job with
  | expression expr context => exact expr.emission_decided options context
  | statement stmt context => exact stmt.emission_decided options context
  | statements list level => exact Stmt.lines_decided options level list

end Job

-- On a sink that never fails, a job succeeds exactly when its trees have a form and their height
-- stays within the limit.
theorem Printer.emit_contract (options : Options) (held : String) (job : Job) :
    let outcome := (Printer.emit ⟨options, ⟨held, none⟩⟩ job).2
    (outcome = none ↔ job.WellFormed ∧ job.Fits options) ∧
      (job.WellFormed → ¬ job.Fits options →
        outcome = some (.fault (.depthLimitExceeded options.maxDepth))) ∧
      (¬ job.WellFormed → job.Fits options → ∃ f, outcome = some (.fault f) ∧ f.OfShape) := by
  have written := Printer.emit_unlimited (p := ⟨options, ⟨held, none⟩⟩) rfl job
  obtain ⟨success, tooDeep, malformed⟩ := job.emission_decided options
  rw [written]
  refine ⟨by simpa using success, ?_, ?_⟩
  · intro formed refused
    simp [tooDeep formed refused]
  · intro formless fits
    obtain ⟨f, fault, shape⟩ := malformed formless fits
    exact ⟨f, by simp [fault], shape⟩

-- One level of arrays within a limit of one, one level too many, and a tree without a form.
theorem Printer.emit_contract_limit_of_one :
    (Printer.emit ⟨{ maxDepth := 1 }, ⟨"", none⟩⟩ (.ofExpr (.array [.var "x"]))).2 = none ∧
      (Printer.emit ⟨{ maxDepth := 1 }, ⟨"", none⟩⟩ (.ofExpr (.array [.array [.var "x"]]))).2
        = some (.fault (.depthLimitExceeded 1)) ∧
      ∃ f, (Printer.emit ⟨{ maxDepth := 1 }, ⟨"", none⟩⟩ (.ofExpr (.array [.this]))).2
        = some (.fault f) ∧ f.OfShape := by
  refine ⟨?_, ?_, ?_⟩
  · refine (Printer.emit_contract _ "" _).1.mpr ⟨?_, ?_⟩
    · show Expr.wellFormed _ = true
      decide
    · show Options.admits _ _ _
      decide
  · refine (Printer.emit_contract _ "" _).2.1 ?_ ?_
    · show Expr.wellFormed _ = true
      decide
    · show ¬ Options.admits _ _ _
      decide
  · refine (Printer.emit_contract _ "" _).2.2 ?_ ?_
    · show ¬ Expr.wellFormed _ = true
      decide
    · show Options.admits _ _ _
      decide

end HotkeyScript
