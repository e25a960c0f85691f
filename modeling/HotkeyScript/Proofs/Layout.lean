import HotkeyScript.Expr.Emission
namespace HotkeyScript

inductive Descent where
  | same
  | operand
  | nested
deriving DecidableEq

def Descent.context : Descent → Context → Context
  | .same, c => c
  | .operand, c => c.operand
  | .nested, c => c.nested

def Descent.levels : Descent → Nat
  | .same | .operand => 0
  | .nested => 1

inductive Item where
  | fixed (written : Emission)
  | part (descent : Descent) (expr : Expr)

def Item.emission (options : Options) (context : Context) : Item → Emission
  | .fixed written => written
  | .part descent expr => expr.emission options (descent.context context)

-- The target that a call is written on: the internal type is not written.
def Expr.written? : Option Expr → Option Expr
  | none => none
  | some target => if target.isInternalType then none else some target

-- What an expression is written as, before any of its parts is written: fixed text, faults and
-- parts in the order in which they are reached.
abbrev Layout := List Item

namespace Layout

def emission (options : Options) (context : Context) (l : Layout) : Emission :=
  .concat (l.map (Item.emission options context))

def separated : List Layout → Layout
  | [] => []
  | [l] => l
  | l :: rest => l ++ .fixed .listSeparator :: separated rest

def parts (es : List Expr) : List Layout := es.map fun e => [.part .nested e]

def call (method : String) (args : List Expr) : Layout :=
  [.fixed (.text method), .fixed (.text Token.parenOpen)] ++ separated (parts args)
    ++ [.fixed (.text Token.parenClose)]

def array (elements : List Expr) : Layout :=
  .fixed (.text Token.arrayOpen) :: separated (parts elements)
    ++ [.fixed (.text Token.arrayClose)]

def entries (keys values : List Expr) : List Layout :=
  keys.zipWith
    (fun key value => [.part .nested key, .fixed .assignment, .part .nested value]) values

def map (entries : List Layout) : Layout :=
  if entries.isEmpty then [.fixed (.text Token.blockOpen), .fixed (.text Token.blockClose)]
  else [.fixed (.text Token.blockOpen), .fixed .space] ++ separated entries
    ++ [.fixed .space, .fixed (.text Token.blockClose)]

def refusal (cause : Malformation) : Layout := [.fixed (.fail (.malformedIntrinsic cause))]

def jumpTo : Expr → Layout
  | .primitive (.string name) => [.fixed (.jump name)]
  | label => refusal (.labelNotText label.description)

def operation (selector left right : Expr) : Layout :=
  match selector with
  | .fieldRef _ name =>
    match ScriptOperator.ofName? name with
    | some operator =>
      [.part .operand left, .fixed (.spaced operator.token), .part .operand right]
    | none => refusal (.unknownOperator name)
  | _ => refusal (.selectorNotField selector.kind)

def mapOf (keys values : Expr) : Layout :=
  match keys, values with
  | .arrayLiteral keys, .arrayLiteral values =>
    if keys.length = values.length then map (entries keys values)
    else refusal (.mapLengthsDiffer keys.length values.length)
  | _, _ => refusal (.mapNotArrays keys.kind values.kind)

def markerCall (method : String) (args : List Expr) : Layout :=
  match Intrinsic.find? method args.length, args with
  | some .labelJump, [label] => jumpTo label
  | some .conditional, [condition] => [.part .same condition]
  | some .operate, [selector, left, right] => operation selector left right
  | some .arrayExtend, [_] => []
  | some .indexedAssign, [key, index, container, value] =>
    [.part .operand index, .part .operand container, .part .operand key, .fixed .assignment,
      .part .operand value]
  | some .indexAccess, [container, index] =>
    [.part .operand container, .fixed (.text Token.arrayOpen), .part .operand index,
      .fixed (.text Token.arrayClose)]
  | some .mapLiteral, [keys, values] => mapOf keys values
  | _, args => call method args

def invocation (target : Option Expr) (method : String) (args : List Expr) (marker : Bool) :
    Layout :=
  match Expr.written? target, marker with
  | some target, true =>
    refusal (.targeted (Intrinsic.find? method args.length) method target.kind)
  | some target, false =>
    .part .nested target :: .fixed (.text Token.concatenate) :: call method args
  | none, true => markerCall method args
  | none, false => call method args

def parenthesizedUnless (bare : Bool) (body : Layout) : Layout :=
  if bare then body
  else .fixed (.text Token.parenOpen) :: body ++ [.fixed (.text Token.parenClose)]

def segment (options : Options) : Expr → Layout
  | .primitive (.string text) => [.fixed (.text text)]
  | .primitive value => [.fixed (value.emission options)]
  | .complexReference name =>
    [.fixed (.text Token.resolve), .part .nested (.complexReference name),
      .fixed (.text Token.resolve)]
  | e => [.fixed (.fail (.malformedReference e.kind))]

end Layout

def Expr.layout (options : Options) (bare : Bool) : Expr → Layout
  | .invocation target method args marker => .invocation target method args marker
  | .arrayLiteral elements => .array elements
  | .primitive value => [.fixed (value.emission options)]
  | .binaryOp operator left right =>
    .parenthesizedUnless bare
      [.part .nested left, .fixed (.spaced operator.token), .part .nested right]
  | .ternaryOp condition whenTrue whenFalse =>
    [.part .nested condition, .fixed (.spaced Token.ternaryFirst), .part .nested whenTrue,
      .fixed (.spaced Token.ternarySecond), .part .nested whenFalse]
  | .complexReference (.literal text) => [.fixed (.text text)]
  | .complexReference (.parts segments) => segments.flatMap (Layout.segment options)
  | .variableRef name => [.fixed (.text name)]
  | .fieldRef none field => [.fixed (.text field)]
  | .fieldRef (some target) field =>
    [.part .nested target,
      .fixed (if options.fieldSeparator && !target.isInternalType
        then .text Token.concatenate else .nothing),
      .fixed (.text field)]
  | .typeRef type => if type.internal then [] else [.fixed (.text type.name)]
  | .this => [.fixed (.fail (.unsupportedExpression .this))]
  | .cast _ _ => [.fixed (.fail (.unsupportedExpression .cast))]

namespace Layout

variable {options : Options} {context : Context}

@[simp] theorem emission_nil : emission options context [] = .nothing := rfl

@[simp] theorem emission_cons (item : Item) (l : Layout) :
    emission options context (item :: l)
      = item.emission options context ++ emission options context l := rfl

@[simp] theorem emission_append (first second : Layout) :
    emission options context (first ++ second)
      = emission options context first ++ emission options context second := by
  simp [emission]

@[simp] theorem emission_separated (ls : List Layout) :
    emission options context (separated ls)
      = .separated (ls.map (emission options context)) := by
  fun_induction separated ls with
  | case1 => rfl
  | case2 l => rfl
  | case3 l rest nonempty ih =>
    cases rest with
    | nil => contradiction
    | cons next rest =>
      simp only [emission_append, emission_cons, Item.emission, ih, List.map_cons,
        Emission.separated, Emission.andThen_assoc]

theorem emission_parts (es : List Expr) :
    (parts es).map (emission options context) = Expr.emissions options es context.nested := by
  induction es with
  | nil => rfl
  | cons e rest ih =>
    simp only [parts, List.map_cons, List.map_map] at ih ⊢
    rw [ih]
    simp [Expr.emissions, Item.emission, Descent.context]

@[simp] theorem emission_call (method : String) (args : List Expr) :
    emission options context (call method args)
      = .call method (Expr.emissions options args context.nested) := by
  simp [call, Emission.call, emission_parts, Item.emission, Emission.andThen_assoc]

theorem emission_array (elements : List Expr) :
    emission options context (array elements)
      = .array (Expr.emissions options elements context.nested) := by
  simp [array, Emission.array, emission_parts, Item.emission, Emission.andThen_assoc]

theorem emission_entries (keys values : List Expr) :
    (entries keys values).map (emission options context)
      = Emission.entries (Expr.emissions options keys context.nested)
          (Expr.emissions options values context.nested) := by
  induction keys generalizing values with
  | nil => rfl
  | cons key keys ih =>
    cases values with
    | nil => rfl
    | cons value values =>
      simp only [entries, Emission.entries, List.zipWith_cons_cons, List.map_cons,
        Expr.emissions] at ih ⊢
      rw [ih]
      simp [Item.emission, Descent.context, Emission.andThen_assoc]

theorem emission_map (keys values : List Expr) :
    emission options context (map (entries keys values))
      = .map (Emission.entries (Expr.emissions options keys context.nested)
          (Expr.emissions options values context.nested)) := by
  rw [← emission_entries]
  unfold map Emission.map
  cases entries keys values with
  | nil => simp [Item.emission]
  | cons entry rest => simp [Item.emission, Emission.andThen_assoc]

theorem emission_segments (segments : List Expr) :
    emission options context (segments.flatMap (segment options))
      = .concat (Expr.segmentEmissions options segments context) := by
  induction segments with
  | nil => rfl
  | cons head rest ih =>
    simp only [List.flatMap_cons, emission_append, ih, Expr.segmentEmissions,
      Emission.concat_cons]
    congr 1
    cases head with
    | primitive value =>
      cases value <;> simp [segment, Item.emission]
    | complexReference name =>
      simp [segment, Item.emission, Descent.context, Emission.andThen_assoc]
    | _ => simp [segment, Item.emission]

end Layout

-- The arguments of a registered marker call: as many as its construct takes.
inductive Intrinsic.Takes : Intrinsic → List Expr → Prop where
  | labelJump (label : Expr) : Takes .labelJump [label]
  | conditional (condition : Expr) : Takes .conditional [condition]
  | operate (selector left right : Expr) : Takes .operate [selector, left, right]
  | arrayExtend (size : Expr) : Takes .arrayExtend [size]
  | indexedAssign (key index container value : Expr) :
      Takes .indexedAssign [key, index, container, value]
  | indexAccess (container index : Expr) : Takes .indexAccess [container, index]
  | mapLiteral (keys values : Expr) : Takes .mapLiteral [keys, values]

theorem Intrinsic.takes_of_find? {method : String} {args : List Expr} {i : Intrinsic}
    (found : Intrinsic.find? method args.length = some i) : i.Takes args := by
  obtain ⟨_, counted⟩ := Intrinsic.find?_eq_some_iff.1 found
  match i, args, counted with
  | .labelJump, [label], _ => exact .labelJump label
  | .conditional, [condition], _ => exact .conditional condition
  | .operate, [selector, left, right], _ => exact .operate selector left right
  | .arrayExtend, [size], _ => exact .arrayExtend size
  | .indexedAssign, [key, index, container, value], _ =>
    exact .indexedAssign key index container value
  | .indexAccess, [container, index], _ => exact .indexAccess container index
  | .mapLiteral, [keys, values], _ => exact .mapLiteral keys values

namespace Expr

variable {options : Options} {context : Context}

theorem eq_of_written? {target : Option Expr} {t : Expr} (written : written? target = some t) :
    target = some t := by
  cases target with
  | none => cases written
  | some target =>
    simp only [written?] at written
    split at written
    · cases written
    · exact written

theorem written?_of_internal {target : Option Expr} (internal : target.all isInternalType) :
    written? target = none := by
  cases target with
  | none => rfl
  | some target => simpa [written?] using internal

theorem layout_internal {target : Option Expr} {bare : Bool}
    (internal : target.all isInternalType) (method : String) (args : List Expr) (marker : Bool) :
    (invocation target method args marker).layout options bare
      = (invocation none method args marker).layout options bare := by
  simp only [layout, Layout.invocation, written?_of_internal internal]
  rfl

theorem emission_internal {target : Expr} (internal : target.isInternalType) (method : String)
    (args : List Expr) (marker : Bool) :
    (invocation (some target) method args marker).emission options context
      = (invocation none method args marker).emission options context := by
  rw [Expr.emission.eq_def, Expr.emission.eq_def _ (invocation none _ _ _)]
  simp [internal]

theorem emission_bareCall (method : String) (args : List Expr)
    (within : ¬ options.maxDepth < context.depth) :
    (invocation none method args false).emission options context
      = (Layout.call method args).emission options context := by
  rw [Expr.emission.eq_def, if_neg within]
  simp

theorem emission_markerCall (method : String) (args : List Expr)
    (within : ¬ options.maxDepth < context.depth) :
    (invocation none method args true).emission options context
      = (Layout.markerCall method args).emission options context := by
  rw [Expr.emission.eq_def, if_neg within]
  simp only [Layout.markerCall, Emission.nothing_andThen, if_true]
  cases found : Intrinsic.find? method args.length with
  | none => simp
  | some i =>
    cases Intrinsic.takes_of_find? found with
    | labelJump label =>
      cases label with
      | primitive value => cases value <;> simp [Layout.jumpTo, Layout.refusal, Item.emission]
      | _ => simp [Layout.jumpTo, Layout.refusal, Item.emission]
    | conditional condition => simp [Item.emission, Descent.context]
    | operate selector left right =>
      cases selector with
      | fieldRef target name =>
        cases named : ScriptOperator.ofName? name <;>
          simp [Layout.operation, Layout.refusal, Item.emission, Descent.context, named,
            Emission.andThen_assoc]
      | _ => simp [Layout.operation, Layout.refusal, Item.emission]
    | arrayExtend size => simp
    | indexedAssign key index container value =>
      simp [Item.emission, Descent.context, Emission.andThen_assoc]
    | indexAccess container index =>
      simp [Item.emission, Descent.context, Emission.andThen_assoc]
    | mapLiteral keys values =>
      cases keys with
      | arrayLiteral keys =>
        cases values with
        | arrayLiteral values =>
          by_cases same : keys.length = values.length <;>
            simp [Layout.mapOf, Layout.refusal, Item.emission, Layout.emission_map, same]
        | _ => simp [Layout.mapOf, Layout.refusal, Item.emission]
      | _ => simp [Layout.mapOf, Layout.refusal, Item.emission]

theorem emission_targetless (method : String) (args : List Expr) (marker : Bool)
    (within : ¬ options.maxDepth < context.depth) :
    (invocation none method args marker).emission options context
      = ((invocation none method args marker).layout options context.statement).emission
          options context := by
  cases marker with
  | false => exact emission_bareCall method args within
  | true => exact emission_markerCall method args within

theorem emission_invocation (target : Option Expr) (method : String) (args : List Expr)
    (marker : Bool) (within : ¬ options.maxDepth < context.depth) :
    (invocation target method args marker).emission options context
      = ((invocation target method args marker).layout options context.statement).emission
          options context := by
  cases target with
  | none => exact emission_targetless method args marker within
  | some target =>
    cases internal : target.isInternalType with
    | true =>
      rw [emission_internal internal, layout_internal (by simpa using internal)]
      exact emission_targetless method args marker within
    | false =>
      rw [Expr.emission.eq_def, if_neg within]
      cases marker <;>
        simp [layout, Layout.invocation, written?, internal, Layout.refusal, Item.emission,
          Descent.context, Emission.andThen_assoc]

theorem emission_eq_layout (options : Options) (e : Expr) (context : Context) :
    e.emission options context
      = if options.maxDepth < context.depth then .fail (.depthLimitExceeded options.maxDepth)
        else (e.layout options context.statement).emission options context := by
  by_cases exceeded : options.maxDepth < context.depth
  · rw [Expr.emission.eq_def, if_pos exceeded, if_pos exceeded]
  · rw [if_neg exceeded]
    cases e
    case invocation target method args marker =>
      exact emission_invocation target method args marker exceeded
    all_goals rw [Expr.emission.eq_def, if_neg exceeded]
    case arrayLiteral elements => simp [layout, Layout.emission_array]
    case primitive value => simp [layout, Item.emission]
    case binaryOp operator left right =>
      cases bare : context.statement <;>
        simp [layout, Layout.parenthesizedUnless, Item.emission, Descent.context,
          Emission.parenthesizedUnless, Emission.andThen_assoc]
    case ternaryOp condition whenTrue whenFalse =>
      simp [layout, Item.emission, Descent.context, Emission.andThen_assoc]
    case complexReference name =>
      cases name with
      | literal text => simp [layout, QualifiedName.emission, Item.emission]
      | parts segments => simp [layout, QualifiedName.emission, Layout.emission_segments]
    case variableRef name => simp [layout, Item.emission]
    case fieldRef target field =>
      cases target with
      | none => simp [layout, Item.emission]
      | some target => simp [layout, Item.emission, Descent.context, Emission.andThen_assoc]
    case typeRef type =>
      cases internal : type.internal <;> simp [layout, Item.emission, internal]
    case this => simp [layout, Item.emission, kind]
    case cast targetType expr => simp [layout, Item.emission, kind]

theorem within_of_fine {e : Expr} (fine : (e.emission options context).fault = none) :
    ¬ options.maxDepth < context.depth := by
  intro exceeded
  rw [emission_eq_layout, if_pos exceeded] at fine
  cases fine

theorem emission_of_fine {e : Expr} (fine : (e.emission options context).fault = none) :
    e.emission options context = (e.layout options context.statement).emission options context := by
  rw [emission_eq_layout, if_neg (within_of_fine fine)]

end Expr

def Fault.OfShape (f : Fault) : Prop := ∀ limit, f ≠ .depthLimitExceeded limit

@[simp] theorem Fault.ofShape_unsupportedExpression (kind : Expr.Kind) :
    (unsupportedExpression kind).OfShape := by simp [OfShape]

@[simp] theorem Fault.ofShape_malformedReference (kind : Expr.Kind) :
    (malformedReference kind).OfShape := by simp [OfShape]

@[simp] theorem Fault.ofShape_malformedIntrinsic (cause : Malformation) :
    (malformedIntrinsic cause).OfShape := by simp [OfShape]

@[simp] theorem Fault.ofShape_unsupportedLiteral (literal : UnwritableLiteral) :
    (unsupportedLiteral literal).OfShape := by simp [OfShape]

theorem Primitive.emission_eq_fail {options : Options} {value : Primitive} {f : Fault}
    (faulty : (value.emission options).fault = some f) :
    value.emission options = .fail f ∧ ∃ literal, f = .unsupportedLiteral literal := by
  cases value with
  | float value =>
    simp only [emission] at faulty ⊢
    split at faulty
    · cases faulty
    · split at faulty <;> cases faulty <;> simp [*]
  | char value =>
    cases faulty
    exact ⟨rfl, _, rfl⟩
  | string text => simp [emission, stringLiteral, Emission.ofPieces] at faulty
  | _ => simp [emission] at faulty

theorem Primitive.fault_ofShape (options : Options) (value : Primitive) :
    ∀ f, (value.emission options).fault = some f → f.OfShape := by
  intro f faulty
  obtain ⟨_, literal, rfl⟩ := emission_eq_fail faulty
  exact Fault.ofShape_unsupportedLiteral literal

-- What holds of the parts and of the faults of a layout. The punctuation in between has neither.
def Item.Holds (Q : Descent → Expr → Prop) (R : Fault → Prop) : Item → Prop
  | .fixed written => ∀ f, written.fault = some f → R f
  | .part descent expr => Q descent expr

namespace Layout

def Holds (Q : Descent → Expr → Prop) (R : Fault → Prop) (l : Layout) : Prop :=
  ∀ item ∈ l, item.Holds Q R

variable {Q : Descent → Expr → Prop} {R : Fault → Prop}

@[simp] theorem holds_nil : Holds Q R [] := by simp [Holds]

@[simp] theorem holds_cons (item : Item) (l : Layout) :
    Holds Q R (item :: l) ↔ item.Holds Q R ∧ Holds Q R l := by simp [Holds]

@[simp] theorem holds_append (first second : Layout) :
    Holds Q R (first ++ second) ↔ Holds Q R first ∧ Holds Q R second := by
  simp only [Holds, List.forall_mem_append]

theorem Holds.mono {Q' : Descent → Expr → Prop} {R' : Fault → Prop} {l : Layout}
    (held : Holds Q R l) (parts : ∀ d c, Q d c → Q' d c) (faults : ∀ f, R f → R' f) :
    Holds Q' R' l := by
  intro item member
  have here := held item member
  cases item with
  | fixed written => exact fun f faulty => faults f (here f faulty)
  | part descent expr => exact parts descent expr here

@[simp] theorem holds_flatMap (make : Expr → Layout) (es : List Expr) :
    Holds Q R (es.flatMap make) ↔ ∀ e ∈ es, Holds Q R (make e) := by
  simp only [Holds, List.mem_flatMap]
  grind

@[simp] theorem holds_refusal (cause : Malformation) :
    Holds Q R (refusal cause) ↔ R (.malformedIntrinsic cause) := by
  simp [refusal, Item.Holds]

theorem holds_separated (ls : List Layout) :
    Holds Q R (separated ls) ↔ ∀ l ∈ ls, Holds Q R l := by
  fun_induction separated ls with
  | case1 => simp
  | case2 l => simp
  | case3 l rest nonempty ih =>
    simp [ih, Item.Holds, Emission.listSeparator, Emission.space]

theorem holds_separated_parts (es : List Expr) :
    Holds Q R (separated (parts es)) ↔ ∀ e ∈ es, Q .nested e := by
  simp [holds_separated, parts, Item.Holds]

@[simp] theorem holds_call (method : String) (args : List Expr) :
    Holds Q R (call method args) ↔ ∀ e ∈ args, Q .nested e := by
  simp [call, holds_separated_parts, Item.Holds]

@[simp] theorem holds_array (elements : List Expr) :
    Holds Q R (array elements) ↔ ∀ e ∈ elements, Q .nested e := by
  simp [array, holds_separated_parts, Item.Holds]

theorem segment_self {options : Options} (e : Expr) :
    Holds (fun d c => d = .nested ∧ c = e) Fault.OfShape (segment options e) := by
  unfold segment
  split <;> simp [Item.Holds]
  next value _ => exact value.fault_ofShape options

theorem holds_entries {keys values : List Expr} (same : keys.length = values.length) :
    (∀ l ∈ entries keys values, Holds Q R l) ↔
      (∀ key ∈ keys, Q .nested key) ∧ ∀ value ∈ values, Q .nested value := by
  induction keys generalizing values with
  | nil =>
    cases values with
    | nil => simp [entries]
    | cons value values => simp at same
  | cons key keys ih =>
    cases values with
    | nil => simp at same
    | cons value values =>
      have rest := ih (Nat.succ.inj same)
      simp only [entries, List.zipWith_cons_cons, List.forall_mem_cons] at rest ⊢
      rw [rest]
      simp [Item.Holds, Emission.assignment, Emission.spaced, Emission.space]
      grind

theorem holds_map {keys values : List Expr} (same : keys.length = values.length) :
    Holds Q R (map (entries keys values)) ↔
      (∀ key ∈ keys, Q .nested key) ∧ ∀ value ∈ values, Q .nested value := by
  rw [← holds_entries (R := R) same, map]
  split
  · next empty => simp [List.isEmpty_iff.mp empty, Item.Holds]
  · simp [holds_separated, Item.Holds, Emission.space]

end Layout

namespace Expr

variable {Q : Descent → Expr → Prop} {R : Fault → Prop} {options : Options} {bare : Bool}

theorem smaller_of_mem {es : List Expr} {bound : Nat} (bounded : sizeOf es ≤ bound) :
    ∀ e ∈ es, sizeOf e < bound := fun _ member =>
  Nat.lt_of_lt_of_le (List.sizeOf_lt_of_mem member) bounded

theorem holds_markerCall (method : String) (args : List Expr) {bound : Nat}
    (bounded : sizeOf args ≤ bound) :
    (Layout.markerCall method args).Holds (fun _ c => sizeOf c < bound) Fault.OfShape := by
  unfold Layout.markerCall
  cases found : Intrinsic.find? method args.length with
  | none => simpa using smaller_of_mem bounded
  | some i =>
    cases Intrinsic.takes_of_find? found <;> simp at bounded
    case labelJump label =>
      simp only [Layout.jumpTo]
      split <;> simp [Item.Holds, Emission.jump, Emission.space]
    case operate selector left right =>
      simp only [Layout.operation]
      split
      · split <;> simp [Item.Holds, Emission.spaced, Emission.space]
        omega
      · simp
    case mapLiteral keys values =>
      simp only [Layout.mapOf]
      split
      · simp at bounded
        split
        · next same =>
          simp only [Layout.holds_map same]
          exact ⟨smaller_of_mem (by omega), smaller_of_mem (by omega)⟩
        · simp
      · simp
    all_goals simp [Item.Holds, Emission.assignment, Emission.spaced, Emission.space]; try omega

-- The parts of a layout are smaller than the expression, and no fault of its own is the depth
-- fault.
theorem layout_holds (e : Expr) (options : Options) (bare : Bool) :
    (e.layout options bare).Holds (fun _ c => sizeOf c < sizeOf e) Fault.OfShape := by
  cases e with
  | invocation target method args marker =>
    simp only [layout, Layout.invocation]
    split
    · simp
    · next t written =>
      cases eq_of_written? written
      have targetSmaller : sizeOf t < sizeOf (invocation (some t) method args false) := by
        simp; omega
      have argsSmaller : sizeOf args ≤ sizeOf (invocation (some t) method args false) := by
        simp; omega
      rw [Layout.holds_cons, Layout.holds_cons, Layout.holds_call]
      exact ⟨targetSmaller, by simp [Item.Holds], smaller_of_mem argsSmaller⟩
    · exact holds_markerCall method args (by simp; omega)
    · exact (Layout.holds_call method args).mpr (smaller_of_mem (by simp; omega))
  | arrayLiteral elements => simpa [layout] using smaller_of_mem (by omega)
  | primitive value => simpa [layout, Item.Holds] using value.fault_ofShape options
  | binaryOp operator left right =>
    cases bare <;>
      simp [layout, Layout.parenthesizedUnless, Item.Holds, Emission.spaced, Emission.space] <;>
      omega
  | ternaryOp condition whenTrue whenFalse =>
    simp [layout, Item.Holds, Emission.spaced, Emission.space]
    omega
  | complexReference name =>
    cases name with
    | literal text => simp [layout, Item.Holds]
    | parts segments =>
      simp only [layout, Layout.holds_flatMap]
      intro segment among
      have smaller := smaller_of_mem (Nat.le_refl (sizeOf segments)) segment among
      refine (Layout.segment_self segment).mono ?_ (fun _ shape => shape)
      rintro _ _ ⟨_, rfl⟩
      simp; omega
  | fieldRef target field =>
    cases target with
    | none => simp [layout, Item.Holds]
    | some target =>
      cases separated : options.fieldSeparator && !target.isInternalType <;>
        simp [layout, separated, Item.Holds] <;> omega
  | typeRef type => cases internal : type.internal <;> simp [layout, internal, Item.Holds]
  | _ => simp [layout, Item.Holds]

theorem sizeOf_part_lt {e c : Expr} {descent : Descent}
    (part : .part descent c ∈ e.layout options bare) : sizeOf c < sizeOf e :=
  layout_holds e options bare _ part

-- Induction over the parts that a layout leads to, whatever the options and the place.
theorem layout_induction {motive : Expr → Prop}
    (step : ∀ e, (∀ options bare descent c, .part descent c ∈ e.layout options bare → motive c) →
      motive e) (e : Expr) : motive e :=
  step e fun options bare _ c part =>
    have := sizeOf_part_lt part
    layout_induction step c
termination_by sizeOf e

end Expr
end HotkeyScript
