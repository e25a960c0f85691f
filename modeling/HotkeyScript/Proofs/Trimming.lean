import HotkeyScript.Proofs.Frame
import HotkeyScript.Proofs.Writing
namespace HotkeyScript

def Expr.withoutTarget : Expr → Expr
  | .fieldRef _ field => .fieldRef none field
  | e => e

-- The arguments of a call, of which its construct ignores some.
def Expr.heeded : Option Intrinsic → List Expr → List Expr
  | some .operate, [selector, left, right] => [selector.withoutTarget, left, right]
  | some .arrayExtend, [_] => [.null]
  | _, args => args

mutual

-- The tree without what never shows in its text.
@[simp] def Expr.trimmed : Expr → Expr
  | .invocation target method args marker =>
    .invocation
      (if target.all Expr.isInternalType then none else Expr.optionalTrimmed target) method
      (Expr.heeded
        (if marker && target.all Expr.isInternalType
          then Intrinsic.find? method args.length else none)
        (Expr.listTrimmed args))
      -- A target of its own makes the flag a fault, so there it stays.
      (marker && (!target.all Expr.isInternalType || (Intrinsic.find? method args.length).isSome))
  | .arrayLiteral elements => .arrayLiteral (Expr.listTrimmed elements)
  | .primitive value => .primitive value
  | .binaryOp operator left right => .binaryOp operator left.trimmed right.trimmed
  | .ternaryOp condition whenTrue whenFalse =>
    .ternaryOp condition.trimmed whenTrue.trimmed whenFalse.trimmed
  | .complexReference name => .complexReference name.trimmed
  | .variableRef name => .variableRef name
  | .fieldRef target field => .fieldRef (Expr.optionalTrimmed target) field
  | .typeRef type => .typeRef (if type.internal then { type with name := "" } else type)
  | .this => .this
  | .cast _ _ => .cast "" .null

@[simp] def QualifiedName.trimmed : QualifiedName → QualifiedName
  | .literal text => .literal text
  | .parts segments => .parts (Expr.listTrimmed segments)

def Expr.optionalTrimmed : Option Expr → Option Expr
  | none => none
  | some e => some e.trimmed

def Expr.listTrimmed : List Expr → List Expr
  | [] => []
  | e :: rest => e.trimmed :: Expr.listTrimmed rest

end

def Item.mapPart (f : Expr → Expr) : Item → Item
  | .fixed written => .fixed written
  | .part descent expr => .part descent (f expr)

namespace Layout

variable (f : Expr → Expr)

def mapParts (l : Layout) : Layout := List.map (Item.mapPart f) l

@[simp] theorem mapParts_nil : mapParts f [] = [] := rfl

@[simp] theorem mapParts_fixed (written : Emission) (l : Layout) :
    mapParts f (.fixed written :: l) = .fixed written :: mapParts f l := rfl

@[simp] theorem mapParts_part (d : Descent) (e : Expr) (l : Layout) :
    mapParts f (.part d e :: l) = .part d (f e) :: mapParts f l := rfl

@[simp] theorem mapParts_append (first second : Layout) :
    mapParts f (first ++ second) = mapParts f first ++ mapParts f second := by
  simp [mapParts]

@[simp] theorem mapParts_refusal (cause : Malformation) :
    mapParts f (refusal cause) = refusal cause := rfl

theorem mapParts_separated (ls : List Layout) :
    mapParts f (separated ls) = separated (ls.map (mapParts f)) := by
  fun_induction separated ls with
  | case1 => rfl
  | case2 l => rfl
  | case3 l rest nonempty ih =>
    cases rest with
    | nil => contradiction
    | cons next rest => simpa [separated] using ih

theorem mapParts_parts (es : List Expr) :
    mapParts f (separated (parts es)) = separated (parts (es.map f)) := by
  rw [mapParts_separated]
  simp [parts, Function.comp_def]

@[simp] theorem mapParts_call (method : String) (args : List Expr) :
    mapParts f (call method args) = call method (args.map f) := by
  simp [call, mapParts_parts]

@[simp] theorem mapParts_array (elements : List Expr) :
    mapParts f (array elements) = array (elements.map f) := by
  simp [array, mapParts_parts]

theorem mapParts_map (keys values : List Expr) :
    mapParts f (map (entries keys values)) = map (entries (keys.map f) (values.map f)) := by
  have each : (entries keys values).map (mapParts f) = entries (keys.map f) (values.map f) := by
    simp [entries, List.map_zipWith, List.zipWith_map]
  rw [← each]
  unfold map
  cases entries keys values with
  | nil => rfl
  | cons entry rest => simp [mapParts_separated]

theorem mapParts_flatMap (make : Expr → Layout) (es : List Expr)
    (each : ∀ e, mapParts f (make e) = make (f e)) :
    mapParts f (es.flatMap make) = (es.map f).flatMap make := by
  induction es with
  | nil => rfl
  | cons e rest ih => simp [each, ih]

variable {f}

theorem emission_mapParts {options : Options} {context : Context} {l : Layout}
    (parts : ∀ d c, .part d c ∈ l →
      (f c).emission options (d.context context) = c.emission options (d.context context)) :
    (mapParts f l).emission options context = l.emission options context := by
  induction l with
  | nil => rfl
  | cons item rest ih =>
    have others := ih fun d c part => parts d c (List.mem_cons_of_mem item part)
    cases item with
    | fixed written => rw [mapParts_fixed, emission_cons, others, emission_cons]
    | part d c =>
      rw [mapParts_part, emission_cons, others, emission_cons]
      exact congrArg (· ++ _) (parts d c List.mem_cons_self)

end Layout

namespace Expr

@[simp] theorem kind_trimmed (e : Expr) : e.trimmed.kind = e.kind := by
  cases e <;> rfl

@[simp] theorem isInternalType_trimmed (e : Expr) :
    e.trimmed.isInternalType = e.isInternalType := by
  cases e with
  | typeRef type => cases internal : type.internal <;> simp [isInternalType, internal]
  | _ => rfl

@[simp] theorem optionalTrimmed_eq_map (target : Option Expr) :
    optionalTrimmed target = target.map trimmed := by
  cases target <;> rfl

@[simp] theorem listTrimmed_eq_map (es : List Expr) : listTrimmed es = es.map trimmed := by
  induction es with
  | nil => rfl
  | cons e rest ih => rw [listTrimmed, ih, List.map_cons]

theorem trimmed_internal {target : Option Expr} (internal : target.all isInternalType)
    (method : String) (args : List Expr) (marker : Bool) :
    (invocation target method args marker).trimmed
      = (invocation none method args marker).trimmed := by
  simp [internal]

theorem trimmed_unregistered {target : Option Expr} (internal : target.all isInternalType)
    {method : String} {args : List Expr}
    (unregistered : Intrinsic.find? method args.length = none) :
    (invocation target method args true).trimmed = (call method args).trimmed := by
  simp [call, internal, unregistered]

theorem operation_trimmed (selector left right : Expr) :
    Layout.operation selector.trimmed.withoutTarget left.trimmed right.trimmed
      = (Layout.operation selector left right).mapParts trimmed := by
  cases selector with
  | fieldRef target name =>
    cases named : ScriptOperator.ofName? name <;>
      simp [withoutTarget, Layout.operation, named]
  | _ => rfl

theorem mapOf_trimmed (keys values : Expr) :
    Layout.mapOf keys.trimmed values.trimmed = (Layout.mapOf keys values).mapParts trimmed := by
  cases keys with
  | arrayLiteral keys =>
    cases values with
    | arrayLiteral values =>
      by_cases same : keys.length = values.length <;>
        simp [Layout.mapOf, same, Layout.mapParts_map]
    | _ => rfl
  | _ =>
    exact congrArg (fun kind => Layout.refusal (.mapNotArrays _ kind)) (kind_trimmed values)

theorem markerCall_trimmed {method : String} {args : List Expr} {i : Intrinsic}
    (found : Intrinsic.find? method args.length = some i) :
    Layout.markerCall method (heeded (some i) (args.map trimmed))
      = (Layout.markerCall method args).mapParts trimmed := by
  unfold Layout.markerCall
  cases Intrinsic.takes_of_find? found <;>
    simp only [List.length_cons, List.length_nil, Nat.zero_add, Nat.reduceAdd] at found
  case labelJump label =>
    cases label with
    | primitive value => cases value <;> simp [heeded, found, Layout.jumpTo]
    | _ => simp [heeded, found, Layout.jumpTo, description, kind]
  case operate selector left right => simp [heeded, found, operation_trimmed]
  case mapLiteral keys values => simp [heeded, found, mapOf_trimmed]
  all_goals simp [heeded, found]

theorem segment_trimmed (options : Options) (e : Expr) :
    (Layout.segment options e).mapParts trimmed = Layout.segment options e.trimmed := by
  cases e with
  | primitive value => cases value <;> rfl
  | _ => rfl

theorem invocation_trimmed (method : String) (args : List Expr) (marker : Bool)
    (options : Options) (bare : Bool) :
    (invocation none method args marker).trimmed.layout options bare
      = ((invocation none method args marker).layout options bare).mapParts trimmed := by
  cases marker with
  | false => simp [layout, Layout.invocation, written?, heeded]
  | true =>
    cases found : Intrinsic.find? method args.length with
    | none => simp [layout, Layout.invocation, written?, heeded, found, Layout.markerCall]
    | some i =>
      simpa [layout, Layout.invocation, written?, found] using markerCall_trimmed found

-- The parts of the trimmed tree are the parts of the tree, trimmed; nothing else is different.
theorem layout_trimmed (e : Expr) (options : Options) (bare : Bool) :
    e.trimmed.layout options bare = (e.layout options bare).mapParts trimmed := by
  cases e with
  | invocation target method args marker =>
    cases internal : target.all isInternalType with
    | true =>
      rw [trimmed_internal internal, invocation_trimmed, layout_internal internal]
    | false =>
      obtain ⟨t, rfl, outward⟩ : ∃ t, target = some t ∧ t.isInternalType = false := by
        cases target with
        | none => cases internal
        | some t => exact ⟨t, rfl, internal⟩
      cases marker <;>
        simp [layout, Layout.invocation, written?, outward, heeded]
  | arrayLiteral elements => simp [layout]
  | binaryOp operator left right =>
    cases bare <;> simp [layout, Layout.parenthesizedUnless]
  | complexReference name =>
    cases name with
    | literal text => rfl
    | parts segments =>
      simp [layout, Layout.mapParts_flatMap trimmed _ segments (segment_trimmed options)]
  | fieldRef target field => cases target <;> simp [layout]
  | typeRef type => cases internal : type.internal <;> simp [layout, internal]
  | _ => rfl

theorem emission_trimmed (e : Expr) (options : Options) (context : Context) :
    e.trimmed.emission options context = e.emission options context := by
  induction e using Expr.layout_induction generalizing context with
  | step e ih =>
    rw [emission_eq_layout, emission_eq_layout, layout_trimmed]
    split
    · rfl
    · exact Layout.emission_mapParts fun d c part => ih options _ d c part (d.context context)

theorem trimmed_fill (place : Place) {a b : Expr} (same : a.trimmed = b.trimmed) :
    (place.fill a).trimmed = (place.fill b).trimmed := by
  induction place with
  | nil => exact same
  | cons frame place ih =>
    show (frame.fill (Place.fill place a)).trimmed = (frame.fill (Place.fill place b)).trimmed
    generalize Place.fill place a = a at ih
    generalize Place.fill place b = b at ih
    cases frame with
    | inTarget method args marker =>
      have internal : a.isInternalType = b.isInternalType := by
        rw [← isInternalType_trimmed a, ih, isInternalType_trimmed]
      simp [Frame.fill, internal, ih]
    | _ => simp [Frame.fill, ih]

end Expr

theorem Printer.emit_congr (p : Printer) {job job' : Job}
    (same : job.emission p.options = job'.emission p.options) : p.emit job = p.emit job' := by
  unfold emit
  rw [Job.write_eq_emission, Job.write_eq_emission, same]

-- A printer writes a tree and the trimmed tree alike, whatever sink it writes to. So it makes no
-- difference anywhere in a tree how an internal type is named, and a marker call that stands for
-- no construct is the bare call of the same method.
theorem Printer.emit_trimmed (p : Printer) (context : Context) :
    (∀ e : Expr, p.emit (.expression e.trimmed context) = p.emit (.expression e context)) ∧
    (∀ (place : Place) (name name' : String),
      p.emit (.expression (place.fill (.internalType name)) context)
        = p.emit (.expression (place.fill (.internalType name')) context)) ∧
    ∀ (place : Place) (target : Option Expr) (method : String) (args : List Expr),
      target.all Expr.isInternalType → Intrinsic.find? method args.length = none →
      p.emit (.expression (place.fill (.invocation target method args true)) context)
        = p.emit (.expression (place.fill (.call method args)) context) := by
  have alike (a b : Expr) (same : a.trimmed = b.trimmed) :
      p.emit (.expression a context) = p.emit (.expression b context) := by
    apply emit_congr
    show a.emission p.options context = b.emission p.options context
    rw [← a.emission_trimmed, same, b.emission_trimmed]
  refine ⟨?_, ?_, ?_⟩
  · intro e
    apply emit_congr
    exact e.emission_trimmed p.options context
  · intro place name name'
    apply alike
    exact Expr.trimmed_fill place rfl
  · intro place target method args internal unregistered
    apply alike
    exact Expr.trimmed_fill place (Expr.trimmed_unregistered internal unregistered)

theorem Printer.emit_trimmed_of_unregistered :
    Intrinsic.find? "Spin" 1 = none ∧
      (Printer.emit {} (.ofExpr (.array
        [.invocation (some (.internalType "Script")) "Spin" [.var "x"] true]))).1.text
        = "[Spin(x)]" := by
  have unregistered : Intrinsic.find? "Spin" 1 = none := by decide
  have same := (Printer.emit_trimmed {} .root).2.2 [.inElement [] []]
    (some (.internalType "Script")) "Spin" [.var "x"] rfl unregistered
  exact ⟨unregistered, (congrArg (·.1.text) same).trans (by decide)⟩

end HotkeyScript
