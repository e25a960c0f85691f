import HotkeyScript.Proofs.Layout
import HotkeyScript.Expr.Emission
namespace HotkeyScript

def Expr.labelTexts (method : String) (args : List Expr) : List String :=
  match Intrinsic.find? method args.length, args with
  | some .labelJump, [.primitive (.string label)] => [label]
  | _, _ => []

mutual

-- The name of an internal type is never written, nor is anything of a cast.
def Expr.rawTexts : Expr → List String
  | .invocation target method args marker =>
    Expr.optionalRawTexts target ++ method :: (if marker then Expr.labelTexts method args else [])
      ++ Expr.listRawTexts args
  | .arrayLiteral elements => Expr.listRawTexts elements
  | .primitive _ => []
  | .binaryOp _ left right => left.rawTexts ++ right.rawTexts
  | .ternaryOp condition whenTrue whenFalse =>
    condition.rawTexts ++ whenTrue.rawTexts ++ whenFalse.rawTexts
  | .complexReference name => name.rawTexts
  | .variableRef name => [name]
  | .fieldRef target field => Expr.optionalRawTexts target ++ [field]
  | .typeRef type => if type.internal then [] else [type.name]
  | .this => []
  | .cast _ _ => []

def QualifiedName.rawTexts : QualifiedName → List String
  | .literal text => [text]
  | .parts segments => Expr.segmentRawTexts segments

def Expr.optionalRawTexts : Option Expr → List String
  | none => []
  | some e => e.rawTexts

def Expr.listRawTexts : List Expr → List String
  | [] => []
  | e :: rest => e.rawTexts ++ Expr.listRawTexts rest

def Expr.segmentRawTexts : List Expr → List String
  | [] => []
  | segment :: rest =>
    (match segment with
    | .primitive (.string text) => [text]
    | _ => segment.rawTexts) ++ Expr.segmentRawTexts rest

end

def Stmt.rawTexts : Stmt → List String
  | .expression expr => expr.rawTexts
  | .variableDeclaration name init => name :: Expr.optionalRawTexts init
  | .assignment left right => left.rawTexts ++ right.rawTexts
  | .returning value => Expr.optionalRawTexts value
  | .goto label => [label]

def Emission.punctuation : List Emission :=
  [.nothing, .space, .listSeparator, .assignment]
    ++ [Token.parenOpen, Token.parenClose, Token.arrayOpen, Token.arrayClose, Token.blockOpen,
        Token.blockClose, Token.concatenate, Token.resolve].map .text
    ++ (Token.ternaryFirst :: Token.ternarySecond :: BinaryOperator.all.map BinaryOperator.token
        ++ ScriptOperator.all.map ScriptOperator.token).map .spaced

-- An item is a part that has no other raw texts than these, one of them itself, or it brings in
-- no text of the tree but that of a literal.
inductive Item.DrawnFrom (options : Options) (texts : List String) : Item → Prop where
  | punctuation {written : Emission} (among : written ∈ Emission.punctuation) :
      DrawnFrom options texts (.fixed written)
  | raw {text : String} (among : text ∈ texts) : DrawnFrom options texts (.fixed (.text text))
  | jump {label : String} (among : label ∈ texts) : DrawnFrom options texts (.fixed (.jump label))
  | literal (value : Primitive) : DrawnFrom options texts (.fixed (value.emission options))
  | refusal (fault : Fault) : DrawnFrom options texts (.fixed (.fail fault))
  | part (descent : Descent) {expr : Expr} (within : expr.rawTexts ⊆ texts) :
      DrawnFrom options texts (.part descent expr)

namespace Expr

@[simp] theorem listRawTexts_eq_flatMap (es : List Expr) :
    listRawTexts es = es.flatMap rawTexts := by
  induction es with
  | nil => rfl
  | cons e rest ih => rw [listRawTexts, ih, List.flatMap_cons]

theorem rawTexts_subset_of_mem {es : List Expr} {texts : List String}
    (within : es.flatMap rawTexts ⊆ texts) : ∀ e ∈ es, e.rawTexts ⊆ texts := by
  intro e member text own
  exact within (List.mem_flatMap.mpr ⟨e, member, own⟩)

end Expr

theorem Emission.spaced_binary_mem (operator : BinaryOperator) :
    spaced operator.token ∈ punctuation := by
  cases operator <;> decide

theorem Emission.spaced_script_mem (operator : ScriptOperator) :
    spaced operator.token ∈ punctuation := by
  cases operator <;> decide

namespace Layout

def DrawnFrom (options : Options) (texts : List String) (l : Layout) : Prop :=
  ∀ item ∈ l, item.DrawnFrom options texts

variable {options : Options} {texts : List String}

@[simp] theorem drawnFrom_nil : DrawnFrom options texts [] := by simp [DrawnFrom]

@[simp] theorem drawnFrom_cons (item : Item) (l : Layout) :
    DrawnFrom options texts (item :: l)
      ↔ item.DrawnFrom options texts ∧ DrawnFrom options texts l := by simp [DrawnFrom]

@[simp] theorem drawnFrom_append (first second : Layout) :
    DrawnFrom options texts (first ++ second)
      ↔ DrawnFrom options texts first ∧ DrawnFrom options texts second := by
  simp only [DrawnFrom, List.forall_mem_append]

theorem drawnFrom_refusal (cause : Malformation) : DrawnFrom options texts (refusal cause) := by
  rw [refusal, drawnFrom_cons]
  exact ⟨.refusal _, drawnFrom_nil⟩

theorem drawnFrom_separated {ls : List Layout} (each : ∀ l ∈ ls, DrawnFrom options texts l) :
    DrawnFrom options texts (separated ls) := by
  fun_induction separated ls with
  | case1 => exact drawnFrom_nil
  | case2 l => exact each l List.mem_cons_self
  | case3 l rest nonempty ih =>
    obtain ⟨own, others⟩ := List.forall_mem_cons.mp each
    rw [drawnFrom_append, drawnFrom_cons]
    exact ⟨own, .punctuation (by decide), ih others⟩

theorem drawnFrom_parts {es : List Expr} (within : es.flatMap Expr.rawTexts ⊆ texts) :
    DrawnFrom options texts (separated (parts es)) := by
  apply drawnFrom_separated
  intro l member
  obtain ⟨e, among, rfl⟩ := List.mem_map.mp member
  rw [drawnFrom_cons]
  exact ⟨.part .nested (Expr.rawTexts_subset_of_mem within e among), drawnFrom_nil⟩

theorem drawnFrom_call {method : String} {args : List Expr} (named : method ∈ texts)
    (within : args.flatMap Expr.rawTexts ⊆ texts) :
    DrawnFrom options texts (call method args) := by
  simp only [call, drawnFrom_append, drawnFrom_cons]
  exact ⟨⟨⟨.raw named, .punctuation (by decide), drawnFrom_nil⟩, drawnFrom_parts within⟩,
    .punctuation (by decide), drawnFrom_nil⟩

theorem drawnFrom_array {elements : List Expr} (within : elements.flatMap Expr.rawTexts ⊆ texts) :
    DrawnFrom options texts (array elements) := by
  simp only [array, drawnFrom_append, drawnFrom_cons]
  exact ⟨⟨.punctuation (by decide), drawnFrom_parts within⟩, .punctuation (by decide),
    drawnFrom_nil⟩

theorem drawnFrom_parenthesizedUnless (bare : Bool) {body : Layout}
    (drawn : DrawnFrom options texts body) :
    DrawnFrom options texts (parenthesizedUnless bare body) := by
  unfold parenthesizedUnless
  split
  · exact drawn
  · simp only [drawnFrom_append, drawnFrom_cons]
    exact ⟨⟨.punctuation (by decide), drawn⟩, .punctuation (by decide), drawnFrom_nil⟩

theorem drawnFrom_entries {keys values : List Expr} (keyed : ∀ key ∈ keys, key.rawTexts ⊆ texts)
    (valued : ∀ value ∈ values, value.rawTexts ⊆ texts) :
    ∀ l ∈ entries keys values, DrawnFrom options texts l := by
  intro l member
  obtain ⟨i, bound, rfl⟩ := List.mem_iff_getElem.mp member
  simp only [entries, List.getElem_zipWith, drawnFrom_cons]
  exact ⟨.part _ (keyed _ (List.getElem_mem _)), .punctuation (by decide),
    .part _ (valued _ (List.getElem_mem _)), drawnFrom_nil⟩

theorem drawnFrom_map {entries : List Layout} (each : ∀ l ∈ entries, DrawnFrom options texts l) :
    DrawnFrom options texts (map entries) := by
  unfold map
  split
  · simp only [drawnFrom_cons]
    exact ⟨.punctuation (by decide), .punctuation (by decide), drawnFrom_nil⟩
  · simp only [drawnFrom_append, drawnFrom_cons]
    exact ⟨⟨⟨.punctuation (by decide), .punctuation (by decide), drawnFrom_nil⟩,
      drawnFrom_separated each⟩, .punctuation (by decide), .punctuation (by decide), drawnFrom_nil⟩

theorem drawnFrom_segments {segments : List Expr}
    (within : Expr.segmentRawTexts segments ⊆ texts) :
    DrawnFrom options texts (segments.flatMap (segment options)) := by
  induction segments with
  | nil => exact drawnFrom_nil
  | cons e rest ih =>
    obtain ⟨own, others⟩ := List.append_subset.mp within
    rw [List.flatMap_cons, drawnFrom_append]
    refine ⟨?_, ih others⟩
    cases e with
    | primitive value =>
      cases value with
      | string text => simpa [segment] using .raw (own List.mem_cons_self)
      | _ => simpa [segment] using .literal _
    | complexReference name =>
      simp only [segment, drawnFrom_cons]
      exact ⟨.punctuation (by decide), .part _ own, .punctuation (by decide), drawnFrom_nil⟩
    | _ => simpa [segment] using .refusal _

end Layout

namespace Expr

variable {options : Options} {texts : List String}

theorem markerCall_drawn {method : String} {args : List Expr} (named : method ∈ texts)
    (labelled : labelTexts method args ⊆ texts) (within : args.flatMap rawTexts ⊆ texts) :
    (Layout.markerCall method args).DrawnFrom options texts := by
  unfold Layout.markerCall
  cases found : Intrinsic.find? method args.length with
  | none => exact Layout.drawnFrom_call named within
  | some i =>
    have each := rawTexts_subset_of_mem within
    cases Intrinsic.takes_of_find? found <;> simp only [List.forall_mem_cons] at each
    case labelJump label =>
      simp only [Layout.jumpTo]
      split
      · next name =>
        simp only [labelTexts, found, List.cons_subset] at labelled
        rw [Layout.drawnFrom_cons]
        exact ⟨.jump labelled.1, Layout.drawnFrom_nil⟩
      · exact Layout.drawnFrom_refusal _
    case conditional condition =>
      simp only [Layout.drawnFrom_cons]
      exact ⟨.part _ each.1, Layout.drawnFrom_nil⟩
    case operate selector left right =>
      obtain ⟨_, left, right, _⟩ := each
      simp only [Layout.operation]
      split
      · split
        · next operator _ =>
          simp only [Layout.drawnFrom_cons]
          exact ⟨.part _ left, .punctuation (Emission.spaced_script_mem operator), .part _ right,
            Layout.drawnFrom_nil⟩
        · exact Layout.drawnFrom_refusal _
      · exact Layout.drawnFrom_refusal _
    case arrayExtend size => exact Layout.drawnFrom_nil
    case indexedAssign key index container value =>
      obtain ⟨key, index, container, value, _⟩ := each
      simp only [Layout.drawnFrom_cons]
      exact ⟨.part _ index, .part _ container, .part _ key, .punctuation (by decide),
        .part _ value, Layout.drawnFrom_nil⟩
    case indexAccess container index =>
      obtain ⟨container, index, _⟩ := each
      simp only [Layout.drawnFrom_cons]
      exact ⟨.part _ container, .punctuation (by decide), .part _ index,
        .punctuation (by decide), Layout.drawnFrom_nil⟩
    case mapLiteral keys values =>
      obtain ⟨keyed, valued, _⟩ := each
      simp only [Layout.mapOf]
      split
      · split
        · rw [rawTexts, listRawTexts_eq_flatMap] at keyed valued
          exact Layout.drawnFrom_map (Layout.drawnFrom_entries (rawTexts_subset_of_mem keyed)
            (rawTexts_subset_of_mem valued))
        · exact Layout.drawnFrom_refusal _
      · exact Layout.drawnFrom_refusal _

theorem invocation_drawn {target : Option Expr} {method : String} {args : List Expr}
    {marker : Bool} (within : (invocation target method args marker).rawTexts ⊆ texts) :
    (Layout.invocation target method args marker).DrawnFrom options texts := by
  simp only [rawTexts, listRawTexts_eq_flatMap, List.append_subset, List.cons_subset] at within
  obtain ⟨⟨target_within, named, labelled⟩, args_within⟩ := within
  unfold Layout.invocation
  split
  · exact Layout.drawnFrom_refusal _
  · next t written =>
    cases eq_of_written? written
    simp only [Layout.drawnFrom_cons]
    exact ⟨.part _ target_within, .punctuation (by decide),
      Layout.drawnFrom_call named args_within⟩
  · exact markerCall_drawn named labelled args_within
  · exact Layout.drawnFrom_call named args_within

-- Whatever is written of an expression between its parts is punctuation, a literal, or one of its
-- raw texts.
theorem layout_drawn {e : Expr} (within : e.rawTexts ⊆ texts) (bare : Bool) :
    (e.layout options bare).DrawnFrom options texts := by
  cases e with
  | invocation target method args marker => exact invocation_drawn within
  | arrayLiteral elements =>
    rw [rawTexts, listRawTexts_eq_flatMap] at within
    exact Layout.drawnFrom_array within
  | primitive value => simpa [layout] using .literal value
  | binaryOp operator left right =>
    obtain ⟨left, right⟩ := List.append_subset.mp within
    apply Layout.drawnFrom_parenthesizedUnless
    simp only [Layout.drawnFrom_cons]
    exact ⟨.part _ left, .punctuation (Emission.spaced_binary_mem operator), .part _ right,
      Layout.drawnFrom_nil⟩
  | ternaryOp condition whenTrue whenFalse =>
    simp only [rawTexts, List.append_subset] at within
    obtain ⟨⟨condition, whenTrue⟩, whenFalse⟩ := within
    simp only [layout, Layout.drawnFrom_cons]
    exact ⟨.part _ condition, .punctuation (by decide), .part _ whenTrue, .punctuation (by decide),
      .part _ whenFalse, Layout.drawnFrom_nil⟩
  | complexReference name =>
    cases name with
    | literal text => simpa [layout] using .raw (within List.mem_cons_self)
    | parts segments => exact Layout.drawnFrom_segments within
  | variableRef name => simpa [layout] using .raw (within List.mem_cons_self)
  | fieldRef target field =>
    simp only [rawTexts, List.append_subset, List.cons_subset] at within
    obtain ⟨target_within, own, _⟩ := within
    cases target with
    | none => simpa [layout] using .raw own
    | some target =>
      simp only [layout, Layout.drawnFrom_cons]
      refine ⟨.part _ target_within, .punctuation ?_, .raw own, Layout.drawnFrom_nil⟩
      split <;> decide
  | typeRef type =>
    cases internal : type.internal with
    | true => simp [layout, internal]
    | false =>
      have own : type.name ∈ texts := within (by simp [rawTexts, internal])
      simpa [layout, internal] using .raw own
  | this => simpa [layout] using .refusal _
  | cast targetType expr => simpa [layout] using .refusal _

end Expr
end HotkeyScript
