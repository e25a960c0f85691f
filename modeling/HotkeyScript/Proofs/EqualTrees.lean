import HotkeyScript.Proofs.Equality
import HotkeyScript.Proofs.Styles
namespace HotkeyScript

section

variable (options : Options) (P Q : List Primitive)

-- One piece of text, or what two spellings of a number are written as, the first from among some
-- literals and the second from among others.
inductive PieceAlike : String → String → Prop where
  | own (piece : String) : PieceAlike piece piece
  | respelled {p q : Primitive} (member : p ∈ P) (member' : q ∈ Q) (numbers : p.Respelled q) :
      PieceAlike (p.emission options).contents (q.emission options).contents

structure Emission.Alike (a b : Emission) : Prop where
  fault : a.fault = b.fault
  pieces : List.Forall₂ (PieceAlike options P Q) a.pieces b.pieces

def Text.Alike (text text' : String) : Prop :=
  ∃ pieces pieces', text = String.join pieces ∧ text' = String.join pieces' ∧
    List.Forall₂ (PieceAlike options P Q) pieces pieces'

inductive Item.Alike : Item → Item → Prop where
  | fixed (written : Emission) : Item.Alike (.fixed written) (.fixed written)
  | literal {p q : Primitive} (member : p ∈ P) (member' : q ∈ Q) (equal : p.same q) :
      Item.Alike (.fixed (p.emission options)) (.fixed (q.emission options))
  | part (d : Descent) {c c' : Expr} (equal : c.same c') : Item.Alike (.part d c) (.part d c')

abbrev Layout.Alike : Layout → Layout → Prop := List.Forall₂ (Item.Alike options P Q)

end

variable {options : Options} {P Q : List Primitive}

namespace Emission

theorem Alike.refl (a : Emission) : Alike options P Q a a :=
  ⟨rfl, List.forall₂_same.mpr fun piece _ => .own piece⟩

theorem Alike.congruence : Congruence (Alike options P Q) where
  fixed a _ := .refl a
  andThen {a b c d} first second := by
    cases ended : a.fault with
    | some f =>
      rw [andThen_of_fault c (by simp [ended]), andThen_of_fault d (by simp [← first.fault, ended])]
      exact first
    | none =>
      rw [andThen_of_none c ended, andThen_of_none d (first.fault.symm.trans ended)]
      exact ⟨second.fault, List.rel_append first.pieces second.pieces⟩

theorem Alike.contents {a b : Emission} (alike : Alike options P Q a b) :
    Text.Alike options P Q a.contents b.contents :=
  ⟨a.pieces, b.pieces, rfl, rfl, alike.pieces⟩

end Emission

theorem Binary64.isFinite_of_isZero {x : Binary64} (zero : x.isZero) : x.isFinite := by
  have none_set : x.magnitude = 0 := of_decide_eq_true zero
  have least : 0 < infinityMagnitude := Nat.mul_pos (by decide) (by decide)
  exact decide_eq_true (none_set ▸ least)

theorem Primitive.Respelled.emission_eq_text (options : Options) {p q : Primitive}
    (numbers : p.Respelled q) : ∃ piece, p.emission options = .text piece := by
  cases numbers with
  | decimal => exact ⟨_, rfl⟩
  | zero zero _ => exact ⟨_, if_pos (Binary64.isFinite_of_isZero zero)⟩

theorem Primitive.Respelled.emission_alike {p q : Primitive} (numbers : p.Respelled q)
    (member : p ∈ P) (member' : q ∈ Q) :
    (p.emission options).Alike options P Q (q.emission options) := by
  have alike : PieceAlike options P Q _ _ := .respelled member member' numbers
  obtain ⟨piece, written⟩ := numbers.emission_eq_text options
  obtain ⟨piece', written'⟩ := numbers.symm.emission_eq_text options
  rw [written, written', Emission.contents_text, Emission.contents_text] at alike
  rw [written, written']
  exact ⟨rfl, .cons alike .nil⟩

theorem Primitive.emission_alike {p q : Primitive} (equal : p.same q) (member : p ∈ P)
    (member' : q ∈ Q) : (p.emission options).Alike options P Q (q.emission options) := by
  rcases same_iff.1 equal with ⟨rfl, _⟩ | numbers
  · exact .refl _
  · exact numbers.emission_alike member member'

namespace Expr

theorem allSame_iff {es es' : List Expr} :
    allSame es es' ↔ List.Forall₂ (fun e e' => e.same e') es es' := by
  induction es generalizing es' with
  | nil => cases es' <;> simp [allSame]
  | cons e es ih => cases es' <;> simp [allSame, ih]

theorem isInternalType_of_same {e e' : Expr} (equal : e.same e') :
    e.isInternalType = e'.isInternalType := by
  have kinds := kind_of_same equal
  cases e <;> cases e' <;> cases kinds
  case typeRef type type' =>
    obtain rfl : type = type' := by simpa [same] using equal
    rfl
  all_goals rfl

theorem optionalSame_iff {target target' : Option Expr} :
    optionalSame target target' ↔ Option.Rel (fun e e' => e.same e') target target' := by
  constructor
  · intro equal
    cases target <;> cases target'
    case none.none => exact .none
    case some.some => exact .some (by simpa [optionalSame] using equal)
    all_goals simp [optionalSame] at equal
  · rintro (own | _)
    · simpa [optionalSame] using own
    · simp [optionalSame]

theorem written?_same {target target' : Option Expr}
    (on : Option.Rel (fun e e' : Expr => e.same e') target target') :
    Option.Rel (fun e e' : Expr => e.same e') (written? target) (written? target') := by
  cases on with
  | none => exact .none
  | some own =>
    simp only [written?, isInternalType_of_same own]
    split
    · exact .none
    · exact .some own

end Expr

namespace Layout

theorem alike_append {first first' second second' : Layout}
    (front : Layout.Alike options P Q first first')
    (back : Layout.Alike options P Q second second') :
    Layout.Alike options P Q (first ++ second) (first' ++ second') :=
  List.rel_append front back

theorem alike_refusal (cause : Malformation) :
    Layout.Alike options P Q (refusal cause) (refusal cause) := .cons (.fixed _) .nil

theorem alike_separated {ls ls' : List Layout}
    (alike : List.Forall₂ (Layout.Alike options P Q) ls ls') :
    Layout.Alike options P Q (separated ls) (separated ls') := by
  induction alike with
  | nil => exact .nil
  | cons first rest ih =>
    cases rest with
    | nil => exact first
    | cons => exact alike_append first (.cons (.fixed _) ih)

theorem alike_map {ls ls' : List Layout} (alike : List.Forall₂ (Layout.Alike options P Q) ls ls') :
    Layout.Alike options P Q (map ls) (map ls') := by
  cases alike with
  | nil => exact .cons (.fixed _) (.cons (.fixed _) .nil)
  | cons first rest =>
    exact .cons (.fixed _) (.cons (.fixed _) (alike_append (alike_separated (.cons first rest))
      (.cons (.fixed _) (.cons (.fixed _) .nil))))

section

variable {es es' : List Expr} (equal : List.Forall₂ (fun e e' : Expr => e.same e') es es')
include equal

theorem alike_parts : List.Forall₂ (Layout.Alike options P Q) (parts es) (parts es') :=
  List.rel_map (fun _ _ own => .cons (.part .nested own) .nil) equal

theorem alike_call (method : String) :
    Layout.Alike options P Q (call method es) (call method es') :=
  .cons (.fixed _) (.cons (.fixed _)
    (alike_append (alike_separated (alike_parts equal)) (.cons (.fixed _) .nil)))

theorem alike_array : Layout.Alike options P Q (array es) (array es') :=
  .cons (.fixed _) (alike_append (alike_separated (alike_parts equal)) (.cons (.fixed _) .nil))

theorem alike_entries {values values' : List Expr}
    (equal' : List.Forall₂ (fun e e' : Expr => e.same e') values values') :
    List.Forall₂ (Layout.Alike options P Q) (entries es values) (entries es' values') := by
  induction equal generalizing values values' with
  | nil => exact .nil
  | cons key _ ih =>
    cases equal' with
    | nil => exact .nil
    | cons value others =>
      exact .cons (.cons (.part .nested key) (.cons (.fixed _) (.cons (.part .nested value) .nil)))
        (ih others)

end

variable {label label' selector selector' left left' right right' keys keys' values values' : Expr}

theorem jumpTo_of_same (equal : label.same label') : jumpTo label = jumpTo label' := by
  have kinds := Expr.kind_of_same equal
  cases label <;> cases label' <;> cases kinds
  case primitive p q =>
    simp only [Expr.same] at equal
    rcases Primitive.same_iff.1 equal with ⟨rfl, _⟩ | numbers
    · rfl
    · cases numbers <;> rfl
  all_goals rfl

theorem alike_jumpTo (equal : label.same label') :
    Layout.Alike options P Q (jumpTo label) (jumpTo label') := by
  rw [jumpTo_of_same equal, jumpTo.eq_def]
  split <;> exact .cons (.fixed _) .nil

theorem alike_operation (equal : selector.same selector') (first : left.same left')
    (second : right.same right') :
    Layout.Alike options P Q (operation selector left right)
      (operation selector' left' right') := by
  have kinds := Expr.kind_of_same equal
  cases selector <;> cases selector' <;> cases kinds
  case fieldRef target name target' name' =>
    obtain ⟨_, rfl⟩ : Expr.optionalSame target target' ∧ name = name' := by
      simpa [Expr.same] using equal
    simp only [operation]
    split
    · exact .cons (.part .operand first) (.cons (.fixed _) (.cons (.part .operand second) .nil))
    · exact alike_refusal _
  all_goals exact alike_refusal _

theorem alike_mapOf (equal : keys.same keys') (equal' : values.same values') :
    Layout.Alike options P Q (mapOf keys values) (mapOf keys' values') := by
  have kinds := Expr.kind_of_same equal
  have kinds' := Expr.kind_of_same equal'
  cases keys <;> cases keys' <;> cases kinds
  case arrayLiteral ks ks' =>
    cases values <;> cases values' <;> cases kinds'
    case arrayLiteral vs vs' =>
      have listed := Expr.allSame_iff.1 (by simpa [Expr.same] using equal)
      have listed' := Expr.allSame_iff.1 (by simpa [Expr.same] using equal')
      simp only [mapOf, listed.length_eq, listed'.length_eq]
      split
      · exact alike_map (alike_entries listed listed')
      · exact alike_refusal _
    all_goals exact alike_refusal _
  all_goals
    simp only [mapOf, kinds']
    exact alike_refusal _

theorem alike_markerCall (method : String) {args args' : List Expr}
    (equal : List.Forall₂ (fun e e' : Expr => e.same e') args args') :
    Layout.Alike options P Q (markerCall method args) (markerCall method args') := by
  have counted := equal.length_eq
  unfold markerCall
  rw [counted]
  cases found : Intrinsic.find? method args'.length with
  | none => exact alike_call equal method
  | some i =>
    cases Intrinsic.takes_of_find? found with
    | labelJump label' =>
      obtain _ | ⟨own, _ | _⟩ := equal
      exact alike_jumpTo own
    | conditional condition' =>
      obtain _ | ⟨own, _ | _⟩ := equal
      exact .cons (.part .same own) .nil
    | operate selector' left' right' =>
      obtain _ | ⟨chosen, _ | ⟨first, _ | ⟨second, _ | _⟩⟩⟩ := equal
      exact alike_operation chosen first second
    | arrayExtend size' =>
      obtain _ | ⟨own, _ | _⟩ := equal
      exact .nil
    | indexedAssign key' index' container' value' =>
      obtain _ | ⟨key, _ | ⟨index, _ | ⟨container, _ | ⟨value, _ | _⟩⟩⟩⟩ := equal
      exact .cons (.part .operand index) (.cons (.part .operand container)
        (.cons (.part .operand key) (.cons (.fixed _) (.cons (.part .operand value) .nil))))
    | indexAccess container' index' =>
      obtain _ | ⟨container, _ | ⟨index, _ | _⟩⟩ := equal
      exact .cons (.part .operand container) (.cons (.fixed _) (.cons (.part .operand index)
        (.cons (.fixed _) .nil)))
    | mapLiteral keys' values' =>
      obtain _ | ⟨keys, _ | ⟨values, _ | _⟩⟩ := equal
      exact alike_mapOf keys values

theorem alike_invocation {target target' : Option Expr} {args args' : List Expr}
    (on : Option.Rel (fun e e' : Expr => e.same e') target target')
    (equal : List.Forall₂ (fun e e' : Expr => e.same e') args args') (method : String)
    (marker : Bool) :
    Layout.Alike options P Q (invocation target method args marker)
      (invocation target' method args' marker) := by
  have written := Expr.written?_same on
  unfold invocation
  rw [equal.length_eq]
  revert written
  generalize Expr.written? target = t, Expr.written? target' = t'
  rintro (own | _)
  · cases marker with
    | true =>
      simp only [Expr.kind_of_same own]
      exact alike_refusal _
    | false => exact .cons (.part .nested own) (.cons (.fixed _) (alike_call equal method))
  · cases marker with
    | true => exact alike_markerCall method equal
    | false => exact alike_call equal method

theorem alike_segment {e e' : Expr} (equal : e.same e') (within : e.literals ⊆ P)
    (within' : e'.literals ⊆ Q) :
    Layout.Alike options P Q (segment options e) (segment options e') := by
  have kinds := Expr.kind_of_same equal
  cases e <;> cases e' <;> cases kinds
  case primitive p q =>
    simp only [Expr.same] at equal
    have literal : Item.Alike options P Q _ _ :=
      .literal (within (List.mem_singleton_self p)) (within' (List.mem_singleton_self q)) equal
    rcases Primitive.same_iff.1 equal with ⟨rfl, _⟩ | numbers
    · cases p <;> exact .cons (.fixed _) .nil
    · cases numbers <;> exact .cons literal .nil
  case complexReference name name' =>
    exact .cons (.fixed _) (.cons (.part .nested equal) (.cons (.fixed _) .nil))
  all_goals exact .cons (.fixed _) .nil

theorem alike_segments {segments segments' : List Expr}
    (equal : List.Forall₂ (fun e e' : Expr => e.same e') segments segments')
    (within : Expr.listLiterals segments ⊆ P) (within' : Expr.listLiterals segments' ⊆ Q) :
    Layout.Alike options P Q (segments.flatMap (segment options))
      (segments'.flatMap (segment options)) := by
  induction equal with
  | nil => exact .nil
  | cons own _ ih =>
    obtain ⟨first, others⟩ := List.append_subset.mp within
    obtain ⟨first', others'⟩ := List.append_subset.mp within'
    exact alike_append (alike_segment own first first') (ih others others')

theorem alike_parenthesizedUnless (bare : Bool) {body body' : Layout}
    (alike : Layout.Alike options P Q body body') :
    Layout.Alike options P Q (parenthesizedUnless bare body) (parenthesizedUnless bare body') := by
  cases bare with
  | true => exact alike
  | false => exact .cons (.fixed _) (alike_append alike (.cons (.fixed _) .nil))

end Layout

theorem Expr.layout_alike {e e' : Expr} (equal : e.same e') (within : e.literals ⊆ P)
    (within' : e'.literals ⊆ Q) (bare : Bool) :
    Layout.Alike options P Q (e.layout options bare) (e'.layout options bare) := by
  have kinds := kind_of_same equal
  cases e <;> cases e' <;> cases kinds
  case invocation target method args marker target' method' args' marker' =>
    obtain ⟨⟨⟨on, rfl⟩, all⟩, rfl⟩ : ((optionalSame target target' ∧ method = method') ∧
        allSame args args') ∧ marker = marker' := by
      simpa [same] using equal
    exact Layout.alike_invocation (optionalSame_iff.1 on) (allSame_iff.1 all) method marker
  case arrayLiteral elements elements' =>
    exact Layout.alike_array (allSame_iff.1 (by simpa [same] using equal))
  case primitive p q =>
    have values : p.same q := by simpa [same] using equal
    exact .cons (.literal (within (List.mem_singleton_self p))
      (within' (List.mem_singleton_self q)) values) .nil
  case binaryOp operator left right operator' left' right' =>
    obtain ⟨⟨rfl, first⟩, second⟩ : (operator = operator' ∧ left.same left') ∧
        right.same right' := by
      simpa [same] using equal
    exact Layout.alike_parenthesizedUnless bare
      (.cons (.part .nested first) (.cons (.fixed _) (.cons (.part .nested second) .nil)))
  case ternaryOp condition whenTrue whenFalse condition' whenTrue' whenFalse' =>
    obtain ⟨⟨first, second⟩, third⟩ : (condition.same condition' ∧ whenTrue.same whenTrue') ∧
        whenFalse.same whenFalse' := by
      simpa [same] using equal
    exact .cons (.part .nested first) (.cons (.fixed _) (.cons (.part .nested second)
      (.cons (.fixed _) (.cons (.part .nested third) .nil))))
  case complexReference name name' =>
    cases name <;> cases name'
    case parts.parts segments segments' =>
      exact Layout.alike_segments
        (allSame_iff.1 (by simpa [same, QualifiedName.same] using equal)) within within'
    case literal.literal text text' =>
      obtain rfl : text = text' := by simpa [same, QualifiedName.same] using equal
      exact .cons (.fixed _) .nil
    all_goals simp [same, QualifiedName.same] at equal
  case variableRef name name' =>
    obtain rfl : name = name' := by simpa [same] using equal
    exact .cons (.fixed _) .nil
  case fieldRef target field target' field' =>
    obtain ⟨on, rfl⟩ : optionalSame target target' ∧ field = field' := by
      simpa [same] using equal
    cases optionalSame_iff.1 on with
    | none => exact .cons (.fixed _) .nil
    | some own =>
      simp only [layout, isInternalType_of_same own]
      exact .cons (.part .nested own) (.cons (.fixed _) (.cons (.fixed _) .nil))
  case typeRef type type' =>
    obtain rfl : type = type' := by simpa [same] using equal
    simp only [layout]
    split
    · exact .nil
    · exact .cons (.fixed _) .nil
  case this => exact .cons (.fixed _) .nil
  case cast => exact .cons (.fixed _) .nil

theorem Layout.emission_alike {context : Context} {l l' : Layout}
    (alike : Layout.Alike options P Q l l')
    (parts : ∀ d c c', .part d c ∈ l → .part d c' ∈ l' → c.same c' →
      (c.emission options (d.context context)).Alike options P Q
        (c'.emission options (d.context context))) :
    (l.emission options context).Alike options P Q (l'.emission options context) := by
  induction alike with
  | nil => exact .refl _
  | cons own _ ih =>
    refine Emission.Alike.congruence.andThen ?_ (ih fun d c c' part part' => ?_)
    · cases own with
      | fixed written => exact .refl written
      | literal member member' equal => exact Primitive.emission_alike equal member member'
      | part d equal => exact parts _ _ _ List.mem_cons_self List.mem_cons_self equal
    · exact parts d c c' (List.mem_cons_of_mem _ part) (List.mem_cons_of_mem _ part')

theorem Expr.emission_alike {e e' : Expr} (equal : e.same e') (within : e.literals ⊆ P)
    (within' : e'.literals ⊆ Q) (context : Context) :
    (e.emission options context).Alike options P Q (e'.emission options context) := by
  induction e using Expr.layout_induction generalizing e' context with
  | step e ih =>
    rw [emission_eq_layout, emission_eq_layout]
    split
    · exact .refl _
    · refine Layout.emission_alike (layout_alike equal within within' _) ?_
      intro d c c' part part' own
      refine ih options _ d c part own ?_ ?_ _
      · exact List.Subset.trans (subset_of_part Frame.literals_fill part) within
      · exact List.Subset.trans (subset_of_part Frame.literals_fill part') within'

theorem Stmt.emission_alike {s s' : Stmt} (equal : s.same s') (within : s.literals ⊆ P)
    (within' : s'.literals ⊆ Q) (context : Context) :
    (s.emission options context).Alike options P Q (s'.emission options context) := by
  have congruence := @Emission.Alike.congruence options P Q
  cases s <;> cases s'
  case expression.expression expr expr' =>
    exact Expr.emission_alike (by simpa [same] using equal) within within' _
  case variableDeclaration.variableDeclaration name init name' init' =>
    obtain ⟨rfl, on⟩ : name = name' ∧ Expr.optionalSame init init' := by simpa [same] using equal
    refine congruence.andThen (congruence.andThen (.refl _) (.refl _)) ?_
    cases Expr.optionalSame_iff.1 on with
    | none => exact .refl _
    | some own => exact Expr.emission_alike own within within' _
  case assignment.assignment left right left' right' =>
    obtain ⟨first, second⟩ : left.same left' ∧ right.same right' := by simpa [same] using equal
    obtain ⟨in_left, in_right⟩ := List.append_subset.mp within
    obtain ⟨in_left', in_right'⟩ := List.append_subset.mp within'
    exact congruence.andThen (congruence.andThen (Expr.emission_alike first in_left in_left' _)
      (.refl _)) (Expr.emission_alike second in_right in_right' _)
  case returning.returning value value' =>
    refine congruence.andThen (.refl _) ?_
    cases Expr.optionalSame_iff.1 (by simpa [same] using equal) with
    | none => exact .refl _
    | some own =>
      exact congruence.andThen (.refl _) (Expr.emission_alike own within within' _)
  case goto.goto label label' =>
    obtain rfl : label = label' := by simpa [same] using equal
    exact .refl _
  all_goals simp [same] at equal

theorem Printer.emit_alike {job job' : Job}
    (alike : (job.emission options).Alike options P Q (job'.emission options)) :
    let p := Printer.emit { options } job
    let q := Printer.emit { options } job'
    p.2 = q.2 ∧ Text.Alike options P Q p.1.text q.1.text := by
  simp only [emit_fresh, text]
  exact ⟨congrArg _ alike.fault, alike.contents⟩

-- Equality of trees compares decimals and floats as numbers and is reflexive but for NaNs, wherever
-- they stand. Equal trees are both written or both refused for the same cause, and their texts are
-- the same up to how equal decimals and zeros are spelled.
theorem Printer.emit_equal_trees (options : Options) (context : Context) :
    (∀ d d' : Decimal, Primitive.same d d' ↔ d.value = d'.value) ∧
    (∀ x y : Binary64, Primitive.same x y ↔
      x.isNaN = false ∧ y.isNaN = false ∧ x.value = y.value) ∧
    PartialEquality Expr.same Expr.literals ∧ PartialEquality Stmt.same Stmt.literals ∧
    (∀ a b : Expr, a.same b →
      let p := Printer.emit { options } (.expression a context)
      let q := Printer.emit { options } (.expression b context)
      p.2 = q.2 ∧ Text.Alike options a.literals b.literals p.1.text q.1.text) ∧
    ∀ a b : Stmt, a.same b →
      let p := Printer.emit { options } (.statement a context)
      let q := Printer.emit { options } (.statement b context)
      p.2 = q.2 ∧ Text.Alike options a.literals b.literals p.1.text q.1.text := by
  refine ⟨fun _ _ => Decimal.sameValue_iff, fun _ _ => Binary64.sameValue_iff,
    ComparedBy.partialEquality Expr.comparedBy, ComparedBy.partialEquality Stmt.comparedBy, ?_, ?_⟩
  · intro a b equal
    apply Printer.emit_alike
    exact Expr.emission_alike equal (List.Subset.refl _) (List.Subset.refl _) context
  · intro a b equal
    apply Printer.emit_alike
    exact Stmt.emission_alike equal (List.Subset.refl _) (List.Subset.refl _) context

-- A decimal and a zero in two spellings each, in a list and in an assignment that cannot be
-- written; and a NaN where nothing is written.
theorem Printer.emit_equal_trees_of_numbers :
    let half : Decimal := ⟨false, 5, 1, by decide, by decide⟩
    let half' : Decimal := ⟨false, 50, 2, by decide, by decide⟩
    let zero : Binary64 := ⟨0⟩
    let zero' : Binary64 := ⟨0x8000000000000000⟩
    let notANumber : Binary64 := ⟨0x7FF8000000000000⟩
    let a : Expr := .array [.primitive half, .primitive zero]
    let b : Expr := .array [.primitive half', .primitive zero']
    let unread : Expr := .cast "T" (.primitive notANumber)
    let failing (e : Expr) : Stmt := .assignment e (.primitive (.char 'x'))
    let p := Printer.emit {} (.ofExpr a)
    let q := Printer.emit {} (.ofExpr b)
    a.same b ∧ b.same a ∧ ¬ unread.same unread ∧
      p.1.text = "[0.5, 0]" ∧ q.1.text = "[0.50, -0]" ∧
      Text.Alike {} a.literals b.literals p.1.text q.1.text ∧
      (failing a).same (failing b) ∧
      (Printer.emit {} (.ofStmt (failing b))).2
        = some (.fault (.unsupportedLiteral (.char 'x'))) := by
  intro half half' zero zero' notANumber a b unread failing p q
  have equal : a.same b := by decide +kernel
  have equal' : (failing a).same (failing b) := by decide +kernel
  obtain ⟨_, _, trees, _, expressions, statements⟩ := Printer.emit_equal_trees {} .root
  refine ⟨equal, trees.symm equal, ?_, ?_, ?_, (expressions a b equal).2, equal', ?_⟩
  · intro own
    have number := (trees.self_iff unread).mp own notANumber (List.mem_singleton_self _)
    exact absurd number (by decide)
  · decide +kernel
  · decide +kernel
  · exact (statements _ _ equal').1.symm.trans (by decide +kernel)

end HotkeyScript
