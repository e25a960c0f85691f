import HotkeyScript.Proofs.FloatText
import HotkeyScript.Proofs.Literals
import Mathlib.Data.List.Forall2
import Mathlib.Tactic.FieldSimp
import Mathlib.Tactic.Linarith
import Mathlib.Tactic.Positivity
namespace HotkeyScript

def signed (negative : Bool) (size : ℚ) : ℚ := if negative then -size else size

theorem signed_eq_iff {m n : Bool} {a b : ℚ} (nonneg : 0 ≤ a) (nonneg' : 0 ≤ b) :
    signed m a = signed n b ↔ a = b ∧ (m = n ∨ a = 0) := by
  have opposite : -a = b ↔ a = b ∧ a = 0 := by
    constructor
    · intro equal
      constructor <;> linarith
    · rintro ⟨rfl, zero⟩
      rw [zero, neg_zero]
  cases m <;> cases n
  · simp [signed]
  · simpa [signed, eq_neg_iff_add_eq_zero, add_comm, neg_eq_iff_add_eq_zero] using opposite
  · simpa [signed] using opposite
  · simp [signed]

namespace Decimal

def value (d : Decimal) : ℚ := signed d.negative (d.mantissa / 10 ^ d.scale)

theorem ticks_eq (d : Decimal) : (d.ticks : ℚ) = d.mantissa / 10 ^ d.scale * 10 ^ greatestScale := by
  have places : (10 : ℚ) ^ greatestScale = 10 ^ (greatestScale - d.scale) * 10 ^ d.scale := by
    rw [← pow_add, Nat.sub_add_cancel d.scale_le]
  rw [places, ticks, Nat.pow_eq, Nat.cast_mul, Nat.cast_pow, Nat.cast_ofNat]
  field_simp

theorem sameValue_iff {a b : Decimal} : a.sameValue b ↔ a.value = b.value := by
  have positive : (0 : ℚ) < 10 ^ greatestScale := by positivity
  have sizes : a.ticks = b.ticks ↔
      (a.mantissa : ℚ) / 10 ^ a.scale = b.mantissa / 10 ^ b.scale := by
    rw [← Nat.cast_inj (R := ℚ), ticks_eq, ticks_eq, mul_left_inj' positive.ne']
  have zero : a.ticks = 0 ↔ (a.mantissa : ℚ) / 10 ^ a.scale = 0 := by
    rw [← Nat.cast_eq_zero (R := ℚ), ticks_eq, mul_eq_zero, or_iff_left positive.ne']
  rw [value, value, signed_eq_iff (by positivity) (by positivity), ← sizes, ← zero]
  simp [sameValue]

end Decimal

namespace Binary64

-- The number that it stands for. An infinity counts as the power of two behind the largest finite
-- number.
def value (x : Binary64) : ℚ := signed x.isNegative (x.quanta / quantaPerUnit)

theorem quanta_strictMono {x y : Binary64} (less : x.magnitude < y.magnitude) :
    x.quanta < y.quanta := by
  have positive : 0 < hiddenBit := by decide
  have order : x.exponentField ≤ y.exponentField := Nat.div_le_div_right less.le
  have fraction : x.fractionField < hiddenBit := Nat.mod_lt _ positive
  rcases Nat.eq_or_lt_of_le order with same | higher
  · have fields (z : Binary64) : z.magnitude = hiddenBit * z.exponentField + z.fractionField :=
      (Nat.div_add_mod z.magnitude hiddenBit).symm
    have further : x.fractionField < y.fractionField := by
      rw [fields x, fields y, same] at less
      exact Nat.lt_of_add_lt_add_left less
    have significand : x.significand < y.significand := by
      unfold Binary64.significand
      rw [same]
      split <;> omega
    unfold quanta Binary64.scale
    rw [same]
    exact Nat.mul_lt_mul_of_pos_right significand (Nat.pow_pos (by decide))
  · have hidden : hiddenBit ≤ y.significand := by
      rw [Binary64.significand, if_neg (by omega)]
      exact Nat.le_add_right _ _
    by_cases lowest : x.exponentField = 0
    · have scale : x.scale = 0 := by rw [Binary64.scale, lowest]
      calc x.quanta = x.fractionField := by
            simp [quanta, scale, Binary64.significand, lowest]
        _ < hiddenBit := fraction
        _ ≤ y.significand := hidden
        _ ≤ y.quanta := Nat.le_mul_of_pos_right _ (Nat.pow_pos (by decide))
    · have scale : x.scale + 1 ≤ y.scale := by
        unfold Binary64.scale
        omega
      have significand : x.significand < 2 * hiddenBit := by
        rw [Binary64.significand, if_neg lowest]
        omega
      calc x.quanta < 2 * hiddenBit * 2 ^ x.scale :=
            Nat.mul_lt_mul_of_pos_right significand (Nat.pow_pos (by decide))
        _ = hiddenBit * 2 ^ (x.scale + 1) := by
            rw [Nat.pow_succ, Nat.mul_comm 2, Nat.mul_assoc, Nat.mul_comm 2]
        _ ≤ y.quanta := Nat.mul_le_mul hidden (Nat.pow_le_pow_right (by decide) scale)

theorem quanta_eq_iff {x y : Binary64} : x.quanta = y.quanta ↔ x.magnitude = y.magnitude := by
  constructor
  · intro equal
    rcases Nat.lt_trichotomy x.magnitude y.magnitude with less | same | greater
    · exact absurd equal (quanta_strictMono less).ne
    · exact same
    · exact absurd equal (quanta_strictMono greater).ne'
  · intro equal
    simp [quanta, significand, scale, exponentField, fractionField, equal]

theorem bits_eq_iff {x y : Binary64} :
    x.bits = y.bits ↔ x.magnitude = y.magnitude ∧ x.isNegative = y.isNegative := by
  have small := x.bits.toNat_lt
  have small' := y.bits.toNat_lt
  rw [← UInt64.toNat_inj, Bool.eq_iff_iff]
  simp only [magnitude, isNegative, decide_eq_true_eq]
  unfold signBit
  omega

theorem isZero_iff {x : Binary64} : x.isZero ↔ x.quanta = 0 := by
  constructor
  · intro zero
    have none_set : x.magnitude = 0 := by simpa [isZero] using zero
    simp [quanta, significand, exponentField, fractionField, none_set]
  · intro none_left
    by_contra nonzero
    exact (quanta_pos (by simpa using nonzero)).ne' none_left

theorem isNaN_of_isZero {x : Binary64} (zero : x.isZero) : x.isNaN = false := by
  simp only [isZero, isNaN, decide_eq_true_eq, decide_eq_false_iff_not] at zero ⊢
  omega

theorem sameValue_iff {x y : Binary64} :
    x.sameValue y ↔ x.isNaN = false ∧ y.isNaN = false ∧ x.value = y.value := by
  have unit : (0 : ℚ) < quantaPerUnit := by exact_mod_cast quantaPerUnit_pos
  have sizes : (x.quanta : ℚ) / quantaPerUnit = y.quanta / quantaPerUnit
      ↔ x.magnitude = y.magnitude := by
    rw [div_left_inj' unit.ne', Nat.cast_inj, quanta_eq_iff]
  have zero (z : Binary64) : (z.quanta : ℚ) / quantaPerUnit = 0 ↔ z.isZero := by
    rw [div_eq_zero_iff, or_iff_left unit.ne', Nat.cast_eq_zero, isZero_iff]
  have nonneg (z : Binary64) : 0 ≤ (z.quanta : ℚ) / quantaPerUnit :=
    div_nonneg (Nat.cast_nonneg _) unit.le
  rw [value, value, signed_eq_iff (nonneg x) (nonneg y), sizes, zero]
  simp only [sameValue, Bool.and_eq_true, Bool.not_eq_true', Bool.or_eq_true, decide_eq_true_eq,
    bits_eq_iff, isZero]
  grind

end Binary64

namespace Primitive

def isNaN : Primitive → Bool
  | .float x => x.isNaN
  | _ => false

inductive Respelled : Primitive → Primitive → Prop where
  | decimal {a b : Decimal} (equal : a.value = b.value) : Respelled (.decimal a) (.decimal b)
  | zero {x y : Binary64} (zero : x.isZero) (zero' : y.isZero) : Respelled (.float x) (.float y)

theorem same_iff {p q : Primitive} :
    p.same q ↔ p = q ∧ p.isNaN = false ∨ Respelled p q := by
  constructor
  · intro equal
    unfold same at equal
    split at equal
    case h_5 x y =>
      simp only [Binary64.sameValue, Bool.and_eq_true, Bool.not_eq_true', Bool.or_eq_true,
        decide_eq_true_eq] at equal
      obtain ⟨⟨number, _⟩, bits | ⟨zero, zero'⟩⟩ := equal
      · cases x
        cases bits
        exact .inl ⟨rfl, number⟩
      · exact .inr (.zero zero zero')
    case h_6 a b => exact .inr (.decimal (Decimal.sameValue_iff.1 equal))
    all_goals simp_all [isNaN]
  · rintro (⟨rfl, number⟩ | respelled)
    · cases p with
      | float x =>
        have own : x.isNaN = false := number
        simp [same, Binary64.sameValue, own]
      | decimal d => exact Decimal.sameValue_iff.2 rfl
      | _ => simp [same]
    · cases respelled with
      | decimal equal => exact Decimal.sameValue_iff.2 equal
      | zero zero zero' =>
        have number := Binary64.isNaN_of_isZero zero
        have number' := Binary64.isNaN_of_isZero zero'
        simp [same, Binary64.sameValue, number, number', zero, zero']

theorem Respelled.symm {p q : Primitive} (respelled : Respelled p q) : Respelled q p := by
  cases respelled with
  | decimal equal => exact .decimal equal.symm
  | zero zero zero' => exact .zero zero' zero

theorem Respelled.trans {p q r : Primitive} (first : Respelled p q) (second : Respelled q r) :
    Respelled p r := by
  cases first with
  | decimal equal =>
    cases second with
    | decimal equal' => exact .decimal (equal.trans equal')
  | zero zero _ =>
    cases second with
    | zero _ zero' => exact .zero zero zero'

theorem same_symm {p q : Primitive} (equal : p.same q) : q.same p := by
  rw [same_iff] at equal ⊢
  rcases equal with ⟨rfl, number⟩ | respelled
  · exact .inl ⟨rfl, number⟩
  · exact .inr respelled.symm

theorem same_trans {p q r : Primitive} (first : p.same q) (second : q.same r) : p.same r := by
  rw [same_iff] at first second ⊢
  rcases first with ⟨rfl, number⟩ | respelled
  · exact second
  · rcases second with ⟨rfl, _⟩ | respelled'
    · exact .inr respelled
    · exact .inr (respelled.trans respelled')

theorem same_self_iff {p : Primitive} : p.same p ↔ p.isNaN = false := by
  rw [same_iff]
  constructor
  · rintro (⟨_, number⟩ | respelled)
    · exact number
    · cases respelled with
      | decimal => rfl
      | zero zero _ => exact Binary64.isNaN_of_isZero zero
  · intro number
    exact .inl ⟨rfl, number⟩

end Primitive

abbrev Primitive.AllSame : List Primitive → List Primitive → Prop :=
  List.Forall₂ fun p q => p.same q

theorem Primitive.AllSame.symm {list list' : List Primitive} (all : AllSame list list') :
    AllSame list' list :=
  List.Forall₂.flip (all.imp fun _ _ => Primitive.same_symm)

theorem Primitive.AllSame.trans {list list' list'' : List Primitive} (first : AllSame list list')
    (second : AllSame list' list'') : AllSame list list'' := by
  induction first generalizing list'' with
  | nil => exact second
  | cons own _ ih =>
    cases second with
    | cons own' others' => exact .cons (same_trans own own') (ih others')

theorem Primitive.allSame_self_iff {list : List Primitive} :
    AllSame list list ↔ ∀ x, .float x ∈ list → x.isNaN = false := by
  rw [AllSame, List.forall₂_same]
  constructor
  · intro own x among
    exact same_self_iff.1 (own _ among)
  · intro numbers p among
    rw [same_self_iff]
    cases p with
    | float x => exact numbers x among
    | _ => rfl

theorem Primitive.allSame_append {first first' second second' : List Primitive}
    (lengths : first.length = first'.length) :
    AllSame (first ++ second) (first' ++ second')
      ↔ AllSame first first' ∧ AllSame second second' := by
  constructor
  · intro both
    have front := List.forall₂_take first.length both
    have back := List.forall₂_drop first.length both
    rw [List.take_left, lengths, List.take_left] at front
    rw [List.drop_left, lengths, List.drop_left] at back
    exact ⟨front, back⟩
  · rintro ⟨front, back⟩
    exact List.rel_append front back

-- Trees of which two are the same when they have one shape and equal literals. A shape leaves room
-- for so many literals, so those of one part are compared with those of the part in its place.
structure ComparedBy (same shape : Prop) (literals literals' : List Primitive) : Prop where
  iff : same ↔ shape ∧ Primitive.AllSame literals literals'
  length_eq : shape → literals.length = literals'.length

namespace ComparedBy

variable {same same' shape shape' : Prop} {l l' m m' : List Primitive}

theorem congr (compared : ComparedBy same shape l l') (same_iff : same' ↔ same)
    (shape_iff : shape' ↔ shape) : ComparedBy same' shape' l l' := by
  rwa [same_iff, shape_iff]

theorem both (first : ComparedBy same shape l l') (second : ComparedBy same' shape' m m') :
    ComparedBy (same ∧ same') (shape ∧ shape') (l ++ m) (l' ++ m') := by
  constructor
  · rw [first.iff, second.iff]
    constructor
    · rintro ⟨⟨own, front⟩, own', back⟩
      exact ⟨⟨own, own'⟩, List.rel_append front back⟩
    · rintro ⟨⟨own, own'⟩, all⟩
      obtain ⟨front, back⟩ := (Primitive.allSame_append (first.length_eq own)).mp all
      exact ⟨⟨own, front⟩, own', back⟩
  · rintro ⟨own, own'⟩
    rw [List.length_append, List.length_append, first.length_eq own, second.length_eq own']

theorem plain (p : Prop) : ComparedBy p p [] [] := ⟨by simp, fun _ => rfl⟩

theorem never (differ : ¬ same) (differ' : ¬ shape) : ComparedBy same shape l l' :=
  ⟨by simp [differ, differ'], fun own => absurd own differ'⟩

end ComparedBy

def Primitive.blank (_ : Primitive) : Primitive := .null

def Expr.shape (e : Expr) : Expr := e.mapLiterals Primitive.blank

def Stmt.shape (s : Stmt) : Stmt := s.mapLiterals Primitive.blank

theorem Expr.kind_mapLiterals (f : Primitive → Primitive) (e : Expr) :
    (e.mapLiterals f).kind = e.kind := by
  cases e <;> rfl

theorem Expr.kind_of_same {a b : Expr} (equal : a.same b) : a.kind = b.kind := by
  cases a <;> cases b <;> first | rfl | simp [Expr.same] at equal

theorem Expr.comparedBy_of_kind {a b : Expr} (differ : a.kind ≠ b.kind) :
    ComparedBy (a.same b) (a.shape = b.shape) a.literals b.literals := by
  refine .never (fun equal => differ (Expr.kind_of_same equal)) fun equal => differ ?_
  rw [← Expr.kind_mapLiterals Primitive.blank a, ← Expr.kind_mapLiterals Primitive.blank b]
  exact congrArg Expr.kind equal

mutual

theorem Expr.comparedBy : (a b : Expr) →
    ComparedBy (a.same b) (a.shape = b.shape) a.literals b.literals
  | .invocation target method args marker, b => by
    cases b with
    | invocation target' method' args' marker' =>
      refine ((ComparedBy.plain (method = method' ∧ marker = marker')).both
        ((Expr.optional_comparedBy target target').both
          (Expr.list_comparedBy args args'))).congr ?_ ?_
      · simp only [Expr.same, Bool.and_eq_true, decide_eq_true_eq]
        tauto
      · simp only [Expr.shape, Expr.mapLiterals, Expr.invocation.injEq]
        tauto
    | _ => exact Expr.comparedBy_of_kind nofun
  | .arrayLiteral elements, b => by
    cases b with
    | arrayLiteral elements' =>
      exact (Expr.list_comparedBy elements elements').congr (by simp [Expr.same])
        (by simp [Expr.shape, Expr.mapLiterals])
    | _ => exact Expr.comparedBy_of_kind nofun
  | .primitive value, b => by
    cases b with
    | primitive value' =>
      exact ⟨by simp [Expr.same, Expr.shape, Expr.mapLiterals, Expr.literals, Primitive.blank],
        fun _ => rfl⟩
    | _ => exact Expr.comparedBy_of_kind nofun
  | .binaryOp operator left right, b => by
    cases b with
    | binaryOp operator' left' right' =>
      refine ((ComparedBy.plain (operator = operator')).both
        ((left.comparedBy left').both (right.comparedBy right'))).congr ?_ ?_
      · simp [Expr.same, and_assoc]
      · simp [Expr.shape, Expr.mapLiterals]
    | _ => exact Expr.comparedBy_of_kind nofun
  | .ternaryOp condition whenTrue whenFalse, b => by
    cases b with
    | ternaryOp condition' whenTrue' whenFalse' =>
      refine (((condition.comparedBy condition').both (whenTrue.comparedBy whenTrue')).both
        (whenFalse.comparedBy whenFalse')).congr ?_ ?_
      · simp [Expr.same]
      · simp [Expr.shape, Expr.mapLiterals, and_assoc]
    | _ => exact Expr.comparedBy_of_kind nofun
  | .complexReference name, b => by
    cases b with
    | complexReference name' =>
      exact (name.comparedBy name').congr (by simp [Expr.same])
        (by simp [Expr.shape, Expr.mapLiterals])
    | _ => exact Expr.comparedBy_of_kind nofun
  | .variableRef name, b => by
    cases b with
    | variableRef name' =>
      exact (ComparedBy.plain (name = name')).congr (by simp [Expr.same])
        (by simp [Expr.shape, Expr.mapLiterals])
    | _ => exact Expr.comparedBy_of_kind nofun
  | .fieldRef target field, b => by
    cases b with
    | fieldRef target' field' =>
      refine ((ComparedBy.plain (field = field')).both
        (Expr.optional_comparedBy target target')).congr ?_ ?_
      · simp [Expr.same, and_comm]
      · simp [Expr.shape, Expr.mapLiterals, and_comm]
    | _ => exact Expr.comparedBy_of_kind nofun
  | .typeRef type, b => by
    cases b with
    | typeRef type' =>
      exact (ComparedBy.plain (type = type')).congr (by simp [Expr.same])
        (by simp [Expr.shape, Expr.mapLiterals])
    | _ => exact Expr.comparedBy_of_kind nofun
  | .this, b => by
    cases b with
    | this => exact (ComparedBy.plain True).congr (by simp [Expr.same]) (by simp)
    | _ => exact Expr.comparedBy_of_kind nofun
  | .cast targetType expr, b => by
    cases b with
    | cast targetType' expr' =>
      refine ((ComparedBy.plain (targetType = targetType')).both
        (expr.comparedBy expr')).congr ?_ ?_
      · simp [Expr.same]
      · simp [Expr.shape, Expr.mapLiterals]
    | _ => exact Expr.comparedBy_of_kind nofun

theorem QualifiedName.comparedBy : (a b : QualifiedName) →
    ComparedBy (a.same b) (a.mapLiterals Primitive.blank = b.mapLiterals Primitive.blank)
      a.literals b.literals
  | .literal text, .literal text' =>
    (ComparedBy.plain (text = text')).congr (by simp [QualifiedName.same])
      (by simp [QualifiedName.mapLiterals])
  | .literal _, .parts _ | .parts _, .literal _ =>
    .never (by simp [QualifiedName.same]) (by simp [QualifiedName.mapLiterals])
  | .parts segments, .parts segments' =>
    (Expr.list_comparedBy segments segments').congr (by simp [QualifiedName.same])
      (by simp [QualifiedName.mapLiterals])

theorem Expr.optional_comparedBy : (a b : Option Expr) →
    ComparedBy (Expr.optionalSame a b)
      (Expr.optionalMapLiterals Primitive.blank a = Expr.optionalMapLiterals Primitive.blank b)
      (Expr.optionalLiterals a) (Expr.optionalLiterals b)
  | none, none => (ComparedBy.plain True).congr (by simp [Expr.optionalSame]) (by simp)
  | none, some _ | some _, none =>
    .never (by simp [Expr.optionalSame]) (by simp [Expr.optionalMapLiterals])
  | some a, some b =>
    (a.comparedBy b).congr (by simp [Expr.optionalSame])
      (by simp [Expr.optionalMapLiterals, Expr.shape])

theorem Expr.list_comparedBy : (as bs : List Expr) →
    ComparedBy (Expr.allSame as bs)
      (Expr.listMapLiterals Primitive.blank as = Expr.listMapLiterals Primitive.blank bs)
      (Expr.listLiterals as) (Expr.listLiterals bs)
  | [], [] => (ComparedBy.plain True).congr (by simp [Expr.allSame]) (by simp)
  | [], _ :: _ | _ :: _, [] =>
    .never (by simp [Expr.allSame]) (by simp [Expr.listMapLiterals])
  | a :: as, b :: bs =>
    ((a.comparedBy b).both (Expr.list_comparedBy as bs)).congr (by simp [Expr.allSame])
      (by simp [Expr.listMapLiterals, Expr.shape])

end

theorem Stmt.comparedBy (a b : Stmt) :
    ComparedBy (a.same b) (a.shape = b.shape) a.literals b.literals := by
  cases a <;> cases b
  case expression.expression e e' =>
    exact (e.comparedBy e').congr (by simp [same]) (by simp [shape, mapLiterals, Expr.shape])
  case variableDeclaration.variableDeclaration name init name' init' =>
    exact ((ComparedBy.plain (name = name')).both (Expr.optional_comparedBy init init')).congr
      (by simp [same]) (by simp [shape, mapLiterals])
  case assignment.assignment left right left' right' =>
    exact ((left.comparedBy left').both (right.comparedBy right')).congr (by simp [same])
      (by simp [shape, mapLiterals, Expr.shape])
  case returning.returning value value' =>
    exact (Expr.optional_comparedBy value value').congr (by simp [same])
      (by simp [shape, mapLiterals])
  case goto.goto label label' =>
    exact (ComparedBy.plain (label = label')).congr (by simp [same])
      (by simp [shape, mapLiterals])
  all_goals exact .never (by simp [same]) (by simp [shape, mapLiterals])

-- The laws that equality of some kind of tree has.
structure PartialEquality {α : Type} (same : α → α → Bool) (literals : α → List Primitive) :
    Prop where
  symm : ∀ {a b}, same a b → same b a
  trans : ∀ {a b c}, same a b → same b c → same a c
  self_iff : ∀ a, same a a ↔ ∀ x, .float x ∈ literals a → x.isNaN = false

theorem ComparedBy.partialEquality {α : Type} {same : α → α → Bool} {shape : α → α}
    {literals : α → List Primitive}
    (compared : ∀ a b, ComparedBy (same a b) (shape a = shape b) (literals a) (literals b)) :
    PartialEquality same literals where
  symm {a b} equal := by
    obtain ⟨shapes, all⟩ := (compared a b).iff.mp equal
    exact (compared b a).iff.mpr ⟨shapes.symm, all.symm⟩
  trans {a b c} first second := by
    obtain ⟨shapes, all⟩ := (compared a b).iff.mp first
    obtain ⟨shapes', all'⟩ := (compared b c).iff.mp second
    exact (compared a c).iff.mpr ⟨shapes.trans shapes', all.trans all'⟩
  self_iff a := by
    rw [(compared a a).iff, and_iff_right rfl, Primitive.allSame_self_iff]

end HotkeyScript
