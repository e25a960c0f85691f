import HotkeyScript.Proofs.RecordReading
import HotkeyScript.Expr.Document
import Mathlib.Data.List.Forall2
namespace HotkeyScript

namespace Json

inductive Field (members : List (JsonText × Json)) (name : String) : Option Json → Prop where
  | missing (absent : ∀ m ∈ members, m.1 ≠ some name) : Field members name none
  | given {before after : List (JsonText × Json)} {value : Json}
      (found : members = before ++ (some name, value) :: after)
      (once : ∀ m ∈ before ++ after, m.1 ≠ some name) : Field members name (some value)

inductive Record (names : List String) : Json → List (Option Json) → Prop where
  | object {members : List (JsonText × Json)} {values : List (Option Json)}
      (keys : ∀ m ∈ members, m.1.isSome) (fields : List.Forall₂ (Field members) names values) :
      Record names (.object members) values
  | array {items : List Json} (fit : items.length ≤ names.length) :
      Record names (.array items)
        (items.map some ++ List.replicate (names.length - items.length) none)

inductive Named (name : String) : Nat → Json → Prop where
  | string {room : Nat} : Named name room (.ofString name)
  | object {room : Nat} : Named name (room + 1) (.tagged name .null)

inductive Flag : Option Json → Bool → Prop where
  | missing : Flag none false
  | given {value : Bool} : Flag (some (.bool value)) value

end Json

open Json

-- The first argument of each of these relations is the room that the document needs: the arrays and
-- objects of the model that are open at once in it.
-- What a number stands for as a float or a decimal, and a text as a decimal, is left to the
-- conversions of numbers: the leaves for them are those conversions, here as in the reader.
inductive Primitive.Spells : Nat → Json → Primitive → Prop where
  | null {room : Nat} {j : Json} (named : Named "null" room j) : Spells room j .null
  | string {room : Nat} {text : String} :
      Spells (room + 1) (.tagged "string" (.ofString text)) (.string text)
  | boolean {room : Nat} {value : Bool} :
      Spells (room + 1) (.tagged "boolean" (.bool value)) (.boolean value)
  | integer {room : Nat} {n : Numeral} {value : Int64} (whole : n.fraction = [] ∧ n.exponent = none)
      (digits : (if n.negative then -(Numeral.digitsValue n.whole : Int)
        else Numeral.digitsValue n.whole) = value.toInt)
      (unsigned : n.negative → value ≠ 0) :
      Spells (room + 1) (.tagged "integer" (.number n)) (.integer value)
  | float {room : Nat} {n : Numeral} {value : Binary64} (nearest : n.binary64? = some value) :
      Spells (room + 1) (.tagged "float" (.number n)) (.float value)
  | decimalText {room : Nat} {text : String} {value : Decimal}
      (read : Decimal.ofText? text.toList = some value) :
      Spells (room + 1) (.tagged "decimal" (.ofString text)) (.decimal value)
  | decimalNumber {room : Nat} {n : Numeral} {value : Decimal}
      (read : Decimal.ofNumeral? n = some value) :
      Spells (room + 1) (.tagged "decimal" (.number n)) (.decimal value)
  | char {room : Nat} {value : Char} :
      Spells (room + 1) (.tagged "char" (.ofString (String.singleton value))) (.char value)

inductive TypeRef.Spells : Nat → Json → TypeRef → Prop where
  | record {room : Nat} {j : Json} {internal : Option Json} {name : String} {flag : Bool}
      (record : Record ["name", "internal"] j [some (.ofString name), internal])
      (marked : Flag internal flag) : Spells (room + 1) j ⟨name, flag⟩

mutual

inductive Expr.Spells : Nat → Json → Expr → Prop where
  | invocation {room : Nat} {j : Json} {on args marker : Option Json} {method : String}
      {target : Option Expr} {list : List Expr} {flag : Bool}
      (record : Record ["target", "method", "args", "intrinsic"] j
        [on, some (.ofString method), args, marker])
      (spelled_target : Expr.OptionalSpells room on target)
      (spelled_args : Expr.ArgsSpell room args list) (marked : Flag marker flag) :
      Expr.Spells (room + 2) (.tagged "invocation" j) (.invocation target method list flag)
  | arrayLiteral {room : Nat} {j : Json} {elements : List Expr}
      (spelled : Expr.ListSpells room j elements) :
      Expr.Spells (room + 1) (.tagged "array_literal" j) (.arrayLiteral elements)
  | primitive {room : Nat} {j : Json} {value : Primitive} (spelled : value.Spells room j) :
      Expr.Spells (room + 1) (.tagged "primitive" j) (.primitive value)
  | binaryOp {room : Nat} {j named first second : Json} {operator : BinaryOperator}
      {left right : Expr}
      (record : Record ["operator", "left", "right"] j [some named, some first, some second])
      (operates : Named operator.code room named) (spelled_left : Expr.Spells room first left)
      (spelled_right : Expr.Spells room second right) :
      Expr.Spells (room + 2) (.tagged "binary_op" j) (.binaryOp operator left right)
  | ternaryOp {room : Nat} {j first second third : Json} {condition whenTrue whenFalse : Expr}
      (record : Record ["condition", "when_true", "when_false"] j
        [some first, some second, some third])
      (spelled_condition : Expr.Spells room first condition)
      (spelled_true : Expr.Spells room second whenTrue)
      (spelled_false : Expr.Spells room third whenFalse) :
      Expr.Spells (room + 2) (.tagged "ternary_op" j) (.ternaryOp condition whenTrue whenFalse)
  | complexReference {room : Nat} {j : Json} {name : QualifiedName}
      (spelled : QualifiedName.Spells room j name) :
      Expr.Spells (room + 1) (.tagged "complex_reference" j) (.complexReference name)
  | variableRef {room : Nat} {name : String} :
      Expr.Spells (room + 1) (.tagged "variable_ref" (.ofString name)) (.variableRef name)
  | fieldRef {room : Nat} {j : Json} {on : Option Json} {target : Option Expr} {field : String}
      (record : Record ["target", "field"] j [on, some (.ofString field)])
      (spelled_target : Expr.OptionalSpells room on target) :
      Expr.Spells (room + 2) (.tagged "field_ref" j) (.fieldRef target field)
  | typeRef {room : Nat} {j : Json} {type : TypeRef} (spelled : type.Spells room j) :
      Expr.Spells (room + 1) (.tagged "type_ref" j) (.typeRef type)
  | this {room : Nat} {j : Json} (named : Named "this" room j) : Expr.Spells room j .this
  | cast {room : Nat} {j inner : Json} {targetType : String} {expr : Expr}
      (record : Record ["target_type", "expr"] j [some (.ofString targetType), some inner])
      (spelled : Expr.Spells room inner expr) :
      Expr.Spells (room + 2) (.tagged "cast" j) (.cast targetType expr)

inductive QualifiedName.Spells : Nat → Json → QualifiedName → Prop where
  | literal {room : Nat} {text : String} :
      QualifiedName.Spells (room + 1) (.tagged "literal" (.ofString text)) (.literal text)
  | parts {room : Nat} {j : Json} {segments : List Expr}
      (spelled : Expr.ListSpells room j segments) :
      QualifiedName.Spells (room + 1) (.tagged "parts" j) (.parts segments)

inductive Expr.OptionalSpells : Nat → Option Json → Option Expr → Prop where
  | missing {room : Nat} : Expr.OptionalSpells room none none
  | null {room : Nat} : Expr.OptionalSpells room (some .null) none
  | given {room : Nat} {j : Json} {e : Expr} (spelled : Expr.Spells room j e) :
      Expr.OptionalSpells room (some j) (some e)

inductive Expr.ArgsSpell : Nat → Option Json → List Expr → Prop where
  | missing {room : Nat} : Expr.ArgsSpell room none []
  | given {room : Nat} {j : Json} {list : List Expr} (spelled : Expr.ListSpells room j list) :
      Expr.ArgsSpell room (some j) list

inductive Expr.ListSpells : Nat → Json → List Expr → Prop where
  | array {room : Nat} {items : List Json} {list : List Expr}
      (spelled : Expr.ItemsSpell room items list) :
      Expr.ListSpells (room + 1) (.array items) list

inductive Expr.ItemsSpell : Nat → List Json → List Expr → Prop where
  | nil {room : Nat} : Expr.ItemsSpell room [] []
  | cons {room : Nat} {item : Json} {items : List Json} {e : Expr} {list : List Expr}
      (first : Expr.Spells room item e) (others : Expr.ItemsSpell room items list) :
      Expr.ItemsSpell room (item :: items) (e :: list)

end

inductive Stmt.Spells : Nat → Json → Stmt → Prop where
  | expression {room : Nat} {j : Json} {expr : Expr} (spelled : expr.Spells room j) :
      Stmt.Spells (room + 1) (.tagged "expression" j) (.expression expr)
  | variableDeclaration {room : Nat} {j : Json} {value : Option Json} {name : String}
      {init : Option Expr} (record : Record ["name", "init"] j [some (.ofString name), value])
      (spelled : Expr.OptionalSpells room value init) :
      Stmt.Spells (room + 2) (.tagged "variable_declaration" j) (.variableDeclaration name init)
  | assignment {room : Nat} {j first second : Json} {left right : Expr}
      (record : Record ["left", "right"] j [some first, some second])
      (spelled_left : left.Spells room first) (spelled_right : right.Spells room second) :
      Stmt.Spells (room + 2) (.tagged "assignment" j) (.assignment left right)
  | returning {room : Nat} {j : Json} {value : Option Expr}
      (spelled : Expr.OptionalSpells room (some j) value) :
      Stmt.Spells (room + 1) (.tagged "return" j) (.returning value)
  | goto {room : Nat} {label : String} :
      Stmt.Spells (room + 1) (.tagged "goto" (.ofString label)) (.goto label)

inductive Stmt.ListSpells : Nat → Json → List Stmt → Prop where
  | array {room : Nat} {items : List Json} {list : List Stmt}
      (each : List.Forall₂ (Stmt.Spells room) items list) :
      Stmt.ListSpells (room + 1) (.array items) list

namespace Json

variable {room other : Nat} {j : Json}

theorem depth_le_itemsDepth {items : List Json} (among : j ∈ items) :
    j.depth ≤ itemsDepth items := by
  induction items with
  | nil => cases among
  | cons item rest ih =>
    rw [itemsDepth]
    obtain rfl | later := List.mem_cons.mp among
    · exact Nat.le_max_left _ _
    · exact Nat.le_trans (ih later) (Nat.le_max_right _ _)

theorem depth_le_membersDepth {members : List (JsonText × Json)} {m : JsonText × Json}
    (among : m ∈ members) : m.2.depth ≤ membersDepth members := by
  induction members with
  | nil => cases among
  | cons member rest ih =>
    rw [membersDepth]
    obtain rfl | later := List.mem_cons.mp among
    · exact Nat.le_max_left _ _
    · exact Nat.le_trans (ih later) (Nat.le_max_right _ _)

theorem Field.depth_le {members : List (JsonText × Json)} {name : String} {value : Json}
    (field : Field members name (some value)) : value.depth ≤ membersDepth members := by
  cases field with
  | given found once =>
    subst found
    exact depth_le_membersDepth (m := (some name, value))
      (List.mem_append_right _ List.mem_cons_self)

theorem Record.depth_lt {names : List String} {values : List (Option Json)}
    (record : Record names j values) {value : Json} (among : some value ∈ values) :
    value.depth < j.depth := by
  cases record with
  | @object members _ _ fields =>
    have inside : ∃ name, Field members name (some value) := by
      induction fields with
      | nil => cases among
      | cons field _ ih =>
        obtain own | later := List.mem_cons.mp among
        · exact ⟨_, own ▸ field⟩
        · exact ih later
    obtain ⟨name, field⟩ := inside
    exact Nat.lt_succ_of_le field.depth_le
  | @array items fit =>
    have item : value ∈ items := by simpa using among
    exact Nat.lt_succ_of_le (depth_le_itemsDepth item)

theorem Record.depth_pos {names : List String} {values : List (Option Json)}
    (record : Record names j values) : 0 < j.depth := by
  cases record <;> exact Nat.succ_pos _

-- What fits at the depth of a record under its tag leaves room for the values inside.
theorem Record.opened {names : List String} {values : List (Option Json)} {tag : String}
    (record : Record names j values) (fits : (tagged tag j).depth ≤ other) :
    ∃ room, other = room + 2 ∧ ∀ value, some value ∈ values → value.depth ≤ room := by
  have some_depth := record.depth_pos
  rw [depth_tagged] at fits
  refine ⟨other - 2, by omega, fun value among => ?_⟩
  have inside := record.depth_lt among
  omega

theorem tagged_opened {tag : String} (fits : (tagged tag j).depth ≤ other) :
    ∃ room, other = room + 1 ∧ j.depth ≤ room := by
  rw [depth_tagged] at fits
  exact ⟨other - 1, by omega, by omega⟩

theorem Named.fits {name : String} (named : Named name room j) (fits : j.depth ≤ other) :
    Named name other j := by
  cases named with
  | string => exact .string
  | object =>
    obtain ⟨room, rfl, _⟩ := tagged_opened fits
    exact .object

end Json

theorem Primitive.Spells.fits {room other : Nat} {j : Json} {value : Primitive}
    (spelled : value.Spells room j) (fits : j.depth ≤ other) : value.Spells other j := by
  cases spelled with
  | null named => exact .null (named.fits fits)
  | string => obtain ⟨room, rfl, _⟩ := tagged_opened fits; exact .string
  | boolean => obtain ⟨room, rfl, _⟩ := tagged_opened fits; exact .boolean
  | integer whole digits unsigned =>
    obtain ⟨room, rfl, _⟩ := tagged_opened fits
    exact .integer whole digits unsigned
  | float nearest => obtain ⟨room, rfl, _⟩ := tagged_opened fits; exact .float nearest
  | decimalText read => obtain ⟨room, rfl, _⟩ := tagged_opened fits; exact .decimalText read
  | decimalNumber read => obtain ⟨room, rfl, _⟩ := tagged_opened fits; exact .decimalNumber read
  | char => obtain ⟨room, rfl, _⟩ := tagged_opened fits; exact .char

theorem TypeRef.Spells.fits {room other : Nat} {j : Json} {type : TypeRef}
    (spelled : type.Spells room j) (fits : j.depth ≤ other) : type.Spells other j := by
  obtain ⟨record, marked⟩ := spelled
  obtain _ | other := other
  · exact absurd (Nat.le_zero.mp fits) (Nat.ne_of_gt record.depth_pos)
  · exact .record record marked

mutual

theorem Expr.Spells.fits {room : Nat} {j : Json} {e : Expr} :
    e.Spells room j → ∀ {other : Nat}, j.depth ≤ other → e.Spells other j
  | .invocation record on args marked, other, fits => by
    obtain ⟨room, rfl, inside⟩ := record.opened fits
    exact .invocation record (on.fits fun value own => inside value (by simp [own]))
      (args.fits fun value own => inside value (by simp [own])) marked
  | .arrayLiteral spelled, other, fits => by
    obtain ⟨room, rfl, inside⟩ := tagged_opened fits
    exact .arrayLiteral (spelled.fits inside)
  | .primitive spelled, other, fits => by
    obtain ⟨room, rfl, inside⟩ := tagged_opened fits
    exact .primitive (spelled.fits inside)
  | .binaryOp record operates left right, other, fits => by
    obtain ⟨room, rfl, inside⟩ := record.opened fits
    exact .binaryOp record (operates.fits (inside _ (by simp))) (left.fits (inside _ (by simp)))
      (right.fits (inside _ (by simp)))
  | .ternaryOp record condition whenTrue whenFalse, other, fits => by
    obtain ⟨room, rfl, inside⟩ := record.opened fits
    exact .ternaryOp record (condition.fits (inside _ (by simp)))
      (whenTrue.fits (inside _ (by simp))) (whenFalse.fits (inside _ (by simp)))
  | .complexReference spelled, other, fits => by
    obtain ⟨room, rfl, inside⟩ := tagged_opened fits
    exact .complexReference (spelled.fits inside)
  | .variableRef, other, fits => by
    obtain ⟨room, rfl, _⟩ := tagged_opened fits
    exact .variableRef
  | .fieldRef record on, other, fits => by
    obtain ⟨room, rfl, inside⟩ := record.opened fits
    exact .fieldRef record (on.fits fun value own => inside value (by simp [own]))
  | .typeRef spelled, other, fits => by
    obtain ⟨room, rfl, inside⟩ := tagged_opened fits
    exact .typeRef (spelled.fits inside)
  | .this named, other, fits => .this (named.fits fits)
  | .cast record spelled, other, fits => by
    obtain ⟨room, rfl, inside⟩ := record.opened fits
    exact .cast record (spelled.fits (inside _ (by simp)))

theorem QualifiedName.Spells.fits {room : Nat} {j : Json} {name : QualifiedName} :
    name.Spells room j → ∀ {other : Nat}, j.depth ≤ other → name.Spells other j
  | .literal, other, fits => by
    obtain ⟨room, rfl, _⟩ := tagged_opened fits
    exact .literal
  | .parts spelled, other, fits => by
    obtain ⟨room, rfl, inside⟩ := tagged_opened fits
    exact .parts (spelled.fits inside)

theorem Expr.OptionalSpells.fits {room : Nat} {j : Option Json} {target : Option Expr} :
    Expr.OptionalSpells room j target →
      ∀ {other : Nat}, (∀ value, j = some value → value.depth ≤ other) →
        Expr.OptionalSpells other j target
  | .missing, _, _ => .missing
  | .null, _, _ => .null
  | .given spelled, _, fits => .given (spelled.fits (fits _ rfl))

theorem Expr.ArgsSpell.fits {room : Nat} {j : Option Json} {list : List Expr} :
    Expr.ArgsSpell room j list →
      ∀ {other : Nat}, (∀ value, j = some value → value.depth ≤ other) →
        Expr.ArgsSpell other j list
  | .missing, _, _ => .missing
  | .given spelled, _, fits => .given (spelled.fits (fits _ rfl))

theorem Expr.ListSpells.fits {room : Nat} {j : Json} {list : List Expr} :
    Expr.ListSpells room j list → ∀ {other : Nat}, j.depth ≤ other → Expr.ListSpells other j list
  | .array spelled, other + 1, fits => .array (spelled.fits (Nat.le_of_succ_le_succ fits))

theorem Expr.ItemsSpell.fits {room : Nat} {items : List Json} {list : List Expr} :
    Expr.ItemsSpell room items list →
      ∀ {other : Nat}, itemsDepth items ≤ other → Expr.ItemsSpell other items list
  | .nil, _, _ => .nil
  | .cons first others, _, fits =>
    .cons (first.fits (Nat.max_le.mp fits).1) (others.fits (Nat.max_le.mp fits).2)

end

theorem Stmt.Spells.fits {room other : Nat} {j : Json} {s : Stmt} (spelled : s.Spells room j)
    (fits : j.depth ≤ other) : s.Spells other j := by
  cases spelled with
  | expression spelled =>
    obtain ⟨room, rfl, inside⟩ := tagged_opened fits
    exact .expression (spelled.fits inside)
  | variableDeclaration record spelled =>
    obtain ⟨room, rfl, inside⟩ := record.opened fits
    exact .variableDeclaration record (spelled.fits fun value own => inside value (by simp [own]))
  | assignment record left right =>
    obtain ⟨room, rfl, inside⟩ := record.opened fits
    exact .assignment record (left.fits (inside _ (by simp))) (right.fits (inside _ (by simp)))
  | returning spelled =>
    obtain ⟨room, rfl, inside⟩ := tagged_opened fits
    exact .returning (spelled.fits fun value own => Option.some.inj own ▸ inside)
  | goto =>
    obtain ⟨room, rfl, _⟩ := tagged_opened fits
    exact .goto

theorem Stmt.ListSpells.fits {room other : Nat} {j : Json} {list : List Stmt}
    (spelled : ListSpells room j list) (fits : j.depth ≤ other) : ListSpells other j list := by
  obtain ⟨each⟩ := spelled
  obtain _ | other := other
  · cases fits
  refine .array ?_
  replace fits := Nat.le_of_succ_le_succ fits
  induction each with
  | nil => exact .nil
  | cons first _ ih =>
    obtain ⟨own, others⟩ := Nat.max_le.mp fits
    exact .cons (first.fits own) (ih others)

end HotkeyScript
