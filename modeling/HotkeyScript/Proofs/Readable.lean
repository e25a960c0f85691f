import HotkeyScript.Proofs.Layout
namespace HotkeyScript

namespace Text

def isWordChar (c : Char) : Bool := c.isAlphanum || c = '_'

def isWordStart (c : Char) : Bool := c.isAlpha || c = '_'

def IsIdentifier (name : String) : Prop :=
  ∃ first rest, name.toList = first :: rest ∧ isWordStart first ∧ ∀ c ∈ rest, isWordChar c

-- An identifier that is not one of the two words for truth values.
def IsName (name : String) : Prop :=
  IsIdentifier name ∧ name ≠ Token.trueText ∧ name ≠ Token.falseText

def listed : List (List Char) → List Char
  | [] => []
  | text :: rest => text ++ rest.flatMap ([',', ' '] ++ ·)

def entry (key value : List Char) : List Char := key ++ [' ', ':', '=', ' '] ++ value

def mapped (entries : List (List Char)) : List Char :=
  if entries.isEmpty then ['\x7b', '\x7d'] else ['\x7b', ' '] ++ listed entries ++ [' ', '\x7d']

def quoted (text : String) : List Char :=
  Token.quote :: text.toList.flatMap escapedChar ++ [Token.quote]

end Text

namespace Expr

inductive Readable : Expr → Prop where
  | name {name : String} (word : Text.IsName name) : Readable (.variableRef name)
  | integer (value : Int64) : Readable (.primitive (.integer value))
  | boolean (value : Bool) : Readable (.primitive (.boolean value))
  | string (text : String) : Readable (.primitive (.string text))
  | binary (operator : BinaryOperator) {left right : Expr} :
      Readable left → Readable right → Readable (.binaryOp operator left right)
  | array {elements : List Expr} : (∀ e ∈ elements, Readable e) → Readable (.arrayLiteral elements)
  | call {method : String} {args : List Expr} (word : Text.IsName method) :
      (∀ e ∈ args, Readable e) → Readable (.invocation none method args false)
  | method {target : Expr} {method : String} {args : List Expr} :
      Readable target → (word : Text.IsName method) → (∀ e ∈ args, Readable e) →
      Readable (.invocation (some target) method args false)
  | field {target : Expr} {field : String} :
      Readable target → (word : Text.IsIdentifier field) → Readable (.fieldRef (some target) field)
  | index {container index : Expr} :
      Readable container → Readable index →
      Readable (.invocation none "Index" [container, index] true)
  | map {keys values : List Expr} (same : keys.length = values.length) :
      (∀ e ∈ keys, Readable e) → (∀ e ∈ values, Readable e) →
      Readable (.invocation none "Dictionary" [.arrayLiteral keys, .arrayLiteral values] true)

theorem Readable.outward {e : Expr} (readable : e.Readable) : e.isInternalType = false := by
  cases readable <;> rfl

mutual

def script : Expr → List Char
  | .variableRef name => name.toList
  | .primitive (.integer value) => (Numeral.ofInt value.toInt).text
  | .primitive (.boolean value) => (if value then Token.trueText else Token.falseText).toList
  | .primitive (.string text) => Text.quoted text
  | .binaryOp operator left right =>
    '(' :: left.script ++ ' ' :: operator.token.toList ++ ' ' :: right.script ++ [')']
  | .arrayLiteral elements => '[' :: Text.listed (scripts elements) ++ [']']
  | .invocation none method args false =>
    method.toList ++ '(' :: Text.listed (scripts args) ++ [')']
  | .invocation (some target) method args false =>
    target.script ++ '.' :: method.toList ++ '(' :: Text.listed (scripts args) ++ [')']
  | .fieldRef (some target) field => target.script ++ '.' :: field.toList
  | .invocation none "Index" [container, index] true =>
    container.script ++ '[' :: index.script ++ [']']
  | .invocation none "Dictionary" [.arrayLiteral keys, .arrayLiteral values] true =>
    Text.mapped ((scripts keys).zipWith Text.entry (scripts values))
  | _ => []

def scripts : List Expr → List (List Char)
  | [] => []
  | e :: rest => e.script :: scripts rest

end

theorem scripts_eq_map (es : List Expr) : scripts es = es.map script := by
  induction es with
  | nil => rfl
  | cons e rest ih => simp [scripts, ih]

end Expr

def Item.script : Item → List Char
  | .fixed written => written.contents.toList
  | .part _ e => e.script

@[simp] theorem Item.script_text (text : String) :
    (Item.fixed (.text text)).script = text.toList := by simp [script]

@[simp] theorem Item.script_space : (Item.fixed .space).script = [' '] := by decide

@[simp] theorem Item.script_listSeparator : (Item.fixed .listSeparator).script = [',', ' '] := by
  decide

@[simp] theorem Item.script_spaced (token : String) :
    (Item.fixed (.spaced token)).script = ' ' :: token.toList ++ [' '] := by
  rw [script, Emission.spaced, Emission.contents_andThen _ rfl, Emission.contents_andThen _ rfl]
  simp [Emission.space, Token.space]

@[simp] theorem Item.script_assignment :
    (Item.fixed .assignment).script = [' ', ':', '=', ' '] := by decide

@[simp] theorem Item.script_part (d : Descent) (e : Expr) : (Item.part d e).script = e.script := rfl

namespace Layout

def script (l : Layout) : List Char := l.flatMap Item.script

@[simp] theorem script_nil : script [] = [] := rfl

@[simp] theorem script_cons (item : Item) (l : Layout) :
    script (item :: l) = item.script ++ script l := rfl

@[simp] theorem script_append (first second : Layout) :
    script (first ++ second) = script first ++ script second := by
  simp [script]

theorem script_separated (ls : List Layout) :
    script (separated ls) = Text.listed (ls.map script) := by
  fun_induction separated ls with
  | case1 => rfl
  | case2 l => simp [Text.listed]
  | case3 l rest nonempty ih =>
    obtain ⟨next, others, rfl⟩ : ∃ next others, rest = next :: others := by
      cases rest with
      | nil => exact absurd rfl nonempty
      | cons next others => exact ⟨next, others, rfl⟩
    simp [ih, Text.listed]

theorem script_parts (es : List Expr) :
    script (separated (parts es)) = Text.listed (Expr.scripts es) := by
  rw [script_separated, Expr.scripts_eq_map]
  simp [parts, Function.comp_def]

theorem script_call (method : String) (args : List Expr) :
    script (call method args)
      = method.toList ++ '(' :: Text.listed (Expr.scripts args) ++ [')'] := by
  simp [call, script_parts, Token.parenOpen, Token.parenClose]

theorem script_map (keys values : List Expr) :
    script (map (entries keys values))
      = Text.mapped ((Expr.scripts keys).zipWith Text.entry (Expr.scripts values)) := by
  have written : (entries keys values).map script
      = (Expr.scripts keys).zipWith Text.entry (Expr.scripts values) := by
    simp [entries, Expr.scripts_eq_map, List.map_zipWith, List.zipWith_map, Text.entry]
  rw [← written]
  unfold map Text.mapped
  cases entries keys values with
  | nil => simp [Token.blockOpen, Token.blockClose]
  | cons entry rest => simp [script_separated, Token.blockOpen, Token.blockClose]

end Layout

namespace Expr

theorem join_escapedPieces (c : Char) :
    (escapedPieces c).flatMap String.toList = escapedChar c := by
  unfold escapedPieces
  split
  · simp
  · induction escapedChar c with
    | nil => rfl
    | cons d rest ih => simp [ih]

theorem contents_stringLiteral {options : Options} (escaped : options.escapeStrings)
    (text : String) : (stringLiteral options text).contents.toList = Text.quoted text := by
  have pieces : (Emission.ofPieces (stringPieces options text)).contents.toList
      = text.toList.flatMap escapedChar := by
    simp [Emission.contents, Emission.ofPieces, stringPieces, escaped, List.flatMap_assoc,
      join_escapedPieces]
  rw [stringLiteral, Emission.contents_andThen _ rfl, Emission.contents_andThen _ rfl]
  simp [pieces, Text.quoted]

theorem layout_script {options : Options} (escaped : options.escapeStrings)
    (separated : options.fieldSeparator) {e : Expr} (readable : e.Readable) :
    (e.layout options false).script = e.script := by
  cases readable with
  | name word => simp [layout, script]
  | integer value => simp [layout, script, Primitive.emission]
  | boolean value => simp [layout, script, Primitive.emission]
  | string text =>
    simp [layout, script, Primitive.emission, Item.script, contents_stringLiteral escaped]
  | binary operator left right =>
    simp [layout, script, Layout.parenthesizedUnless, Token.parenOpen, Token.parenClose]
  | array elements =>
    simp [layout, script, Layout.array, Layout.script_parts, Token.arrayOpen, Token.arrayClose]
  | call word args => simp [layout, script, Layout.invocation, written?, Layout.script_call]
  | method target word args =>
    simp [layout, script, Layout.invocation, written?, target.outward, Layout.script_call,
      Token.concatenate]
  | field target word => simp [layout, script, separated, target.outward, Token.concatenate]
  | index container index =>
    have found : Intrinsic.find? "Index" 2 = some .indexAccess := Intrinsic.find?_self .indexAccess
    simp [layout, script, Layout.invocation, written?, Layout.markerCall, found, Token.arrayOpen,
      Token.arrayClose]
  | map same keys values =>
    have found : Intrinsic.find? "Dictionary" 2 = some .mapLiteral :=
      Intrinsic.find?_self .mapLiteral
    simp [layout, script, Layout.invocation, written?, Layout.markerCall, found, Layout.mapOf,
      same, Layout.script_map]

-- The parts of a readable expression are readable, and none of them is a whole statement.
theorem Readable.parts {e : Expr} (readable : e.Readable) (options : Options) (bare : Bool) :
    (e.layout options bare).Holds (fun d c => d ≠ .same ∧ c.Readable) (fun _ => True) := by
  cases readable with
  | binary operator left right =>
    cases bare <;> simp [layout, Layout.parenthesizedUnless, Item.Holds, left, right]
  | array elements => simpa [layout] using elements
  | call word args => simpa [layout, Layout.invocation, written?] using args
  | method target word args =>
    simpa [layout, Layout.invocation, written?, target.outward, Item.Holds] using ⟨target, args⟩
  | field target word => simp [layout, Item.Holds, target]
  | index container index =>
    have found : Intrinsic.find? "Index" 2 = some .indexAccess := Intrinsic.find?_self .indexAccess
    simp [layout, Layout.invocation, written?, Layout.markerCall, found, Item.Holds, container,
      index]
  | map same keys values =>
    have found : Intrinsic.find? "Dictionary" 2 = some .mapLiteral :=
      Intrinsic.find?_self .mapLiteral
    simpa [layout, Layout.invocation, written?, Layout.markerCall, found, Layout.mapOf, same,
      Layout.holds_map same] using ⟨keys, values⟩
  | _ => simp [layout, Item.Holds]

end Expr

theorem Layout.contents_eq_script {options : Options} {context : Context} {l : Layout}
    (written : (l.emission options context).fault = none)
    (parts : ∀ d c, .part d c ∈ l → (c.emission options (d.context context)).fault = none →
      (c.emission options (d.context context)).contents.toList = c.script) :
    (l.emission options context).contents.toList = l.script := by
  induction l with
  | nil => rfl
  | cons item rest ih =>
    rw [emission_cons, Emission.fault_andThen, Option.or_eq_none_iff] at written
    obtain ⟨own, later⟩ := written
    have others := ih later fun d c part => parts d c (List.mem_cons_of_mem item part)
    rw [emission_cons, Emission.contents_andThen _ own, String.toList_append, others, script_cons]
    cases item with
    | fixed written => rfl
    | part d c => rw [Item.script_part, ← parts d c List.mem_cons_self own]; rfl

namespace Expr

theorem contents_eq_script {options : Options} (escaped : options.escapeStrings)
    (separated : options.fieldSeparator) {e : Expr} (readable : e.Readable) {context : Context}
    (position : context.statement = false) (written : (e.emission options context).fault = none) :
    (e.emission options context).contents.toList = e.script := by
  induction e using Expr.layout_induction generalizing context with
  | step e ih =>
    have laid := emission_of_fine written
    rw [position] at laid
    rw [laid] at written ⊢
    rw [← layout_script escaped separated readable]
    refine Layout.contents_eq_script written fun d c part fine => ?_
    obtain ⟨inner, part_readable⟩ := readable.parts options false _ part
    refine ih options false d c part part_readable ?_ fine
    cases d with
    | same => exact absurd rfl inner
    | operand => rfl
    | nested => rfl

end Expr
end HotkeyScript
