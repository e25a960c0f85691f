import HotkeyScript.Proofs.LineStructure
import HotkeyScript.Proofs.Styles
import HotkeyScript.Text.Scanning
namespace HotkeyScript

namespace Emission

def brackets : List Emission :=
  [Token.parenOpen, Token.parenClose, Token.arrayOpen, Token.arrayClose, Token.blockOpen,
    Token.blockClose].map .text

def Closed (a : Emission) : Prop := a.fault = none → Text.Closed a.contents.toList

theorem Closed.andThen {a b : Emission} (first : a.Closed) (second : b.Closed) :
    (a ++ b).Closed := by
  intro fine
  rw [fault_andThen, Option.or_eq_none_iff] at fine
  obtain ⟨fine_a, fine_b⟩ := fine
  rw [contents_andThen b fine_a, String.toList_append]
  exact (first fine_a).append (second fine_b)

theorem closed_text {text : String} (unmarked : Text.Unmarked text.toList) :
    (Emission.text text).Closed := by
  intro _
  rw [contents_text]
  exact unmarked.closed

theorem closed_nothing : nothing.Closed := fun _ => Text.closed_nil

theorem closed_fail (f : Fault) : (fail f).Closed := nofun

theorem closed_of_unmarked {a : Emission} (unmarked : Text.Unmarked a.contents.toList) : a.Closed :=
  fun _ => unmarked.closed

theorem closed_jump {label : String} (unmarked : Text.Unmarked label.toList) :
    (jump label).Closed :=
  .andThen (.andThen (closed_text (by decide)) (closed_text (by decide))) (closed_text unmarked)

theorem closed_punctuation :
    ∀ written ∈ punctuation, written ∈ brackets ∨ Text.Unmarked written.contents.toList := by
  decide

theorem not_mem_brackets_of_closed {a : Emission} (closed : a.Closed) : a ∉ brackets := by
  have opened : ∀ bracket ∈ brackets, bracket.fault = none ∧
      Text.Nesting.after {} bracket.contents.toList ≠ some {} := by decide
  intro among
  obtain ⟨fine, pending⟩ := opened a among
  exact pending (closed fine [])

end Emission

theorem Numeral.unmarked_of_spelledWith {text : List Char} (spelled : ∀ c ∈ text, spelledWith c) :
    Text.Unmarked (String.ofList text).toList := by
  have other : Text.marks.all fun c => !spelledWith c := by decide
  rw [String.toList_ofList]
  intro c among marked
  have apart := List.all_eq_true.mp other c marked
  simp [spelled c among] at apart

theorem Text.after_escaped (text : List Char) (pending : List Bracket) :
    Nesting.after ⟨true, pending⟩ (text.flatMap escapedChar) = some ⟨true, pending⟩ := by
  induction text with
  | nil => rfl
  | cons c text ih =>
    have here : Nesting.after ⟨true, pending⟩ (escapedChar c) = some ⟨true, pending⟩ := by
      fun_cases escapedChar c with
      | case1 => rfl
      | case6 noQuote _ _ _ _ =>
        exact Nesting.after_inString (by simpa using Ne.symm noQuote) pending
      | _ => rfl
    rw [List.flatMap_cons, Nesting.after_append, here, Option.bind_some, ih]

theorem closed_stringLiteral {options : Options} {text : String}
    (quoted : options.escapeStrings ∨ Token.quote ∉ text.toList) :
    (stringLiteral options text).Closed := by
  intro _
  cases escaped : options.escapeStrings with
  | true =>
    rw [Expr.contents_stringLiteral escaped]
    exact Text.closed_string (Text.after_escaped text.toList)
  | false =>
    rw [contents_stringLiteral_raw escaped]
    have noQuote : Token.quote ∉ text.toList := by simpa [escaped] using quoted
    exact Text.closed_string (Text.Nesting.after_inString noQuote)

theorem Primitive.closed_emission {options : Options} (escaped : options.escapeStrings)
    (value : Primitive) : (value.emission options).Closed := by
  cases value with
  | null =>
    have spelled : Token.nullText.toList = [Token.quote, Token.quote] := by decide
    intro _
    rw [emission, Emission.contents_text, spelled]
    have empty (pending : List Text.Bracket) :
        Text.Nesting.after ⟨true, pending⟩ [] = some ⟨true, pending⟩ := rfl
    exact Text.closed_string empty
  | string text => exact closed_stringLiteral (.inl escaped)
  | boolean value => cases value <;> exact Emission.closed_text (by decide)
  | integer value =>
    have wellFormed := Numeral.ofInt_wellFormed value.toInt
    exact Emission.closed_text (Numeral.unmarked_of_spelledWith wellFormed.spelledWith)
  | float value =>
    simp only [emission]
    split
    · have wellFormed := value.scriptNumeral_wellFormed
      exact Emission.closed_text (Numeral.unmarked_of_spelledWith wellFormed.spelledWith)
    · split <;> exact Emission.closed_fail _
  | decimal value =>
    exact Emission.closed_text (Numeral.unmarked_of_spelledWith value.spelledWith_of_mem_text)
  | char value => exact Emission.closed_fail _

-- The brackets that an item puts down, its own parts and the inside of literals apart.
def Item.brackets : Item → List Char
  | .fixed written => if written ∈ Emission.brackets then written.contents.toList else []
  | .part .. => []

namespace Layout

def brackets (l : Layout) : List Char := l.flatMap Item.brackets

@[simp] theorem brackets_nil : brackets [] = [] := rfl

@[simp] theorem brackets_append (first second : Layout) :
    brackets (first ++ second) = brackets first ++ brackets second := by
  simp [brackets]

@[simp] theorem brackets_part (d : Descent) (e : Expr) (l : Layout) :
    brackets (.part d e :: l) = brackets l := rfl

theorem brackets_fixed {written : Emission} (closed : written.Closed) (l : Layout) :
    brackets (.fixed written :: l) = brackets l := by
  simp [brackets, Item.brackets, Emission.not_mem_brackets_of_closed closed]

theorem brackets_punctuation {written : Emission} (other : written ∉ Emission.brackets)
    (l : Layout) : brackets (.fixed written :: l) = brackets l := by
  simp [brackets, Item.brackets, other]

theorem spaced_not_bracket (token : String) : Emission.spaced token ∉ Emission.brackets := by
  simp [Emission.brackets, Emission.spaced, Emission.space, Emission.text, Emission.andThen_of_none]

@[simp] theorem brackets_spaced (token : String) (l : Layout) :
    brackets (.fixed (.spaced token) :: l) = brackets l :=
  brackets_punctuation (spaced_not_bracket token) l

@[simp] theorem brackets_refusal (cause : Malformation) : brackets (refusal cause) = [] :=
  brackets_fixed (Emission.closed_fail _) []

@[simp] theorem brackets_separated (ls : List Layout) :
    brackets (separated ls) = ls.flatMap brackets := by
  fun_induction separated ls with
  | case1 => rfl
  | case2 l => simp
  | case3 l rest nonempty ih =>
    rw [brackets_append, brackets_punctuation (by decide), ih, List.flatMap_cons]

theorem brackets_parts (es : List Expr) : brackets (separated (parts es)) = [] := by
  simp [parts]

theorem brackets_token {token : String} (bracket : .text token ∈ Emission.brackets) (l : Layout) :
    brackets (.fixed (.text token) :: l) = token.toList ++ brackets l := by
  simp [brackets, Item.brackets, bracket]

def Paired (l : Layout) : Prop :=
  brackets l = [] ∨ ∃ b : Text.Bracket, brackets l = [b.opening, b.closing]

theorem paired_call {method : String} (unmarked : Text.Unmarked method.toList) (args : List Expr) :
    (call method args).Paired := by
  refine .inr ⟨.parenthesis, ?_⟩
  rw [call, brackets_append, brackets_append, brackets_parts,
    brackets_fixed (Emission.closed_text unmarked), brackets_token (by decide),
    brackets_token (by decide)]
  decide

theorem paired_array (elements : List Expr) : (array elements).Paired := by
  refine .inr ⟨.square, ?_⟩
  rw [array, brackets_append, ← List.singleton_append, brackets_append, brackets_parts,
    brackets_token (by decide), brackets_token (by decide)]
  decide

theorem paired_map (keys values : List Expr) : (map (entries keys values)).Paired := by
  have each : (entries keys values).flatMap brackets = [] := by
    rw [List.flatMap_eq_nil_iff]
    intro l member
    obtain ⟨i, bound, rfl⟩ := List.mem_iff_getElem.mp member
    simp only [entries, List.getElem_zipWith, brackets_part]
    exact brackets_punctuation (by decide) _
  refine .inr ⟨.curly, ?_⟩
  unfold map
  split
  · rw [brackets_token (by decide), brackets_token (by decide)]
    decide
  · rw [brackets_append, brackets_append, brackets_separated, each, brackets_token (by decide),
      brackets_punctuation (by decide), brackets_punctuation (by decide),
      brackets_token (by decide)]
    decide

theorem paired_parenthesizedUnless (bare : Bool) {body : Layout} (none : brackets body = []) :
    (parenthesizedUnless bare body).Paired := by
  cases bare with
  | true => exact .inl none
  | false =>
    refine .inr ⟨.parenthesis, ?_⟩
    simp only [parenthesizedUnless, Bool.false_eq_true, if_false]
    rw [brackets_append, brackets_token (by decide), none, brackets_token (by decide)]
    decide

theorem brackets_segment {options : Options} (escaped : options.escapeStrings) {e : Expr}
    (unmarked : ∀ text, e = .string text → Text.Unmarked text.toList) :
    brackets (segment options e) = [] := by
  cases e with
  | primitive value =>
    cases value with
    | string text => exact brackets_fixed (Emission.closed_text (unmarked text rfl)) []
    | _ => exact brackets_fixed (Primitive.closed_emission escaped _) []
  | complexReference name =>
    rw [segment, brackets_punctuation (by decide), brackets_part,
      brackets_punctuation (by decide), brackets_nil]
  | _ => exact brackets_fixed (Emission.closed_fail _) []

end Layout

namespace Expr

theorem mem_segmentRawTexts {segments : List Expr} {text : String}
    (member : .string text ∈ segments) : text ∈ segmentRawTexts segments := by
  induction segments with
  | nil => cases member
  | cons segment rest ih =>
    rcases List.mem_cons.mp member with rfl | later
    · exact List.mem_append_left _ List.mem_cons_self
    · exact List.mem_append_right _ (ih later)

theorem paired_markerCall {method : String} {args : List Expr}
    (unmarked : Text.Unmarked method.toList)
    (labelled : ∀ text ∈ labelTexts method args, Text.Unmarked text.toList) :
    (Layout.markerCall method args).Paired := by
  unfold Layout.markerCall
  cases found : Intrinsic.find? method args.length with
  | none => exact Layout.paired_call unmarked args
  | some i =>
    cases Intrinsic.takes_of_find? found
    case labelJump label =>
      simp only [Layout.jumpTo]
      split
      · next name =>
        have own := labelled name (by simp only [labelTexts, found, List.mem_singleton])
        exact .inl (Layout.brackets_fixed (Emission.closed_jump own) [])
      · exact .inl (Layout.brackets_refusal _)
    case operate selector left right =>
      simp only [Layout.operation]
      split
      · split
        · exact .inl (by simp)
        · exact .inl (Layout.brackets_refusal _)
      · exact .inl (Layout.brackets_refusal _)
    case indexedAssign key index container value =>
      exact .inl (Layout.brackets_punctuation (by decide) _)
    case indexAccess container index =>
      refine .inr ⟨.square, ?_⟩
      rw [Layout.brackets_part, Layout.brackets_token (by decide), Layout.brackets_part,
        Layout.brackets_token (by decide)]
      decide
    case mapLiteral keys values =>
      simp only [Layout.mapOf]
      split
      · split
        · exact Layout.paired_map _ _
        · exact .inl (Layout.brackets_refusal _)
      · exact .inl (Layout.brackets_refusal _)
    all_goals exact .inl rfl

theorem paired_layout {options : Options} (escaped : options.escapeStrings) {e : Expr}
    (unmarked : ∀ text ∈ e.rawTexts, Text.Unmarked text.toList) (bare : Bool) :
    (e.layout options bare).Paired := by
  cases e with
  | invocation target method args marker =>
    simp only [rawTexts, List.forall_mem_append, List.forall_mem_cons] at unmarked
    obtain ⟨⟨_, named, labelled⟩, _⟩ := unmarked
    simp only [layout, Layout.invocation]
    split
    · exact .inl (Layout.brackets_refusal _)
    · have joined : ∀ l : Layout, Layout.brackets (.fixed (.text Token.concatenate) :: l)
          = l.brackets := Layout.brackets_punctuation (by decide)
      simpa [Layout.Paired, joined] using Layout.paired_call named args
    · exact paired_markerCall named labelled
    · exact Layout.paired_call named args
  | arrayLiteral elements => exact Layout.paired_array elements
  | primitive value => exact .inl (Layout.brackets_fixed (value.closed_emission escaped) [])
  | binaryOp operator left right => exact Layout.paired_parenthesizedUnless bare (by simp)
  | ternaryOp condition whenTrue whenFalse => exact .inl (by simp [layout])
  | complexReference name =>
    cases name with
    | literal text =>
      have own := unmarked text List.mem_cons_self
      exact .inl (Layout.brackets_fixed (Emission.closed_text own) [])
    | parts segments =>
      refine .inl ?_
      rw [layout, Layout.brackets, List.flatMap_assoc, List.flatMap_eq_nil_iff]
      intro segment member
      refine Layout.brackets_segment escaped fun text same => ?_
      exact unmarked text (mem_segmentRawTexts (same ▸ member))
  | variableRef name =>
    have own := unmarked name List.mem_cons_self
    exact .inl (Layout.brackets_fixed (Emission.closed_text own) [])
  | fieldRef target field =>
    have own := unmarked field (by simp [rawTexts])
    cases target with
    | none => exact .inl (Layout.brackets_fixed (Emission.closed_text own) [])
    | some target =>
      refine .inl ?_
      rw [layout, Layout.brackets_part, Layout.brackets_punctuation (by split <;> decide),
        Layout.brackets_fixed (Emission.closed_text own), Layout.brackets_nil]
  | typeRef type =>
    cases internal : type.internal with
    | true => exact .inl (by simp [layout, internal])
    | false =>
      have own := unmarked type.name (by simp [rawTexts, internal])
      refine .inl ?_
      simp only [layout, internal, Bool.false_eq_true, if_false]
      exact Layout.brackets_fixed (Emission.closed_text own) []
  | _ => exact .inl (Layout.brackets_fixed (Emission.closed_fail _) [])

end Expr

def Item.Legible (options : Options) (context : Context) : Item → Prop
  | .fixed written => written ∈ Emission.brackets ∨ written.Closed
  | .part d e => (e.emission options (d.context context)).Closed

theorem Item.quote_not_mem_brackets (item : Item) : Token.quote ∉ item.brackets := by
  have each : ∀ bracket ∈ Emission.brackets, Token.quote ∉ bracket.contents.toList := by decide
  cases item with
  | part d e => simp [brackets]
  | fixed written =>
    rw [brackets]
    split
    · next among => exact each written among
    · simp

theorem Item.after_emission {options : Options} {context : Context} {item : Item}
    (legible : item.Legible options context) (fine : (item.emission options context).fault = none)
    (pending : List Text.Bracket) :
    Text.Nesting.after ⟨false, pending⟩ (item.emission options context).contents.toList
      = Text.Nesting.after ⟨false, pending⟩ item.brackets := by
  cases item with
  | part d e => exact legible fine pending
  | fixed written =>
    rw [brackets]
    split
    · rfl
    · next other => exact (legible.resolve_left other) fine pending

namespace Layout

variable {options : Options} {context : Context} {l : Layout}

-- Reading what is written of a layout comes to reading its brackets alone.
theorem after_emission (legible : ∀ item ∈ l, item.Legible options context)
    (fine : (l.emission options context).fault = none) (pending : List Text.Bracket) :
    Text.Nesting.after ⟨false, pending⟩ (l.emission options context).contents.toList
      = Text.Nesting.after ⟨false, pending⟩ l.brackets := by
  induction l generalizing pending with
  | nil => rfl
  | cons item rest ih =>
    obtain ⟨own, others⟩ := List.forall_mem_cons.mp legible
    rw [emission_cons, Emission.fault_andThen, Option.or_eq_none_iff] at fine
    have whole : brackets (item :: rest) = item.brackets ++ brackets rest := rfl
    rw [emission_cons, Emission.contents_andThen _ fine.1, String.toList_append,
      Text.Nesting.after_append, Item.after_emission own fine.1, whole, Text.Nesting.after_append]
    refine Option.bind_congr fun nesting reached => ?_
    have outside := Text.Nesting.inString_of_after item.quote_not_mem_brackets reached
    cases nesting with
    | mk inString open' =>
      cases outside
      exact ih others fine.2 open'

theorem closed_emission (paired : l.Paired) (legible : ∀ item ∈ l, item.Legible options context) :
    (l.emission options context).Closed := by
  intro fine pending
  rw [after_emission legible fine]
  rcases paired with none | ⟨b, pair⟩
  · rw [none]
    rfl
  · rw [pair]
    cases b <;> rfl

theorem legible_of_drawn {texts : List String} (escaped : options.escapeStrings)
    (unmarked : ∀ text ∈ texts, Text.Unmarked text.toList) (drawn : l.DrawnFrom options texts)
    {styled : Options}
    (parts : ∀ d c, .part d c ∈ l → c.rawTexts ⊆ texts →
      (c.emission styled (d.context context)).Closed) :
    ∀ item ∈ l, item.Legible styled context := by
  intro item member
  cases drawn item member with
  | punctuation among =>
    exact (Emission.closed_punctuation _ among).imp_right Emission.closed_of_unmarked
  | raw among => exact .inr (Emission.closed_text (unmarked _ among))
  | jump among => exact .inr (Emission.closed_jump (unmarked _ among))
  | literal value => exact .inr (value.closed_emission escaped)
  | refusal fault => exact .inr (Emission.closed_fail fault)
  | part descent within => exact parts _ _ member within

end Layout

-- Every literal is written so that it ends where it should.
def Options.Quotes (options : Options) (literals : List Primitive) : Prop :=
  options.escapeStrings ∨ ∀ text, .string text ∈ literals → Token.quote ∉ text.toList

section

variable {options : Options}

theorem Expr.closed_emission {e : Expr}
    (unmarked : ∀ text ∈ e.rawTexts, Text.Unmarked text.toList)
    (quotes : options.Quotes e.literals) (context : Context) :
    (e.emission options context).Closed := by
  induction e using Expr.layout_induction generalizing context with
  | step e ih =>
    rw [emission_eq_layout]
    split
    · exact Emission.closed_fail _
    · by_cases string : ∃ text, e = .string text
      · obtain ⟨text, rfl⟩ := string
        have closed : (stringLiteral options text).Closed :=
          closed_stringLiteral (quotes.imp_right fun each => each text (List.mem_singleton_self _))
        simpa [layout, Expr.string, Item.emission, Primitive.emission] using closed
      · -- No other layout depends on escapes, so they may be taken to be on.
        let escaping : Options := { options with escapeStrings := true }
        have marks (target : Expr) (name : String) (_ : e = .fieldRef (some target) name) :
            fieldMark options target = fieldMark escaping target := rfl
        have same := layout_restyled (not_exists.mp string) marks context.statement
        rw [same]
        refine Layout.closed_emission (paired_layout rfl unmarked _)
          (Layout.legible_of_drawn rfl unmarked (layout_drawn (List.Subset.refl _) _) ?_)
        intro d c part within
        refine ih options _ d c (same ▸ part) (fun text own => unmarked text (within own)) ?_ _
        refine quotes.imp_right fun each text own => each text ?_
        exact Expr.subset_of_part Frame.literals_fill part own

theorem Stmt.closed_emission {s : Stmt}
    (unmarked : ∀ text ∈ s.rawTexts, Text.Unmarked text.toList)
    (quotes : options.Quotes s.literals) (context : Context) :
    (s.emission options context).Closed := by
  have assignment : Emission.assignment.Closed := Emission.closed_of_unmarked (by decide)
  cases s with
  | expression expr => exact Expr.closed_emission unmarked quotes _
  | variableDeclaration name init =>
    obtain ⟨named, valued⟩ := List.forall_mem_cons.mp unmarked
    refine .andThen (.andThen (Emission.closed_text named) assignment) ?_
    cases init with
    | none =>
      let escaping : Options := { options with escapeStrings := true }
      have escaped : escaping.escapeStrings := rfl
      exact Primitive.closed_emission escaped .null
    | some init => exact Expr.closed_emission valued quotes _
  | assignment left right =>
    obtain ⟨target, value⟩ := List.forall_mem_append.mp unmarked
    have each {e : Expr} (within : e.literals ⊆ (Stmt.assignment left right).literals) :
        options.Quotes e.literals :=
      quotes.imp_right fun each text own => each text (within own)
    exact .andThen (.andThen (Expr.closed_emission target (each (List.subset_append_left _ _)) _)
      assignment) (Expr.closed_emission value (each (List.subset_append_right _ _)) _)
  | returning value =>
    refine .andThen (Emission.closed_of_unmarked (by decide)) ?_
    cases value with
    | none => exact Emission.closed_nothing
    | some value =>
      exact .andThen (Emission.closed_of_unmarked (by decide))
        (Expr.closed_emission unmarked quotes _)
  | goto label => exact Emission.closed_jump (unmarked label List.mem_cons_self)

end

-- What can be written of an expression or a statement is well bracketed, quotes taken into
-- account, when no name in it holds a bracket or a quote and no string literal a quote that is
-- not escaped.
theorem Printer.emit_well_bracketed (options : Options) :
    (∀ (e : Expr) (context : Context), (∀ text ∈ e.rawTexts, Text.Unmarked text.toList) →
      options.Quotes e.literals → (Printer.emit { options } (.expression e context)).2 = none →
      Text.WellBracketed (Printer.emit { options } (.expression e context)).1.text) ∧
    ∀ (s : Stmt) (context : Context), (∀ text ∈ s.rawTexts, Text.Unmarked text.toList) →
      options.Quotes s.literals → (Printer.emit { options } (.statement s context)).2 = none →
      Text.WellBracketed (Printer.emit { options } (.statement s context)).1.text := by
  simp only [emit_fresh, Option.map_eq_none_iff]
  constructor
  · intro e context unmarked quotes fine
    exact e.closed_emission unmarked quotes context fine []
  · intro s context unmarked quotes fine
    exact s.closed_emission unmarked quotes context fine []

-- A string of brackets between brackets, and one with a quote that is escaped.
theorem Printer.emit_well_bracketed_of_strings :
    let escaping : Options := { escapeStrings := true }
    let e : Expr := .markerCall "Index" [.var "x", .string "](\x7b"]
    let s : Stmt := .assignment e (.array [.string "\x22)", .call "f" [.null]])
    (∀ text ∈ e.rawTexts, Text.Unmarked text.toList) ∧ Options.Quotes {} e.literals ∧
      (Printer.emit {} (.ofExpr e)).1.text = "x[\x22](\x7b\x22]" ∧
      Text.WellBracketed (Printer.emit {} (.ofExpr e)).1.text ∧
      (∀ text ∈ s.rawTexts, Text.Unmarked text.toList) ∧ escaping.Quotes s.literals ∧
      (Printer.emit { options := escaping } (.ofStmt s)).1.text
        = "x[\x22](\x7b\x22] := [\x22\x22\x22)\x22, f(\x22\x22)]" ∧
      Text.WellBracketed (Printer.emit { options := escaping } (.ofStmt s)).1.text := by
  intro escaping e s
  have named : ∀ text ∈ e.rawTexts, Text.Unmarked text.toList := by decide
  have named' : ∀ text ∈ s.rawTexts, Text.Unmarked text.toList := by decide
  have quotes : Options.Quotes {} e.literals := by
    refine .inr fun text among => ?_
    obtain rfl : text = "](\x7b" := by
      simpa [e, Expr.markerCall, Expr.var, Expr.string, Expr.literals, Expr.listLiterals,
        Expr.optionalLiterals] using among
    decide
  have quotes' : escaping.Quotes s.literals := .inl rfl
  have fine : (Printer.emit {} (.ofExpr e)).2 = none := by decide +kernel
  have fine' : (Printer.emit { options := escaping } (.ofStmt s)).2 = none := by decide +kernel
  exact ⟨named, quotes, by decide +kernel,
    (Printer.emit_well_bracketed {}).1 e .root named quotes fine, named', quotes',
    by decide +kernel, (Printer.emit_well_bracketed escaping).2 s .root named' quotes' fine'⟩

end HotkeyScript
