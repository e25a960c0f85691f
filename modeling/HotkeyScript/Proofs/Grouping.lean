import HotkeyScript.Proofs.Unambiguous
namespace HotkeyScript

mutual

inductive Operand where
  | name (word : String)
  | group (inside : Chain)

inductive Chain where
  | last (operand : Operand)
  | more (operand : Operand) (token : String) (rest : Chain)

end

def Chain.join : Chain → String → Chain → Chain
  | last operand, token, second => more operand token second
  | more operand first rest, token, second => more operand first (rest.join token second)

mutual

def Operand.text : Operand → List Char
  | .name word => word.toList
  | .group inside => '(' :: inside.text ++ [')']

def Chain.text : Chain → List Char
  | .last operand => operand.text
  | .more operand token rest => operand.text ++ ' ' :: token.toList ++ ' ' :: rest.text

end

mutual

def Operand.Spelled : Operand → Prop
  | .name word => Text.IsIdentifier word
  | .group inside => inside.Spelled

def Chain.Spelled : Chain → Prop
  | .last operand => operand.Spelled
  | .more operand token rest =>
    operand.Spelled ∧ (∀ c ∈ token.toList, (c != ' ') = true) ∧ rest.Spelled

end

namespace Text

-- What ends a chain: no character that goes on with a name, and no space before a token.
def goesOn (c : Char) : Bool := isWordChar c || c = ' '

theorem Avoids.name {text : List Char} (avoids : Avoids goesOn text) : Avoids isWordChar text :=
  avoids.mono fun c begun => by simp [goesOn, begun]

end Text

mutual

theorem Operand.text_inj {o o' : Operand} {r s : List Char} (spelled : o.Spelled)
    (spelled' : o'.Spelled) (ends : Text.Avoids Text.isWordChar r)
    (ends' : Text.Avoids Text.isWordChar s) (same : o.text ++ r = o'.text ++ s) :
    o = o' ∧ r = s := by
  have named {word : String} (identifier : Text.IsIdentifier word) (inside : Chain)
      (t u : List Char) : (Operand.name word).text ++ t ≠ (Operand.group inside).text ++ u := by
    obtain ⟨c, rest, begins, start, _⟩ := identifier
    intro same
    simp only [Operand.text, begins, List.cons_append, List.cons.injEq] at same
    rw [same.1] at start
    exact absurd start (by decide)
  cases o with
  | name word =>
    cases o' with
    | name word' =>
      obtain ⟨rfl, rests⟩ := Expr.word_inj (Expr.word_chars spelled) (Expr.word_chars spelled')
        ends ends' same
      exact ⟨rfl, rests⟩
    | group inside' => exact absurd same (named spelled inside' r s)
  | group inside =>
    cases o' with
    | name word' => exact absurd same.symm (named spelled' inside s r)
    | group inside' =>
      simp only [Operand.text, List.cons_append, List.append_assoc, List.cons.injEq,
        true_and] at same
      obtain ⟨rfl, closed⟩ := Chain.text_inj spelled spelled' (by simp; decide) (by simp; decide)
        same
      exact ⟨rfl, List.cons.inj closed |>.2⟩

theorem Chain.text_inj {c c' : Chain} {r s : List Char} (spelled : c.Spelled)
    (spelled' : c'.Spelled) (ends : Text.Avoids Text.goesOn r) (ends' : Text.Avoids Text.goesOn s)
    (same : c.text ++ r = c'.text ++ s) : c = c' ∧ r = s := by
  have spaced (t : List Char) : Text.Avoids Text.isWordChar (' ' :: t) := by
    simp
    decide
  cases c with
  | last operand =>
    cases c' with
    | last operand' =>
      obtain ⟨rfl, rests⟩ := Operand.text_inj spelled spelled' ends.name ends'.name same
      exact ⟨rfl, rests⟩
    | more operand' token' rest' =>
      simp only [Chain.text, List.append_assoc, List.cons_append] at same
      obtain ⟨_, rfl⟩ := Operand.text_inj spelled spelled'.1 ends.name (spaced _) same
      simp [Text.goesOn] at ends
  | more operand token rest =>
    simp only [Chain.text, List.append_assoc, List.cons_append] at same
    cases c' with
    | last operand' =>
      obtain ⟨_, rfl⟩ := Operand.text_inj spelled.1 spelled' (spaced _) ends'.name same
      simp [Text.goesOn] at ends'
    | more operand' token' rest' =>
      simp only [Chain.text, List.append_assoc, List.cons_append] at same
      obtain ⟨rfl, tokens⟩ := Operand.text_inj spelled.1 spelled'.1 (spaced _) (spaced _) same
      obtain ⟨letters, further⟩ := Text.run_inj spelled.2.1 spelled'.2.1 (by simp) (by simp)
        (List.cons.inj tokens).2
      obtain ⟨rfl, rests⟩ := Chain.text_inj spelled.2.2 spelled'.2.2 ends ends'
        (List.cons.inj further).2
      rw [String.toList_inj.mp letters]
      exact ⟨rfl, rests⟩

end

namespace Chain

@[simp] theorem text_join (c : Chain) (token : String) (d : Chain) :
    (c.join token d).text = c.text ++ ' ' :: token.toList ++ ' ' :: d.text := by
  fun_induction c.join token d with
  | case1 => simp [text]
  | case2 operand first token second rest ih => simp [text, ih]

theorem spelled_join {c d : Chain} {token : String} (first : c.Spelled) (second : d.Spelled)
    (unspaced : ∀ c ∈ token.toList, (c != ' ') = true) : (c.join token d).Spelled := by
  fun_induction c.join token d with
  | case1 => exact ⟨first, unspaced, second⟩
  | case2 operand earlier token second rest ih =>
    exact ⟨first.1, first.2.1, ih first.2.2 (by assumption) unspaced⟩

def Single (c : Chain) : Prop := ∃ operand, c = .last operand

theorem Single.join_inj {c d c' d' : Chain} {token token' : String} (first : c.Single)
    (second : d.Single) (same : c.join token d = c'.join token' d') :
    c = c' ∧ token = token' ∧ d = d' := by
  obtain ⟨operand, rfl⟩ := first
  obtain ⟨other, rfl⟩ := second
  cases c' with
  | last operand' =>
    injection same with operands tokens rest
    exact ⟨by rw [operands], tokens, rest⟩
  | more operand' earlier rest' =>
    injection same with _ _ later
    cases rest' <;> cases later

theorem Single.join_join_inj {c d e c' d' : Chain} {token next token' : String} (first : c.Single)
    (second : d.Single) (third : e.Single)
    (same : (c.join token d).join next e = c'.join token' d') :
    (token = token' ∧ c = c') ∨ (next = token' ∧ c.join token d = c' ∧ e = d') := by
  obtain ⟨operand, rfl⟩ := first
  obtain ⟨other, rfl⟩ := second
  cases c' with
  | last operand' =>
    injection same with operands tokens _
    exact .inl ⟨tokens, by rw [operands]⟩
  | more operand' earlier rest' =>
    injection same with operands tokens others
    obtain ⟨rest, nexts, ends⟩ := Single.join_inj ⟨other, rfl⟩ third others
    exact .inr ⟨nexts, by rw [operands, tokens, ← rest]; rfl, ends⟩

theorem join_ne_last (c : Chain) (token : String) (d : Chain) (operand : Operand) :
    c.join token d ≠ .last operand := by
  cases c <;> exact Chain.noConfusion

end Chain

namespace Expr

def selectedToken (field : String) : String :=
  match ScriptOperator.ofName? field with
  | some operator => operator.token
  | none => ""

-- The operands of an expression in the order of its text, and the tokens between them.
def chain : Expr → Chain
  | .variableRef name => .last (.name name)
  | .binaryOp operator left right => .last (.group (left.chain.join operator.token right.chain))
  | .ternaryOp condition whenTrue whenFalse =>
    (condition.chain.join Token.ternaryFirst whenTrue.chain).join Token.ternarySecond
      whenFalse.chain
  | .invocation none "Operate" [.fieldRef none field, left, right] true =>
    left.chain.join (selectedToken field) right.chain
  | _ => .last (.name "")

inductive Operators : Expr → Prop where
  | name {name : String} (word : Text.IsIdentifier name) : Operators (.variableRef name)
  | binary (operator : BinaryOperator) {left right : Expr} :
      Operators left → Operators right → Operators (.binaryOp operator left right)
  | ternary {condition whenTrue whenFalse : Expr} :
      Operators condition → Operators whenTrue → Operators whenFalse →
      Operators (.ternaryOp condition whenTrue whenFalse)
  | operate (operator : ScriptOperator) {field : String} {left right : Expr}
      (selects : ScriptOperator.ofName? field = some operator) :
      Operators left → Operators right →
      Operators (.invocation none "Operate" [.fieldRef none field, left, right] true)

theorem Operators.letter (c : Char) (start : Text.isWordStart c) :
    Operators (.variableRef (String.singleton c)) :=
  .name ⟨c, [], by simp, start, by simp⟩

theorem chain_operate {field : String} {operator : ScriptOperator}
    (selects : ScriptOperator.ofName? field = some operator) (left right : Expr) :
    (invocation none "Operate" [.fieldRef none field, left, right] true).chain
      = left.chain.join operator.token right.chain := by
  simp [chain, selectedToken, selects]

theorem binary_token_unspaced (operator : BinaryOperator) :
    ∀ c ∈ operator.token.toList, (c != ' ') = true :=
  List.all_eq_true.mp (by cases operator <;> decide)

theorem script_token_unspaced (operator : ScriptOperator) :
    ∀ c ∈ operator.token.toList, (c != ' ') = true :=
  List.all_eq_true.mp (by cases operator <;> decide)

theorem ternary_tokens_unspaced :
    (∀ c ∈ Token.ternaryFirst.toList, (c != ' ') = true) ∧
      ∀ c ∈ Token.ternarySecond.toList, (c != ' ') = true :=
  ⟨List.all_eq_true.mp (by decide), List.all_eq_true.mp (by decide)⟩

theorem Operators.spelled {e : Expr} (operators : e.Operators) : e.chain.Spelled := by
  induction operators with
  | name word => exact word
  | binary operator _ _ left right =>
    exact Chain.spelled_join left right (binary_token_unspaced operator)
  | ternary _ _ _ condition whenTrue whenFalse =>
    exact Chain.spelled_join
      (Chain.spelled_join condition whenTrue ternary_tokens_unspaced.1) whenFalse
      ternary_tokens_unspaced.2
  | operate operator selects _ _ left right =>
    rw [chain_operate selects]
    exact Chain.spelled_join left right (script_token_unspaced operator)

theorem layout_operate {field : String} {operator : ScriptOperator}
    (selects : ScriptOperator.ofName? field = some operator) (left right : Expr)
    (options : Options) (bare : Bool) :
    (invocation none "Operate" [.fieldRef none field, left, right] true).layout options bare
      = [.part .operand left, .fixed (.spaced operator.token), .part .operand right] := by
  have found : Intrinsic.find? "Operate" 3 = some .operate := Intrinsic.find?_self .operate
  simp [layout, Layout.invocation, written?, Layout.markerCall, found, Layout.operation, selects]

end Expr

theorem Layout.contents_of_written {options : Options} {context : Context} {l : Layout}
    (written : (l.emission options context).fault = none) :
    (∀ item ∈ l, (item.emission options context).fault = none) ∧
      (l.emission options context).contents.toList
        = l.flatMap fun item => (item.emission options context).contents.toList := by
  have each := Emission.fault_concat_eq_none.1 written
  refine ⟨fun item among => each _ (List.mem_map_of_mem among), ?_⟩
  rw [Layout.emission, Emission.contents_concat each]
  simp [Function.comp_def, List.flatMap_map]

namespace Expr

theorem contents_spaced (token : String) :
    (Emission.spaced token).contents.toList = ' ' :: token.toList ++ [' '] :=
  Item.script_spaced token

theorem items_of_written {options : Options} {e : Expr} {context : Context}
    (position : context.statement = false) (written : (e.emission options context).fault = none) :
    (∀ item ∈ e.layout options false, (item.emission options context).fault = none) ∧
      (e.emission options context).contents.toList
        = (e.layout options false).flatMap fun item =>
            (item.emission options context).contents.toList := by
  have laid := emission_of_fine written
  rw [position] at laid
  rw [laid] at written ⊢
  exact Layout.contents_of_written written

theorem Operators.contents {options : Options} {e : Expr} (operators : e.Operators)
    {context : Context} (position : context.statement = false)
    (written : (e.emission options context).fault = none) :
    (e.emission options context).contents.toList = e.chain.text := by
  induction operators generalizing context with
  | name word =>
    rw [(items_of_written position written).2]
    simp [layout, Item.emission, chain, Chain.text, Operand.text]
  | binary operator _ _ left right =>
    obtain ⟨items, text⟩ := items_of_written position written
    simp only [layout, Layout.parenthesizedUnless, Bool.false_eq_true, if_false, List.cons_append,
      List.nil_append, List.forall_mem_cons, Item.emission, Descent.context] at items
    obtain ⟨_, first, _, second, _⟩ := items
    rw [text]
    simp [layout, Layout.parenthesizedUnless, Item.emission, Descent.context, contents_spaced,
      left rfl first, right rfl second, chain, Chain.text, Operand.text, Token.parenOpen,
      Token.parenClose]
  | ternary _ _ _ condition whenTrue whenFalse =>
    obtain ⟨items, text⟩ := items_of_written position written
    simp only [layout, List.forall_mem_cons, Item.emission, Descent.context] at items
    obtain ⟨first, _, second, _, third, _⟩ := items
    rw [text]
    simp [layout, Item.emission, Descent.context, contents_spaced, condition rfl first,
      whenTrue rfl second, whenFalse rfl third, chain]
  | operate operator selects _ _ left right =>
    obtain ⟨items, text⟩ := items_of_written position written
    simp only [layout_operate selects, List.forall_mem_cons, Item.emission, Descent.context]
      at items
    obtain ⟨first, _, second, _⟩ := items
    rw [text, chain_operate selects, layout_operate selects]
    simp [Item.emission, Descent.context, contents_spaced, left rfl first, right rfl second]

theorem chain_eq_of_text {a b : Expr} (operators_a : a.Operators) (operators_b : b.Operators)
    (same : a.chain.text = b.chain.text) : a.chain = b.chain :=
  (Chain.text_inj (r := []) (s := []) operators_a.spelled operators_b.spelled (by simp) (by simp)
    (by rw [same])).1

def isOperand : Expr → Bool
  | .variableRef _ | .binaryOp .. => true
  | _ => false

def operands : Expr → List Expr
  | .binaryOp _ left right => [left, right]
  | .ternaryOp condition whenTrue whenFalse => [condition, whenTrue, whenFalse]
  | .invocation none "Operate" [_, left, right] true => [left, right]
  | _ => []

-- No conditional and no script operation is an operand, at any depth.
inductive Grouped : Expr → Prop where
  | intro {e : Expr} : (∀ c ∈ e.operands, c.isOperand) → (∀ c ∈ e.operands, Grouped c) → Grouped e

theorem chain_single {e : Expr} (operand : e.isOperand) : e.chain.Single := by
  cases e with
  | variableRef name => exact ⟨_, rfl⟩
  | binaryOp operator left right => exact ⟨_, rfl⟩
  | _ => cases operand

theorem Grouped.operand {e c : Expr} (grouped : e.Grouped) (among : c ∈ e.operands) :
    c.chain.Single ∧ c.Grouped := by
  cases grouped with
  | intro single inside => exact ⟨chain_single (single c among), inside c among⟩

theorem script_token_injective {o o' : ScriptOperator} (same : o.token = o'.token) : o = o' := by
  have found (o : ScriptOperator) : ScriptOperator.all.find? (·.token = o.token) = some o := by
    cases o <;> decide
  exact Option.some.inj (by rw [← found o, ← found o', same])

theorem binary_token_injective {o o' : BinaryOperator} (same : o.token = o'.token) : o = o' :=
  (token_inj (r := []) (s := []) (by rw [same])).1

theorem selector_injective {field field' : String} {operator operator' : ScriptOperator}
    (selects : ScriptOperator.ofName? field = some operator)
    (selects' : ScriptOperator.ofName? field' = some operator')
    (same : operator.token = operator'.token) : field = field' := by
  have named {field : String} {operator : ScriptOperator}
      (selects : ScriptOperator.ofName? field = some operator) : operator.name = field := by
    simpa using List.find?_some selects
  rw [← named selects, ← named selects', script_token_injective same]

theorem script_token_ne_ternary (operator : ScriptOperator) :
    operator.token ≠ Token.ternaryFirst ∧ operator.token ≠ Token.ternarySecond := by
  cases operator <;> decide

-- The nesting is read off the chain when every operator stands between single operands: each group
-- then holds one operator, and only one kind of node puts its token or tokens there.
theorem chain_injective {a b : Expr} (operators_a : a.Operators) (operators_b : b.Operators)
    (grouped : a.Grouped) (same : a.chain = b.chain) : a = b := by
  induction operators_a generalizing b with
  | name word =>
    cases operators_b with
    | name word' =>
      injection same with names
      injection names with names
      rw [names]
    | binary _ _ _ => cases same
    | ternary _ _ _ => exact absurd same.symm (Chain.join_ne_last _ _ _ _)
    | operate _ selects _ _ =>
      rw [chain_operate selects] at same
      exact absurd same.symm (Chain.join_ne_last _ _ _ _)
  | @binary operator left right _ _ ihl ihr =>
    obtain ⟨left_single, left_grouped⟩ := grouped.operand (c := left) (by simp [operands])
    obtain ⟨right_single, right_grouped⟩ := grouped.operand (c := right) (by simp [operands])
    cases operators_b with
    | name word' => cases same
    | binary operator' left' right' =>
      injection same with groups
      injection groups with joined
      obtain ⟨left_same, tokens, right_same⟩ := left_single.join_inj right_single joined
      rw [ihl left' left_grouped left_same, ihr right' right_grouped right_same,
        binary_token_injective tokens]
    | ternary _ _ _ => exact absurd same.symm (Chain.join_ne_last _ _ _ _)
    | operate _ selects _ _ =>
      rw [chain_operate selects] at same
      exact absurd same.symm (Chain.join_ne_last _ _ _ _)
  | @ternary condition whenTrue whenFalse _ _ _ ihc iht ihf =>
    obtain ⟨condition_single, condition_grouped⟩ :=
      grouped.operand (c := condition) (by simp [operands])
    obtain ⟨true_single, true_grouped⟩ := grouped.operand (c := whenTrue) (by simp [operands])
    obtain ⟨false_single, false_grouped⟩ := grouped.operand (c := whenFalse) (by simp [operands])
    cases operators_b with
    | name word' => exact absurd same (Chain.join_ne_last _ _ _ _)
    | binary _ _ _ => exact absurd same (Chain.join_ne_last _ _ _ _)
    | ternary condition' whenTrue' whenFalse' =>
      obtain ⟨tokens, _⟩ | ⟨_, joined, false_same⟩ :=
        condition_single.join_join_inj true_single false_single same
      · exact absurd tokens (by decide)
      · obtain ⟨condition_same, _, true_same⟩ := condition_single.join_inj true_single joined
        rw [ihc condition' condition_grouped condition_same, iht whenTrue' true_grouped true_same,
          ihf whenFalse' false_grouped false_same]
    | operate operator' selects' left' right' =>
      rw [chain_operate selects'] at same
      obtain ⟨tokens, _⟩ | ⟨tokens, _⟩ :=
        condition_single.join_join_inj true_single false_single same
      · exact absurd tokens.symm (script_token_ne_ternary operator').1
      · exact absurd tokens.symm (script_token_ne_ternary operator').2
  | @operate operator field left right selects _ _ ihl ihr =>
    obtain ⟨left_single, left_grouped⟩ := grouped.operand (c := left) (by simp [operands])
    obtain ⟨right_single, right_grouped⟩ := grouped.operand (c := right) (by simp [operands])
    rw [chain_operate selects] at same
    cases operators_b with
    | name word' => exact absurd same (Chain.join_ne_last _ _ _ _)
    | binary _ _ _ => exact absurd same (Chain.join_ne_last _ _ _ _)
    | ternary condition' whenTrue' whenFalse' =>
      obtain ⟨joined, _, _⟩ := left_single.join_inj right_single same
      obtain ⟨operand, last⟩ := left_single
      exact absurd (joined.symm.trans last) (Chain.join_ne_last _ _ _ _)
    | operate operator' selects' left' right' =>
      rw [chain_operate selects'] at same
      obtain ⟨left_same, tokens, right_same⟩ := left_single.join_inj right_single same
      rw [ihl left' left_grouped left_same, ihr right' right_grouped right_same,
        selector_injective selects selects' tokens]

end Expr

namespace Printer

structure WritesAlike (printer : Printer) (context : Context) (a b : Expr) : Prop where
  first : (printer.emit (.expression a context)).2 = none
  second : (printer.emit (.expression b context)).2 = none
  text : (printer.emit (.expression a context)).1.text
    = (printer.emit (.expression b context)).1.text

-- The text determines the operands and the tokens in their order and every pair of parentheses,
-- and with them the tree wherever no conditional and no script operation is an operand.
theorem emit_grouping (options : Options) {a b : Expr} (operators_a : a.Operators)
    (operators_b : b.Operators) (context : Context) (position : context.statement = false)
    (alike : WritesAlike { options } context a b) :
    a.chain = b.chain ∧ (a.Grouped → a = b) := by
  obtain ⟨written_a, written_b, same⟩ := alike
  rw [emit_fresh, Option.map_eq_none_iff] at written_a written_b
  rw [emit_fresh, emit_fresh] at same
  have chains : a.chain = b.chain := by
    refine Expr.chain_eq_of_text operators_a operators_b ?_
    rw [← operators_a.contents position written_a, ← operators_b.contents position written_b]
    exact congrArg String.toList same
  exact ⟨chains, fun grouped => Expr.chain_injective operators_a operators_b grouped chains⟩

structure Confused (printer : Printer) (a b : Expr) : Prop where
  first : a.Operators
  second : b.Operators
  alike : printer.WritesAlike .root a b
  different : a ≠ b

def joined (left right : Expr) : Expr :=
  .invocation none "Operate" [.fieldRef none "Concat", left, right] true

theorem operators_joined {left right : Expr} (first : left.Operators) (second : right.Operators) :
    (joined left right).Operators := .operate .concat (by decide) first second

theorem confused_joined :
    Confused ⟨{}, ⟨"", none⟩⟩ (joined (joined (.variableRef "a") (.variableRef "b"))
      (.variableRef "c")) (joined (.variableRef "a")
        (joined (.variableRef "b") (.variableRef "c"))) := by
  have name_a : Expr.Operators (.variableRef "a") := .letter 'a' (by decide)
  have name_b : Expr.Operators (.variableRef "b") := .letter 'b' (by decide)
  have name_c : Expr.Operators (.variableRef "c") := .letter 'c' (by decide)
  exact ⟨operators_joined (operators_joined name_a name_b) name_c,
    operators_joined name_a (operators_joined name_b name_c),
    ⟨by decide, by decide, by decide⟩, by simp [joined]⟩

-- A sum of a name and a product, which is grouped, and a text that two script operations share.
theorem emit_grouping_of_sum :
    let printer : Printer := ⟨{}, ⟨"", none⟩⟩
    let a : Expr := .binaryOp .add (.variableRef "x")
      (.binaryOp .multiply (.variableRef "y") (.variableRef "z"))
    let b : Expr := .binary (.var "x") .add (.binary (.var "y") .multiply (.var "z"))
    let left : Expr := joined (joined (.variableRef "a") (.variableRef "b")) (.variableRef "c")
    let right : Expr := joined (.variableRef "a") (joined (.variableRef "b") (.variableRef "c"))
    (printer.emit (.expression a .root)).1.text = "(x + (y * z))" ∧
      printer.WritesAlike .root a b ∧ a.chain = b.chain ∧ a = b ∧
      (printer.emit (.expression left .root)).1.text = "a . b . c" ∧
      printer.WritesAlike .root left right ∧ left ≠ right ∧ left.chain = right.chain := by
  intro printer a b left right
  have x : Expr.Operators (.variableRef "x") := .letter 'x' (by decide)
  have y : Expr.Operators (.variableRef "y") := .letter 'y' (by decide)
  have z : Expr.Operators (.variableRef "z") := .letter 'z' (by decide)
  have operators : a.Operators := .binary .add x (.binary .multiply y z)
  have name (n : String) : Expr.Grouped (.variableRef n) :=
    .intro (by simp [Expr.operands]) (by simp [Expr.operands])
  have product : Expr.Grouped (.binaryOp .multiply (.variableRef "y") (.variableRef "z")) :=
    .intro (by simp [Expr.operands, Expr.isOperand]) (by simp [Expr.operands, name])
  have grouped : a.Grouped :=
    .intro (by simp [a, Expr.operands, Expr.isOperand]) (by simp [a, Expr.operands, name, product])
  have alike : printer.WritesAlike .root a b := ⟨by decide, by decide, rfl⟩
  have result := emit_grouping printer.options operators operators .root rfl alike
  obtain ⟨first, second, shared, different⟩ := confused_joined
  have chains := (emit_grouping printer.options first second .root rfl shared).1
  exact ⟨by decide, alike, result.1, result.2 grouped, by decide, shared, different, chains⟩

-- Neither the nesting of conditionals nor that of script operations is in the text.
theorem emit_grouping_lost :
    let printer : Printer := ⟨{}, ⟨"", none⟩⟩
    let a : Expr := .variableRef "a"
    let b : Expr := .variableRef "b"
    let c : Expr := .variableRef "c"
    let concat (left right : Expr) : Expr :=
      .invocation none "Operate" [.fieldRef none "Concat", left, right] true
    printer.Confused (.ternaryOp (.ternaryOp a b c) b c) (.ternaryOp a b (.ternaryOp c b c)) ∧
      printer.Confused (concat (concat a b) c) (concat a (concat b c)) := by
  intro printer a b c concat
  have name_a : a.Operators := .letter 'a' (by decide)
  have name_b : b.Operators := .letter 'b' (by decide)
  have name_c : c.Operators := .letter 'c' (by decide)
  exact ⟨⟨.ternary (.ternary name_a name_b name_c) name_b name_c,
    .ternary name_a name_b (.ternary name_c name_b name_c), ⟨by decide, by decide, by decide⟩,
    by simp [a, b, c]⟩, confused_joined⟩

end Printer
end HotkeyScript
