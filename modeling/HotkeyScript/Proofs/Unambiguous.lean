import HotkeyScript.Proofs.Readable
import HotkeyScript.Proofs.SinkLaw
import HotkeyScript.Text.Runs
namespace HotkeyScript

namespace Text

def joinsHead (c : Char) : Bool := isWordChar c || c = '(' || c = Token.quote

def joins (c : Char) : Bool := joinsHead c || c = '.' || c = '['

theorem Avoids.head {text : List Char} (avoids : Avoids joins text) : Avoids joinsHead text :=
  avoids.mono fun c begun => by simp [joins, begun]

theorem Avoids.word {text : List Char} (avoids : Avoids joinsHead text) : Avoids isWordChar text :=
  avoids.mono fun c begun => by simp [joinsHead, begun]

theorem Avoids.digit {text : List Char} (avoids : Avoids joinsHead text) :
    Avoids Char.isDigit text :=
  avoids.word.mono fun c begun => by simp [isWordChar, Char.isAlphanum, begun]

inductive Escaped : Char → Char → Prop where
  | newLine : Escaped '\n' 'n'
  | carriageReturn : Escaped '\r' 'r'
  | tab : Escaped '\t' 't'
  | escape : Escaped Token.escape Token.escape

theorem escapedChar_cases (c : Char) :
    (c = Token.quote ∧ escapedChar c = [Token.quote, Token.quote]) ∨
      (∃ letter, Escaped c letter ∧ escapedChar c = [Token.escape, letter]) ∨
      (c ≠ Token.quote ∧ c ≠ Token.escape ∧ escapedChar c = [c]) := by
  by_cases quote : c = Token.quote
  · exact .inl ⟨quote, by simp [escapedChar, quote]⟩
  · by_cases newLine : c = '\n'
    · exact .inr (.inl ⟨'n', newLine ▸ .newLine, by rw [newLine]; decide⟩)
    · by_cases carriageReturn : c = '\r'
      · exact .inr (.inl ⟨'r', carriageReturn ▸ .carriageReturn, by rw [carriageReturn]; decide⟩)
      · by_cases tab : c = '\t'
        · exact .inr (.inl ⟨'t', tab ▸ .tab, by rw [tab]; decide⟩)
        · by_cases escape : c = Token.escape
          · exact .inr (.inl ⟨Token.escape, escape ▸ .escape, by rw [escape]; decide⟩)
          · exact .inr (.inr ⟨quote, escape, by simp [escapedChar, *]⟩)

theorem escapedChar_inj {c d : Char} {r s : List Char}
    (same : escapedChar c ++ r = escapedChar d ++ s) : c = d ∧ r = s := by
  have distinct : Token.quote ≠ Token.escape := by decide
  rcases escapedChar_cases c with ⟨rfl, own⟩ | ⟨l, escaped, own⟩ | ⟨noQuote, noEscape, own⟩ <;>
    rcases escapedChar_cases d with
      ⟨rfl, other⟩ | ⟨m, escaped', other⟩ | ⟨noQuote', noEscape', other⟩ <;>
    simp only [own, other, List.cons_append, List.nil_append, List.cons.injEq] at same
  · exact ⟨rfl, same.2.2⟩
  · exact absurd same.1 distinct
  · exact absurd same.1.symm noQuote'
  · exact absurd same.1.symm distinct
  · obtain ⟨_, rfl, rests⟩ := same
    refine ⟨?_, rests⟩
    cases escaped <;> cases escaped' <;> rfl
  · exact absurd same.1.symm noEscape'
  · exact absurd same.1 noQuote
  · exact absurd same.1 noEscape
  · exact same

theorem quote_ne_escaped {d : Char} {r s : List Char} (ends : Avoids joinsHead r) :
    Token.quote :: r ≠ escapedChar d ++ s := by
  intro same
  rcases escapedChar_cases d with ⟨rfl, own⟩ | ⟨_, _, own⟩ | ⟨noQuote, _, own⟩
  all_goals simp only [own, List.cons_append, List.nil_append, List.cons.injEq] at same
  · rw [same.2] at ends
    simp [joinsHead] at ends
  · exact absurd same.1 (by decide)
  · exact absurd same.1.symm noQuote

theorem escaped_inj {a b r s : List Char} (ends_a : Avoids joinsHead r)
    (ends_b : Avoids joinsHead s)
    (same : a.flatMap escapedChar ++ Token.quote :: r = b.flatMap escapedChar ++ Token.quote :: s) :
    a = b ∧ r = s := by
  induction a generalizing b with
  | nil =>
    cases b with
    | nil => exact ⟨rfl, List.cons.inj same |>.2⟩
    | cons d b =>
      rw [List.flatMap_cons, List.append_assoc] at same
      exact absurd same (quote_ne_escaped ends_a)
  | cons c a ih =>
    rw [List.flatMap_cons, List.append_assoc] at same
    cases b with
    | nil => exact absurd same.symm (quote_ne_escaped ends_b)
    | cons d b =>
      rw [List.flatMap_cons, List.append_assoc] at same
      obtain ⟨rfl, tails⟩ := escapedChar_inj same
      obtain ⟨rfl, rests⟩ := ih tails
      exact ⟨rfl, rests⟩

theorem quoted_inj {a b : String} {r s : List Char} (ends_a : Avoids joinsHead r)
    (ends_b : Avoids joinsHead s) (same : quoted a ++ r = quoted b ++ s) : a = b ∧ r = s := by
  have bodies : a.toList.flatMap escapedChar ++ Token.quote :: r
      = b.toList.flatMap escapedChar ++ Token.quote :: s := by
    simpa [quoted] using same
  obtain ⟨spelled, rests⟩ := escaped_inj ends_a ends_b bodies
  exact ⟨String.toList_inj.mp spelled, rests⟩

theorem integer_inj {m n : Int} {r s : List Char} (ends_m : Avoids joinsHead r)
    (ends_n : Avoids joinsHead s)
    (same : (Numeral.ofInt m).text ++ r = (Numeral.ofInt n).text ++ s) : m = n ∧ r = s := by
  have digits (k : Nat) : ∀ c ∈ Nat.toDigits 10 k, c.isDigit := fun c among =>
    Nat.isDigit_of_mem_toDigits (by omega) (by omega) among
  have unsigned (k : Nat) (t u : List Char) : '-' :: t ≠ Nat.toDigits 10 k ++ u := by
    intro equal
    cases spelled : Nat.toDigits 10 k with
    | nil => exact Nat.toDigits_ne_nil spelled
    | cons c rest =>
      have digit := digits k c (by simp [spelled])
      rw [spelled] at equal
      rw [← (List.cons.inj equal).1] at digit
      cases digit
  have value {k l : Nat} (equal : Nat.toDigits 10 k ++ r = Nat.toDigits 10 l ++ s) :
      k = l ∧ r = s := by
    obtain ⟨spelled, rests⟩ := run_inj (digits k) (digits l) ends_m.digit ends_n.digit equal
    have values := congrArg (Nat.ofDigitChars 10 · 0) spelled
    simp only [Nat.ofDigitChars_ten_toDigits] at values
    exact ⟨values, rests⟩
  simp only [Numeral.ofInt, Numeral.text, Numeral.sign, Numeral.fractionText, Numeral.exponentText,
    List.isEmpty_nil, if_true, List.append_nil] at same
  by_cases negative_m : m < 0 <;> by_cases negative_n : n < 0 <;>
    simp only [negative_m, negative_n, decide_true, decide_false, if_true, List.cons_append,
      List.nil_append, List.cons.injEq, true_and, Bool.false_eq_true, if_false] at same
  · obtain ⟨values, rests⟩ := value same
    exact ⟨by omega, rests⟩
  · exact absurd same (unsigned _ _ _)
  · exact absurd same.symm (unsigned _ _ _)
  · obtain ⟨values, rests⟩ := value same
    exact ⟨by omega, rests⟩

theorem listed_tail_avoids (texts : List (List Char)) {close : Char} (closes : joins close = false)
    (r : List Char) : Avoids joins (texts.flatMap ([',', ' '] ++ ·) ++ close :: r) := by
  cases texts with
  | nil => simpa using closes
  | cons text rest =>
    simp
    decide

section

variable {α : Type} (text : α → List Char) (Good : α → Prop)

-- The text of `a` is told apart from that of any other, and from what follows it.
def Determined (a : α) : Prop :=
  ∀ b r s, Good b → Avoids joins r → Avoids joins s → text a ++ r = text b ++ s → a = b ∧ r = s

variable {text Good}

theorem listed_tail_inj {as bs : List α} {close : Char} {r s : List Char}
    (closes : joins close = false) (ends : close ≠ ',')
    (determined : ∀ a ∈ as, Determined text Good a) (good : ∀ b ∈ bs, Good b)
    (same : (as.map text).flatMap ([',', ' '] ++ ·) ++ close :: r
      = (bs.map text).flatMap ([',', ' '] ++ ·) ++ close :: s) : as = bs ∧ r = s := by
  induction as generalizing bs with
  | nil =>
    cases bs with
    | nil => exact ⟨rfl, (List.cons.inj same).2⟩
    | cons b bs => exact absurd (List.cons.inj same).1 ends
  | cons a as ih =>
    cases bs with
    | nil => exact absurd (List.cons.inj same).1.symm ends
    | cons b bs =>
      simp only [List.map_cons, List.flatMap_cons, List.cons_append, List.nil_append,
        List.append_assoc, List.cons.injEq, true_and] at same
      obtain ⟨rfl, tails⟩ := determined a List.mem_cons_self b _ _ (good b List.mem_cons_self)
        (listed_tail_avoids (as.map text) closes r) (listed_tail_avoids (bs.map text) closes s) same
      obtain ⟨rfl, rests⟩ := ih (fun a more => determined a (List.mem_cons_of_mem _ more))
        (fun b more => good b (List.mem_cons_of_mem _ more)) tails
      exact ⟨rfl, rests⟩

theorem listed_inj {as bs : List α} {close : Char} {r s : List Char}
    (closes : joins close = false) (ends : close ≠ ',')
    (opens : ∀ x t u, Good x → close :: t ≠ text x ++ u)
    (determined : ∀ a ∈ as, Determined text Good a) (good_a : ∀ a ∈ as, Good a)
    (good_b : ∀ b ∈ bs, Good b)
    (same : listed (as.map text) ++ close :: r = listed (bs.map text) ++ close :: s) :
    as = bs ∧ r = s := by
  cases as with
  | nil =>
    cases bs with
    | nil => exact ⟨rfl, (List.cons.inj same).2⟩
    | cons b bs =>
      simp only [List.map_nil, List.map_cons, listed, List.nil_append, List.append_assoc] at same
      exact absurd same (opens b _ _ (good_b b List.mem_cons_self))
  | cons a as =>
    cases bs with
    | nil =>
      simp only [List.map_nil, List.map_cons, listed, List.nil_append, List.append_assoc] at same
      exact absurd same.symm (opens a _ _ (good_a a List.mem_cons_self))
    | cons b bs =>
      refine listed_tail_inj closes ends determined good_b ?_
      simpa [listed] using same

end

-- What the first character says of the form of an expression.
inductive Lead where
  | word | number | quote | parenthesis | bracket | brace
deriving DecidableEq

def lead? (c : Char) : Option Lead :=
  if c.isDigit || c = '-' then some .number
  else if isWordStart c then some .word
  else if c = Token.quote then some .quote
  else if c = '(' then some .parenthesis
  else if c = '[' then some .bracket
  else if c = '\x7b' then some .brace
  else none

theorem lead_of_digit {c : Char} (digit : c.isDigit) : lead? c = some .number := by
  simp [lead?, digit]

theorem lead_of_wordStart {c : Char} (start : isWordStart c) : lead? c = some .word := by
  have letter : c.isDigit = false := by
    simp only [isWordStart, Bool.or_eq_true, decide_eq_true_eq] at start
    rcases start with alpha | rfl
    · have nine : '9'.val.toNat = 57 := rfl
      have capitalA : 'A'.val.toNat = 65 := rfl
      have smallA : 'a'.val.toNat = 97 := rfl
      delta Char.isAlpha Char.isUpper Char.isLower at alpha
      simp only [Bool.or_eq_true, Bool.and_eq_true, decide_eq_true_eq, UInt32.le_iff_toNat_le,
        ge_iff_le] at alpha
      simp only [Char.isDigit, Bool.and_eq_false_iff, decide_eq_false_iff_not,
        UInt32.le_iff_toNat_le, ge_iff_le]
      omega
    · decide
  have unsigned : c ≠ '-' := by
    rintro rfl
    cases start
  simp [lead?, letter, unsigned, start]

end Text

namespace Expr

-- The readable expressions that begin with a form of their own, not with another expression.
inductive Head : Expr → Prop where
  | name {name : String} (word : Text.IsName name) : Head (.variableRef name)
  | integer (value : Int64) : Head (.primitive (.integer value))
  | boolean (value : Bool) : Head (.primitive (.boolean value))
  | string (text : String) : Head (.primitive (.string text))
  | binary (operator : BinaryOperator) {left right : Expr} :
      Readable left → Readable right → Head (.binaryOp operator left right)
  | array {elements : List Expr} : (∀ e ∈ elements, Readable e) → Head (.arrayLiteral elements)
  | call {method : String} {args : List Expr} (word : Text.IsName method) :
      (∀ e ∈ args, Readable e) → Head (.invocation none method args false)
  | map {keys values : List Expr} (same : keys.length = values.length) :
      (∀ e ∈ keys, Readable e) → (∀ e ∈ values, Readable e) →
      Head (.invocation none "Dictionary" [.arrayLiteral keys, .arrayLiteral values] true)

def lead : Expr → Text.Lead
  | .primitive (.integer _) => .number
  | .primitive (.string _) => .quote
  | .binaryOp .. => .parenthesis
  | .arrayLiteral _ => .bracket
  | .invocation none _ _ true => .brace
  | _ => .word

theorem Head.begins {e : Expr} (head : Head e) :
    ∃ c rest, e.script = c :: rest ∧ Text.lead? c = some e.lead := by
  cases head with
  | name word =>
    obtain ⟨⟨c, rest, spelled, start, _⟩, _⟩ := word
    exact ⟨c, rest, spelled, Text.lead_of_wordStart start⟩
  | integer value =>
    by_cases negative : value.toInt < 0
    · exact ⟨'-', Nat.toDigits 10 value.toInt.natAbs, by
        simp [script, Numeral.ofInt, Numeral.text, Numeral.sign, Numeral.fractionText,
          Numeral.exponentText, negative], rfl⟩
    · cases spelled : Nat.toDigits 10 value.toInt.natAbs with
      | nil => exact absurd spelled Nat.toDigits_ne_nil
      | cons c rest =>
        have digit : c.isDigit :=
          Nat.isDigit_of_mem_toDigits (b := 10) (n := value.toInt.natAbs) (by omega) (by omega)
            (by simp [spelled])
        exact ⟨c, rest, by
          simp [script, Numeral.ofInt, Numeral.text, Numeral.sign, Numeral.fractionText,
            Numeral.exponentText, negative, spelled], Text.lead_of_digit digit⟩
  | boolean value =>
    cases value with
    | true => exact ⟨'t', _, rfl, rfl⟩
    | false => exact ⟨'f', _, rfl, rfl⟩
  | string text => exact ⟨Token.quote, _, rfl, rfl⟩
  | binary operator left right => exact ⟨'(', _, rfl, rfl⟩
  | array elements => exact ⟨'[', _, rfl, rfl⟩
  | @call method args word _ =>
    obtain ⟨⟨c, rest, spelled, start, _⟩, _⟩ := word
    refine ⟨c, rest ++ '(' :: Text.listed (scripts args) ++ [')'], ?_,
      Text.lead_of_wordStart start⟩
    simp [script, spelled]
  | map same keys values =>
    rw [script]
    unfold Text.mapped
    split
    · exact ⟨'\x7b', _, rfl, rfl⟩
    · exact ⟨'\x7b', _, rfl, rfl⟩

theorem Head.lead_eq {e e' : Expr} (head : Head e) (head' : Head e') {r s : List Char}
    (same : e.script ++ r = e'.script ++ s) : e.lead = e'.lead := by
  obtain ⟨c, rest, spelled, lead⟩ := head.begins
  obtain ⟨c', rest', spelled', lead'⟩ := head'.begins
  rw [spelled, spelled'] at same
  rw [(List.cons.inj same).1, lead'] at lead
  exact (Option.some.inj lead).symm

inductive Postfix where
  | field (name : String)
  | method (name : String) (args : List Expr)
  | index (index : Expr)

namespace Postfix

def apply (e : Expr) : Postfix → Expr
  | field name => .fieldRef (some e) name
  | method name args => .invocation (some e) name args false
  | index i => .invocation none "Index" [e, i] true

def script : Postfix → List Char
  | field name => '.' :: name.toList
  | method name args => '.' :: name.toList ++ '(' :: Text.listed (scripts args) ++ [')']
  | index i => '[' :: i.script ++ [']']

def Readable : Postfix → Prop
  | field name => Text.IsIdentifier name
  | method name args => Text.IsName name ∧ ∀ e ∈ args, e.Readable
  | index i => i.Readable

theorem script_apply (e : Expr) (p : Postfix) : (p.apply e).script = e.script ++ p.script := by
  cases p <;> simp [apply, script, Expr.script]

end Postfix

-- An expression as a head and what comes after it.
structure Spine (e head : Expr) (ps : List Postfix) : Prop where
  own : Head head
  readable : ∀ p ∈ ps, p.Readable
  made : e = ps.foldl Postfix.apply head
  text : e.script = head.script ++ ps.flatMap Postfix.script

theorem Head.spine {e : Expr} (head : Head e) : Spine e e [] :=
  ⟨head, by simp, rfl, by simp⟩

theorem Spine.apply {e head : Expr} {ps : List Postfix} (spine : Spine e head ps) {p : Postfix}
    (readable : p.Readable) : Spine (p.apply e) head (ps ++ [p]) := by
  refine ⟨spine.own, ?_, by simp [spine.made], by simp [p.script_apply, spine.text]⟩
  intro q among
  rcases List.mem_append.mp among with earlier | last
  · exact spine.readable q earlier
  · cases List.mem_singleton.mp last
    exact readable

theorem Readable.exists_spine {e : Expr} (readable : e.Readable) : ∃ head ps, Spine e head ps := by
  induction readable with
  | name word => exact ⟨_, _, (Head.name word).spine⟩
  | integer value => exact ⟨_, _, (Head.integer value).spine⟩
  | boolean value => exact ⟨_, _, (Head.boolean value).spine⟩
  | string text => exact ⟨_, _, (Head.string text).spine⟩
  | binary operator left right => exact ⟨_, _, (Head.binary operator left right).spine⟩
  | array elements => exact ⟨_, _, (Head.array elements).spine⟩
  | call word args => exact ⟨_, _, (Head.call word args).spine⟩
  | map same keys values => exact ⟨_, _, (Head.map same keys values).spine⟩
  | @method target method args _ word among ih _ =>
    obtain ⟨head, ps, spine⟩ := ih
    exact ⟨head, _, spine.apply (p := .method method args) ⟨word, among⟩⟩
  | @field target field _ word ih =>
    obtain ⟨head, ps, spine⟩ := ih
    exact ⟨head, _, spine.apply (p := .field field) word⟩
  | @index container index _ readable ih _ =>
    obtain ⟨head, ps, spine⟩ := ih
    exact ⟨head, _, spine.apply (p := .index index) readable⟩

theorem Readable.opens {e : Expr} (readable : e.Readable) {close : Char}
    (plain : Text.lead? close = none) (t u : List Char) : close :: t ≠ e.script ++ u := by
  intro same
  obtain ⟨head, ps, spine⟩ := readable.exists_spine
  obtain ⟨c, rest, spelled, lead⟩ := spine.own.begins
  rw [spine.text, spelled] at same
  rw [(List.cons.inj same).1, lead] at plain
  cases plain

abbrev Determined (e : Expr) : Prop := Text.Determined script Readable e

theorem scripts_inj {es es' : List Expr} {close : Char} {r s : List Char}
    (plain : Text.lead? close = none) (closes : Text.joins close = false) (ends : close ≠ ',')
    (determined : ∀ e ∈ es, e.Determined) (readable : ∀ e ∈ es, e.Readable)
    (readable' : ∀ e ∈ es', e.Readable)
    (same : Text.listed (scripts es) ++ close :: r = Text.listed (scripts es') ++ close :: s) :
    es = es' ∧ r = s := by
  rw [scripts_eq_map, scripts_eq_map] at same
  exact Text.listed_inj closes ends (fun e t u readable => readable.opens plain t u) determined
    readable readable' same

theorem word_chars {name : String} (word : Text.IsIdentifier name) :
    ∀ c ∈ name.toList, Text.isWordChar c := by
  obtain ⟨c, rest, spelled, start, others⟩ := word
  rw [spelled]
  refine List.forall_mem_cons.mpr ⟨?_, others⟩
  simp only [Text.isWordStart, Bool.or_eq_true] at start
  rcases start with alpha | underscore
  · simp [Text.isWordChar, Char.isAlphanum, alpha]
  · simp [Text.isWordChar, underscore]

theorem word_inj {a b : String} {r s : List Char} (word_a : ∀ c ∈ a.toList, Text.isWordChar c)
    (word_b : ∀ c ∈ b.toList, Text.isWordChar c) (ends_a : Text.Avoids Text.isWordChar r)
    (ends_b : Text.Avoids Text.isWordChar s) (same : a.toList ++ r = b.toList ++ s) :
    a = b ∧ r = s := by
  obtain ⟨spelled, rests⟩ := Text.run_inj word_a word_b ends_a ends_b same
  exact ⟨String.toList_inj.mp spelled, rests⟩

namespace Postfix

def parts : Postfix → List Expr
  | field _ => []
  | method _ args => args
  | index i => [i]

theorem script_inj {p q : Postfix} {r s : List Char} (determined : ∀ e ∈ p.parts, e.Determined)
    (readable : p.Readable) (readable' : q.Readable) (ends : Text.Avoids Text.joinsHead r)
    (ends' : Text.Avoids Text.joinsHead s) (same : p.script ++ r = q.script ++ s) :
    p = q ∧ r = s := by
  have opened (t : List Char) : Text.Avoids Text.isWordChar ('(' :: t) := by
    simp
    decide
  cases p with
  | field name =>
    cases q with
    | field name' =>
      obtain ⟨rfl, rests⟩ := word_inj (word_chars readable) (word_chars readable') ends.word
        ends'.word (List.cons.inj same).2
      exact ⟨rfl, rests⟩
    | method name' args =>
      simp only [script, List.cons_append, List.append_assoc, List.cons.injEq, true_and] at same
      obtain ⟨_, rfl⟩ := word_inj (word_chars readable) (word_chars readable'.1.1) ends.word
        (opened _) same
      simp [Text.joinsHead] at ends
    | index i => cases (List.cons.inj same).1
  | method name args =>
    cases q with
    | field name' =>
      simp only [script, List.cons_append, List.append_assoc, List.cons.injEq, true_and] at same
      obtain ⟨_, rfl⟩ := word_inj (word_chars readable.1.1) (word_chars readable') (opened _)
        ends'.word same
      simp [Text.joinsHead] at ends'
    | method name' args' =>
      simp only [script, List.cons_append, List.append_assoc, List.cons.injEq, true_and] at same
      obtain ⟨rfl, inside⟩ := word_inj (word_chars readable.1.1) (word_chars readable'.1.1)
        (opened _) (opened _) same
      obtain ⟨rfl, rests⟩ := scripts_inj (by decide) (by decide) (by decide) determined
        readable.2 readable'.2 (List.cons.inj inside).2
      exact ⟨rfl, rests⟩
    | index i => cases (List.cons.inj same).1
  | index i =>
    cases q with
    | field name => cases (List.cons.inj same).1
    | method name args => cases (List.cons.inj same).1
    | index j =>
      simp only [script, List.cons_append, List.append_assoc, List.cons.injEq, true_and] at same
      obtain ⟨rfl, rests⟩ := determined i (by simp [parts]) j _ _ readable'
        (by simp; decide) (by simp; decide) same
      exact ⟨rfl, (List.cons.inj rests).2⟩

theorem avoids_joinsHead (ps : List Postfix) {r : List Char} (ends : Text.Avoids Text.joins r) :
    Text.Avoids Text.joinsHead (ps.flatMap script ++ r) := by
  cases ps with
  | nil => exact ends.head
  | cons p ps => cases p <;> simp [script] <;> decide

theorem scripts_inj {ps qs : List Postfix} {r s : List Char}
    (determined : ∀ p ∈ ps, ∀ e ∈ p.parts, e.Determined) (readable : ∀ p ∈ ps, p.Readable)
    (readable' : ∀ q ∈ qs, q.Readable) (ends : Text.Avoids Text.joins r)
    (ends' : Text.Avoids Text.joins s) (same : ps.flatMap script ++ r = qs.flatMap script ++ s) :
    ps = qs ∧ r = s := by
  have more (p : Postfix) (t u : List Char) : Text.Avoids Text.joins u → u ≠ p.script ++ t := by
    rintro avoids rfl
    cases p <;> simp [script, Text.joins] at avoids
  induction ps generalizing qs with
  | nil =>
    cases qs with
    | nil => exact ⟨rfl, same⟩
    | cons q qs =>
      rw [List.flatMap_cons, List.append_assoc] at same
      exact absurd same (more q _ _ ends)
  | cons p ps ih =>
    rw [List.flatMap_cons, List.append_assoc] at same
    cases qs with
    | nil => exact absurd same.symm (more p _ _ ends')
    | cons q qs =>
      rw [List.flatMap_cons, List.append_assoc] at same
      obtain ⟨rfl, tails⟩ := script_inj (determined p List.mem_cons_self)
        (readable p List.mem_cons_self) (readable' q List.mem_cons_self)
        (avoids_joinsHead ps ends) (avoids_joinsHead qs ends') same
      obtain ⟨rfl, rests⟩ := ih (fun p among => determined p (List.mem_cons_of_mem _ among))
        (fun p among => readable p (List.mem_cons_of_mem _ among))
        (fun q among => readable' q (List.mem_cons_of_mem _ among)) tails
      exact ⟨rfl, rests⟩

end Postfix

theorem token_inj {o o' : BinaryOperator} {r s : List Char}
    (same : o.token.toList ++ ' ' :: r = o'.token.toList ++ ' ' :: s) : o = o' ∧ r = s := by
  have unspaced (o : BinaryOperator) : ∀ c ∈ o.token.toList, (c != ' ') = true :=
    List.all_eq_true.mp (by cases o <;> decide)
  have found (o : BinaryOperator) :
      BinaryOperator.all.find? (fun other => other.token = o.token) = some o := by
    cases o <;> decide
  obtain ⟨spelled, rests⟩ := Text.run_inj (unspaced o) (unspaced o') (by simp) (by simp) same
  have operator := found o
  rw [String.toList_inj.mp spelled, found o'] at operator
  exact ⟨(Option.some.inj operator).symm, (List.cons.inj rests).2⟩

def entryScript (entry : Expr × Expr) : List Char := Text.entry entry.1.script entry.2.script

theorem entry_determined {key value : Expr} (key_determined : key.Determined)
    (value_determined : value.Determined) :
    Text.Determined entryScript (fun e => e.1.Readable ∧ e.2.Readable) (key, value) := by
  rintro ⟨key', value'⟩ r s ⟨key_readable, value_readable⟩ ends ends' same
  simp only [entryScript, Text.entry, List.append_assoc, List.cons_append, List.nil_append] at same
  obtain ⟨rfl, tails⟩ := key_determined key' _ _ key_readable (by simp; decide) (by simp; decide)
    same
  simp only [List.cons.injEq, true_and] at tails
  obtain ⟨rfl, rests⟩ := value_determined value' _ _ value_readable ends ends' tails
  exact ⟨rfl, rests⟩

theorem mapped_inj {entries entries' : List (Expr × Expr)} {r s : List Char}
    (determined : ∀ e ∈ entries, e.1.Determined ∧ e.2.Determined)
    (readable : ∀ e ∈ entries, e.1.Readable ∧ e.2.Readable)
    (readable' : ∀ e ∈ entries', e.1.Readable ∧ e.2.Readable)
    (same : Text.mapped (entries.map entryScript) ++ r
      = Text.mapped (entries'.map entryScript) ++ s) : entries = entries' ∧ r = s := by
  have inside (t u : List Char)
      (same : Text.listed (entries.map entryScript) ++ ' ' :: t
        = Text.listed (entries'.map entryScript) ++ ' ' :: u) : entries = entries' ∧ t = u := by
    refine Text.listed_inj (by decide) (by decide) ?_ ?_ readable readable' same
    · rintro ⟨key, value⟩ t u ⟨key_readable, _⟩
      simp only [entryScript, Text.entry, List.append_assoc]
      exact key_readable.opens (by decide) t _
    · rintro ⟨key, value⟩ among
      obtain ⟨key_determined, value_determined⟩ := determined _ among
      exact entry_determined key_determined value_determined
  cases entries with
  | nil =>
    cases entries' with
    | nil => exact ⟨rfl, by simpa [Text.mapped] using same⟩
    | cons entry' rest' => simp [Text.mapped] at same
  | cons entry rest =>
    cases entries' with
    | nil => simp [Text.mapped] at same
    | cons entry' rest' =>
      have closed : Text.listed ((entry :: rest).map entryScript) ++ ' ' :: '\x7d' :: r
          = Text.listed ((entry' :: rest').map entryScript) ++ ' ' :: '\x7d' :: s := by
        simpa [Text.mapped] using same
      obtain ⟨equal, rests⟩ := inside _ _ closed
      exact ⟨equal, (List.cons.inj rests).2⟩

theorem maps_inj {keys values keys' values' : List Expr} {r s : List Char}
    (length : keys.length = values.length) (length' : keys'.length = values'.length)
    (determined : ∀ e ∈ keys ++ values, e.Determined)
    (keys_readable : ∀ e ∈ keys, e.Readable) (values_readable : ∀ e ∈ values, e.Readable)
    (keys_readable' : ∀ e ∈ keys', e.Readable) (values_readable' : ∀ e ∈ values', e.Readable)
    (same : Text.mapped ((scripts keys).zipWith Text.entry (scripts values)) ++ r
      = Text.mapped ((scripts keys').zipWith Text.entry (scripts values')) ++ s) :
    keys = keys' ∧ values = values' ∧ r = s := by
  have zipped (ks vs : List Expr) : (scripts ks).zipWith Text.entry (scripts vs)
      = (ks.zip vs).map entryScript := by
    simp [scripts_eq_map, List.zip, List.map_zipWith, List.zipWith_map, entryScript]
  rw [zipped, zipped] at same
  obtain ⟨entries, rests⟩ := mapped_inj
    (fun e among => ⟨determined _ (List.mem_append_left _ (List.of_mem_zip among).1),
      determined _ (List.mem_append_right _ (List.of_mem_zip among).2)⟩)
    (fun e among => ⟨keys_readable _ (List.of_mem_zip among).1,
      values_readable _ (List.of_mem_zip among).2⟩)
    (fun e among => ⟨keys_readable' _ (List.of_mem_zip among).1,
      values_readable' _ (List.of_mem_zip among).2⟩) same
  refine ⟨?_, ?_, rests⟩
  · have first := congrArg (List.map Prod.fst) entries
    rwa [List.map_fst_zip (by omega), List.map_fst_zip (by omega)] at first
  · have second := congrArg (List.map Prod.snd) entries
    rwa [List.map_snd_zip (by omega), List.map_snd_zip (by omega)] at second

def under : Expr → List Expr
  | .binaryOp _ left right => [left, right]
  | .arrayLiteral elements => elements
  | .invocation _ _ args false => args
  | .invocation _ _ [.arrayLiteral keys, .arrayLiteral values] true => keys ++ values
  | _ => []

theorem truth_chars (value : Bool) :
    ∀ c ∈ (if value then Token.trueText else Token.falseText).toList, Text.isWordChar c :=
  List.all_eq_true.mp (by cases value <;> decide)

theorem Head.script_inj_of_word {e e' : Expr} {r s : List Char} (head : Head e) (head' : Head e')
    (leads : e.lead = .word) (leads' : e'.lead = .word)
    (determined : ∀ c ∈ e.under, c.Determined) (ends : Text.Avoids Text.joinsHead r)
    (ends' : Text.Avoids Text.joinsHead s) (same : e.script ++ r = e'.script ++ s) :
    e = e' ∧ r = s := by
  cases head with
  | name word =>
    cases head' with
    | name word' =>
      obtain ⟨rfl, rests⟩ := word_inj (word_chars word.1) (word_chars word'.1) ends.word ends'.word
        same
      exact ⟨rfl, rests⟩
    | boolean value =>
      obtain ⟨rfl, _⟩ := word_inj (word_chars word.1) (truth_chars value) ends.word ends'.word same
      cases value <;> simp [Text.IsName] at word
    | call word' args =>
      simp only [script, List.append_assoc, List.cons_append] at same
      obtain ⟨_, rfl⟩ := word_inj (word_chars word.1) (word_chars word'.1) ends.word
        (by simp; decide) same
      simp [Text.joinsHead] at ends
    | _ => cases leads'
  | boolean value =>
    cases head' with
    | name word' =>
      obtain ⟨rfl, _⟩ := word_inj (truth_chars value) (word_chars word'.1) ends.word ends'.word same
      cases value <;> simp [Text.IsName] at word'
    | boolean value' =>
      obtain ⟨words, rests⟩ := word_inj (truth_chars value) (truth_chars value') ends.word
        ends'.word same
      refine ⟨?_, rests⟩
      cases value <;> cases value' <;> first | rfl | exact absurd words (by decide)
    | call word' args =>
      simp only [script, List.append_assoc, List.cons_append] at same
      obtain ⟨_, rfl⟩ := word_inj (truth_chars value) (word_chars word'.1) ends.word
        (by simp; decide) same
      simp [Text.joinsHead] at ends
    | _ => cases leads'
  | call word args =>
    simp only [script, List.append_assoc, List.cons_append] at same
    cases head' with
    | name word' =>
      obtain ⟨_, rfl⟩ := word_inj (word_chars word.1) (word_chars word'.1) (by simp; decide)
        ends'.word same
      simp [Text.joinsHead] at ends'
    | boolean value =>
      obtain ⟨_, rfl⟩ := word_inj (word_chars word.1) (truth_chars value) (by simp; decide)
        ends'.word same
      simp [Text.joinsHead] at ends'
    | call word' args' =>
      simp only [script, List.append_assoc, List.cons_append] at same
      obtain ⟨rfl, inside⟩ := word_inj (word_chars word.1) (word_chars word'.1) (by simp; decide)
        (by simp; decide) same
      obtain ⟨rfl, rests⟩ := scripts_inj (by decide) (by decide) (by decide) determined args args'
        (List.cons.inj inside).2
      exact ⟨rfl, rests⟩
    | _ => cases leads'
  | _ => cases leads

theorem Head.script_inj {e e' : Expr} {r s : List Char} (head : Head e) (head' : Head e')
    (determined : ∀ c ∈ e.under, c.Determined) (ends : Text.Avoids Text.joinsHead r)
    (ends' : Text.Avoids Text.joinsHead s) (same : e.script ++ r = e'.script ++ s) :
    e = e' ∧ r = s := by
  have leads := head.lead_eq head' same
  cases head with
  | integer value =>
    cases head' with
    | integer value' =>
      obtain ⟨values, rests⟩ := Text.integer_inj ends ends' same
      rw [Int64.toInt_inj.mp values]
      exact ⟨rfl, rests⟩
    | _ => simp [lead] at leads
  | string text =>
    cases head' with
    | string text' =>
      obtain ⟨rfl, rests⟩ := Text.quoted_inj ends ends' same
      exact ⟨rfl, rests⟩
    | _ => simp [lead] at leads
  | binary operator left right =>
    cases head' with
    | binary operator' left' right' =>
      simp only [script, List.cons_append, List.append_assoc, List.cons.injEq, true_and] at same
      obtain ⟨rfl, operators⟩ := determined _ (by simp [under]) _ _ _ left' (by simp; decide)
        (by simp; decide) same
      obtain ⟨rfl, operands⟩ := token_inj (List.cons.inj operators).2
      obtain ⟨rfl, rests⟩ := determined _ (by simp [under]) _ _ _ right' (by simp; decide)
        (by simp; decide) operands
      exact ⟨rfl, (List.cons.inj rests).2⟩
    | _ => simp [lead] at leads
  | array elements =>
    cases head' with
    | array elements' =>
      simp only [script, List.cons_append, List.append_assoc, List.cons.injEq, true_and] at same
      obtain ⟨rfl, rests⟩ := scripts_inj (by decide) (by decide) (by decide) determined elements
        elements' same
      exact ⟨rfl, rests⟩
    | _ => simp [lead] at leads
  | map length keys values =>
    cases head' with
    | map length' keys' values' =>
      obtain ⟨rfl, rfl, rests⟩ := maps_inj length length' determined keys values keys' values' same
      exact ⟨rfl, rests⟩
    | _ => simp [lead] at leads
  | name word =>
    exact (Head.name word).script_inj_of_word head' rfl leads.symm determined ends ends' same
  | boolean value =>
    exact (Head.boolean value).script_inj_of_word head' rfl leads.symm determined ends ends' same
  | call word args =>
    exact (Head.call word args).script_inj_of_word head' rfl leads.symm determined ends ends' same

-- An expression with more after it is told apart from every spine.
def Followed (e : Expr) : Prop :=
  ∀ (ps : List Postfix) (head : Expr) (qs : List Postfix) (r s : List Char),
    (∀ p ∈ ps, p.Readable ∧ ∀ c ∈ p.parts, c.Determined) → Head head →
    (∀ q ∈ qs, q.Readable) → Text.Avoids Text.joins r → Text.Avoids Text.joins s →
    e.script ++ (ps.flatMap Postfix.script ++ r)
      = head.script ++ (qs.flatMap Postfix.script ++ s) →
    ps.foldl Postfix.apply e = qs.foldl Postfix.apply head ∧ r = s

theorem Head.followed {e : Expr} (own : Head e) (determined : ∀ c ∈ e.under, c.Determined) :
    e.Followed := by
  intro ps head qs r s inside is_head readable ends ends' same
  obtain ⟨rfl, tails⟩ := own.script_inj is_head determined (Postfix.avoids_joinsHead ps ends)
    (Postfix.avoids_joinsHead qs ends') same
  obtain ⟨rfl, rests⟩ := Postfix.scripts_inj (fun p among => (inside p among).2)
    (fun p among => (inside p among).1) readable ends ends' tails
  exact ⟨rfl, rests⟩

theorem Followed.apply {e : Expr} (followed : e.Followed) {p : Postfix} (readable : p.Readable)
    (determined : ∀ c ∈ p.parts, c.Determined) : (p.apply e).Followed := by
  intro ps head qs r s inside is_head readable' ends ends' same
  refine followed (p :: ps) head qs r s ?_ is_head readable' ends ends' ?_
  · exact List.forall_mem_cons.mpr ⟨⟨readable, determined⟩, inside⟩
  · simpa [p.script_apply] using same

theorem Followed.determined {e : Expr} (followed : e.Followed) : e.Determined := by
  intro e' r s readable ends ends' same
  obtain ⟨head, qs, spine⟩ := readable.exists_spine
  rw [spine.text, List.append_assoc] at same
  obtain ⟨equal, rests⟩ := followed [] head qs r s (by simp) spine.own spine.readable ends ends'
    (by simpa using same)
  exact ⟨equal.trans spine.made.symm, rests⟩

theorem Readable.followed {e : Expr} (readable : e.Readable) : e.Followed := by
  -- A head takes that what is directly inside it is determined, any other form that what it comes
  -- after is told apart with more behind it; the induction gives both.
  induction readable with
  | name word => exact (Head.name word).followed (by simp [under])
  | integer value => exact (Head.integer value).followed (by simp [under])
  | boolean value => exact (Head.boolean value).followed (by simp [under])
  | string text => exact (Head.string text).followed (by simp [under])
  | binary operator left right ihl ihr =>
    refine (Head.binary operator left right).followed ?_
    simp [under, ihl.determined, ihr.determined]
  | array elements ih =>
    exact (Head.array elements).followed fun c among => (ih c among).determined
  | call word args ih => exact (Head.call word args).followed fun c among => (ih c among).determined
  | map same keys values ihk ihv =>
    refine (Head.map same keys values).followed fun c among => ?_
    rcases List.mem_append.mp among with key | value
    · exact (ihk c key).determined
    · exact (ihv c value).determined
  | @method target method args _ word among ih iha =>
    exact ih.apply (p := .method method args) ⟨word, among⟩ fun c inside =>
      (iha c inside).determined
  | @field target field _ word ih =>
    exact ih.apply (p := .field field) word (by simp [Postfix.parts])
  | @index container index _ readable ihc ihi =>
    exact ihc.apply (p := .index index) readable (by simp [Postfix.parts, ihi.determined])

theorem script_injective {e e' : Expr} (readable : e.Readable) (readable' : e'.Readable)
    (same : e.script = e'.script) : e = e' :=
  (readable.followed.determined e' [] [] readable' (by simp) (by simp) (by simp [same])).1

end Expr

-- Two readable expressions that are written with one text in expression position are the same.
theorem Printer.emit_unambiguous (options : Options) (escaped : options.escapeStrings)
    (separated : options.fieldSeparator) {a b : Expr} (readable_a : a.Readable)
    (readable_b : b.Readable) (context : Context) (position : context.statement = false)
    (written_a : (Printer.emit { options } (.expression a context)).2 = none)
    (written_b : (Printer.emit { options } (.expression b context)).2 = none)
    (same : (Printer.emit { options } (.expression a context)).1.text
      = (Printer.emit { options } (.expression b context)).1.text) : a = b := by
  rw [emit_fresh, Option.map_eq_none_iff] at written_a written_b
  rw [emit_fresh, emit_fresh] at same
  have script_a := Expr.contents_eq_script escaped separated readable_a position written_a
  have script_b := Expr.contents_eq_script escaped separated readable_b position written_b
  refine Expr.script_injective readable_a readable_b ?_
  rw [← script_a, ← script_b]
  exact congrArg String.toList same

theorem Printer.emit_unambiguous_assignment :
    let printer : Printer := ⟨{ escapeStrings := true, fieldSeparator := true }, ⟨"", none⟩⟩
    let a : Expr := .binaryOp .assign (.variableRef "x") (.primitive (.string "a"))
    let b : Expr := .binary (.var "x") .assign (.string "a")
    a.Readable ∧ b.Readable ∧
      (printer.emit (.expression a .root)).2 = none ∧
      (printer.emit (.expression a .root)).1.text
        = (printer.emit (.expression b .root)).1.text ∧ a = b := by
  intro printer a b
  have word : Text.IsName "x" := ⟨⟨'x', [], by decide, by decide, by simp⟩, by decide, by decide⟩
  have readable : a.Readable := .binary .assign (.name word) (.string "a")
  have written : (printer.emit (.expression a .root)).2 = none := by decide
  have same : (printer.emit (.expression a .root)).1.text
      = (printer.emit (.expression b .root)).1.text := by decide
  exact ⟨readable, readable, written, same,
    Printer.emit_unambiguous printer.options rfl rfl readable readable .root rfl written written
      same⟩

end HotkeyScript
