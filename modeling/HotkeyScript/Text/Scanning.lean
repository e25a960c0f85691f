import HotkeyScript.Text.Runs
import HotkeyScript.Token
namespace HotkeyScript.Text

def readOn (c : Char) (read : Option (List Char × List Char)) : Option (List Char × List Char) :=
  read.map fun (value, rest) => (c :: value, rest)

-- Reads on behind the opening quote. What the literal stands for comes first, the text behind the
-- closing quote second.
def readBody : List Char → Option (List Char × List Char)
  | [] => none
  | '\x22' :: '\x22' :: rest => readOn '\x22' (readBody rest)
  | '\x22' :: rest => some ([], rest)
  | '\x60' :: 'n' :: rest => readOn '\n' (readBody rest)
  | '\x60' :: 'r' :: rest => readOn '\r' (readBody rest)
  | '\x60' :: 't' :: rest => readOn '\t' (readBody rest)
  | '\x60' :: '\x60' :: rest => readOn '\x60' (readBody rest)
  | c :: rest => readOn c (readBody rest)

def readLiteral (text : String) : Option (String × String) :=
  match text.toList with
  | '\x22' :: body =>
    (readBody body).map fun (value, rest) => (String.ofList value, String.ofList rest)
  | _ => none

theorem readBody_plain {c : Char} (noQuote : c ≠ Token.quote) (noEscape : c ≠ Token.escape)
    (rest : List Char) : readBody (c :: rest) = readOn c (readBody rest) := by
  rw [readBody]
  all_goals
    intros
    simp_all [Token.quote, Token.escape]

theorem readBody_quote {rest : List Char} (ends : Avoids (· = Token.quote) rest) :
    readBody (Token.quote :: rest) = some ([], rest) := by
  unfold Token.quote
  rw [readBody]
  intro more begins
  rw [begins] at ends
  simp [Token.quote] at ends

inductive Bracket where
  | parenthesis | square | curly
deriving DecidableEq

namespace Bracket

def all : List Bracket := [.parenthesis, .square, .curly]

def opening : Bracket → Char
  | .parenthesis => '('
  | .square => '['
  | .curly => '\x7b'

def closing : Bracket → Char
  | .parenthesis => ')'
  | .square => ']'
  | .curly => '\x7d'

def ofOpening? (c : Char) : Option Bracket := all.find? fun b => b.opening = c

def ofClosing? (c : Char) : Option Bracket := all.find? fun b => b.closing = c

end Bracket

-- Where reading has got to: whether inside a string, and the brackets that are still open, the
-- last one first.
structure Nesting where
  inString : Bool := false
  pending : List Bracket := []
deriving DecidableEq

namespace Nesting

def read (n : Nesting) (c : Char) : Option Nesting :=
  if c = Token.quote then some { n with inString := !n.inString }
  else if n.inString then some n
  else
    match Bracket.ofOpening? c, Bracket.ofClosing? c with
    | some b, _ => some { n with pending := b :: n.pending }
    | none, some b =>
      match n.pending with
      | [] => none
      | last :: pending => if last = b then some { n with pending } else none
    | none, none => some n

def after (n : Nesting) (text : List Char) : Option Nesting := text.foldlM read n

end Nesting

def WellBracketed (text : String) : Prop := Nesting.after {} text.toList = some {}

instance (text : String) : Decidable (WellBracketed text) :=
  inferInstanceAs (Decidable (_ = _))

def marks : List Char := Token.quote :: Bracket.all.flatMap fun b => [b.opening, b.closing]

def Unmarked (text : List Char) : Prop := ∀ c ∈ text, c ∉ marks

-- Named outright, since a search may come upon an instance that tries every character there is.
instance (text : List Char) : Decidable (Unmarked text) := List.decidableBAll _ _

def Closed (text : List Char) : Prop :=
  ∀ pending, Nesting.after ⟨false, pending⟩ text = some ⟨false, pending⟩

namespace Nesting

theorem after_cons (n : Nesting) (c : Char) (text : List Char) :
    n.after (c :: text) = (n.read c).bind (·.after text) := rfl

theorem after_append (n : Nesting) (a b : List Char) :
    n.after (a ++ b) = (n.after a).bind (·.after b) := by
  rw [after, List.foldlM_append]
  rfl

theorem read_of_not_mem (n : Nesting) {c : Char} (unmarked : c ∉ marks) : n.read c = some n := by
  have noQuote : c ≠ Token.quote := fun same => unmarked (same ▸ List.mem_cons_self)
  have noBracket : Bracket.ofOpening? c = none ∧ Bracket.ofClosing? c = none := by
    simp only [marks, Bracket.all, List.flatMap_cons, List.flatMap_nil, List.cons_append,
      List.nil_append, List.mem_cons, List.not_mem_nil, or_false, not_or] at unmarked
    simp only [Bracket.ofOpening?, Bracket.ofClosing?, Bracket.all, List.find?_eq_none]
    grind
  rw [read, if_neg noQuote, noBracket.1, noBracket.2]
  split <;> rfl

theorem inString_of_read {n m : Nesting} {c : Char} (noQuote : c ≠ Token.quote)
    (step : n.read c = some m) : m.inString = n.inString := by
  rw [read, if_neg noQuote] at step
  split at step
  · cases step; rfl
  · split at step
    · cases step; rfl
    · split at step
      · cases step
      · split at step
        · cases step; rfl
        · cases step
    · cases step; rfl

theorem inString_of_after {n m : Nesting} {text : List Char} (noQuote : Token.quote ∉ text)
    (reached : n.after text = some m) : m.inString = n.inString := by
  induction text generalizing n with
  | nil => cases reached; rfl
  | cons c text ih =>
    obtain ⟨own, others⟩ : Token.quote ≠ c ∧ Token.quote ∉ text := by simpa using noQuote
    rw [after_cons] at reached
    obtain ⟨next, step, further⟩ := Option.bind_eq_some_iff.mp reached
    rw [ih others further, inString_of_read own.symm step]

theorem after_inString {text : List Char} (noQuote : Token.quote ∉ text) (pending : List Bracket) :
    after ⟨true, pending⟩ text = some ⟨true, pending⟩ := by
  induction text with
  | nil => rfl
  | cons c text ih =>
    obtain ⟨own, others⟩ : Token.quote ≠ c ∧ Token.quote ∉ text := by simpa using noQuote
    have passed : read ⟨true, pending⟩ c = some ⟨true, pending⟩ := by simp [read, own.symm]
    rw [after_cons, passed, Option.bind_some, ih others]

end Nesting

theorem closed_nil : Closed [] := fun _ => rfl

theorem Closed.append {a b : List Char} (first : Closed a) (second : Closed b) :
    Closed (a ++ b) := by
  intro pending
  rw [Nesting.after_append, first, Option.bind_some, second]

theorem Unmarked.closed {text : List Char} (unmarked : Unmarked text) : Closed text := by
  intro pending
  induction text with
  | nil => rfl
  | cons c text ih =>
    obtain ⟨own, others⟩ := List.forall_mem_cons.mp unmarked
    rw [Nesting.after_cons, Nesting.read_of_not_mem _ own, Option.bind_some, ih others]

theorem closed_string {body : List Char}
    (inside : ∀ pending, Nesting.after ⟨true, pending⟩ body = some ⟨true, pending⟩) :
    Closed (Token.quote :: body ++ [Token.quote]) := by
  intro pending
  rw [Nesting.after_append, Nesting.after_cons]
  show ((Nesting.after ⟨true, pending⟩ body).bind _) = _
  rw [inside]
  rfl

end HotkeyScript.Text
