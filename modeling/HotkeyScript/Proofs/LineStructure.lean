import HotkeyScript.Proofs.DecimalText
import HotkeyScript.Proofs.FloatText
import HotkeyScript.Proofs.Lines
import HotkeyScript.Proofs.RawTexts
import HotkeyScript.Proofs.Readable
import HotkeyScript.Text.Runs
namespace HotkeyScript

namespace Text

def Unbroken (text : String) : Prop := ∀ c ∈ text.toList, c ≠ '\n' ∧ c ≠ '\r'

instance (text : String) : Decidable (Unbroken text) := List.decidableBAll _ _

@[simp] theorem unbroken_append (a b : String) :
    Unbroken (a ++ b) ↔ Unbroken a ∧ Unbroken b := by
  simp only [Unbroken, String.toList_append, List.forall_mem_append]

theorem unbroken_escapedChar (c : Char) : ∀ d ∈ escapedChar c, d ≠ '\n' ∧ d ≠ '\r' := by
  fun_cases escapedChar c with
  | case6 _ lineFeed carriageReturn _ _ => simpa using ⟨lineFeed, carriageReturn⟩
  | _ => simp [Token.quote, Token.escape]

theorem unbroken_quoted (text : String) : ∀ d ∈ quoted text, d ≠ '\n' ∧ d ≠ '\r' := by
  simp only [quoted, List.forall_mem_append, List.forall_mem_cons]
  have quote : Token.quote ≠ '\n' ∧ Token.quote ≠ '\r' := by decide
  refine ⟨⟨quote, ?_⟩, quote, by simp⟩
  intro d among
  obtain ⟨c, _, written⟩ := List.mem_flatMap.mp among
  exact unbroken_escapedChar c d written

theorem Unbroken.not_mem_newLine {text : String} (unbroken : Unbroken text) (newLine : NewLine) :
    ∀ c ∈ text.toList, c ∉ newLine.text.toList := by
  intro c among
  obtain ⟨lineFeed, carriageReturn⟩ := unbroken c among
  cases newLine <;> simp [NewLine.text, lineFeed, carriageReturn]

end Text

theorem Numeral.unbroken_text {n : Numeral} (spelled : ∀ c ∈ n.text, spelledWith c) :
    Text.Unbroken (String.ofList n.text) := by
  intro c among
  rw [String.toList_ofList] at among
  have number := spelled c among
  constructor
  · rintro rfl
    cases number
  · rintro rfl
    cases number

def Emission.Unbroken (a : Emission) : Prop := Text.Unbroken a.contents

instance (a : Emission) : Decidable a.Unbroken :=
  inferInstanceAs (Decidable (Text.Unbroken a.contents))

namespace Emission

theorem Unbroken.andThen {a b : Emission} (first : a.Unbroken) (second : b.Unbroken) :
    (a ++ b).Unbroken := by
  cases fault : a.fault with
  | some f => rwa [andThen_of_fault b (by simp [fault])]
  | none =>
    rw [Unbroken, contents_andThen b fault, Text.unbroken_append]
    exact ⟨first, second⟩

theorem unbroken_text {text : String} (unbroken : Text.Unbroken text) :
    (Emission.text text).Unbroken := by
  rwa [Unbroken, contents_text]

theorem unbroken_nothing : nothing.Unbroken := by decide

theorem unbroken_fail (f : Fault) : (fail f).Unbroken := by
  rw [Unbroken, contents_fail]
  decide

theorem unbroken_jump {label : String} (unbroken : Text.Unbroken label) :
    (jump label).Unbroken :=
  .andThen (.andThen (unbroken_text (by decide)) (unbroken_text (by decide)))
    (unbroken_text unbroken)

theorem unbroken_punctuation : ∀ written ∈ punctuation, written.Unbroken := by decide

end Emission

-- Escapes keep what ends a line out of a literal; no other literal has any such character.
theorem Primitive.emission_unbroken {options : Options} (escaped : options.escapeStrings)
    (value : Primitive) : (value.emission options).Unbroken := by
  cases value with
  | null => exact Emission.unbroken_text (by decide)
  | string text =>
    rw [emission, Emission.Unbroken, Text.Unbroken, Expr.contents_stringLiteral escaped]
    exact Text.unbroken_quoted text
  | boolean value => cases value <;> exact Emission.unbroken_text (by decide)
  | integer value =>
    have wellFormed := Numeral.ofInt_wellFormed value.toInt
    exact Emission.unbroken_text (Numeral.unbroken_text wellFormed.spelledWith)
  | float value =>
    simp only [emission]
    split
    · have wellFormed := value.scriptNumeral_wellFormed
      exact Emission.unbroken_text (Numeral.unbroken_text wellFormed.spelledWith)
    · split <;> exact Emission.unbroken_fail _
  | decimal value =>
    exact Emission.unbroken_text (Numeral.unbroken_text value.spelledWith_of_mem_text)
  | char value => exact Emission.unbroken_fail _

section

variable {options : Options} (escaped : options.escapeStrings)
include escaped

theorem Layout.emission_unbroken {context : Context} {texts : List String}
    (unbroken : ∀ text ∈ texts, Text.Unbroken text) {l : Layout}
    (drawn : l.DrawnFrom options texts)
    (parts : ∀ d c, .part d c ∈ l → c.rawTexts ⊆ texts →
      (c.emission options (d.context context)).Unbroken) :
    (l.emission options context).Unbroken := by
  induction l with
  | nil => exact Emission.unbroken_nothing
  | cons item rest ih =>
    obtain ⟨own, others⟩ := drawnFrom_cons item rest |>.mp drawn
    rw [emission_cons]
    refine .andThen ?_ (ih others fun d c part => parts d c (List.mem_cons_of_mem item part))
    cases own with
    | punctuation among => exact Emission.unbroken_punctuation _ among
    | raw among => exact Emission.unbroken_text (unbroken _ among)
    | jump among => exact Emission.unbroken_jump (unbroken _ among)
    | literal value => exact value.emission_unbroken escaped
    | refusal fault => exact Emission.unbroken_fail fault
    | part descent within => exact parts _ _ List.mem_cons_self within

theorem Expr.emission_unbroken {e : Expr} (unbroken : ∀ text ∈ e.rawTexts, Text.Unbroken text)
    (context : Context) : (e.emission options context).Unbroken := by
  induction e using Expr.layout_induction generalizing context with
  | step e ih =>
    rw [emission_eq_layout]
    split
    · exact Emission.unbroken_fail _
    · refine Layout.emission_unbroken escaped unbroken
        (layout_drawn (List.Subset.refl _) context.statement) fun d c part within => ?_
      exact ih options _ d c part (fun text own => unbroken text (within own)) (d.context context)

theorem Stmt.emission_unbroken {s : Stmt} (unbroken : ∀ text ∈ s.rawTexts, Text.Unbroken text)
    (context : Context) : (s.emission options context).Unbroken := by
  have assignment : Emission.assignment.Unbroken := by decide
  cases s with
  | expression expr => exact Expr.emission_unbroken escaped unbroken _
  | variableDeclaration name init =>
    obtain ⟨named, valued⟩ := List.forall_mem_cons.mp unbroken
    refine .andThen (.andThen (Emission.unbroken_text named) assignment) ?_
    cases init with
    | none => exact Emission.unbroken_text (by decide)
    | some init => exact Expr.emission_unbroken escaped valued _
  | assignment left right =>
    obtain ⟨target, value⟩ := List.forall_mem_append.mp unbroken
    exact .andThen (.andThen (Expr.emission_unbroken escaped target _) assignment)
      (Expr.emission_unbroken escaped value _)
  | returning value =>
    refine .andThen (Emission.unbroken_text (by decide)) ?_
    cases value with
    | none => exact Emission.unbroken_nothing
    | some value =>
      exact .andThen (Emission.unbroken_text (by decide))
        (Expr.emission_unbroken escaped unbroken _)
  | goto label => exact Emission.unbroken_jump (unbroken label List.mem_cons_self)

end

theorem unbroken_lineStart {options : Options} (unbroken : Text.Unbroken options.indent)
    (level : Nat) : Text.Unbroken (lineStart options level) := by
  unfold lineStart
  induction level with
  | zero =>
    show Text.Unbroken ""
    decide
  | succ level ih =>
    rw [List.replicate_succ, String.join_cons, Text.unbroken_append]
    exact ⟨unbroken, ih⟩

theorem NewLine.text_ne_empty (newLine : NewLine) : newLine.text ≠ "" := by
  cases newLine <;> decide

-- Cut at its line ends, a script whose names are free of line ends falls into its statements, one
-- to a line and none of them with a line end inside, whatever its string literals hold.
theorem Printer.emit_line_structure {options : Options} (escaped : options.escapeStrings)
    (level : Nat) (list : List Stmt)
    (unbroken : ∀ text ∈ options.indent :: list.flatMap Stmt.rawTexts, Text.Unbroken text)
    (written : (Printer.emit { options } (.statements list level)).2 = none) :
    Text.split options.newLine.text (Printer.emit { options } (.statements list level)).1.text
        = (list.map fun s => lineStart options level ++ (alone options s).1) ++ [""] ∧
      ∀ s ∈ list, (alone options s).2 = none ∧
        Text.Unbroken (lineStart options level ++ (alone options s).1) := by
  obtain ⟨indent, names⟩ := List.forall_mem_cons.mp unbroken
  have complete : (Stmt.lines options level list).fault = none := by
    rw [emit_statements] at written
    exact Option.map_eq_none_iff.mp written
  have fine : ∀ s ∈ list, (s.emission options .root).fault = none := by
    intro s member
    rw [← Stmt.fault_line options level s]
    exact Emission.fault_concat_eq_none.1 complete _ (List.mem_map_of_mem member)
  have line : ∀ s ∈ list, Text.Unbroken (lineStart options level ++ (alone options s).1) := by
    intro s member
    have own : ∀ text ∈ s.rawTexts, Text.Unbroken text := fun text among =>
      names text (List.mem_flatMap.mpr ⟨s, member, among⟩)
    rw [Text.unbroken_append, alone_eq]
    exact ⟨unbroken_lineStart indent level, s.emission_unbroken escaped own .root⟩
  refine ⟨?_, fun s member => ⟨alone_eq_none.2 (fine s member), line s member⟩⟩
  have text : (Printer.emit { options } (.statements list level)).1.text
      = String.join ((list.map fun s => lineStart options level ++ (alone options s).1).map
          (· ++ options.newLine.text)) := by
    rw [emit_statements, (Stmt.lines_of_fine options level fine).2, List.map_map]
    simp [Printer.text, alone_eq, Function.comp_def]
  rw [text]
  apply Text.split_lines options.newLine.text_ne_empty
  intro body among
  obtain ⟨s, member, rfl⟩ := List.mem_map.mp among
  exact (line s member).not_mem_newLine options.newLine

-- Two statements with a string of line ends, a tab, a quote and an escape in each, one level in.
theorem Printer.emit_line_structure_of_strings :
    let options : Options := { escapeStrings := true, newLine := .carriageReturnLineFeed }
    let literal : Expr := .string "a\r\nb\t\x22\x60"
    let list : List Stmt := [.assignment (.var "x") literal, .returning (some (.array [literal]))]
    options.escapeStrings ∧
      (∀ text ∈ options.indent :: list.flatMap Stmt.rawTexts, Text.Unbroken text) ∧
      (Printer.emit { options } (.statements list 1)).2 = none ∧
      Text.split options.newLine.text (Printer.emit { options } (.statements list 1)).1.text
        = ["    x := \x22a\x60r\x60nb\x60t\x22\x22\x60\x60\x22",
            "    return [\x22a\x60r\x60nb\x60t\x22\x22\x60\x60\x22]", ""] := by
  intro options literal list
  have unbroken : ∀ text ∈ options.indent :: list.flatMap Stmt.rawTexts, Text.Unbroken text := by
    decide
  have written : (Printer.emit { options } (.statements list 1)).2 = none := by decide +kernel
  refine ⟨rfl, unbroken, written, ?_⟩
  rw [(Printer.emit_line_structure rfl 1 list unbroken written).1]
  decide +kernel

end HotkeyScript
