import HotkeyScript.Proofs.Frame
import HotkeyScript.Proofs.Lines
import HotkeyScript.Proofs.Literals
import HotkeyScript.Proofs.Readable
import HotkeyScript.Proofs.SinkLaw
import HotkeyScript.Proofs.TwoRuns
namespace HotkeyScript

mutual

def Expr.owners : Expr → List Expr
  | .invocation target _ args _ => Expr.optionalOwners target ++ Expr.listOwners args
  | .arrayLiteral elements => Expr.listOwners elements
  | .primitive _ | .variableRef _ | .typeRef _ | .this => []
  | .binaryOp _ left right => left.owners ++ right.owners
  | .ternaryOp condition whenTrue whenFalse =>
    condition.owners ++ whenTrue.owners ++ whenFalse.owners
  | .complexReference name => name.owners
  | .fieldRef target _ => target.toList ++ Expr.optionalOwners target
  | .cast _ expr => expr.owners

def QualifiedName.owners : QualifiedName → List Expr
  | .literal _ => []
  | .parts segments => Expr.listOwners segments

def Expr.optionalOwners : Option Expr → List Expr
  | none => []
  | some e => e.owners

def Expr.listOwners : List Expr → List Expr
  | [] => []
  | e :: rest => e.owners ++ Expr.listOwners rest

end

def Stmt.owners (s : Stmt) : List Expr := s.exprs.flatMap Expr.owners

theorem Expr.listOwners_eq_flatMap (es : List Expr) : listOwners es = es.flatMap owners := by
  induction es with
  | nil => rfl
  | cons e rest ih => rw [listOwners, ih, List.flatMap_cons]

theorem Expr.listLiterals_eq_flatMap (es : List Expr) : listLiterals es = es.flatMap literals := by
  induction es with
  | nil => rfl
  | cons e rest ih => rw [listLiterals, ih, List.flatMap_cons]

theorem Frame.literals_fill (frame : Frame) (e : Expr) : e.literals ⊆ (frame.fill e).literals := by
  intro value among
  cases frame <;>
    simp [fill, Expr.literals, QualifiedName.literals, Expr.optionalLiterals,
      Expr.listLiterals_eq_flatMap, among]

theorem Frame.owners_fill (frame : Frame) (e : Expr) : e.owners ⊆ (frame.fill e).owners := by
  intro owner among
  cases frame <;>
    simp [fill, Expr.owners, QualifiedName.owners, Expr.optionalOwners,
      Expr.listOwners_eq_flatMap, among]

theorem Place.subset_fill {α : Type} {data : Expr → List α}
    (kept : ∀ (frame : Frame) e, data e ⊆ data (frame.fill e)) (place : Place) (e : Expr) :
    data e ⊆ data (place.fill e) := by
  induction place with
  | nil => exact List.Subset.refl _
  | cons frame place ih => exact List.Subset.trans ih (kept frame _)

namespace Expr

theorem subset_of_part {α : Type} {data : Expr → List α}
    (kept : ∀ (frame : Frame) e, data e ⊆ data (frame.fill e)) {options : Options} {bare : Bool}
    {e c : Expr} {d : Descent} (part : .part d c ∈ e.layout options bare) : data c ⊆ data e := by
  obtain ⟨before, after, split⟩ := List.append_of_mem part
  obtain ⟨frame, place, rfl, _⟩ := place_of_part ⟨after, split⟩
  exact List.Subset.trans (place.subset_fill kept c) (kept frame _)

theorem literals_subset_of_mem_exprs {s : Stmt} {e : Expr} (member : e ∈ s.exprs) :
    e.literals ⊆ s.literals := by
  intro value among
  cases s with
  | variableDeclaration name init =>
    cases init <;> simp_all [Stmt.exprs, Stmt.literals, optionalLiterals]
  | returning result => cases result <;> simp_all [Stmt.exprs, Stmt.literals, optionalLiterals]
  | assignment left right =>
    simp only [Stmt.exprs, List.mem_cons, List.not_mem_nil, or_false] at member
    rcases member with rfl | rfl <;> simp [Stmt.literals, among]
  | _ => simp_all [Stmt.exprs, Stmt.literals]

def fieldMark (options : Options) (target : Expr) : Emission :=
  if options.fieldSeparator && !target.isInternalType then .text Token.concatenate else .nothing

variable {options options' : Options}

theorem layout_restyled {e : Expr} (noString : ∀ text, e ≠ .string text)
    (marks : ∀ target field, e = .fieldRef (some target) field →
      fieldMark options' target = fieldMark options target) (bare : Bool) :
    e.layout options' bare = e.layout options bare := by
  have literal {value : Primitive} (noText : ∀ text, value ≠ .string text) :
      value.emission options' = value.emission options := by
    cases value with
    | string text => exact absurd rfl (noText text)
    | _ => rfl
  have segment (c : Expr) : Layout.segment options' c = Layout.segment options c := by
    cases c with
    | primitive value => cases value <;> rfl
    | _ => rfl
  cases e with
  | primitive value =>
    rw [layout, layout, literal fun text same => noString text (congrArg primitive same)]
  | complexReference name => cases name <;> simp [layout, funext segment]
  | fieldRef target field =>
    cases target with
    | none => rfl
    | some target =>
      have same := marks target field rfl
      simp only [fieldMark] at same
      simp only [layout, same]
  | _ => rfl

end Expr

namespace Emission

theorem Congruence.fault : Congruence fun a b => a.fault = b.fault where
  fixed _ _ := rfl
  andThen first second := by rw [fault_andThen, fault_andThen, first, second]

-- The same text, whatever the pieces, and the same end.
def SameText (a b : Emission) : Prop := a.contents = b.contents ∧ a.fault = b.fault

theorem SameText.congruence : Congruence SameText where
  fixed _ _ := ⟨rfl, rfl⟩
  andThen {a b c d} first second := by
    obtain ⟨text, ended⟩ := first
    cases fault : a.fault with
    | some f =>
      rw [andThen_of_fault c (by simp [fault]), andThen_of_fault d (by simp [← ended, fault])]
      exact ⟨text, ended⟩
    | none =>
      refine ⟨?_, by rw [fault_andThen, fault_andThen, ended, second.2]⟩
      rw [contents_andThen c fault, contents_andThen d (ended.symm.trans fault), text, second.1]

section

variable {R : Emission → Emission → Prop} (congruence : Congruence R) (refl : ∀ a, R a a)
  {options options' : Options} (limit : options'.maxDepth = options.maxDepth)
include congruence refl limit

-- Two styles are related in all they write when they are in their string literals and between
-- fields and what these are looked up on.
theorem Congruence.restyled {e : Expr}
    (literal : ∀ text, .string text ∈ e.literals →
      R (stringLiteral options text) (stringLiteral options' text))
    (owner : ∀ target ∈ e.owners,
      R (Expr.fieldMark options target) (Expr.fieldMark options' target))
    (context : Context) : R (e.emission options context) (e.emission options' context) := by
  induction e using Expr.layout_induction generalizing context with
  | step e ih =>
    have part {d : Descent} {c : Expr} (among : .part d c ∈ e.layout options context.statement) :
        R (c.emission options (d.context context)) (c.emission options' (d.context context)) :=
      ih options _ d c among
        (fun text own => literal text (Expr.subset_of_part Frame.literals_fill among own))
        (fun target own => owner target (Expr.subset_of_part Frame.owners_fill among own)) _
    rw [Expr.emission_eq_layout, Expr.emission_eq_layout, limit]
    split
    · exact refl _
    · by_cases string : ∃ text, e = .string text
      · obtain ⟨text, rfl⟩ := string
        have related := literal text (List.mem_singleton_self _)
        simpa [Expr.layout, Expr.string, Item.emission, Primitive.emission] using related
      · by_cases field : ∃ target name, e = .fieldRef (some target) name
        · obtain ⟨target, name, rfl⟩ := field
          have marked := owner target (by simp [Expr.owners])
          have among : .part .nested target ∈
              (Expr.fieldRef (some target) name).layout options context.statement := by
            simp [Expr.layout]
          have looked := part among
          simp only [Expr.layout, Layout.emission_cons, Layout.emission_nil, Item.emission]
          exact congruence.andThen looked (congruence.andThen marked
            (congruence.andThen (refl _) (refl _)))
        · have same : e.layout options' context.statement = e.layout options context.statement :=
            Expr.layout_restyled (not_exists.mp string)
              (fun target name same => absurd ⟨target, name, same⟩ field) _
          rw [same]
          refine congruence.layout ?_ fun d c among => part among
          exact (e.layout_holds options context.statement).mono (fun _ _ _ => trivial)
            (fun _ shape => shape)

theorem Congruence.restyledStmt {s : Stmt}
    (literal : ∀ text, .string text ∈ s.literals →
      R (stringLiteral options text) (stringLiteral options' text))
    (owner : ∀ target ∈ s.owners,
      R (Expr.fieldMark options target) (Expr.fieldMark options' target))
    (context : Context) : R (s.emission options context) (s.emission options' context) := by
  have related : ∀ e ∈ s.exprs, ∀ c, R (e.emission options c) (e.emission options' c) := by
    intro e member
    refine congruence.restyled refl limit ?_ ?_
    · exact fun text own => literal text (Expr.literals_subset_of_mem_exprs member own)
    · exact fun target own => owner target (List.mem_flatMap.mpr ⟨e, member, own⟩)
  exact congruence.stmt s (fun e member => related e member _) (fun e member => related e member _)
    (fun e member => related e member _)

end

end Emission

section Outcome

variable {options options' : Options} (limit : options'.maxDepth = options.maxDepth)
include limit

theorem Expr.fault_restyled (e : Expr) (context : Context) :
    (e.emission options context).fault = (e.emission options' context).fault := by
  refine Emission.Congruence.fault.restyled (fun _ => rfl) limit (fun text _ => rfl) ?_ context
  intro target _
  simp only [fieldMark]
  split <;> split <;> rfl

theorem Stmt.fault_restyled (s : Stmt) (context : Context) :
    (s.emission options context).fault = (s.emission options' context).fault :=
  Emission.Congruence.fault.stmt s (fun e _ => e.fault_restyled limit _)
    (fun e _ => e.fault_restyled limit _) (fun e _ => e.fault_restyled limit _)

theorem Stmt.fault_lines_restyled (level : Nat) (list : List Stmt) :
    (Stmt.lines options level list).fault = (Stmt.lines options' level list).fault := by
  induction list with
  | nil => rfl
  | cons s rest ih =>
    refine Emission.Congruence.fault.andThen ?_ ih
    show (s.line options level).fault = (s.line options' level).fault
    rw [Stmt.fault_line, Stmt.fault_line, s.fault_restyled limit]

theorem Job.fault_restyled (job : Job) :
    (job.emission options).fault = (job.emission options').fault := by
  cases job with
  | expression e context => exact e.fault_restyled limit context
  | statement s context => exact s.fault_restyled limit context
  | statements list level => exact Stmt.fault_lines_restyled limit level list

end Outcome

def Text.Verbatim (text : String) : Prop :=
  ∀ c ∈ text.toList, c ∉ [Token.quote, Token.escape, '\n', '\r', '\t']

instance (text : String) : Decidable (Text.Verbatim text) := List.decidableBAll _ _

theorem contents_stringLiteral_raw {options : Options} (raw : options.escapeStrings = false)
    (text : String) :
    (stringLiteral options text).contents.toList
      = Token.quote :: text.toList ++ [Token.quote] := by
  rw [stringLiteral, Emission.contents_andThen _ rfl, Emission.contents_andThen _ rfl]
  simp [Emission.contents, Emission.ofPieces, Emission.text, stringPieces, raw]

theorem contents_stringLiteral_verbatim {text : String} (verbatim : Text.Verbatim text)
    (options : Options) :
    (stringLiteral options text).contents.toList
      = Token.quote :: text.toList ++ [Token.quote] := by
  cases escaped : options.escapeStrings with
  | false => exact contents_stringLiteral_raw escaped text
  | true =>
    have single : ∀ c ∈ text.toList, escapedChar c = [c] := by
      intro c among
      have plain := verbatim c among
      simp only [List.mem_cons, List.not_mem_nil, or_false, not_or] at plain
      simp [escapedChar, plain]
    rw [Expr.contents_stringLiteral escaped, Text.quoted, List.flatMap_congr single,
      List.flatMap_singleton']

-- Options that differ in their style alone leave how a job ends as it is. An expression or a
-- statement is written the same as well if they agree on escapes or no string in it has anything
-- to escape, and if they agree on dots or all its fields are looked up on the internal type.
theorem Printer.emit_styles {options options' : Options}
    (limit : options'.maxDepth = options.maxDepth) :
    (∀ job, (Printer.emit { options := options' } job).2 = (Printer.emit { options } job).2) ∧
    (∀ (e : Expr) (context : Context),
      (options'.escapeStrings = options.escapeStrings ∨
        ∀ text, .string text ∈ e.literals → Text.Verbatim text) →
      (options'.fieldSeparator = options.fieldSeparator ∨
        ∀ target ∈ e.owners, target.isInternalType) →
      (Printer.emit { options := options' } (.expression e context)).1.text
        = (Printer.emit { options } (.expression e context)).1.text) ∧
    ∀ (s : Stmt) (context : Context),
      (options'.escapeStrings = options.escapeStrings ∨
        ∀ text, .string text ∈ s.literals → Text.Verbatim text) →
      (options'.fieldSeparator = options.fieldSeparator ∨
        ∀ target ∈ s.owners, target.isInternalType) →
      (Printer.emit { options := options' } (.statement s context)).1.text
        = (Printer.emit { options } (.statement s context)).1.text := by
  have literal {texts : List Primitive} (escapes : options'.escapeStrings = options.escapeStrings ∨
      ∀ text, .string text ∈ texts → Text.Verbatim text) (text : String)
      (among : .string text ∈ texts) :
      Emission.SameText (stringLiteral options text) (stringLiteral options' text) := by
    rcases escapes with agree | verbatim
    · simp [Emission.SameText, stringLiteral, stringPieces, agree]
    · refine ⟨String.toList_inj.mp ?_, rfl⟩
      rw [contents_stringLiteral_verbatim (verbatim text among),
        contents_stringLiteral_verbatim (verbatim text among)]
  have owner {owners : List Expr} (dots : options'.fieldSeparator = options.fieldSeparator ∨
      ∀ target ∈ owners, target.isInternalType) (target : Expr) (among : target ∈ owners) :
      Emission.SameText (Expr.fieldMark options target) (Expr.fieldMark options' target) := by
    rcases dots with agree | internal
    · simp [Emission.SameText, Expr.fieldMark, agree]
    · simp [Emission.SameText, Expr.fieldMark, internal target among]
  have refl (a : Emission) : Emission.SameText a a := ⟨rfl, rfl⟩
  simp only [emit_fresh, text]
  refine ⟨fun job => ?_, fun e context escapes dots => ?_, fun s context escapes dots => ?_⟩
  · rw [job.fault_restyled limit]
  · exact (Emission.SameText.congruence.restyled refl limit (literal escapes) (owner dots)
      context).1.symm
  · exact (Emission.SameText.congruence.restyledStmt refl limit (literal escapes) (owner dots)
      context).1.symm

theorem Printer.emit_styles_of_call :
    let styled : Options := { escapeStrings := true, fieldSeparator := true }
    let e : Expr := .call "f" [.string "a b", .field (some (.internalType "Script")) "x"]
    let failing : Expr := .array [.string "\x22", .this]
    styled.maxDepth = Options.maxDepth {} ∧
      (∀ text, .string text ∈ e.literals → Text.Verbatim text) ∧
      (∀ target ∈ e.owners, target.isInternalType) ∧
      (Printer.emit { options := styled } (.ofExpr e)).1.text = "f(\x22a b\x22, x)" ∧
      (Printer.emit { options := styled } (.ofExpr failing)).2
        = some (.fault (.unsupportedExpression .this)) := by
  intro styled e failing
  have limit : styled.maxDepth = Options.maxDepth {} := rfl
  have verbatim : ∀ text, .string text ∈ e.literals → Text.Verbatim text := by
    intro text among
    obtain rfl : text = "a b" := by
      simpa [e, Expr.call, Expr.string, Expr.field, Expr.internalType, Expr.literals,
        Expr.listLiterals, Expr.optionalLiterals] using among
    decide
  have internal : ∀ target ∈ e.owners, target.isInternalType := by
    simp [e, Expr.call, Expr.string, Expr.field, Expr.internalType, Expr.owners,
      Expr.listOwners, Expr.optionalOwners, Expr.isInternalType]
  obtain ⟨outcome, written, _⟩ := Printer.emit_styles limit
  refine ⟨limit, verbatim, internal, ?_, ?_⟩
  · exact (written e .root (.inr verbatim) (.inr internal)).trans (by decide)
  · exact (outcome (.ofExpr failing)).trans (by decide)

end HotkeyScript
