import HotkeyScript.Proofs.SinkLaw
import HotkeyScript.Proofs.TwoRuns
namespace HotkeyScript

def Options.onLines (options : Options) (newLine : NewLine) (indent : String) : Options :=
  { options with newLine, indent }

section

variable (options : Options) (newLine : NewLine) (indent : String)

theorem Options.sameStyle_onLines : options.SameStyle (options.onLines newLine indent) :=
  ⟨rfl, rfl⟩

theorem Expr.emission_onLines (e : Expr) (context : Context) :
    e.emission (options.onLines newLine indent) context = e.emission options context := by
  symm
  refine Emission.Congruence.eq.expr (options.sameStyle_onLines newLine indent) (C := Eq)
    (fun same => same ▸ rfl) (fun d _ _ same => same ▸ rfl) ?_ e rfl
  rintro e c _ rfl exceeded
  have refused : options.maxDepth < c.depth := exceeded.elim id id
  have refused' : (options.onLines newLine indent).maxDepth < c.depth := refused
  rw [emission_eq_layout, emission_eq_layout, if_pos refused, if_pos refused']
  rfl

theorem Stmt.emission_onLines (s : Stmt) (context : Context) :
    s.emission (options.onLines newLine indent) context = s.emission options context := by
  cases s with
  | variableDeclaration name init => cases init <;> simp [emission, Expr.emission_onLines]
  | returning value => cases value <;> simp [emission, Expr.emission_onLines]
  | _ => simp [emission, Expr.emission_onLines]

end

def lineStart (options : Options) (level : Nat) : String :=
  String.join (List.replicate level options.indent)

namespace Stmt

variable (options : Options) (level : Nat)

theorem lines_append (first second : List Stmt) :
    lines options level (first ++ second)
      = lines options level first ++ lines options level second := by
  simp [lines]

theorem indentation_eq :
    (indentation options level).fault = none ∧
      (indentation options level).contents = lineStart options level := by
  have fine : ∀ part ∈ List.replicate level (Emission.text options.indent),
      part.fault = none := by simp
  exact ⟨Emission.fault_concat_eq_none.2 fine, by
    rw [indentation, Emission.contents_concat fine, List.map_replicate, Emission.contents_text,
      lineStart]⟩

theorem fault_line (s : Stmt) :
    (line options level s).fault = (s.emission options .root).fault := by
  simp [line, (indentation_eq options level).1]

variable {options level} {s : Stmt}

theorem contents_line (fine : (s.emission options .root).fault = none) :
    (line options level s).contents
      = lineStart options level ++ (s.emission options .root).contents
        ++ options.newLine.text := by
  obtain ⟨started, start⟩ := indentation_eq options level
  rw [line, Emission.contents_andThen _ (by simp [started, fine]),
    Emission.contents_andThen _ started, start, Emission.contents_text]

theorem contents_line_of_fault (faulty : (s.emission options .root).fault.isSome) :
    (line options level s).contents
      = lineStart options level ++ (s.emission options .root).contents := by
  obtain ⟨started, start⟩ := indentation_eq options level
  rw [line, Emission.andThen_of_fault _ (by simp [started, faulty]),
    Emission.contents_andThen _ started, start]

theorem lines_of_fine (options : Options) (level : Nat) {list : List Stmt}
    (fine : ∀ s ∈ list, (s.emission options .root).fault = none) :
    (lines options level list).fault = none ∧
      (lines options level list).contents
        = String.join (list.map fun s => lineStart options level
            ++ (s.emission options .root).contents ++ options.newLine.text) := by
  have each : ∀ part ∈ list.map (line options level), part.fault = none := by
    intro part among
    obtain ⟨s, member, rfl⟩ := List.mem_map.mp among
    rw [fault_line, fine s member]
  refine ⟨Emission.fault_concat_eq_none.2 each, ?_⟩
  rw [lines, Emission.contents_concat each, List.map_map]
  congr 1
  exact List.map_congr_left fun s member => contents_line (fine s member)

theorem lines_of_fault (options : Options) (level : Nat) {before : List Stmt} (after : List Stmt)
    (fine : ∀ s ∈ before, (s.emission options .root).fault = none)
    (faulty : (s.emission options .root).fault.isSome) :
    (lines options level (before ++ s :: after)).fault = (s.emission options .root).fault ∧
      (lines options level (before ++ s :: after)).contents
        = (lines options level before).contents
          ++ (lineStart options level ++ (s.emission options .root).contents) := by
  obtain ⟨done, _⟩ := lines_of_fine options level fine
  have broken : (line options level s).fault.isSome := by rw [fault_line]; exact faulty
  have rest : lines options level (s :: after) = line options level s :=
    Emission.andThen_of_fault _ broken
  rw [lines_append, rest, Emission.fault_andThen, Emission.contents_andThen _ done, done,
    contents_line_of_fault faulty]
  exact ⟨fault_line options level s, rfl⟩

theorem fine_or_first_fault (options : Options) (list : List Stmt) :
    (∀ s ∈ list, (s.emission options .root).fault = none) ∨
      ∃ before s after, list = before ++ s :: after ∧
        (∀ s ∈ before, (s.emission options .root).fault = none) ∧
        (s.emission options .root).fault.isSome := by
  induction list with
  | nil => exact .inl (by simp)
  | cons s rest ih =>
    cases own : (s.emission options .root).fault with
    | some f => exact .inr ⟨[], s, rest, rfl, by simp, by simp [own]⟩
    | none =>
      rcases ih with fine | ⟨before, t, after, rfl, fine, faulty⟩
      · exact .inl (List.forall_mem_cons.mpr ⟨own, fine⟩)
      · exact .inr ⟨s :: before, t, after, rfl, List.forall_mem_cons.mpr ⟨own, fine⟩, faulty⟩

theorem exists_bodies (options : Options) (level : Nat) (list : List Stmt) :
    ∃ (bodies : List String) (rest : String),
      ((lines options level list).fault = none → rest = "") ∧
      ∀ newLine : NewLine,
        (lines (options.onLines newLine options.indent) level list).fault
            = (lines options level list).fault ∧
          (lines (options.onLines newLine options.indent) level list).contents
            = String.join (bodies.map (· ++ newLine.text)) ++ rest := by
  let body (s : Stmt) := lineStart options level ++ (s.emission options .root).contents
  have written (list : List Stmt) (fine : ∀ s ∈ list, (s.emission options .root).fault = none)
      (newLine : NewLine) :
      (lines (options.onLines newLine options.indent) level list).fault = none ∧
        (lines (options.onLines newLine options.indent) level list).contents
          = String.join ((list.map body).map (· ++ newLine.text)) := by
    obtain ⟨done, text⟩ := lines_of_fine (options.onLines newLine options.indent) level
      (by simpa only [emission_onLines] using fine)
    refine ⟨done, text.trans ?_⟩
    simp only [emission_onLines, List.map_map]
    rfl
  rcases fine_or_first_fault options list with
    fine | ⟨before, s, after, rfl, fine, faulty⟩
  · refine ⟨list.map body, "", fun _ => rfl, fun newLine => ?_⟩
    obtain ⟨done, text⟩ := written list fine newLine
    exact ⟨done.trans (lines_of_fine options level fine).1.symm, by rw [text, String.append_empty]⟩
  · have own := (lines_of_fault options level after fine faulty).1
    refine ⟨before.map body, body s, fun done => ?_, fun newLine => ?_⟩
    · rw [own] at done
      simp [done] at faulty
    · obtain ⟨ended, text⟩ := lines_of_fault (options.onLines newLine options.indent) level
        after (by simpa only [emission_onLines] using fine)
        (by simpa only [emission_onLines] using faulty)
      rw [ended, text, (written before fine newLine).2, emission_onLines]
      exact ⟨own.symm, rfl⟩

end Stmt

namespace Printer

-- What a statement leaves on a fresh sink when it is all that is written to it, and how that ends.
def alone (options : Options) (s : Stmt) : String × Option EmitError :=
  let (p, error) := Printer.emit { options } (.ofStmt s)
  (p.text, error)

theorem alone_eq (options : Options) (s : Stmt) :
    alone options s
      = ((s.emission options .root).contents, (s.emission options .root).fault.map .fault) := by
  rw [alone, emit_fresh]
  rfl

theorem alone_eq_none {options : Options} {s : Stmt} :
    (alone options s).2 = none ↔ (s.emission options .root).fault = none := by
  simp [alone_eq]

def linesAlone (options : Options) (level : Nat) (list : List Stmt) : String :=
  String.join (list.map fun s =>
    lineStart options level ++ (alone options s).1 ++ options.newLine.text)

theorem emit_statements (options : Options) (held : String) (list : List Stmt) (level : Nat) :
    Printer.emit ⟨options, ⟨held, none⟩⟩ (.statements list level)
      = (⟨options, ⟨held ++ (Stmt.lines options level list).contents, none⟩⟩,
          (Stmt.lines options level list).fault.map .fault) :=
  emit_unlimited rfl _

-- A list of statements is written as the lines of its statements, each the same as alone, up to
-- the first that fails alone; what is written of two lists one after the other is written of them
-- as one; and only the line ends tell a script with one kind of line end from one with the other.
theorem emit_lines (options : Options) (level : Nat) (held : String) :
    (∀ list, (∀ s ∈ list, (alone options s).2 = none) →
      Printer.emit ⟨options, ⟨held, none⟩⟩ (.statements list level)
        = (⟨options, ⟨held ++ linesAlone options level list, none⟩⟩, none)) ∧
    (∀ before s after error,
      (∀ s ∈ before, (alone options s).2 = none) → (alone options s).2 = some error →
      Printer.emit ⟨options, ⟨held, none⟩⟩ (.statements (before ++ s :: after) level)
        = (⟨options, ⟨held ++ (linesAlone options level before
              ++ (lineStart options level ++ (alone options s).1)), none⟩⟩, some error)) ∧
    (∀ (σ : Type) [Write σ] (place : σ) (first second : List Stmt),
      ((Job.statements (first ++ second) level).write options).outcome place
        = match ((Job.statements first level).write options).outcome place with
          | (place, none) => ((Job.statements second level).write options).outcome place
          | (place, some error) => (place, some error)) ∧
    (∀ newLine indent s, alone (options.onLines newLine indent) s = alone options s) ∧
    (∀ list, ∃ (bodies : List String) (rest : String) (error : Option EmitError),
      ∀ newLine : NewLine,
        Printer.emit ⟨options.onLines newLine options.indent, ⟨held, none⟩⟩
            (.statements list level)
          = (⟨options.onLines newLine options.indent,
              ⟨held ++ (String.join (bodies.map (· ++ newLine.text)) ++ rest), none⟩⟩, error)) ∧
    ∀ list, ∃ outcome : Except Fault (List String), ∀ newLine : NewLine,
      script (options.onLines newLine options.indent) list
        = outcome.map fun bodies => String.join (bodies.map (· ++ newLine.text)) := by
  refine ⟨?_, ?_, ?_, ?_, ?_, ?_⟩
  · intro list fine
    obtain ⟨done, text⟩ :=
      Stmt.lines_of_fine options level fun s member => alone_eq_none.1 (fine s member)
    rw [emit_statements, done, text]
    simp [linesAlone, alone_eq]
  · intro before s after error fine failed
    have each := fun s member => alone_eq_none.1 (fine s member)
    have ended : (s.emission options .root).fault.map .fault = some error := by
      simpa only [alone_eq] using failed
    have faulty : (s.emission options .root).fault.isSome := by
      obtain ⟨f, fault, _⟩ := Option.map_eq_some_iff.mp ended
      simp [fault]
    obtain ⟨last, text⟩ := Stmt.lines_of_fault options level after each faulty
    rw [emit_statements, last, text, (Stmt.lines_of_fine options level each).2, ended]
    simp [linesAlone, alone_eq]
  · intro σ _ place first second
    simp only [Job.write, Stmt.writeLines_eq_emission]
    rw [Stmt.lines_append, Emission.writeTo_andThen]
    exact Writer.outcome_bind _ _ place
  · intro newLine indent s
    rw [alone_eq, alone_eq, Stmt.emission_onLines]
  · intro list
    obtain ⟨bodies, rest, _, same⟩ := Stmt.exists_bodies options level list
    refine ⟨bodies, rest, (Stmt.lines options level list).fault.map .fault, fun newLine => ?_⟩
    rw [emit_statements, (same newLine).1, (same newLine).2]
  · intro list
    obtain ⟨bodies, rest, complete, same⟩ := Stmt.exists_bodies options 0 list
    cases ended : (Stmt.lines options 0 list).fault with
    | some f =>
      refine ⟨.error f, fun newLine => ?_⟩
      simp [script, Emission.result, (same newLine).1, ended, Except.map]
    | none =>
      refine ⟨.ok bodies, fun newLine => ?_⟩
      simp [script, Emission.result, same newLine, ended, complete ended, Except.map]

-- Two lines with a carriage return at the end of each, one level in, and then a third statement
-- that fails after its first word.
theorem emit_lines_of_three :
    let options : Options := { newLine := .carriageReturnLineFeed, indent := "\t" }
    let before : List Stmt := [.goto "Top", .expression (.binary (.var "x") .assign (.int 1))]
    (∀ s ∈ before, (alone options s).2 = none) ∧
      (alone options (.returning (some .this))).2
        = some (.fault (.unsupportedExpression .this)) ∧
      Printer.emit { options } (.statements (before ++ .returning (some .this) :: before) 1)
        = (⟨options, ⟨"\tgoto Top\r\n\tx := 1\r\n\treturn ", none⟩⟩,
            some (.fault (.unsupportedExpression .this))) := by
  intro options before
  have fine : ∀ s ∈ before, (alone options s).2 = none := by
    simp only [before, List.forall_mem_cons]
    decide
  have failed : (alone options (.returning (some .this))).2
      = some (.fault (.unsupportedExpression .this)) := by decide
  have text : linesAlone options 1 before
        ++ (lineStart options 1 ++ (alone options (.returning (some .this))).1)
      = "\tgoto Top\r\n\tx := 1\r\n\treturn " := by decide
  refine ⟨fine, failed, ?_⟩
  rw [(emit_lines options 1 "").2.1 before _ before _ fine failed, text, String.empty_append]

end Printer
end HotkeyScript
