import HotkeyScript.Proofs.Places
import HotkeyScript.Proofs.RoundTrip
import HotkeyScript.Run
namespace HotkeyScript

def RunError.renamed (name : String) : RunError → RunError
  | .notStatements _ => .notStatements name
  | .unwritable _ fault => .unwritable name fault
  | e => e

namespace World

variable {w : World} {a : Arguments} {text script path : String} {list : List Stmt}

-- A run has this to deliver: the script of these statements, which are those of its input.
def Prepares (w : World) (a : Arguments) (list : List Stmt) (script : String) : Prop :=
  ∃ text, w.input? a = some text ∧ statementsOfText? text = some list ∧
    HotkeyScript.script a.options list = .ok script

def Takes (w : World) (text : String) : Prop :=
  ∀ capacity ∈ w.stdoutCapacity, w.stdout.utf8ByteSize + text.utf8ByteSize ≤ capacity

-- The system refuses no write that a run asks for.
def Allows (w : World) (a : Arguments) (script : String) : Prop :=
  a.check ∨ match a.out with
    | none => w.Takes script
    | some path => w.files.Receives path

theorem print_of_takes (takes : w.Takes text) :
    w.print text = ({ w with stdout := w.stdout ++ text }, true) := by
  cases limit : w.stdoutCapacity with
  | none => simp [print, Sink.write, limit]
  | some capacity => simp [print, Sink.write, Sink.size, limit, takes capacity limit]

theorem print_of_not_takes (refuses : ¬w.Takes text) :
    ∃ stdout, w.print text = ({ w with stdout }, false) := by
  cases limit : w.stdoutCapacity with
  | none => exact absurd (fun _ own => by simp [limit] at own) refuses
  | some capacity =>
    have beyond : ¬w.stdout.utf8ByteSize + text.utf8ByteSize ≤ capacity := fun within =>
      refuses fun _ own => Option.some.inj (limit.symm.trans own) ▸ within
    simp [print, Sink.write, Sink.size, limit, beyond]

theorem deliver_of_receives (receives : w.files.Receives path) (script : String) :
    ∃ files, w.deliver path script = ({ w with files }, .ok ()) ∧
      w.files.Replaced files path script.toUTF8 := by
  obtain ⟨made, place, found, no_directory, writable⟩ := receives
  have grown := FileSystem.grown_makeParent w.files path
  have writable_still : ¬(w.files.makeParent path).1.readOnly place := grown.readOnly ▸ writable
  refine ⟨_, ?_, FileSystem.replaced_of_put grown found no_directory⟩
  unfold deliver
  split
  · next refused => simp [refused] at made
  · next files own =>
    rw [own] at found no_directory writable_still
    simp only [own, FileSystem.write?_of_found found no_directory writable_still]

theorem deliver_of_not_receives (refuses : ¬w.files.Receives path) (script : String) :
    ∃ files e, w.deliver path script = ({ w with files }, .error e) ∧
      (e = .directory (Path.parent path) ∨ e = .file path) ∧
        w.files.Grown files (w.files.parents path) := by
  have grown := FileSystem.grown_makeParent w.files path
  cases own : w.files.makeParent path with
  | mk files made =>
    rw [own] at grown
    cases made with
    | false => exact ⟨files, _, by unfold deliver; simp only [own], .inl rfl, grown⟩
    | true =>
      have refused : files.write? path script.toUTF8 = none := by
        refine FileSystem.write?_of_not_found fun place found => ?_
        by_contra free
        obtain ⟨no_directory, writable⟩ := not_or.mp free
        refine refuses ⟨by rw [own], place, ?_⟩
        rw [own, ← grown.readOnly]
        exact ⟨found, no_directory, writable⟩
      exact ⟨files, _, by unfold deliver; simp only [own, refused], .inr rfl, grown⟩

theorem deliver_of_found {place : List String} {content : ByteArray}
    (found : w.files.find? path = some place)
    (there : w.files.entry? place = some (.file content)) (writable : ¬w.files.readOnly place)
    (script : String) : w.deliver path script
      = ({ w with files := w.files.put place (.file script.toUTF8) }, .ok ()) := by
  have no_directory : ¬w.files.isDirectory place := fun directory => by
    rw [FileSystem.isDirectory_iff.1 directory] at there
    cases there
  unfold deliver
  simp only [FileSystem.makeParent_of_found found,
    FileSystem.write?_of_found found no_directory writable]

section Preparing

theorem compile_of_prepares (prepared : w.Prepares a list script) :
    ∃ text, w.input? a = some text ∧ a.compile text = .ok ⟨script, list.length, none⟩ := by
  obtain ⟨text, read, decoded, emitted⟩ := prepared
  exact ⟨text, read, by simp only [Arguments.compile, decoded, emitted]⟩

theorem command_of_unread (unread : w.input? a = none) :
    w.command a = (w, .error a.readError) := by
  unfold command run
  simp only [unread]

theorem command_of_failed {e : RunError} (read : w.input? a = some text)
    (failed : a.compile text = .error e) : w.command a = (w, .error e) := by
  unfold command run
  simp only [read, failed]

theorem command_of_undecoded (read : w.input? a = some text)
    (undecoded : statementsOfText? text = none) :
    w.command a = (w, .error (.notStatements a.inputName)) :=
  command_of_failed read (by simp only [Arguments.compile, undecoded])

theorem command_of_unwritable {fault : Fault} (read : w.input? a = some text)
    (decoded : statementsOfText? text = some list)
    (refused : HotkeyScript.script a.options list = .error fault) :
    w.command a = (w, .error (.unwritable a.inputName fault)) :=
  command_of_failed read (by simp only [Arguments.compile, decoded, refused])

theorem command_of_not_prepared (unprepared : ∀ list script, ¬w.Prepares a list script) :
    ∃ e, w.command a = (w, .error e) := by
  cases read : w.input? a with
  | none => exact ⟨_, command_of_unread read⟩
  | some text =>
    cases decoded : statementsOfText? text with
    | none => exact ⟨_, command_of_undecoded read decoded⟩
    | some list =>
      cases emitted : HotkeyScript.script a.options list with
      | error fault => exact ⟨_, command_of_unwritable read decoded emitted⟩
      | ok script => exact absurd ⟨text, read, decoded, emitted⟩ (unprepared list script)

end Preparing

section Delivering

variable (prepared : w.Prepares a list script)
include prepared

theorem command_of_check (checks : a.check) :
    w.command a = (w, .ok ⟨script, list.length, none⟩) := by
  obtain ⟨text, read, compiled⟩ := compile_of_prepares prepared
  unfold command run
  simp [read, compiled, Arguments.outputFile?, checks]

theorem command_of_print (delivers : a.check = false) (to_stdout : a.out = none) :
    w.command a = ((w.print script).1,
      if (w.print script).2 then .ok ⟨script, list.length, none⟩ else .error .stdout) := by
  obtain ⟨text, read, compiled⟩ := compile_of_prepares prepared
  unfold command run
  simp only [read, compiled, Arguments.outputFile?, delivers, to_stdout,
    Bool.false_eq_true, if_false, Option.isSome_none, Bool.or_self]
  cases w.print script with
  | mk after taken => cases taken <;> rfl

theorem command_of_deliver (delivers : a.check = false) (to_file : a.out = some path) :
    w.command a = ((w.deliver path script).1,
      (w.deliver path script).2.map fun _ => ⟨script, list.length, some path⟩) := by
  obtain ⟨text, read, compiled⟩ := compile_of_prepares prepared
  unfold command run
  simp only [read, compiled, Arguments.outputFile?, delivers, to_file,
    Bool.false_eq_true, if_false]
  cases w.deliver path script with
  | mk after result => cases result <;> rfl

theorem command_printed (delivers : a.check = false) (to_stdout : a.out = none)
    (takes : w.Takes script) : w.command a
      = ({ w with stdout := w.stdout ++ script }, .ok ⟨script, list.length, none⟩) := by
  rw [command_of_print prepared delivers to_stdout, print_of_takes takes]
  rfl

theorem command_unprinted (delivers : a.check = false) (to_stdout : a.out = none)
    (refuses : ¬w.Takes script) : ∃ stdout, w.command a = ({ w with stdout }, .error .stdout) := by
  obtain ⟨stdout, refused⟩ := print_of_not_takes refuses
  exact ⟨stdout, by rw [command_of_print prepared delivers to_stdout, refused]; rfl⟩

theorem command_written (delivers : a.check = false) (to_file : a.out = some path)
    (receives : w.files.Receives path) :
    ∃ files, w.command a = ({ w with files }, .ok ⟨script, list.length, some path⟩) ∧
      w.files.Replaced files path script.toUTF8 := by
  obtain ⟨files, delivered, replaced⟩ := deliver_of_receives receives script
  refine ⟨files, ?_, replaced⟩
  rw [command_of_deliver prepared delivers to_file, delivered]
  rfl

theorem command_unwritten (delivers : a.check = false) (to_file : a.out = some path)
    (refuses : ¬w.files.Receives path) :
    ∃ files e, w.command a = ({ w with files }, .error e) ∧
      (e = .directory (Path.parent path) ∨ e = .file path) ∧
        w.files.Grown files (w.files.parents path) := by
  obtain ⟨files, e, refused, named, grown⟩ := deliver_of_not_receives refuses script
  refine ⟨files, e, ?_, named, grown⟩
  rw [command_of_deliver prepared delivers to_file, refused]
  rfl

theorem command_overwritten {place : List String} {content : ByteArray}
    (delivers : a.check = false) (to_file : a.out = some path)
    (found : w.files.find? path = some place)
    (there : w.files.entry? place = some (.file content)) (writable : ¬w.files.readOnly place) :
    w.command a = ({ w with files := w.files.put place (.file script.toUTF8) },
      .ok ⟨script, list.length, some path⟩) := by
  rw [command_of_deliver prepared delivers to_file, deliver_of_found found there writable]
  rfl

theorem command_of_allows (allowed : w.Allows a script) :
    ∃ outcome, (w.command a).2 = .ok outcome := by
  obtain checks | allowed := allowed
  · exact ⟨_, by rw [command_of_check prepared checks]⟩
  · cases checks : a.check with
    | true => exact ⟨_, by rw [command_of_check prepared checks]⟩
    | false =>
      cases chosen : a.out with
      | none =>
        rw [chosen] at allowed
        exact ⟨_, by rw [command_printed prepared checks chosen allowed]⟩
      | some path =>
        rw [chosen] at allowed
        obtain ⟨files, delivered, _⟩ := command_written prepared checks chosen allowed
        exact ⟨_, by rw [delivered]⟩

theorem command_of_not_allows (refuses : ¬w.Allows a script) :
    ∃ e, (w.command a).2 = .error e := by
  obtain ⟨unchecked, refuses⟩ := not_or.mp refuses
  have checks : a.check = false := by simpa using unchecked
  cases chosen : a.out with
  | none =>
    rw [chosen] at refuses
    obtain ⟨stdout, refused⟩ := command_unprinted prepared checks chosen refuses
    exact ⟨_, by rw [refused]⟩
  | some path =>
    rw [chosen] at refuses
    obtain ⟨files, e, refused, _⟩ := command_unwritten prepared checks chosen refuses
    exact ⟨_, by rw [refused]⟩

end Delivering

section Renaming

theorem compile_renamed (a : Arguments) (text input : String) :
    Arguments.compile { a with input } text
      = (a.compile text).mapError (RunError.renamed (Arguments.inputName { a with input })) := by
  have options : Arguments.options { a with input } = a.options := rfl
  simp only [Arguments.compile, options]
  cases statementsOfText? text with
  | none => rfl
  | some list =>
    cases emitted : HotkeyScript.script a.options list <;> simp only [emitted] <;> rfl

theorem deliver_withStdin (w : World) (stdin : ByteArray) (path script : String) :
    deliver { w with stdin } path script
      = ({ (w.deliver path script).1 with stdin }, (w.deliver path script).2) := by
  unfold deliver
  dsimp only
  split
  · rfl
  · split <;> rfl

theorem print_withStdin (w : World) (stdin : ByteArray) (text : String) :
    print { w with stdin } text = ({ (w.print text).1 with stdin }, (w.print text).2) :=
  rfl

theorem command_renamed {stdin : ByteArray} {input : String} (read : w.input? a = some text)
    (same : input? { w with stdin } { a with input } = some text) :
    command { w with stdin } { a with input }
      = ({ (w.command a).1 with stdin },
        (w.command a).2.mapError (RunError.renamed (Arguments.inputName { a with input }))) := by
  have output : Arguments.outputFile? { a with input } = a.outputFile? := rfl
  unfold command run
  simp only [read, same, compile_renamed, output]
  cases a.compile text with
  | error e => rfl
  | ok outcome =>
    cases a.outputFile? with
    | none =>
      simp only [Except.mapError, print_withStdin]
      split
      · rfl
      · cases w.print outcome.script with
        | mk after taken => cases taken <;> rfl
    | some path =>
      simp only [Except.mapError, deliver_withStdin]
      by_cases receives : w.files.Receives path
      · obtain ⟨files, delivered, _⟩ := deliver_of_receives receives outcome.script
        simp [delivered]
      · obtain ⟨files, e, refused, rfl | rfl, _⟩ :=
          deliver_of_not_receives receives outcome.script
        · simp [refused, RunError.renamed]
        · simp [refused, RunError.renamed]

end Renaming

theorem command_succeeds_iff : (∃ outcome, (w.command a).2 = .ok outcome) ↔
    ∃ list script, w.Prepares a list script ∧ w.Allows a script := by
  constructor
  · rintro ⟨outcome, succeeded⟩
    by_contra refuses
    have failed : ∃ e, (w.command a).2 = .error e := by
      by_cases unprepared : ∀ list script, ¬w.Prepares a list script
      · obtain ⟨e, failed⟩ := command_of_not_prepared unprepared
        exact ⟨e, by rw [failed]⟩
      · obtain ⟨list, script, prepared⟩ : ∃ list script, w.Prepares a list script := by
          simpa using unprepared
        exact command_of_not_allows prepared fun allowed =>
          refuses ⟨list, script, prepared, allowed⟩
    obtain ⟨e, failed⟩ := failed
    rw [failed] at succeeded
    cases succeeded
  · rintro ⟨list, script, prepared, allowed⟩
    exact command_of_allows prepared allowed

-- What a run prepares arrives as a whole at one place, or nothing has changed.
structure Delivers (w : World) (a : Arguments) : Prop where
  unread : w.input? a = none → w.command a = (w, .error a.readError)
  undecoded : ∀ text, w.input? a = some text → statementsOfText? text = none →
    w.command a = (w, .error (.notStatements a.inputName))
  unwritable : ∀ text list fault, w.input? a = some text → statementsOfText? text = some list →
    HotkeyScript.script a.options list = .error fault →
      w.command a = (w, .error (.unwritable a.inputName fault))
  checked : ∀ list script, w.Prepares a list script → a.check →
    w.command a = (w, .ok ⟨script, list.length, none⟩)
  printed : ∀ list script, w.Prepares a list script → a.check = false → a.out = none →
    w.Takes script →
      w.command a = ({ w with stdout := w.stdout ++ script }, .ok ⟨script, list.length, none⟩)
  unprinted : ∀ list script, w.Prepares a list script → a.check = false → a.out = none →
    ¬w.Takes script → ∃ stdout, w.command a = ({ w with stdout }, .error .stdout)
  written : ∀ list script path, w.Prepares a list script → a.check = false →
    a.out = some path → w.files.Receives path →
      ∃ files, w.command a = ({ w with files }, .ok ⟨script, list.length, some path⟩) ∧
        w.files.Replaced files path script.toUTF8
  unwritten : ∀ list script path, w.Prepares a list script → a.check = false →
    a.out = some path → ¬w.files.Receives path →
      ∃ files e, w.command a = ({ w with files }, .error e) ∧
        (e = .directory (Path.parent path) ∨ e = .file path) ∧
          w.files.Grown files (w.files.parents path)
  -- A file that is there already, such as the input itself, is received and loses all it held.
  overwritten : ∀ list script path place content, w.Prepares a list script → a.check = false →
    a.out = some path → w.files.find? path = some place →
      w.files.entry? place = some (.file content) → ¬w.files.readOnly place →
        w.command a = ({ w with files := w.files.put place (.file script.toUTF8) },
          .ok ⟨script, list.length, some path⟩)
  succeeds : (∃ outcome, (w.command a).2 = .ok outcome) ↔
    ∃ list script, w.Prepares a list script ∧ w.Allows a script
  renamed : ∀ stdin input text, w.input? a = some text →
    input? { w with stdin } { a with input } = some text →
      command { w with stdin } { a with input }
        = ({ (w.command a).1 with stdin },
          (w.command a).2.mapError (RunError.renamed (Arguments.inputName { a with input })))
  reported : ∀ words, Arguments.ofWords words = .ok a →
    (w.execute words).1 = (w.command a).1 ∧
      ((w.execute words).2 = 0 ↔ ∃ outcome, (w.command a).2 = .ok outcome)

theorem command_delivers (w : World) (a : Arguments) : w.Delivers a where
  unread := command_of_unread
  undecoded _ := command_of_undecoded
  unwritable _ _ _ := command_of_unwritable
  checked _ _ := command_of_check
  printed _ _ := command_printed
  unprinted _ _ := command_unprinted
  written _ _ _ := command_written
  unwritten _ _ _ := command_unwritten
  overwritten _ _ _ _ _ prepared delivers to_file found there writable :=
    command_overwritten prepared delivers to_file found there writable
  succeeds := command_succeeds_iff
  renamed _ _ _ := command_renamed
  reported words own := by
    simp only [execute, own]
    cases (w.command a).2 <;> simp [exitCode]

-- A script takes the place of its own, longer text.
theorem command_delivers_over_input :
    let list : List Stmt := [.goto "done"]
    let w : World :=
      { files := { workingDirectory := ["work"]
                   entries := [(["work", "s.json"], .file (Stmt.listToJson list).compact.toUTF8)] } }
    let a : Arguments := { input := "s.json", out := some "s.json" }
    w.Delivers a ∧ w.command a
      = ({ w with files := w.files.put ["work", "s.json"] (.file "goto done\n".toUTF8) },
        .ok ⟨"goto done\n", 1, some "s.json"⟩) := by
  intro list w a
  have found : w.files.find? "s.json" = some ["work", "s.json"] := by decide
  have there : w.files.entry? ["work", "s.json"]
      = some (.file (Stmt.listToJson list).compact.toUTF8) := rfl
  have decoded : statementsOfText? (Stmt.listToJson list).compact = some list := by
    have kept : ∀ s ∈ list, ∀ p ∈ s.literals, p.Kept := by simp [list, Stmt.literals]
    rw [statementsOfText?, Json.decodeText?_compact (Stmt.numbered_listToJson list)
      (Stmt.list_yields kept), if_pos (by decide)]
  have read : w.input? a = some (Stmt.listToJson list).compact := by
    have own : w.files.read? "s.json" = some (Stmt.listToJson list).compact.toUTF8 := by
      rw [FileSystem.read?, found]
      simp only [Option.bind_some, there]
    have from_file : a.readsStdin = false := by decide
    rw [input?, from_file, if_neg Bool.false_ne_true, own]
    exact dif_pos (String.isValidUTF8 _)
  have prepared : w.Prepares a list "goto done\n" := ⟨_, read, decoded, by decide⟩
  exact ⟨command_delivers w a, (command_delivers w a).overwritten list _ "s.json" ["work", "s.json"]
    _ prepared rfl rfl found there Bool.false_ne_true⟩

end World
end HotkeyScript
