import Mathlib.Data.String.Basic
import HotkeyScript.Proofs.Writing
namespace HotkeyScript

namespace Text

def IsLongestFitting (room : Nat) (text kept : List Char) : Prop :=
  kept <+: text ∧ String.utf8Len kept ≤ room ∧
    ∀ other, other <+: text → String.utf8Len other ≤ room → other <+: kept

theorem fitting_isLongest (room : Nat) (text : List Char) :
    IsLongestFitting room text (fitting room text) := by
  induction text generalizing room with
  | nil => exact ⟨List.nil_prefix, Nat.zero_le _, fun other begins _ => begins⟩
  | cons c rest ih =>
    unfold fitting
    split
    · next fits =>
      obtain ⟨begins, bounded, longest⟩ := ih (room - c.utf8Size)
      refine ⟨(List.prefix_cons_inj c).mpr begins, ?_, ?_⟩
      · simp only [String.utf8Len_cons]
        omega
      · intro other begins small
        cases other with
        | nil => exact List.nil_prefix
        | cons d other =>
          obtain ⟨rfl, further⟩ := List.cons_prefix_cons.mp begins
          simp only [String.utf8Len_cons] at small
          exact (List.prefix_cons_inj d).mpr (longest other further (by omega))
    · next tooWide =>
      refine ⟨List.nil_prefix, Nat.zero_le _, ?_⟩
      intro other begins small
      cases other with
      | nil => exact List.nil_prefix
      | cons d other =>
        obtain ⟨rfl, _⟩ := List.cons_prefix_cons.mp begins
        simp only [String.utf8Len_cons] at small
        omega

theorem fitting_append_of_le {room : Nat} {a : List Char} (b : List Char)
    (fits : String.utf8Len a ≤ room) :
    fitting room (a ++ b) = a ++ fitting (room - String.utf8Len a) b := by
  induction a generalizing room with
  | nil => simp
  | cons c rest ih =>
    simp only [String.utf8Len_cons] at fits ⊢
    simp only [List.cons_append, fitting]
    rw [if_pos (by omega), ih (by omega)]
    congr 3
    omega

theorem fitting_append_of_lt {room : Nat} {a : List Char} (b : List Char)
    (tooLong : room < String.utf8Len a) : fitting room (a ++ b) = fitting room a := by
  induction a generalizing room with
  | nil => simp at tooLong
  | cons c rest ih =>
    simp only [String.utf8Len_cons] at tooLong
    simp only [List.cons_append, fitting]
    split
    · rw [ih (by omega)]
    · rfl

theorem utf8Len_fitting_le (room : Nat) (text : List Char) :
    String.utf8Len (fitting room text) ≤ room := (fitting_isLongest room text).2.1

end Text

namespace Sink

def Within (s : Sink) : Prop := ∀ capacity, s.capacity = some capacity → s.size ≤ capacity

theorem write_unlimited {s : Sink} (unlimited : s.capacity = none) (piece : String) :
    s.write piece = ({ s with text := s.text ++ piece }, true) := by
  simp [write, unlimited]

theorem write_of_le {s : Sink} {capacity : Nat} (limit : s.capacity = some capacity)
    {piece : String} (fits : s.size + piece.utf8ByteSize ≤ capacity) :
    s.write piece = ({ s with text := s.text ++ piece }, true) := by
  simp [write, limit, fits]

theorem write_of_lt {s : Sink} {capacity : Nat} (limit : s.capacity = some capacity)
    {piece : String} (tooLong : capacity < s.size + piece.utf8ByteSize) :
    s.write piece = ({ s with
      text := s.text ++ String.ofList (Text.fitting (capacity - s.size) piece.toList) }, false) := by
  simp [write, limit, Nat.not_le.mpr tooLong]

theorem write_append {s : Sink} (within : s.Within) (a b : String) :
    s.write (a ++ b)
      = match s.write a with
        | (s, true) => s.write b
        | (s, false) => (s, false) := by
  cases limit : s.capacity with
  | none => simp [write, limit, String.append_assoc]
  | some capacity =>
    have room := within capacity limit
    by_cases first : s.size + a.utf8ByteSize ≤ capacity
    · rw [write_of_le limit first]
      show s.write (a ++ b) = ({ s with text := s.text ++ a } : Sink).write b
      have grown : ({ s with text := s.text ++ a } : Sink).size = s.size + a.utf8ByteSize := by
        simp [size]
      by_cases second : s.size + (a ++ b).utf8ByteSize ≤ capacity
      · rw [String.utf8ByteSize_append] at second
        rw [write_of_le limit (by rw [String.utf8ByteSize_append]; exact second)]
        rw [write_of_le (s := { s with text := s.text ++ a }) limit (by omega)]
        simp [String.append_assoc]
      · rw [String.utf8ByteSize_append] at second
        rw [write_of_lt limit (by rw [String.utf8ByteSize_append]; omega)]
        rw [write_of_lt (s := { s with text := s.text ++ a }) limit (by omega)]
        rw [String.toList_append, Text.fitting_append_of_le _ (by simp; omega)]
        simp [grown, String.append_assoc, Nat.sub_sub]
    · have tooLong := Nat.not_le.mp first
      rw [write_of_lt limit tooLong, write_of_lt limit (by simp; omega)]
      rw [String.toList_append, Text.fitting_append_of_lt]
      simp; omega

theorem write_empty {s : Sink} (within : s.Within) : s.write "" = (s, true) := by
  cases limit : s.capacity with
  | none => simp [write_unlimited limit]
  | some capacity =>
    rw [write_of_le limit (by simpa using within capacity limit)]
    simp

theorem write_capacity (s : Sink) (piece : String) : (s.write piece).1.capacity = s.capacity := by
  unfold write
  split
  · rfl
  · split <;> rfl

theorem write_extends (s : Sink) (piece : String) :
    s.text.toList <+: (s.write piece).1.text.toList := by
  unfold write
  split
  · simp
  · split <;> simp

theorem write_within {s : Sink} (within : s.Within) (piece : String) :
    (s.write piece).1.Within := by
  intro capacity limit
  rw [write_capacity] at limit
  have room := within capacity limit
  by_cases fits : s.size + piece.utf8ByteSize ≤ capacity
  · rw [write_of_le limit fits]
    simpa [size] using fits
  · rw [write_of_lt limit (Nat.not_le.mp fits)]
    have cut := Text.utf8Len_fitting_le (capacity - s.size) piece.toList
    rw [← String.utf8ByteSize_ofList] at cut
    simp only [size, String.utf8ByteSize_append] at room cut ⊢
    omega

theorem outcome_pieces (pieces : List String) {s : Sink} (within : s.Within) :
    (pieces.forM Writer.put).outcome s
      = ((s.write (String.join pieces)).1,
          if (s.write (String.join pieces)).2 then none else some .write) := by
  induction pieces generalizing s with
  | nil => simp [write_empty within]
  | cons piece rest ih =>
    have unfolded : (piece :: rest).forM Writer.put
        = (do Writer.put piece; rest.forM Writer.put : Writer Sink Unit) := rfl
    rw [unfolded, Writer.outcome_bind, Writer.outcome_put, String.join_cons, write_append within]
    rcases wrote : s.write piece with ⟨after, taken⟩
    have held : after.Within := by simpa [wrote] using write_within within piece
    have place : Write.write s piece = (after, taken) := wrote
    cases taken with
    | false => simp [place]
    | true => simpa [place] using ih held

end Sink

-- A place together with the writes that were tried on it, in order, and how each one went.
structure Journal (σ : Type) where
  place : σ
  attempts : List (String × Bool) := []

namespace Journal

variable {σ : Type} [Write σ]

def write (j : Journal σ) (piece : String) : Journal σ × Bool :=
  let (place, taken) := Write.write j.place piece
  (⟨place, j.attempts ++ [(piece, taken)]⟩, taken)

instance : Write (Journal σ) := ⟨write⟩

-- The writes of an emission, all of them taken, or as many as there are up to the first refused.
inductive Stopped (e : Emission) : List (String × Bool) → Option EmitError → Prop where
  | taken : Stopped e (e.pieces.map (·, true)) (e.fault.map .fault)
  | refused (before : List String) (piece : String) (after : List String)
      (split : e.pieces = before ++ piece :: after) :
      Stopped e (before.map (·, true) ++ [(piece, false)]) (some .write)

theorem outcome_pieces (pieces : List String) (j : Journal σ) :
    ∃ tried,
      (pieces.forM Writer.put).outcome j
        = (⟨((pieces.forM Writer.put).outcome j.place).1, j.attempts ++ tried⟩,
            ((pieces.forM Writer.put).outcome j.place).2) ∧
      Stopped ⟨pieces, none⟩ tried ((pieces.forM Writer.put).outcome j.place).2 := by
  induction pieces generalizing j with
  | nil => exact ⟨[], by simp, .taken⟩
  | cons piece rest ih =>
    have unfolded {τ : Type} [Write τ] : (piece :: rest).forM Writer.put
        = (do Writer.put piece; rest.forM Writer.put : Writer τ Unit) := rfl
    rw [unfolded, unfolded, Writer.outcome_bind, Writer.outcome_bind, Writer.outcome_put,
      Writer.outcome_put]
    rcases wrote : Write.write j.place piece with ⟨after, taken⟩
    have kept : Write.write j piece = (⟨after, j.attempts ++ [(piece, taken)]⟩, taken) := by
      show write j piece = _
      simp [write, wrote]
    cases taken with
    | false => exact ⟨[(piece, false)], by simp [kept], .refused [] piece rest rfl⟩
    | true =>
      obtain ⟨tried, same, stopped⟩ := ih ⟨after, j.attempts ++ [(piece, true)]⟩
      refine ⟨(piece, true) :: tried, by simpa [kept] using same, ?_⟩
      simp only [if_true]
      generalize ((rest.forM Writer.put).outcome after).2 = ended at stopped
      cases stopped with
      | taken => exact .taken
      | refused before last others split =>
        exact .refused (piece :: before) last others (congrArg (piece :: ·) split)

theorem outcome_writeTo (e : Emission) (j : Journal σ) :
    ∃ tried,
      e.writeTo.outcome j
        = (⟨(e.writeTo.outcome j.place).1, j.attempts ++ tried⟩, (e.writeTo.outcome j.place).2) ∧
      Stopped e tried (e.writeTo.outcome j.place).2 := by
  obtain ⟨tried, same, stopped⟩ := outcome_pieces e.pieces j
  refine ⟨tried, ?_⟩
  rw [Emission.outcome_writeTo, Emission.outcome_writeTo, same]
  rcases here : (e.pieces.forM Writer.put).outcome j.place with ⟨after, ended⟩
  rw [here] at stopped
  cases ended with
  | none =>
    refine ⟨rfl, ?_⟩
    generalize again : (none : Option EmitError) = ended at stopped
    cases stopped with
    | taken => exact .taken
    | refused => cases again
  | some error =>
    refine ⟨rfl, ?_⟩
    show Stopped e tried (some error)
    generalize again : some error = ended at stopped ⊢
    cases stopped with
    | taken => cases again
    | refused before piece others split => exact .refused before piece others split

end Journal

namespace Printer

theorem emit_eq_write (p : Printer) (within : p.sink.Within) (job : Job) :
    p.emit job
      = ({ p with sink := (p.sink.write (job.emission p.options).contents).1 },
          if (p.sink.write (job.emission p.options).contents).2
          then (job.emission p.options).fault.map .fault else some .write) := by
  unfold emit
  rw [Job.write_eq_emission, Emission.outcome_writeTo, Sink.outcome_pieces _ within]
  unfold Emission.contents
  rcases p.sink.write (String.join (job.emission p.options).pieces) with ⟨after, taken⟩
  cases taken <;> rfl

theorem emit_unlimited {p : Printer} (unlimited : p.sink.capacity = none) (job : Job) :
    p.emit job
      = (⟨p.options, ⟨p.text ++ (job.emission p.options).contents, none⟩⟩,
          (job.emission p.options).fault.map .fault) := by
  rw [emit_eq_write p (by simp [Sink.Within, unlimited])]
  rw [Sink.write_unlimited unlimited]
  simp [unlimited, text]

theorem emit_within {p : Printer} (within : p.sink.Within) (job : Job) :
    (p.emit job).1.sink.Within := by
  rw [emit_eq_write p within]
  exact Sink.write_within within _

theorem emitAll_options (p : Printer) (jobs : List Job) :
    (p.emitAll jobs).1.options = p.options := by
  induction jobs generalizing p with
  | nil => rfl
  | cons job rest ih => exact ih _

theorem emit_capacity (p : Printer) (within : p.sink.Within) (job : Job) :
    (p.emit job).1.sink.capacity = p.sink.capacity := by
  rw [emit_eq_write p within]
  exact Sink.write_capacity _ _

theorem emitAll_within {p : Printer} (within : p.sink.Within) (jobs : List Job) :
    (p.emitAll jobs).1.sink.Within ∧ (p.emitAll jobs).1.sink.capacity = p.sink.capacity
      ∧ p.text.toList <+: (p.emitAll jobs).1.text.toList := by
  induction jobs generalizing p with
  | nil => exact ⟨within, rfl, List.prefix_rfl⟩
  | cons job rest ih =>
    obtain ⟨held, capacity, begins⟩ := ih (emit_within within job)
    refine ⟨held, capacity.trans (emit_capacity p within job), List.IsPrefix.trans ?_ begins⟩
    rw [emit_eq_write p within]
    exact Sink.write_extends _ _

theorem emit_bounded {p : Printer} {capacity : Nat} (limit : p.sink.capacity = some capacity)
    (within : p.sink.Within) (job : Job) :
    if (p.text ++ (job.emission p.options).contents).utf8ByteSize ≤ capacity then
      p.emit job
        = (⟨p.options, ⟨p.text ++ (job.emission p.options).contents, some capacity⟩⟩,
            (job.emission p.options).fault.map .fault)
    else
      ∃ kept, Text.IsLongestFitting (capacity - p.text.utf8ByteSize)
          (job.emission p.options).contents.toList kept ∧
        p.emit job = (⟨p.options, ⟨p.text ++ String.ofList kept, some capacity⟩⟩, some .write) := by
  rw [emit_eq_write p within, String.utf8ByteSize_append]
  split
  · next fits =>
    rw [Sink.write_of_le limit fits]
    simp [limit, text]
  · next tooLong =>
    refine ⟨_, Text.fitting_isLongest _ _, ?_⟩
    rw [Sink.write_of_lt limit (Nat.not_le.mp tooLong)]
    simp [limit, text, Sink.size]

theorem emit_fresh (options : Options) (job : Job) :
    Printer.emit { options } job
      = (⟨options, ⟨(job.emission options).contents, none⟩⟩,
          (job.emission options).fault.map .fault) := by
  have written := emit_unlimited (p := { options }) rfl job
  simpa [text] using written

-- What a job does on a fresh sink that never fails decides what it does on every sink: one that
-- never fails, whatever was written and however earlier jobs ended, and one of limited size, cut
-- wherever it may be. So no session shrinks its sink or fills it over its limit, and on no place
-- is anything written after the first write of a job that fails.
theorem emit_sink_law (options : Options) (job : Job) :
    (∀ (held : String) (earlier : List Job),
      let p := (Printer.emitAll ⟨options, ⟨held, none⟩⟩ earlier).1
      p.emit job
        = (⟨options, ⟨p.text ++ (Printer.emit { options } job).1.text, none⟩⟩,
            (Printer.emit { options } job).2)) ∧
    (∀ (held : String) (capacity : Nat) (earlier : List Job), held.utf8ByteSize ≤ capacity →
      let p := (Printer.emitAll ⟨options, ⟨held, some capacity⟩⟩ earlier).1
      let written := (Printer.emit { options } job).1.text
      p.text.utf8ByteSize ≤ capacity ∧
      if (p.text ++ written).utf8ByteSize ≤ capacity then
        p.emit job
          = (⟨options, ⟨p.text ++ written, some capacity⟩⟩, (Printer.emit { options } job).2)
      else
        ∃ kept,
          Text.IsLongestFitting (capacity - p.text.utf8ByteSize) written.toList kept ∧
          p.emit job = (⟨options, ⟨p.text ++ String.ofList kept, some capacity⟩⟩, some .write)) ∧
    (∀ (sink : Sink) (earlier later : List Job), sink.Within →
      let p := (Printer.emitAll ⟨options, sink⟩ earlier).1
      let q := (p.emitAll later).1
      p.text.toList <+: q.text.toList ∧ q.sink.Within ∧ q.sink.capacity = sink.capacity) ∧
    ∀ (σ : Type) [Write σ] (place : σ),
      ∃ tried,
        (job.write options).outcome (⟨place, []⟩ : Journal σ)
          = (⟨((job.write options).outcome place).1, tried⟩,
              ((job.write options).outcome place).2) ∧
        Journal.Stopped (job.emission options) tried ((job.write options).outcome place).2 := by
  rw [emit_fresh]
  refine ⟨?_, ?_, ?_, ?_⟩
  · intro held earlier
    obtain ⟨_, unlimited, _⟩ :=
      emitAll_within (p := ⟨options, ⟨held, none⟩⟩) (by simp [Sink.Within]) earlier
    have written := emit_unlimited unlimited job
    rw [emitAll_options] at written
    exact written
  · intro held capacity earlier room
    obtain ⟨within, limit, _⟩ :=
      emitAll_within (p := ⟨options, ⟨held, some capacity⟩⟩)
        (by simpa [Sink.Within, Sink.size] using room) earlier
    have written := emit_bounded limit within job
    rw [emitAll_options] at written
    exact ⟨within capacity limit, written⟩
  · intro sink earlier later within
    obtain ⟨first, capacity, _⟩ := emitAll_within (p := ⟨options, sink⟩) within earlier
    obtain ⟨second, same, begins⟩ := emitAll_within first later
    exact ⟨begins, second, same.trans capacity⟩
  · intro σ _ place
    simp only [Job.write_eq_emission]
    obtain ⟨tried, same, stopped⟩ :=
      Journal.outcome_writeTo (job.emission options) (⟨place, []⟩ : Journal σ)
    exact ⟨tried, same, stopped⟩

-- A character of two bytes where there is room for one: it is left out, not cut in two.
theorem emit_sink_law_between_characters :
    (⟨"n", some 2⟩ : Sink).Within ∧
      (Printer.emit ⟨{}, ⟨"n", some 2⟩⟩ (.ofExpr (.var "é")))
        = (⟨{}, ⟨"n", some 2⟩⟩, some .write) ∧
      "n".toList <+: (Printer.emit ⟨{}, ⟨"n", some 2⟩⟩ (.ofExpr (.var "é"))).1.text.toList := by
  obtain ⟨_, bounded, sessions, _⟩ := emit_sink_law {} (.ofExpr (.var "é"))
  have within : (⟨"n", some 2⟩ : Sink).Within := by
    simp [Sink.Within, Sink.size]
    decide
  have fresh : (Printer.emit {} (.ofExpr (.var "é"))).1.text = "é" := by decide
  have begins := (sessions _ [] [.ofExpr (.var "é")] within).1
  refine ⟨within, ?_, begins⟩
  have law := (bounded "n" 2 [] (by decide)).2
  simp only [fresh] at law
  rw [if_neg (by decide)] at law
  obtain ⟨kept, ⟨whole, small, _⟩, cut⟩ := law
  have spelled : "é".toList = ['é'] := by decide
  have leftOut : kept = [] := by
    rw [spelled] at whole
    cases kept with
    | nil => rfl
    | cons c rest =>
      obtain ⟨rfl, _⟩ := List.cons_prefix_cons.mp whole
      have wide : 'é'.utf8Size = 2 := by decide
      change _ ≤ 1 at small
      simp only [String.utf8Len_cons, wide] at small
      omega
  rw [leftOut] at cut
  exact cut

end Printer
end HotkeyScript
