import HotkeyScript.Proofs.SinkLaw
import HotkeyScript.Proofs.TwoRuns
namespace HotkeyScript

def Options.limited (options : Options) (limit : UInt32) : Options :=
  { options with maxDepth := limit }

def Options.room (options : Options) (depth : UInt32) : Nat :=
  options.maxDepth.toNat + 1 - depth.toNat

def Context.lower (context : Context) (levels : UInt32) : Context :=
  { context with depth := context.depth + levels }

def Fault.withLimit (limit : UInt32) : Fault → Fault
  | .depthLimitExceeded _ => .depthLimitExceeded limit
  | f => f

def EmitError.withLimit (limit : UInt32) : EmitError → EmitError
  | .fault cause => .fault (cause.withLimit limit)
  | .write => .write

theorem Fault.OfShape.withLimit {f : Fault} (shape : f.OfShape) (limit : UInt32) :
    f.withLimit limit = f := by
  cases f with
  | depthLimitExceeded named => exact absurd rfl (shape named)
  | _ => rfl

namespace Options

variable (options : Options)

theorem sameStyle_limited (limit : UInt32) : options.SameStyle (options.limited limit) := ⟨rfl, rfl⟩

theorem exceeded_iff (depth : UInt32) : options.maxDepth < depth ↔ options.room depth = 0 := by
  rw [UInt32.lt_iff_toNat_lt, room]
  omega

-- Each level takes one from the room, and none is left where the depth can no longer be counted.
theorem room_deeper {options : Options} (bounded : options.maxDepth.toNat < 4294967295)
    (depth : UInt32) : options.room (Context.deeper depth) = options.room depth - 1 := by
  have := depth.toNat_lt
  rw [room, room, Context.toNat_deeper]
  omega

theorem room_lower (levels depth : UInt32)
    (bounded : options.maxDepth.toNat + levels.toNat < 4294967295)
    (counted : depth.toNat + levels.toNat < 4294967296) :
    (options.limited (options.maxDepth + levels)).room (depth + levels) = options.room depth := by
  have limit : (options.maxDepth + levels).toNat = options.maxDepth.toNat + levels.toNat := by
    rw [UInt32.toNat_add, Nat.mod_eq_of_lt (by omega)]
  have place : (depth + levels).toNat = depth.toNat + levels.toNat := by
    rw [UInt32.toNat_add, Nat.mod_eq_of_lt (by omega)]
  show (options.maxDepth + levels).toNat + 1 - (depth + levels).toNat = options.room depth
  rw [limit, place, room]
  omega

end Options

namespace Emission

-- The first emission is the second, or is cut off from it by the limit.
def CutAt (limit : UInt32) (cut whole : Emission) : Prop :=
  cut = whole ∨ (cut.fault = some (.depthLimitExceeded limit) ∧ cut.pieces <+: whole.pieces)

theorem pieces_prefix_andThen (a b : Emission) : a.pieces <+: (a ++ b).pieces := by
  cases fine : a.fault with
  | some f =>
    have whole : a ++ b = a := andThen_of_fault b (by simp [fine])
    simp only [whole, List.prefix_rfl]
  | none =>
    rw [andThen_of_none b fine]
    exact List.prefix_append _ _

theorem CutAt.congruence (limit : UInt32) : Congruence (CutAt limit) where
  fixed _ _ := .inl rfl
  andThen {a b c d} first second := by
    rcases first with rfl | ⟨faulty, begins⟩
    · cases fault : a.fault with
      | some f =>
        have faulty : a.fault.isSome := by simp [fault]
        rw [andThen_of_fault c faulty, andThen_of_fault d faulty]
        exact .inl rfl
      | none =>
        rcases second with rfl | ⟨faulty, begins⟩
        · exact .inl rfl
        · refine .inr ⟨by simp [fault, faulty], ?_⟩
          rw [andThen_of_none c fault, andThen_of_none d fault]
          exact (List.prefix_append_right_inj _).mpr begins
    · rw [andThen_of_fault c (by simp [faulty])]
      exact .inr ⟨faulty, begins.trans (pieces_prefix_andThen b d)⟩

theorem CutAt.contents {limit : UInt32} {cut whole : Emission} (related : CutAt limit cut whole) :
    cut.contents.toList <+: whole.contents.toList := by
  rcases related with rfl | ⟨_, rest, pieces⟩
  · exact List.prefix_rfl
  · simp [Emission.contents, ← pieces]

def withLimit (limit : UInt32) (e : Emission) : Emission :=
  { e with fault := e.fault.map (Fault.withLimit limit) }

theorem withLimit.congruence (limit : UInt32) :
    Congruence fun a b => b = a.withLimit limit where
  fixed a shape := by
    have kept : a.fault.map (Fault.withLimit limit) = a.fault := by
      cases fault : a.fault with
      | none => rfl
      | some f => exact congrArg some ((shape f fault).withLimit limit)
    simp only [withLimit, kept]
  andThen {a b c d} first second := by
    subst first second
    cases fault : a.fault with
    | some f =>
      rw [andThen_of_fault c (by simp [fault]), andThen_of_fault _ (by simp [withLimit, fault])]
    | none =>
      rw [andThen_of_none c fault, andThen_of_none _ (by simp [withLimit, fault])]
      rfl

end Emission

section Wider

variable (options : Options) {limit : UInt32} (wider : options.maxDepth ≤ limit)
include wider

theorem Expr.emission_cutAt (e : Expr) (context : Context) :
    Emission.CutAt options.maxDepth (e.emission options context)
      (e.emission (options.limited limit) context) := by
  refine (Emission.CutAt.congruence options.maxDepth).expr (options.sameStyle_limited limit)
    (C := Eq) (fun same => same ▸ rfl) (fun d _ _ same => same ▸ rfl) ?_ e rfl
  rintro e c _ rfl exceeded
  have refused : options.maxDepth < c.depth := by
    rcases exceeded with exceeded | exceeded
    · exact exceeded
    · exact UInt32.lt_of_le_of_lt wider exceeded
  rw [emission_eq_layout, if_pos refused]
  exact .inr ⟨rfl, List.nil_prefix⟩

theorem Stmt.emission_cutAt (s : Stmt) (context : Context) :
    Emission.CutAt options.maxDepth (s.emission options context)
      (s.emission (options.limited limit) context) :=
  (Emission.CutAt.congruence options.maxDepth).stmt s
    (fun e _ => e.emission_cutAt options wider _) (fun e _ => e.emission_cutAt options wider _)
    (fun e _ => e.emission_cutAt options wider _)

theorem Stmt.lines_cutAt (level : Nat) (list : List Stmt) :
    Emission.CutAt options.maxDepth (Stmt.lines options level list)
      (Stmt.lines (options.limited limit) level list) := by
  have congruence := Emission.CutAt.congruence options.maxDepth
  induction list with
  | nil => exact congruence.nothing
  | cons s rest ih =>
    refine congruence.andThen (congruence.andThen (congruence.andThen ?_ ?_) ?_) ih
    · exact .inl rfl
    · exact s.emission_cutAt options wider .root
    · exact congruence.text _

theorem Job.emission_cutAt (job : Job) :
    Emission.CutAt options.maxDepth (job.emission options)
      (job.emission (options.limited limit)) := by
  cases job with
  | expression e context => exact e.emission_cutAt options wider context
  | statement s context => exact s.emission_cutAt options wider context
  | statements list level => exact Stmt.lines_cutAt options wider level list

end Wider

structure Context.SameRoom (options : Options) (limit : UInt32) (c c' : Context) : Prop where
  statement : c'.statement = c.statement
  room : (options.limited limit).room c'.depth = options.room c.depth

section SameRoom

variable {options : Options} {limit : UInt32} (bounded : options.maxDepth.toNat < 4294967295)
  (bounded' : limit.toNat < 4294967295) {context context' : Context}
include bounded bounded'

theorem Context.SameRoom.nested (same : SameRoom options limit context context') :
    SameRoom options limit context.nested context'.nested where
  statement := rfl
  room := by
    show (options.limited limit).room (deeper _) = options.room (deeper _)
    rw [Options.room_deeper bounded, Options.room_deeper bounded', same.room]

theorem Expr.emission_sameRoom (same : Context.SameRoom options limit context context') (e : Expr) :
    e.emission (options.limited limit) context' = (e.emission options context).withLimit limit := by
  refine (Emission.withLimit.congruence limit).expr (options.sameStyle_limited limit)
    (C := Context.SameRoom options limit) (fun same => same.statement) ?_ ?_ e same
  · intro d c c' same
    cases d with
    | same => exact same
    | operand => exact ⟨rfl, same.room⟩
    | nested => exact same.nested bounded bounded'
  · intro e c c' same exceeded
    have both : options.maxDepth < c.depth ∧ (options.limited limit).maxDepth < c'.depth := by
      rw [Options.exceeded_iff, Options.exceeded_iff, same.room] at exceeded ⊢
      simpa using exceeded
    rw [emission_eq_layout, emission_eq_layout, if_pos both.1, if_pos both.2]
    rfl

theorem Stmt.emission_sameRoom (same : Context.SameRoom options limit context context') (s : Stmt) :
    s.emission (options.limited limit) context'
      = (s.emission options context).withLimit limit := by
  have body : Context.SameRoom options limit context.asStatement context'.asStatement :=
    ⟨rfl, same.room⟩
  have side : Context.SameRoom options limit context.operand context'.operand := ⟨rfl, same.room⟩
  have value := same.nested bounded bounded'
  exact (Emission.withLimit.congruence limit).stmt s
    (fun e _ => e.emission_sameRoom bounded bounded' body)
    (fun e _ => e.emission_sameRoom bounded bounded' side)
    (fun e _ => e.emission_sameRoom bounded bounded' value)

end SameRoom

namespace Printer

-- The depth limit only cuts the text off. A job that is not refused for its depth is written the
-- same and ends the same under every wider limit, and one that is refused leaves a beginning of
-- what a wider limit writes. Nor does it matter how far from the root an expression or a statement
-- stands while the limit is as much further: only the limit that a refusal names is another.
theorem emit_depth_limit (options : Options) :
    (∀ (limit : UInt32) (job : Job), options.maxDepth ≤ limit →
      let narrow := Printer.emit { options } job
      let wide := Printer.emit { options := options.limited limit } job
      ((∀ named, narrow.2 ≠ some (.fault (.depthLimitExceeded named))) →
        wide.1.text = narrow.1.text ∧ wide.2 = narrow.2) ∧
      ∀ named, narrow.2 = some (.fault (.depthLimitExceeded named)) →
        narrow.1.text.toList <+: wide.1.text.toList) ∧
    ∀ (levels : UInt32) (context : Context),
      options.maxDepth.toNat + levels.toNat < 4294967295 →
      context.depth.toNat + levels.toNat < 4294967296 →
      ∀ work : Context → Job, (∃ e, work = .expression e) ∨ (∃ s, work = .statement s) →
        let limit := options.maxDepth + levels
        let near := Printer.emit { options } (work context)
        let far := Printer.emit { options := options.limited limit } (work (context.lower levels))
        far.1.text = near.1.text ∧ far.2 = near.2.map (EmitError.withLimit limit) := by
  constructor
  · intro limit job wider
    have related := job.emission_cutAt options wider
    simp only [emit_fresh, text]
    refine ⟨fun other => ?_, fun _ _ => related.contents⟩
    rcases related with same | ⟨faulty, _⟩
    · simp [same]
    · exact absurd (congrArg (Option.map EmitError.fault) faulty) (other _)
  · intro levels context bounded counted work form
    have same : Context.SameRoom options (options.maxDepth + levels) context
        (context.lower levels) := ⟨rfl, options.room_lower levels context.depth bounded counted⟩
    have low : options.maxDepth.toNat < 4294967295 := by omega
    have high : (options.maxDepth + levels).toNat < 4294967295 := by
      rw [UInt32.toNat_add, Nat.mod_eq_of_lt (by omega)]
      exact bounded
    have shifted : (work (context.lower levels)).emission
          (options.limited (options.maxDepth + levels))
        = ((work context).emission options).withLimit (options.maxDepth + levels) := by
      rcases form with ⟨e, rfl⟩ | ⟨s, rfl⟩
      · exact Expr.emission_sameRoom low high same e
      · exact Stmt.emission_sameRoom low high same s
    simp only [emit_fresh, text, shifted]
    refine ⟨rfl, ?_⟩
    simp only [Emission.withLimit, Option.map_map]
    rfl

-- An array of arrays two levels deep: cut off under a limit of one, written under a limit of two,
-- and cut off at the same place from a depth of three under a limit of four.
theorem emit_depth_limit_of_arrays :
    let tree : Expr := .array [.var "x", .array [.var "y"]]
    let options : Options := { maxDepth := 1 }
    let narrow := Printer.emit { options } (.ofExpr tree)
    let wide := Printer.emit { options := options.limited 2 } (.ofExpr tree)
    let far := Printer.emit { options := options.limited 4 } (.expression tree ⟨false, 3⟩)
    narrow.2 = some (.fault (.depthLimitExceeded 1)) ∧
      narrow.1.text.toList <+: wide.1.text.toList ∧ wide.1.text = "[x, [y]]" ∧
      far.1.text = narrow.1.text ∧ far.2 = some (.fault (.depthLimitExceeded 4)) := by
  intro tree options narrow wide far
  have cut : narrow.2 = some (.fault (.depthLimitExceeded 1)) := by decide
  have wider := ((emit_depth_limit options).1 2 (.ofExpr tree) (by decide)).2 1 cut
  obtain ⟨text, ended⟩ := (emit_depth_limit options).2 3 .root (by decide) (by decide)
    (.expression tree) (.inl ⟨tree, rfl⟩)
  exact ⟨cut, wider, by decide, text, ended.trans (congrArg (Option.map _) cut)⟩

end Printer
end HotkeyScript
