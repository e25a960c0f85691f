import HotkeyScript.Proofs.Layout
import HotkeyScript.Printer
namespace HotkeyScript

namespace Writer

variable {σ : Type}

@[simp] theorem refuse_bind {α β : Type} (fault : Fault) (next : α → Writer σ β) :
    (refuse fault >>= next) = refuse fault := by
  simp [refuse]

@[simp] theorem outcome_pure (place : σ) :
    (pure () : Writer σ Unit).outcome place = (place, none) := rfl

@[simp] theorem outcome_refuse (fault : Fault) (place : σ) :
    (refuse fault : Writer σ Unit).outcome place = (place, some (.fault fault)) := rfl

theorem outcome_bind (first second : Writer σ Unit) (place : σ) :
    (do first; second : Writer σ Unit).outcome place
      = match first.outcome place with
        | (place, none) => second.outcome place
        | (place, some e) => (place, some e) := by
  unfold outcome
  simp only [ExceptT.run_bind, StateT.run_bind]
  rcases first.run.run place with ⟨result, place⟩
  cases result <;> rfl

theorem outcome_put [Write σ] (piece : String) (place : σ) :
    (put piece).outcome place
      = ((Write.write place piece).1,
          if (Write.write place piece).2 then none else some .write) := by
  show outcome (if (Write.write place piece).2 then pure () else throw .write) _ = _
  cases (Write.write place piece).2 <;> rfl

end Writer

variable {σ : Type} [Write σ]

namespace Emission

def writeTo (e : Emission) : Writer σ Unit := do
  e.pieces.forM Writer.put
  match e.fault with
  | none => pure ()
  | some fault => Writer.refuse fault

-- The fault of an emission is reached only when all of its text was taken.
theorem outcome_writeTo (e : Emission) (place : σ) :
    e.writeTo.outcome place
      = match (e.pieces.forM Writer.put).outcome place with
        | (place, none) => (place, e.fault.map .fault)
        | (place, some error) => (place, some error) := by
  unfold writeTo
  rw [Writer.outcome_bind]
  cases e.fault <;> rfl

@[simp] theorem writeTo_nothing : (nothing.writeTo : Writer σ Unit) = pure () := by
  simp [writeTo, nothing]

@[simp] theorem writeTo_fail (f : Fault) :
    ((fail f).writeTo : Writer σ Unit) = Writer.refuse f := by
  simp [writeTo, fail]

@[simp] theorem writeTo_text (s : String) : ((text s).writeTo : Writer σ Unit) = Writer.put s := by
  simp [writeTo, text]

@[simp] theorem writeTo_ofPieces (pieces : List String) :
    ((ofPieces pieces).writeTo : Writer σ Unit) = pieces.forM Writer.put := by
  simp [writeTo, ofPieces]

@[simp] theorem writeTo_andThen (a b : Emission) :
    ((a ++ b).writeTo : Writer σ Unit) = (do a.writeTo; b.writeTo) := by
  cases fine : a.fault with
  | some f =>
    rw [andThen_of_fault b (by simp [fine])]
    simp [writeTo, fine]
  | none =>
    rw [andThen_of_none b fine]
    simp [writeTo, fine]

@[simp] theorem writeTo_space : (space.writeTo : Writer σ Unit) = Writer.space := by
  simp [space, Writer.space]

@[simp] theorem writeTo_listSeparator :
    (listSeparator.writeTo : Writer σ Unit) = Writer.listSeparator := by
  simp [listSeparator, Writer.listSeparator]

@[simp] theorem writeTo_spaced (token : String) :
    ((spaced token).writeTo : Writer σ Unit) = Writer.spaced token := by
  simp [spaced, Writer.spaced]

@[simp] theorem writeTo_assignment :
    (assignment.writeTo : Writer σ Unit) = Writer.assignment := by
  simp [assignment, Writer.assignment]

@[simp] theorem writeTo_jump (label : String) :
    ((jump label).writeTo : Writer σ Unit) = Writer.jump label := by
  simp [jump, Writer.jump]

@[simp] theorem writeTo_separated (parts : List Emission) :
    ((separated parts).writeTo : Writer σ Unit) = Writer.separated (parts.map writeTo) := by
  induction parts with
  | nil => simp [separated, Writer.separated]
  | cons part rest ih =>
    cases rest with
    | nil => simp [separated, Writer.separated]
    | cons next rest =>
      simp only [List.map_cons] at ih
      simp [separated, Writer.separated, ih]

@[simp] theorem writeTo_call (method : String) (args : List Emission) :
    ((call method args).writeTo : Writer σ Unit) = Writer.call method (args.map writeTo) := by
  simp [call, Writer.call]

@[simp] theorem writeTo_array (elements : List Emission) :
    ((array elements).writeTo : Writer σ Unit) = Writer.array (elements.map writeTo) := by
  simp [array, Writer.array]

@[simp] theorem writeTo_entries (keys values : List Emission) :
    ((entries keys values).map writeTo : List (Writer σ Unit))
      = Writer.entries (keys.map writeTo) (values.map writeTo) := by
  simp [entries, Writer.entries, List.map_zipWith, List.zipWith_map]

@[simp] theorem writeTo_map (entries : List Emission) :
    ((map entries).writeTo : Writer σ Unit) = Writer.map (entries.map writeTo) := by
  cases entries <;> simp [map, Writer.map]

end Emission

theorem Primitive.write_eq_emission (options : Options) (value : Primitive) :
    (value.write options : Writer σ Unit) = (value.emission options).writeTo := by
  cases value with
  | string text => simp [Primitive.write, Primitive.emission, stringLiteral, Writer.stringLiteral]
  | float value =>
    simp only [Primitive.write, Primitive.emission]
    split
    · simp
    · split <;> simp
  | _ => simp [Primitive.write, Primitive.emission]

mutual

theorem Expr.write_eq_emission (options : Options) (e : Expr) (context : Context) :
    (e.write options context : Writer σ Unit) = (e.emission options context).writeTo := by
  by_cases exceeded : options.maxDepth < context.depth
  · rw [Expr.write.eq_def, Expr.emission.eq_def, if_pos exceeded, if_pos exceeded,
      Emission.writeTo_fail]
  · rw [Expr.emission_eq_layout, if_neg exceeded, Expr.write.eq_def, if_neg exceeded]
    cases e with
    | invocation target method args marker =>
      simp only [Expr.layout, Layout.invocation]
      cases target with
      | none =>
        cases marker with
        | false => simp [Expr.written?, Expr.writers_eq_emissions options args]
        | true =>
          simpa [Expr.written?] using
            Expr.writeIntrinsic_eq_emission options method args context
      | some target =>
        cases internal : target.isInternalType <;> cases marker
        · simp [Expr.written?, internal, Item.emission, Descent.context,
            Expr.write_eq_emission options target, Expr.writers_eq_emissions options args]
        · simp [Expr.written?, internal, Layout.refusal, Item.emission]
        · simp [Expr.written?, internal, Expr.writers_eq_emissions options args]
        · simpa [Expr.written?, internal] using
            Expr.writeIntrinsic_eq_emission options method args context
    | arrayLiteral elements =>
      simp [Expr.layout, Layout.emission_array, Expr.writers_eq_emissions options elements]
    | primitive value => simp [Expr.layout, Item.emission, Primitive.write_eq_emission]
    | binaryOp operator left right =>
      cases bare : context.statement <;>
        simp [Expr.layout, Layout.parenthesizedUnless, Item.emission, Descent.context,
          Expr.write_eq_emission options left, Expr.write_eq_emission options right]
    | ternaryOp condition whenTrue whenFalse =>
      simp [Expr.layout, Item.emission, Descent.context, Expr.write_eq_emission options condition,
        Expr.write_eq_emission options whenTrue, Expr.write_eq_emission options whenFalse]
    | complexReference name =>
      cases name with
      | literal text => simp [Expr.layout, QualifiedName.write, Item.emission]
      | parts segments =>
        simp [Expr.layout, QualifiedName.write, Layout.emission_segments,
          Expr.writeSegments_eq_emission options segments]
    | variableRef name => simp [Expr.layout, Item.emission]
    | fieldRef target field =>
      cases target with
      | none => simp [Expr.layout, Item.emission]
      | some target =>
        simp [Expr.layout, Item.emission, Descent.context, Expr.write_eq_emission options target]
        split <;> simp [*]
    | typeRef type => cases internal : type.internal <;> simp [Expr.layout, Item.emission, internal]
    | _ => simp [Expr.layout, Item.emission, Expr.kind]
termination_by (sizeOf e, 0)

theorem Expr.writeIntrinsic_eq_emission (options : Options) (method : String) (args : List Expr)
    (context : Context) :
    (do unless ← Expr.writeIntrinsic options method args context do
          Writer.call method (Expr.writers options args context.nested) : Writer σ Unit)
      = ((Layout.markerCall method args).emission options context).writeTo := by
  unfold Expr.writeIntrinsic Layout.markerCall
  cases found : Intrinsic.find? method args.length with
  | none => simp [Expr.writers_eq_emissions options args]
  | some i =>
    cases Intrinsic.takes_of_find? found
    case labelJump label =>
      simp only [Layout.jumpTo]
      split <;> simp [Layout.refusal, Item.emission]
    case conditional condition =>
      simp [Item.emission, Descent.context, Expr.write_eq_emission options condition]
    case operate selector left right =>
      cases selector with
      | fieldRef target name =>
        cases named : ScriptOperator.ofName? name <;>
          simp [Layout.operation, named, Layout.refusal, Item.emission, Descent.context,
            Expr.write_eq_emission options left, Expr.write_eq_emission options right]
      | _ => simp [Layout.operation, Layout.refusal, Item.emission]
    case arrayExtend size => simp
    case indexedAssign key index container value =>
      simp [Item.emission, Descent.context, Expr.write_eq_emission options key,
        Expr.write_eq_emission options index, Expr.write_eq_emission options container,
        Expr.write_eq_emission options value]
    case indexAccess container index =>
      simp [Item.emission, Descent.context, Expr.write_eq_emission options container,
        Expr.write_eq_emission options index]
    case mapLiteral keys values =>
      simp only [Layout.mapOf]
      split
      · next keys values =>
        by_cases same : keys.length = values.length <;>
          simp [same, Layout.refusal, Item.emission, Layout.emission_map,
            Expr.writers_eq_emissions options keys, Expr.writers_eq_emissions options values]
      · simp [Layout.refusal, Item.emission]
termination_by (sizeOf args, 1)

theorem Expr.writers_eq_emissions (options : Options) (es : List Expr) (context : Context) :
    (Expr.writers options es context : List (Writer σ Unit))
      = (Expr.emissions options es context).map Emission.writeTo := by
  cases es with
  | nil => rfl
  | cons e rest =>
    simp [Expr.writers, Expr.emissions, Expr.write_eq_emission options e,
      Expr.writers_eq_emissions options rest]
termination_by (sizeOf es, 0)

theorem Expr.writeSegments_eq_emission (options : Options) (segments : List Expr)
    (context : Context) :
    (Expr.writeSegments options segments context : Writer σ Unit)
      = (Emission.concat (Expr.segmentEmissions options segments context)).writeTo := by
  cases segments with
  | nil => rfl
  | cons segment rest =>
    have others := Expr.writeSegments_eq_emission options rest context
    cases segment with
    | primitive value =>
      cases value <;>
        simp [Expr.writeSegments, Expr.segmentEmissions, others, Primitive.write_eq_emission]
    | complexReference name =>
      simp [Expr.writeSegments, Expr.segmentEmissions, others,
        Expr.write_eq_emission options (.complexReference name)]
    | _ => simp [Expr.writeSegments, Expr.segmentEmissions]
termination_by (sizeOf segments, 0)

end

theorem Stmt.write_eq_emission (options : Options) (s : Stmt) (context : Context) :
    (s.write options context : Writer σ Unit) = (s.emission options context).writeTo := by
  cases s with
  | expression expr => exact expr.write_eq_emission options context.asStatement
  | variableDeclaration name init =>
    cases init <;> simp [Stmt.write, Stmt.emission, Expr.write_eq_emission]
  | assignment left right => simp [Stmt.write, Stmt.emission, Expr.write_eq_emission]
  | returning value => cases value <;> simp [Stmt.write, Stmt.emission, Expr.write_eq_emission]
  | goto label => simp [Stmt.write, Stmt.emission]

theorem Writer.indentation_eq_emission (options : Options) (level : Nat) :
    (Writer.indentation options level : Writer σ Unit)
      = (HotkeyScript.indentation options level).writeTo := by
  induction level with
  | zero => simp [Writer.indentation, HotkeyScript.indentation]
  | succ level ih =>
    simp [Writer.indentation, ih, HotkeyScript.indentation, List.replicate_succ]

theorem Stmt.writeLines_eq_emission (options : Options) (level : Nat) (list : List Stmt) :
    (Stmt.writeLines options level list : Writer σ Unit)
      = (Stmt.lines options level list).writeTo := by
  induction list with
  | nil => simp [Stmt.writeLines, Stmt.lines]
  | cons s rest ih =>
    simp [Stmt.writeLines, ih, Stmt.lines, Stmt.line, Stmt.write_eq_emission,
      Writer.indentation_eq_emission]

-- A printer writes what a job comes to and nothing else, to whatever place it writes.
theorem Job.write_eq_emission (options : Options) (job : Job) :
    (job.write options : Writer σ Unit) = (job.emission options).writeTo := by
  cases job with
  | expression expr context => exact expr.write_eq_emission options context
  | statement stmt context => exact stmt.write_eq_emission options context
  | statements list level => exact Stmt.writeLines_eq_emission options level list

end HotkeyScript
