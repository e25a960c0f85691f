import HotkeyScript.Proofs.DepthLimit
namespace HotkeyScript

namespace Emission

theorem CutAt.eq_of_fine {limit : UInt32} {cut whole : Emission} (related : CutAt limit cut whole)
    (fine : cut.fault = none) : cut = whole := by
  rcases related with same | ⟨faulty, _⟩
  · exact same
  · simp [fine] at faulty

theorem withLimit_of_fine {a : Emission} (fine : a.fault = none) (limit : UInt32) :
    a.withLimit limit = a := by
  obtain ⟨pieces, fault⟩ := a
  cases (fine : fault = none)
  rfl

theorem fine_of_assigned {a b : Emission} (fine : (a ++ assignment ++ b).fault = none) :
    a.fault = none ∧ b.fault = none := by
  simp only [fault_andThen, Option.or_eq_none_iff] at fine
  exact ⟨fine.1.1, fine.2⟩

end Emission

theorem Context.deeper_mono {d d' : UInt32} (above : d' ≤ d) : deeper d' ≤ deeper d := by
  rw [UInt32.le_iff_toNat_le] at above ⊢
  rw [toNat_deeper, toNat_deeper]
  omega

theorem Context.le_deeper (d : UInt32) : d ≤ deeper d := by
  have := d.toNat_lt
  rw [UInt32.le_iff_toNat_le, toNat_deeper]
  omega

namespace Options

variable {options : Options} (bounded : options.maxDepth.toNat + 1 < 4294967295)
include bounded

theorem toNat_wider : (options.maxDepth + 1).toNat = options.maxDepth.toNat + 1 := by
  have fits : options.maxDepth.toNat + 1 < 2 ^ 32 := by omega
  exact Nat.mod_eq_of_lt fits

theorem within_wider {depth : UInt32} (within : ¬ options.maxDepth < depth) :
    ¬ options.maxDepth + 1 < depth := by
  rw [UInt32.lt_iff_toNat_lt] at within ⊢
  rw [toNat_wider bounded]
  omega

-- A limit that is wider by one leaves the same room one level further down.
theorem room_wider (depth : UInt32) :
    (options.limited (options.maxDepth + 1)).room (Context.deeper depth) = options.room depth := by
  have counted : (options.limited (options.maxDepth + 1)).maxDepth.toNat < 4294967295 := by
    rw [limited, toNat_wider bounded]
    exact bounded
  rw [room_deeper counted, room, limited, toNat_wider bounded, room]
  omega

end Options

namespace Expr

variable {options : Options} {context : Context}

theorem emission_nearer (e : Expr) {context context' : Context}
    (flag : context'.statement = context.statement) (above : context'.depth ≤ context.depth) :
    Emission.CutAt options.maxDepth (e.emission options context) (e.emission options context') := by
  have style : options.SameStyle options := ⟨rfl, rfl⟩
  refine (Emission.CutAt.congruence options.maxDepth).expr style
    (C := fun c c' => c'.statement = c.statement ∧ c'.depth ≤ c.depth) (fun near => near.1)
    ?_ ?_ e ⟨flag, above⟩
  · rintro d c c' ⟨flag, above⟩
    cases d with
    | same => exact ⟨flag, above⟩
    | operand => exact ⟨rfl, above⟩
    | nested => exact ⟨rfl, Context.deeper_mono above⟩
  · rintro e c c' ⟨_, above⟩ exceeded
    have refused : options.maxDepth < c.depth :=
      exceeded.elim id fun further => UInt32.lt_of_lt_of_le further above
    rw [emission_eq_layout, if_pos refused]
    exact .inr ⟨rfl, List.nil_prefix⟩

theorem operand_of_nested {e : Expr} (fine : (e.emission options context.nested).fault = none) :
    e.emission options context.operand = e.emission options context.nested := by
  have nearer : Emission.CutAt options.maxDepth (e.emission options context.nested)
      (e.emission options context.operand) :=
    e.emission_nearer rfl (Context.le_deeper context.depth)
  exact (nearer.eq_of_fine fine).symm

theorem within_of_nested {e : Expr} (fine : (e.emission options context.nested).fault = none) :
    ¬ options.maxDepth < context.depth := by
  rw [← operand_of_nested fine] at fine
  have within : ¬ options.maxDepth < context.operand.depth := within_of_fine fine
  exact within

theorem nested_of_operand {e : Expr} (bounded : options.maxDepth.toNat + 1 < 4294967295)
    (fine : (e.emission options context.operand).fault = none) :
    e.emission (options.limited (options.maxDepth + 1)) context.nested
      = e.emission options context.operand := by
  have counted : (options.maxDepth + 1).toNat < 4294967295 := by
    rw [Options.toNat_wider bounded]
    exact bounded
  have room : Context.SameRoom options (options.maxDepth + 1) context.operand context.nested :=
    ⟨rfl, Options.room_wider bounded context.depth⟩
  rw [emission_sameRoom (by omega) counted room, Emission.withLimit_of_fine fine]

theorem emission_var (name : String) (within : ¬ options.maxDepth < context.depth) :
    (var name).emission options context = .text name := by
  rw [emission_eq_layout, if_neg within]
  simp [var, layout, Item.emission]

theorem emission_null (within : ¬ options.maxDepth < context.depth) :
    null.emission options context = .text Token.nullText := by
  rw [emission_eq_layout, if_neg within]
  simp [null, layout, Item.emission, Primitive.emission]

theorem emission_assigning (left right : Expr) (within : ¬ options.maxDepth < context.depth) :
    (binaryOp .assign left right).emission options context.asStatement
      = left.emission options context.nested ++ .assignment
        ++ right.emission options context.nested := by
  have within' : ¬ options.maxDepth < context.asStatement.depth := within
  rw [emission_eq_layout, if_neg within']
  simp only [layout, Layout.parenthesizedUnless, Context.asStatement, if_true]
  simp only [Layout.emission_cons, Layout.emission_nil, Item.emission, Emission.andThen_nothing,
    Emission.andThen_assoc]
  rfl

theorem emission_single (e : Expr) (within : ¬ options.maxDepth < context.depth) :
    (array [e]).emission options context
      = .text Token.arrayOpen ++ e.emission options context.nested ++ .text Token.arrayClose := by
  rw [emission_eq_layout, if_neg within, array, layout, Layout.emission_array]
  rfl

theorem emission_indexAccess (container index : Expr)
    (within : ¬ options.maxDepth < context.depth) :
    (markerCall "Index" [container, index]).emission options context
      = container.emission options context.operand ++ .text Token.arrayOpen
        ++ index.emission options context.operand ++ .text Token.arrayClose := by
  have found : Intrinsic.find? "Index" 2 = some .indexAccess := Intrinsic.find?_self .indexAccess
  rw [markerCall, emission_markerCall _ _ within]
  simp [Layout.markerCall, found, Item.emission, Descent.context, Emission.andThen_assoc]

theorem emission_indexedAssign {target : Option Expr} (key index container value : Expr)
    (internal : written? target = none) (within : ¬ options.maxDepth < context.depth) :
    (invocation target "SetObject" [key, index, container, value] true).emission options context
      = index.emission options context.operand ++ container.emission options context.operand
        ++ key.emission options context.operand ++ .assignment
        ++ value.emission options context.operand := by
  have found : Intrinsic.find? "SetObject" 4 = some .indexedAssign :=
    Intrinsic.find?_self .indexedAssign
  rw [emission_invocation _ _ _ _ within]
  simp [layout, Layout.invocation, internal, Layout.markerCall, found, Item.emission,
    Descent.context, Emission.andThen_assoc]

theorem internal_of_fine {target : Option Expr} {method : String} {args : List Expr}
    (fine : ((invocation target method args true).emission options context).fault = none) :
    written? target = none := by
  rw [emission_invocation _ _ _ _ (within_of_fine fine)] at fine
  cases written : written? target with
  | none => rfl
  | some t => simp [layout, Layout.invocation, written, Layout.refusal, Item.emission] at fine

theorem emission_label (label : String) (within : ¬ options.maxDepth < context.depth) :
    (markerCall "LabelCall" [.string label]).emission options context = .jump label := by
  have found : Intrinsic.find? "LabelCall" 1 = some .labelJump := Intrinsic.find?_self .labelJump
  rw [markerCall, emission_markerCall _ _ within]
  simp [Layout.markerCall, found, Layout.jumpTo, Expr.string, Item.emission]

end Expr

namespace Stmt

variable {options : Options} {context : Context}

theorem emission_assignment (left right : Expr) :
    (assignment left right).emission options context
      = left.emission options context.operand ++ .assignment
        ++ right.emission options context.operand :=
  rfl

theorem assignment_of_operator {left right : Expr}
    (fine : ((expression (.binaryOp .assign left right)).emission options context).fault = none) :
    (assignment left right).emission options context
      = (expression (.binaryOp .assign left right)).emission options context := by
  have within : ¬ options.maxDepth < context.asStatement.depth := Expr.within_of_fine fine
  have written : (expression (.binaryOp .assign left right)).emission options context = _ :=
    Expr.emission_assigning left right within
  rw [written] at fine ⊢
  obtain ⟨leftFine, rightFine⟩ := Emission.fine_of_assigned fine
  rw [emission_assignment, Expr.operand_of_nested leftFine, Expr.operand_of_nested rightFine]

theorem operator_of_assignment {left right : Expr}
    (bounded : options.maxDepth.toNat + 1 < 4294967295)
    (fine : ((assignment left right).emission options context).fault = none) :
    (expression (.binaryOp .assign left right)).emission (options.limited (options.maxDepth + 1))
        context
      = (assignment left right).emission options context := by
  obtain ⟨leftFine, rightFine⟩ := Emission.fine_of_assigned fine
  have within : ¬ options.maxDepth < context.operand.depth := Expr.within_of_fine leftFine
  have wider : ¬ (options.limited (options.maxDepth + 1)).maxDepth < context.depth :=
    Options.within_wider bounded within
  have written : (expression (.binaryOp .assign left right)).emission
      (options.limited (options.maxDepth + 1)) context = _ :=
    Expr.emission_assigning left right wider
  rw [written, emission_assignment, Expr.nested_of_operand bounded leftFine,
    Expr.nested_of_operand bounded rightFine]

theorem assignment_of_declaration {name : String} {init : Expr}
    (fine : ((variableDeclaration name (some init)).emission options context).fault = none) :
    (assignment (.var name) init).emission options context
      = (variableDeclaration name (some init)).emission options context := by
  obtain ⟨_, initFine⟩ := Emission.fine_of_assigned fine
  have within : ¬ options.maxDepth < context.operand.depth := Expr.within_of_nested initFine
  rw [emission_assignment, Expr.operand_of_nested initFine, Expr.emission_var name within]
  rfl

theorem assignment_null (name : String) (within : ¬ options.maxDepth < context.depth) :
    (assignment (.var name) .null).emission options context
      = (variableDeclaration name none).emission options context := by
  have within' : ¬ options.maxDepth < context.operand.depth := within
  rw [emission_assignment, Expr.emission_var name within', Expr.emission_null within']
  rfl

theorem assignment_of_indexedAssign {target : Option Expr} {key container index value : Expr}
    (fine : ((Expr.invocation target "SetObject" [.array [key], container, .array [index], value]
      true).emission options context).fault = none) :
    (assignment (.markerCall "Index" [.markerCall "Index" [container, index], key]) value).emission
        options context
      = (Expr.invocation target "SetObject" [.array [key], container, .array [index], value]
          true).emission options context := by
  have within : ¬ options.maxDepth < context.depth := Expr.within_of_fine fine
  have within' : ¬ options.maxDepth < context.operand.depth := within
  have written := Expr.emission_indexedAssign (.array [key]) container (.array [index]) value
    (Expr.internal_of_fine fine) within
  rw [Expr.emission_single key within', Expr.emission_single index within'] at written
  rw [written] at fine ⊢
  simp only [Emission.fault_andThen, Option.or_eq_none_iff] at fine
  obtain ⟨⟨⟨⟨-, ⟨-, indexFine⟩, -⟩, ⟨-, keyFine⟩, -⟩, -⟩, -⟩ := fine
  have nested : context.operand.nested = context.nested := rfl
  have again : context.operand.operand = context.operand := rfl
  rw [nested] at indexFine keyFine
  rw [emission_assignment, Expr.emission_indexAccess _ _ within', again,
    Expr.emission_indexAccess _ _ within', again, nested, Expr.operand_of_nested indexFine,
    Expr.operand_of_nested keyFine]
  simp only [Emission.andThen_assoc]

theorem goto_eq_label (label : String) (within : ¬ options.maxDepth < context.depth) :
    (expression (.markerCall "LabelCall" [.string label])).emission options context
      = (goto label).emission options context :=
  Expr.emission_label label within

end Stmt

namespace Printer

-- The forms of an assignment and of a jump have one text. Where a form descends further than an
-- assignment, whatever it writes the assignment writes; the operator, which is one level deeper,
-- writes under a limit wider by one what the assignment writes. Where no part of a form can fail,
-- nothing but the depth of the statement decides.
theorem emit_assignment_forms (options : Options) (context : Context) :
    let run := Printer.emit { options }
    let wide := Printer.emit { options := options.limited (options.maxDepth + 1) }
    (∀ left right : Expr,
      let operator := Job.statement (.expression (.binaryOp .assign left right)) context
      let assignment := Job.statement (.assignment left right) context
      ((run operator).2 = none → run assignment = run operator) ∧
        (options.maxDepth.toNat + 1 < 4294967295 → (run assignment).2 = none →
          (wide operator).2 = none ∧ (wide operator).1.text = (run assignment).1.text)) ∧
    (∀ name : String,
      let declaration (init : Option Expr) :=
        Job.statement (.variableDeclaration name init) context
      let assignment (value : Expr) := Job.statement (.assignment (.var name) value) context
      (∀ init, (run (declaration (some init))).2 = none →
        run (assignment init) = run (declaration (some init))) ∧
      (context.depth ≤ options.maxDepth →
        (run (declaration none)).2 = none ∧ run (assignment .null) = run (declaration none))) ∧
    (∀ (target : Option Expr) (key container index value : Expr),
      let call : Expr :=
        .invocation target "SetObject" [.array [key], container, .array [index], value] true
      let place : Expr := .markerCall "Index" [.markerCall "Index" [container, index], key]
      ∀ job ∈ [Job.expression call context, Job.statement (.expression call) context],
        (run job).2 = none → run (.statement (.assignment place value) context) = run job) ∧
    ∀ label : String, context.depth ≤ options.maxDepth →
      let jump := Job.statement (.goto label) context
      (run jump).2 = none ∧
        run (.statement (.expression (.markerCall "LabelCall" [.string label])) context)
          = run jump := by
  intro run wide
  simp only [run, wide, emit_fresh, text, Option.map_eq_none_iff, Job.emission,
    List.forall_mem_cons, List.not_mem_nil, false_implies, implies_true, and_true]
  refine ⟨fun left right => ⟨fun fine => ?_, fun bounded fine => ?_⟩,
    fun name => ⟨fun init fine => ?_, fun within => ⟨rfl, ?_⟩⟩,
    fun target key container index value => ⟨fun fine => ?_, fun fine => ?_⟩,
    fun label within => ⟨rfl, ?_⟩⟩
  · rw [Stmt.assignment_of_operator fine]
  · rw [Stmt.operator_of_assignment bounded fine]
    exact ⟨fine, rfl⟩
  · rw [Stmt.assignment_of_declaration fine]
  · rw [Stmt.assignment_null name (UInt32.not_lt.mpr within)]
  · rw [Stmt.assignment_of_indexedAssign fine]
  · have written : (Stmt.assignment _ value).emission options context
        = (Stmt.expression (.invocation target _ _ true)).emission options context :=
      Stmt.assignment_of_indexedAssign fine
    rw [written]
  · rw [Stmt.goto_eq_label label (UInt32.not_lt.mpr within)]

-- An assignment that is written at the greatest depth: as an operator it is refused, and written
-- the same under a limit that is wider by one. The other forms are written as they are.
theorem emit_assignment_forms_of_lists :
    let options : Options := { maxDepth := 1 }
    let run (s : Stmt) := Printer.emit { options } (.ofStmt s)
    let wide (s : Stmt) := Printer.emit { options := options.limited 2 } (.ofStmt s)
    let x : Expr := .var "x"
    let list (name : String) : Expr := .array [.var name]
    let operator : Stmt := .expression (.binaryOp .assign x (list "y"))
    let call : Expr :=
      .invocation (some (.internalType "Table")) "SetObject" [list "k", .var "t", list "i", x] true
    let place : Expr := .markerCall "Index" [.markerCall "Index" [.var "t", .var "i"], .var "k"]
    (run operator).2 = some (.fault (.depthLimitExceeded 1)) ∧
      ((wide operator).2 = none ∧
        (wide operator).1.text = (run (.assignment x (list "y"))).1.text) ∧
      run (.assignment x x) = run (.expression (.binaryOp .assign x x)) ∧
      run (.assignment x x) = run (.variableDeclaration "x" (some x)) ∧
      run (.assignment x .null) = run (.variableDeclaration "x" none) ∧
      run (.assignment place x) = run (.expression call) ∧
      (run (.expression call)).1.text = "t[i][k] := x" ∧
      run (.expression (.markerCall "LabelCall" [.string "top"])) = run (.goto "top") := by
  intro options run wide x list operator call place
  obtain ⟨operators, declarations, indexed, jumps⟩ := emit_assignment_forms options .root
  have statement : Job.ofStmt (.expression call)
      ∈ [Job.expression call .root, Job.statement (.expression call) .root] := by
    simp [Job.ofStmt]
  exact ⟨by decide, (operators x (list "y")).2 (by decide) (by decide),
    (operators x x).1 (by decide), (declarations "x").1 x (by decide),
    ((declarations "x").2 (by decide)).2,
    indexed _ (.var "k") (.var "t") (.var "i") x _ statement (by decide +kernel),
    by decide +kernel, (jumps "top" (by decide)).2⟩

end Printer

end HotkeyScript
