import HotkeyScript.Proofs.ExactReading
import HotkeyScript.Proofs.InputContract
import HotkeyScript.Proofs.RoundTrip
import HotkeyScript.Run
namespace HotkeyScript

namespace Expr

theorem segmentsHeight_le (segments : List Expr) :
    segmentsHeight segments ≤ nestedHeight segments := by
  induction segments with
  | nil => exact Nat.le_refl _
  | cons segment rest ih =>
    rw [segmentsHeight.eq_def, nestedHeight]
    dsimp only
    split <;> omega

def targetHeight : Option Expr → Nat
  | none => 0
  | some target => target.height + 1

theorem height_invocation_le (target : Option Expr) (method : String) (args : List Expr)
    (marker : Bool) :
    (invocation target method args marker).height
      ≤ max (targetHeight target) (nestedHeight args) := by
  rw [height.eq_def]
  cases marker with
  | false =>
    cases target with
    | none => simp [targetHeight]
    | some target =>
      dsimp only [targetHeight]
      split <;> omega
  | true =>
    dsimp only
    split
    · refine Nat.le_trans ?_ (Nat.le_max_right _ _)
      split
      case h_8 => exact Nat.le_refl _
      all_goals simp only [nestedHeight]
      case h_3 => split <;> omega
      case h_7 =>
        split
        · simp only [height]
          split <;> omega
        · omega
      all_goals omega
    · exact Nat.zero_le _

theorem height_fieldRef_le (target : Option Expr) (field : String) :
    (fieldRef target field).height ≤ targetHeight target := by
  cases target <;> simp [height, targetHeight]

end Expr

mutual

-- Each level takes two of the room.
theorem Expr.Spells.height_le {room : Nat} {j : Json} {e : Expr} :
    e.Spells room j → 2 * e.height ≤ room
  | .invocation _ on args _ => by
    have first := on.height_le
    have others := args.height_le
    refine Nat.le_trans (Nat.mul_le_mul_left 2 (Expr.height_invocation_le _ _ _ _)) ?_
    omega
  | .arrayLiteral spelled => by
    rw [Expr.height]
    exact spelled.height_le
  | .primitive _ | .variableRef | .typeRef _ | .this _ => by simp [Expr.height]
  | .cast _ _ => by simp [Expr.height]
  | .binaryOp _ _ left right => by
    have first := left.height_le
    have second := right.height_le
    rw [Expr.height]
    omega
  | .ternaryOp _ condition whenTrue whenFalse => by
    have first := condition.height_le
    have second := whenTrue.height_le
    have third := whenFalse.height_le
    rw [Expr.height]
    omega
  | .complexReference spelled => Nat.le_succ_of_le spelled.height_le
  | .fieldRef _ on => by
    have inside := on.height_le
    refine Nat.le_trans (Nat.mul_le_mul_left 2 (Expr.height_fieldRef_le _ _)) inside

theorem QualifiedName.Spells.height_le {room : Nat} {j : Json} {name : QualifiedName} :
    name.Spells room j → 2 * (Expr.complexReference name).height ≤ room
  | .literal => by simp [Expr.height]
  | .parts spelled => by
    rw [Expr.height]
    exact Nat.le_trans (Nat.mul_le_mul_left 2 (Expr.segmentsHeight_le _)) spelled.height_le

theorem Expr.OptionalSpells.height_le {room : Nat} {j : Option Json} {target : Option Expr} :
    Expr.OptionalSpells room j target → 2 * Expr.targetHeight target ≤ room + 2
  | .missing | .null => by simp [Expr.targetHeight]
  | .given spelled => by
    have inside := spelled.height_le
    rw [Expr.targetHeight]
    omega

theorem Expr.ArgsSpell.height_le {room : Nat} {j : Option Json} {list : List Expr} :
    Expr.ArgsSpell room j list → 2 * Expr.nestedHeight list ≤ room + 1
  | .missing => by simp [Expr.nestedHeight]
  | .given spelled => spelled.height_le

theorem Expr.ListSpells.height_le {room : Nat} {j : Json} {list : List Expr} :
    Expr.ListSpells room j list → 2 * Expr.nestedHeight list ≤ room + 1
  | .array spelled => spelled.height_le

theorem Expr.ItemsSpell.height_le {room : Nat} {items : List Json} {list : List Expr} :
    Expr.ItemsSpell room items list → 2 * Expr.nestedHeight list ≤ room + 2
  | .nil => by simp [Expr.nestedHeight]
  | .cons first others => by
    have own := first.height_le
    have rest := others.height_le
    rw [Expr.nestedHeight]
    omega

end

theorem Fault.Decided.not_tooDeep {options : Options} {wellFormed fits : Prop}
    {fault : Option Fault} (decided : Decided options wellFormed fits fault) (within : fits)
    (limit : UInt32) : fault ≠ some (.depthLimitExceeded limit) := by
  rintro rfl
  by_cases formed : wellFormed
  · cases decided.success.mpr ⟨formed, within⟩
  · obtain ⟨f, own, shape⟩ := decided.malformed formed within
    exact shape limit (Option.some.inj own).symm

namespace Stmt

theorem exists_spelled {room : Nat} {items : List Json} {list : List Stmt}
    (each : List.Forall₂ (Spells room) items list) {s : Stmt} (among : s ∈ list) :
    ∃ item, s.Spells room item := by
  induction each with
  | nil => cases among
  | cons first _ ih =>
    obtain rfl | later := List.mem_cons.mp among
    · exact ⟨_, first⟩
    · exact ih later

theorem Spells.height_le {room : Nat} {j : Json} {s : Stmt} (spelled : s.Spells room j)
    {levels : Nat} (height : s.height? = some levels) : 2 * levels ≤ room + 1 := by
  cases spelled with
  | expression spelled =>
    have inside := spelled.height_le
    cases height
    omega
  | variableDeclaration _ spelled =>
    obtain ⟨init, rfl, rfl⟩ := Option.map_eq_some_iff.mp height
    have inside := spelled.height_le
    rw [Expr.targetHeight] at inside
    omega
  | assignment _ left right =>
    have first := left.height_le
    have second := right.height_le
    cases height
    omega
  | returning spelled =>
    obtain ⟨value, rfl, rfl⟩ := Option.map_eq_some_iff.mp height
    have inside := spelled.height_le
    rw [Expr.targetHeight] at inside
    omega
  | goto => cases height

-- Under the limit on nesting a statement of a list has 126 of the room, so 63 levels at most.
theorem fits_of_read {options : Options} (deep : 63 ≤ options.maxDepth.toNat) {text : String}
    {list : List Stmt} (read : statementsOfText? text = some list) :
    ∀ s ∈ list, s.Fits options .root := by
  obtain ⟨j, _, own⟩ := Option.bind_eq_some_iff.mp read
  intro s among levels height
  obtain ⟨each⟩ := listOfJson?_eq_some_iff.1 own
  obtain ⟨item, spelled⟩ := exists_spelled each among
  have inside := spelled.height_le height
  have root : Context.root.depth.toNat = 0 := rfl
  rw [Options.admits, root]
  omega

end Stmt

def Expr.arrays (inner : Expr) : Nat → Expr
  | 0 => inner
  | n + 1 => .array [inner.arrays n]

namespace Expr

variable (inner : Expr) (n : Nat)

theorem height_arrays : (inner.arrays n).height = inner.height + n := by
  induction n with
  | zero => rfl
  | succ n ih => simp [arrays, array, height, nestedHeight, ih, Nat.add_assoc]

theorem wellFormed_arrays : (inner.arrays n).wellFormed = inner.wellFormed := by
  induction n with
  | zero => rfl
  | succ n ih => simp [arrays, array, wellFormed, allWellFormed, ih]

theorem literals_arrays : (inner.arrays n).literals = inner.literals := by
  induction n with
  | zero => rfl
  | succ n ih => simp [arrays, array, literals, listLiterals, ih]

theorem depth_toJson_arrays : (inner.arrays n).toJson.depth = inner.toJson.depth + 2 * n := by
  induction n with
  | zero => rfl
  | succ n ih =>
    simp [arrays, array, toJson, listToJson, Json.depth, Json.itemsDepth, ih]
    omega

end Expr

theorem script_eq_error_iff {options : Options} {list : List Stmt} {f : Fault} :
    script options list = .error f ↔ (Stmt.lines options 0 list).fault = some f := by
  rw [script, Emission.result]
  cases (Stmt.lines options 0 list).fault <;> simp

def deepest : List Stmt := [.returning (some ((Expr.var "x").arrays 62))]

theorem deepest_read : statementsOfText? (Stmt.listToJson deepest).compact = some deepest := by
  have kept : ∀ s ∈ deepest, ∀ p ∈ s.literals, p.Kept := by
    simp [deepest, Stmt.literals, Expr.optionalLiterals, Expr.literals_arrays, Expr.var,
      Expr.literals]
  have depth : (Stmt.listToJson deepest).depth = 127 := by
    simp [deepest, Stmt.listToJson, Stmt.toJson, Expr.optionalToJson, Json.depth, Json.itemsDepth,
      Expr.depth_toJson_arrays]
    rfl
  refine (Json.roundTrips_of_yields (Stmt.numbered_listToJson _) (Stmt.list_yields kept)).trans ?_
  rw [if_pos (by rw [depth]; decide)]

theorem deepest_exceeds {options : Options} (shallow : options.maxDepth.toNat < 63) :
    (Stmt.lines options 0 deepest).fault = some (.depthLimitExceeded options.maxDepth) := by
  refine (Stmt.lines_decided options 0 deepest).tooDeep ?_ fun fits => ?_
  · simp [deepest, Stmt.wellFormed, Expr.wellFormed_arrays, Expr.var, Expr.wellFormed]
  · have levels := fits _ List.mem_cons_self 63
      (by simp [Stmt.height?, Expr.height_arrays, Expr.var, Expr.height])
    have root : Context.root.depth.toNat = 0 := rfl
    rw [Options.admits, root] at levels
    omega

-- No script that was read from a text exceeds a depth limit of 63 or more, such as the usual one;
-- under every smaller limit one does.
theorem script_within_limit :
    (∀ text list (options : Options), statementsOfText? text = some list →
      63 ≤ options.maxDepth.toNat →
        ∀ limit, script options list ≠ .error (.depthLimitExceeded limit)) ∧
      (∀ options : Options, options.maxDepth.toNat < 63 → ∃ text list,
        statementsOfText? text = some list ∧
          script options list = .error (.depthLimitExceeded options.maxDepth)) ∧
      ∀ text list (options : Options), statementsOfText? text = some list →
        options.maxDepth = defaultDepthLimit →
          ∀ limit, script options list ≠ .error (.depthLimitExceeded limit) := by
  have within (text list) (options : Options) (read : statementsOfText? text = some list)
      (deep : 63 ≤ options.maxDepth.toNat) (limit) :
      script options list ≠ .error (.depthLimitExceeded limit) := by
    intro exceeded
    exact (Stmt.lines_decided options 0 list).not_tooDeep (Stmt.fits_of_read deep read) limit
      (script_eq_error_iff.1 exceeded)
  refine ⟨within, fun options shallow => ?_, fun text list options read usual => ?_⟩
  · exact ⟨_, deepest, deepest_read, script_eq_error_iff.2 (deepest_exceeds shallow)⟩
  · exact within text list options read (by rw [usual]; decide)

theorem deepest_within_limit :
    let at63 : Options := { maxDepth := 63 }
    let at62 : Options := { maxDepth := 62 }
    let usual : Options := {}
    (statementsOfText? (Stmt.listToJson deepest).compact = some deepest ∧
        63 ≤ at63.maxDepth.toNat ∧ at62.maxDepth.toNat < 63 ∧
          usual.maxDepth = defaultDepthLimit) ∧
      script at63 deepest ≠ .error (.depthLimitExceeded 63) ∧
      (∃ text list, statementsOfText? text = some list ∧
        script at62 list = .error (.depthLimitExceeded 62)) ∧
      script usual deepest ≠ .error (.depthLimitExceeded defaultDepthLimit) :=
  ⟨⟨deepest_read, by decide, by decide, rfl⟩,
    script_within_limit.1 _ deepest { maxDepth := 63 } deepest_read (by decide) 63,
    script_within_limit.2.1 { maxDepth := 62 } (by decide),
    script_within_limit.2.2 _ deepest {} deepest_read rfl defaultDepthLimit⟩

end HotkeyScript
