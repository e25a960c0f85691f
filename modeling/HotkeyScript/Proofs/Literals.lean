import HotkeyScript.Expr.Equality
import HotkeyScript.Proofs.RecordReading
import HotkeyScript.Expr.Document
namespace HotkeyScript

mutual

def Expr.literals : Expr → List Primitive
  | .invocation target _ args _ => Expr.optionalLiterals target ++ Expr.listLiterals args
  | .arrayLiteral elements => Expr.listLiterals elements
  | .primitive value => [value]
  | .binaryOp _ left right => left.literals ++ right.literals
  | .ternaryOp condition whenTrue whenFalse =>
    condition.literals ++ whenTrue.literals ++ whenFalse.literals
  | .complexReference name => name.literals
  | .variableRef _ | .typeRef _ | .this => []
  | .fieldRef target _ => Expr.optionalLiterals target
  | .cast _ expr => expr.literals

def QualifiedName.literals : QualifiedName → List Primitive
  | .literal _ => []
  | .parts segments => Expr.listLiterals segments

def Expr.optionalLiterals : Option Expr → List Primitive
  | none => []
  | some e => e.literals

def Expr.listLiterals : List Expr → List Primitive
  | [] => []
  | e :: rest => e.literals ++ Expr.listLiterals rest

end

def Stmt.literals : Stmt → List Primitive
  | .expression expr => expr.literals
  | .variableDeclaration _ init => Expr.optionalLiterals init
  | .assignment left right => left.literals ++ right.literals
  | .returning value => Expr.optionalLiterals value
  | .goto _ => []

def Stmt.listLiterals (list : List Stmt) : List Primitive := list.flatMap Stmt.literals

section Mapping

variable (f : Primitive → Primitive)

mutual

def Expr.mapLiterals : Expr → Expr
  | .invocation target method args marker =>
    .invocation (Expr.optionalMapLiterals target) method (Expr.listMapLiterals args) marker
  | .arrayLiteral elements => .arrayLiteral (Expr.listMapLiterals elements)
  | .primitive value => .primitive (f value)
  | .binaryOp operator left right => .binaryOp operator left.mapLiterals right.mapLiterals
  | .ternaryOp condition whenTrue whenFalse =>
    .ternaryOp condition.mapLiterals whenTrue.mapLiterals whenFalse.mapLiterals
  | .complexReference name => .complexReference name.mapLiterals
  | .variableRef name => .variableRef name
  | .fieldRef target field => .fieldRef (Expr.optionalMapLiterals target) field
  | .typeRef type => .typeRef type
  | .this => .this
  | .cast targetType expr => .cast targetType expr.mapLiterals

def QualifiedName.mapLiterals : QualifiedName → QualifiedName
  | .literal text => .literal text
  | .parts segments => .parts (Expr.listMapLiterals segments)

def Expr.optionalMapLiterals : Option Expr → Option Expr
  | none => none
  | some e => some e.mapLiterals

def Expr.listMapLiterals : List Expr → List Expr
  | [] => []
  | e :: rest => e.mapLiterals :: Expr.listMapLiterals rest

end

def Stmt.mapLiterals : Stmt → Stmt
  | .expression expr => .expression (expr.mapLiterals f)
  | .variableDeclaration name init =>
    .variableDeclaration name (Expr.optionalMapLiterals f init)
  | .assignment left right => .assignment (left.mapLiterals f) (right.mapLiterals f)
  | .returning value => .returning (Expr.optionalMapLiterals f value)
  | .goto label => .goto label

theorem Expr.optionalMapLiterals_eq_map (target : Option Expr) :
    Expr.optionalMapLiterals f target = target.map (Expr.mapLiterals f) := by
  cases target <;> rfl

theorem Expr.listMapLiterals_eq_map (list : List Expr) :
    Expr.listMapLiterals f list = list.map (Expr.mapLiterals f) := by
  induction list with
  | nil => rfl
  | cons e rest ih => rw [Expr.listMapLiterals, ih, List.map_cons]

end Mapping

section Laws

variable {f : Primitive → Primitive}

mutual

theorem Expr.mapLiterals_eq_self : (e : Expr) → (∀ p ∈ e.literals, f p = p) → e.mapLiterals f = e
  | .invocation target method args marker, kept => by
    obtain ⟨in_target, in_args⟩ := List.forall_mem_append.mp kept
    rw [Expr.mapLiterals, Expr.optionalMapLiterals_eq_self target in_target,
      Expr.listMapLiterals_eq_self args in_args]
  | .arrayLiteral elements, kept => by
    rw [Expr.mapLiterals, Expr.listMapLiterals_eq_self elements kept]
  | .primitive value, kept => congrArg Expr.primitive (kept value (List.mem_singleton_self value))
  | .binaryOp operator left right, kept => by
    obtain ⟨in_left, in_right⟩ := List.forall_mem_append.mp kept
    rw [Expr.mapLiterals, left.mapLiterals_eq_self in_left, right.mapLiterals_eq_self in_right]
  | .ternaryOp condition whenTrue whenFalse, kept => by
    obtain ⟨before, in_false⟩ := List.forall_mem_append.mp kept
    obtain ⟨in_condition, in_true⟩ := List.forall_mem_append.mp before
    rw [Expr.mapLiterals, condition.mapLiterals_eq_self in_condition,
      whenTrue.mapLiterals_eq_self in_true, whenFalse.mapLiterals_eq_self in_false]
  | .complexReference name, kept => by rw [Expr.mapLiterals, name.mapLiterals_eq_self kept]
  | .variableRef _, _ | .typeRef _, _ | .this, _ => rfl
  | .fieldRef target field, kept => by
    rw [Expr.mapLiterals, Expr.optionalMapLiterals_eq_self target kept]
  | .cast targetType expr, kept => by rw [Expr.mapLiterals, expr.mapLiterals_eq_self kept]

theorem QualifiedName.mapLiterals_eq_self : (name : QualifiedName) →
    (∀ p ∈ name.literals, f p = p) → name.mapLiterals f = name
  | .literal _, _ => rfl
  | .parts segments, kept => by
    rw [QualifiedName.mapLiterals, Expr.listMapLiterals_eq_self segments kept]

theorem Expr.optionalMapLiterals_eq_self : (target : Option Expr) →
    (∀ p ∈ Expr.optionalLiterals target, f p = p) → Expr.optionalMapLiterals f target = target
  | none, _ => rfl
  | some e, kept => congrArg some (e.mapLiterals_eq_self kept)

theorem Expr.listMapLiterals_eq_self : (list : List Expr) →
    (∀ p ∈ Expr.listLiterals list, f p = p) → Expr.listMapLiterals f list = list
  | [], _ => rfl
  | e :: rest, kept => by
    obtain ⟨in_first, in_rest⟩ := List.forall_mem_append.mp kept
    rw [Expr.listMapLiterals, e.mapLiterals_eq_self in_first,
      Expr.listMapLiterals_eq_self rest in_rest]

end

theorem Stmt.mapLiterals_eq_self (s : Stmt) (kept : ∀ p ∈ s.literals, f p = p) :
    s.mapLiterals f = s := by
  cases s with
  | expression expr => rw [mapLiterals, expr.mapLiterals_eq_self kept]
  | variableDeclaration name init =>
    rw [mapLiterals, Expr.optionalMapLiterals_eq_self init kept]
  | assignment left right =>
    obtain ⟨in_left, in_right⟩ := List.forall_mem_append.mp kept
    rw [mapLiterals, left.mapLiterals_eq_self in_left, right.mapLiterals_eq_self in_right]
  | returning value => rw [mapLiterals, Expr.optionalMapLiterals_eq_self value kept]
  | goto label => rfl

mutual

theorem Expr.literals_mapLiterals : (e : Expr) → (e.mapLiterals f).literals = e.literals.map f
  | .invocation target _ args _ => by
    simp [Expr.mapLiterals, Expr.literals, Expr.optionalLiterals_mapLiterals target,
      Expr.listLiterals_mapLiterals args]
  | .arrayLiteral elements => Expr.listLiterals_mapLiterals elements
  | .primitive _ => rfl
  | .binaryOp _ left right => by
    simp [Expr.mapLiterals, Expr.literals, left.literals_mapLiterals, right.literals_mapLiterals]
  | .ternaryOp condition whenTrue whenFalse => by
    simp [Expr.mapLiterals, Expr.literals, condition.literals_mapLiterals,
      whenTrue.literals_mapLiterals, whenFalse.literals_mapLiterals]
  | .complexReference name => name.literals_mapLiterals
  | .variableRef _ | .typeRef _ | .this => rfl
  | .fieldRef target _ => Expr.optionalLiterals_mapLiterals target
  | .cast _ expr => expr.literals_mapLiterals

theorem QualifiedName.literals_mapLiterals : (name : QualifiedName) →
    (name.mapLiterals f).literals = name.literals.map f
  | .literal _ => rfl
  | .parts segments => Expr.listLiterals_mapLiterals segments

theorem Expr.optionalLiterals_mapLiterals : (target : Option Expr) →
    Expr.optionalLiterals (Expr.optionalMapLiterals f target)
      = (Expr.optionalLiterals target).map f
  | none => rfl
  | some e => e.literals_mapLiterals

theorem Expr.listLiterals_mapLiterals : (list : List Expr) →
    Expr.listLiterals (Expr.listMapLiterals f list) = (Expr.listLiterals list).map f
  | [] => rfl
  | e :: rest => by
    simp [Expr.listMapLiterals, Expr.listLiterals, e.literals_mapLiterals,
      Expr.listLiterals_mapLiterals rest]

end

theorem Stmt.literals_mapLiterals (s : Stmt) : (s.mapLiterals f).literals = s.literals.map f := by
  cases s <;> simp [mapLiterals, literals, Expr.literals_mapLiterals,
    Expr.optionalLiterals_mapLiterals]

mutual

-- Literals of the same depth may change places in a document.
theorem Expr.depth_toJson_mapLiterals (level : ∀ p, (f p).toJson.depth = p.toJson.depth) :
    (e : Expr) → (e.mapLiterals f).toJson.depth = e.toJson.depth
  | .invocation target _ args _ => by
    simp [Expr.mapLiterals, Expr.toJson, Json.record, Json.depth, Json.membersDepth,
      Expr.depth_optionalToJson_mapLiterals level target,
      Expr.itemsDepth_listToJson_mapLiterals level args]
  | .arrayLiteral elements => by
    simp [Expr.mapLiterals, Expr.toJson, Json.depth,
      Expr.itemsDepth_listToJson_mapLiterals level elements]
  | .primitive value => by simp [Expr.mapLiterals, Expr.toJson, level value]
  | .binaryOp _ left right => by
    simp [Expr.mapLiterals, Expr.toJson, Json.record, Json.depth, Json.membersDepth,
      left.depth_toJson_mapLiterals level, right.depth_toJson_mapLiterals level]
  | .ternaryOp condition whenTrue whenFalse => by
    simp [Expr.mapLiterals, Expr.toJson, Json.record, Json.depth, Json.membersDepth,
      condition.depth_toJson_mapLiterals level, whenTrue.depth_toJson_mapLiterals level,
      whenFalse.depth_toJson_mapLiterals level]
  | .complexReference name => by
    simp [Expr.mapLiterals, Expr.toJson, name.depth_toJson_mapLiterals level]
  | .variableRef _ | .typeRef _ | .this => rfl
  | .fieldRef target _ => by
    simp [Expr.mapLiterals, Expr.toJson, Json.record, Json.depth, Json.membersDepth,
      Expr.depth_optionalToJson_mapLiterals level target]
  | .cast _ expr => by
    simp [Expr.mapLiterals, Expr.toJson, Json.record, Json.depth, Json.membersDepth,
      expr.depth_toJson_mapLiterals level]

theorem QualifiedName.depth_toJson_mapLiterals (level : ∀ p, (f p).toJson.depth = p.toJson.depth) :
    (name : QualifiedName) → (name.mapLiterals f).toJson.depth = name.toJson.depth
  | .literal _ => rfl
  | .parts segments => by
    simp [QualifiedName.mapLiterals, QualifiedName.toJson, Json.depth,
      Expr.itemsDepth_listToJson_mapLiterals level segments]

theorem Expr.depth_optionalToJson_mapLiterals
    (level : ∀ p, (f p).toJson.depth = p.toJson.depth) : (target : Option Expr) →
      (Expr.optionalToJson (Expr.optionalMapLiterals f target)).depth
        = (Expr.optionalToJson target).depth
  | none => rfl
  | some e => e.depth_toJson_mapLiterals level

theorem Expr.itemsDepth_listToJson_mapLiterals
    (level : ∀ p, (f p).toJson.depth = p.toJson.depth) : (list : List Expr) →
      Json.itemsDepth (Expr.listToJson (Expr.listMapLiterals f list))
        = Json.itemsDepth (Expr.listToJson list)
  | [] => rfl
  | e :: rest => by
    simp [Expr.listMapLiterals, Expr.listToJson, Json.itemsDepth,
      e.depth_toJson_mapLiterals level, Expr.itemsDepth_listToJson_mapLiterals level rest]

end

theorem Stmt.depth_toJson_mapLiterals (level : ∀ p, (f p).toJson.depth = p.toJson.depth)
    (s : Stmt) : (s.mapLiterals f).toJson.depth = s.toJson.depth := by
  cases s <;> simp [mapLiterals, toJson, Json.record, Json.depth, Json.membersDepth,
    Expr.depth_toJson_mapLiterals level, Expr.depth_optionalToJson_mapLiterals level]

mutual

theorem Expr.same_mapLiterals : (e : Expr) → (∀ p ∈ e.literals, p.same (f p)) →
    e.same (e.mapLiterals f)
  | .invocation target _ args _, equal => by
    obtain ⟨in_target, in_args⟩ := List.forall_mem_append.mp equal
    simp [Expr.mapLiterals, Expr.same, Expr.optionalSame_mapLiterals target in_target,
      Expr.allSame_mapLiterals args in_args]
  | .arrayLiteral elements, equal => by
    simp [Expr.mapLiterals, Expr.same, Expr.allSame_mapLiterals elements equal]
  | .primitive value, equal => by
    simp [Expr.mapLiterals, Expr.same, equal value (List.mem_singleton_self value)]
  | .binaryOp _ left right, equal => by
    obtain ⟨in_left, in_right⟩ := List.forall_mem_append.mp equal
    simp [Expr.mapLiterals, Expr.same, left.same_mapLiterals in_left,
      right.same_mapLiterals in_right]
  | .ternaryOp condition whenTrue whenFalse, equal => by
    obtain ⟨before, in_false⟩ := List.forall_mem_append.mp equal
    obtain ⟨in_condition, in_true⟩ := List.forall_mem_append.mp before
    simp [Expr.mapLiterals, Expr.same, condition.same_mapLiterals in_condition,
      whenTrue.same_mapLiterals in_true, whenFalse.same_mapLiterals in_false]
  | .complexReference name, equal => by
    simp [Expr.mapLiterals, Expr.same, name.same_mapLiterals equal]
  | .variableRef _, _ | .typeRef _, _ | .this, _ => by simp [Expr.mapLiterals, Expr.same]
  | .fieldRef target _, equal => by
    simp [Expr.mapLiterals, Expr.same, Expr.optionalSame_mapLiterals target equal]
  | .cast _ expr, equal => by
    simp [Expr.mapLiterals, Expr.same, expr.same_mapLiterals equal]

theorem QualifiedName.same_mapLiterals : (name : QualifiedName) →
    (∀ p ∈ name.literals, p.same (f p)) → name.same (name.mapLiterals f)
  | .literal _, _ => by simp [QualifiedName.mapLiterals, QualifiedName.same]
  | .parts segments, equal => by
    simp [QualifiedName.mapLiterals, QualifiedName.same, Expr.allSame_mapLiterals segments equal]

theorem Expr.optionalSame_mapLiterals : (target : Option Expr) →
    (∀ p ∈ Expr.optionalLiterals target, p.same (f p)) →
      Expr.optionalSame target (Expr.optionalMapLiterals f target)
  | none, _ => by simp [Expr.optionalMapLiterals, Expr.optionalSame]
  | some e, equal => by
    simp [Expr.optionalMapLiterals, Expr.optionalSame, e.same_mapLiterals equal]

theorem Expr.allSame_mapLiterals : (list : List Expr) →
    (∀ p ∈ Expr.listLiterals list, p.same (f p)) →
      Expr.allSame list (Expr.listMapLiterals f list)
  | [], _ => by simp [Expr.listMapLiterals, Expr.allSame]
  | e :: rest, equal => by
    obtain ⟨in_first, in_rest⟩ := List.forall_mem_append.mp equal
    simp [Expr.listMapLiterals, Expr.allSame, e.same_mapLiterals in_first,
      Expr.allSame_mapLiterals rest in_rest]

end

theorem Stmt.same_mapLiterals (s : Stmt) (equal : ∀ p ∈ s.literals, p.same (f p)) :
    s.same (s.mapLiterals f) := by
  cases s with
  | expression expr => exact expr.same_mapLiterals equal
  | variableDeclaration name init =>
    simp [mapLiterals, same, Expr.optionalSame_mapLiterals init equal]
  | assignment left right =>
    obtain ⟨in_left, in_right⟩ := List.forall_mem_append.mp equal
    simp [mapLiterals, same, left.same_mapLiterals in_left, right.same_mapLiterals in_right]
  | returning value => exact Expr.optionalSame_mapLiterals value equal
  | goto label => simp [mapLiterals, same]

end Laws
end HotkeyScript
