import HotkeyScript.Json.Reader
import HotkeyScript.Proofs.DecimalText
import HotkeyScript.Proofs.DocumentText
import HotkeyScript.Proofs.FloatText
import HotkeyScript.Proofs.Literals
namespace HotkeyScript

open Json

section Literals

variable {value : Primitive}

def Primitive.Storable : Primitive → Prop
  | .float value => value.isFinite
  | .decimal value => value.mantissa = 0 → value.negative = false
  | _ => True

-- Taken of the number code of documents: what it writes for this float it reads as the same float.
def Primitive.ReadsBack : Primitive → Prop
  | .float value => value.documentNumeral.binary64? = some value
  | _ => True

def Primitive.Kept (value : Primitive) : Prop := value.Storable ∧ value.ReadsBack

def Primitive.plain : Primitive → Primitive
  | .decimal value => .decimal value.plain
  | other => other

theorem Primitive.plain_eq_self (storable : value.Storable) : value.plain = value := by
  cases value with
  | decimal value => exact congrArg Primitive.decimal (Decimal.plain_eq_self storable)
  | _ => rfl

theorem Primitive.yields_tagged {tag : String} {payload : Json} (data : payload ≠ .null)
    (flat : payload.depth = 0) (read : ofPayload? tag payload = some value) :
    Yields ofJson? (tagged tag payload) value := by
  refine yields_of_opened (depth_tagged tag payload) ?_ fun room => ?_
  · simp [ofJson?, name?_tagged data]
  · have named : (tagged tag payload).name? (room + 1) ≠ some "null" := by
      simp [name?_tagged data]
    unfold ofJson?
    rw [if_neg named, flat, if_pos (Nat.zero_le room)]
    exact read

theorem Primitive.int64?_toInt (value : Int64) : int64? value.toInt = some value := by
  rw [int64?, if_pos, Int64.ofInt_toInt]
  have low := value.le_toInt
  have high := value.toInt_lt
  have least : Int64.minValue.toInt = -9223372036854775808 := by decide
  have greatest : Int64.maxValue.toInt = 9223372036854775807 := by decide
  simp only [Bool.and_eq_true, decide_eq_true_eq]
  omega

theorem Primitive.integer_payload (value : Int64) :
    ofPayload? "integer" (.number (.ofInt value.toInt)) = some (.integer value) := by
  have low := value.le_toInt
  have high := value.toInt_lt
  have exact_value : (Numeral.ofInt value.toInt).integer? = some value.toInt :=
    Numeral.integer?_ofInt (by rw [Numeral.signedBound]; omega) (by rw [Numeral.wordBound]; omega)
  simp [ofPayload?, numeral?, exact_value, int64?_toInt]

theorem Primitive.yields_plain (kept : value.plain.Kept) :
    Yields ofJson? value.toJson value.plain := by
  obtain ⟨storable, readsBack⟩ := kept
  cases value with
  | null => intro room; rfl
  | string text => exact yields_tagged nofun rfl rfl
  | boolean value => exact yields_tagged nofun rfl rfl
  | integer value => exact yields_tagged nofun rfl (integer_payload value)
  | float value =>
    have finite : value.isFinite := storable
    rw [toJson, if_pos finite]
    exact yields_tagged nofun rfl (congrArg (Option.map Primitive.float) readsBack)
  | decimal value =>
    have read : Decimal.ofJson? (.ofString (String.ofList value.text)) = some value.plain := by
      simp [ofString, Decimal.ofJson?, Decimal.ofText?_text]
    exact yields_tagged nofun rfl (congrArg (Option.map Primitive.decimal) read)
  | char value =>
    have read : char? (.ofString (String.singleton value)) = some value := by
      simp [char?, ofString, Json.text?]
    exact yields_tagged nofun rfl (congrArg (Option.map Primitive.char) read)

theorem Primitive.yields_toJson (kept : value.Kept) : Yields ofJson? value.toJson value := by
  have own := plain_eq_self kept.1
  have yields := yields_plain (own.symm ▸ kept)
  rwa [own] at yields

end Literals

theorem TypeRef.yields_toJson (t : TypeRef) : Yields ofJson? t.toJson t := by
  refine yields_of_opened rfl rfl fun room => ?_
  rw [ofJson?, toJson, fields?_record (by rfl) (by decide)]
  rfl

theorem BinaryOperator.yields_toJson (o : BinaryOperator) : Yields ofJson? o.toJson o := by
  intro room
  rw [ofJson?, toJson, depth_ofString, if_pos (Nat.zero_le room), ← ofCode?_code o]
  rfl

namespace Expr

theorem toJson_ne_null (e : Expr) : e.toJson ≠ .null := by
  cases e <;> exact nofun

theorem listToJson_eq_map (list : List Expr) : listToJson list = list.map toJson := by
  induction list with
  | nil => rfl
  | cons e rest ih => rw [listToJson, ih, List.map_cons]

section Parts

variable {back : Expr → Expr}
variable {target : Option Expr} {list : List Expr}
variable {e left right condition whenTrue whenFalse : Expr}

theorem optional_of_yields (each : ∀ e ∈ target, Yields ofJson? e.toJson (back e)) (room : Nat) :
    optional? (ofJson? room) (some (optionalToJson target))
      = if (optionalToJson target).depth ≤ room then some (target.map back) else none := by
  cases target with
  | none => rfl
  | some e =>
    rw [optionalToJson, optional?_of_ne_null e.toJson_ne_null, each e rfl room]
    split <;> rfl

theorem list_of_yields (each : ∀ e ∈ list, Yields ofJson? e.toJson (back e)) :
    Yields listOfJson? (.array (listToJson list)) (list.map back) :=
  yields_of_opened rfl rfl fun room => by
    rw [listToJson_eq_map]
    exact mapM_of_yields each room

-- What a form keeps under its name is read by the reader of the form.
theorem yields_tagged {tag : String} {payload : Json} {read : Nat → Json → Option Expr}
    (data : payload ≠ .null)
    (form : ∀ room, ofJson? (room + 1) (tagged tag payload) = read room payload)
    (yields : Yields read payload e) : Yields ofJson? (tagged tag payload) e :=
  yields_of_opened (depth_tagged tag payload) (by simp [ofJson?, name?_tagged data])
    fun room => (form room).trans (yields room)

theorem yields_invocation {method : String} {marker : Bool}
    (yields_target : ∀ e ∈ target, Yields ofJson? e.toJson (back e))
    (yields_args : ∀ e ∈ list, Yields ofJson? e.toJson (back e)) :
    Yields ofJson? (invocation target method list marker).toJson
      (.invocation (target.map back) method (list.map back) marker) := by
  refine yields_tagged nofun (fun room => rfl) (yields_of_opened rfl rfl fun room => ?_)
  rw [invocationOfJson?, fields?_record (by rfl) (by decide)]
  simp [optional_of_yields yields_target, list_of_yields yields_args room, orDefault?,
    bind_of_fits, ite_and, membersDepth]

theorem yields_binaryOp {operator : BinaryOperator}
    (yields_left : Yields ofJson? left.toJson (back left))
    (yields_right : Yields ofJson? right.toJson (back right)) :
    Yields ofJson? (binaryOp operator left right).toJson
      (.binaryOp operator (back left) (back right)) := by
  refine yields_tagged nofun (fun room => rfl) (yields_of_opened rfl rfl fun room => ?_)
  rw [binaryOpOfJson?, fields?_record (by rfl) (by decide)]
  simp [operator.yields_toJson room, yields_left room, yields_right room, bind_of_fits, ite_and,
    membersDepth]

theorem yields_ternaryOp (yields_condition : Yields ofJson? condition.toJson (back condition))
    (yields_true : Yields ofJson? whenTrue.toJson (back whenTrue))
    (yields_false : Yields ofJson? whenFalse.toJson (back whenFalse)) :
    Yields ofJson? (ternaryOp condition whenTrue whenFalse).toJson
      (.ternaryOp (back condition) (back whenTrue) (back whenFalse)) := by
  refine yields_tagged nofun (fun room => rfl) (yields_of_opened rfl rfl fun room => ?_)
  rw [ternaryOpOfJson?, fields?_record (by rfl) (by decide)]
  simp [yields_condition room, yields_true room, yields_false room, bind_of_fits, ite_and,
    membersDepth]

theorem yields_fieldRef {field : String}
    (yields_target : ∀ e ∈ target, Yields ofJson? e.toJson (back e)) :
    Yields ofJson? (fieldRef target field).toJson (.fieldRef (target.map back) field) := by
  refine yields_tagged nofun (fun room => rfl) (yields_of_opened rfl rfl fun room => ?_)
  rw [fieldRefOfJson?, fields?_record (by rfl) (by decide)]
  simp [optional_of_yields yields_target, bind_of_fits, membersDepth]

theorem yields_cast {targetType : String} (yields : Yields ofJson? e.toJson (back e)) :
    Yields ofJson? (cast targetType e).toJson (.cast targetType (back e)) := by
  refine yields_tagged nofun (fun room => rfl) (yields_of_opened rfl rfl fun room => ?_)
  rw [castOfJson?, fields?_record (by rfl) (by decide)]
  simp [yields room, bind_of_fits, membersDepth]

theorem yields_parts (each : ∀ e ∈ list, Yields ofJson? e.toJson (back e)) :
    Yields QualifiedName.ofJson? (QualifiedName.parts list).toJson (.parts (list.map back)) :=
  yields_of_opened (depth_tagged _ _) rfl fun room =>
    (list_of_yields each).map QualifiedName.parts room

end Parts

def plain (e : Expr) : Expr := e.mapLiterals Primitive.plain

mutual

theorem yields_plain : (e : Expr) → (∀ p ∈ e.literals, p.plain.Kept) →
    Yields ofJson? e.toJson e.plain
  | .invocation target method args marker, kept => by
    obtain ⟨kept_target, kept_args⟩ := List.forall_mem_append.mp kept
    rw [plain, mapLiterals, optionalMapLiterals_eq_map, listMapLiterals_eq_map]
    exact yields_invocation (optional_yields_plain target kept_target)
      (list_yields_plain args kept_args)
  | .arrayLiteral elements, kept => by
    rw [plain, mapLiterals, listMapLiterals_eq_map]
    exact yields_tagged nofun (fun _ => rfl)
      ((list_of_yields (list_yields_plain elements kept)).map arrayLiteral)
  | .primitive value, kept =>
    yields_tagged (by cases value <;> exact nofun) (fun _ => by cases value <;> rfl)
      ((Primitive.yields_plain (kept value (List.mem_singleton_self value))).map primitive)
  | .binaryOp operator left right, kept =>
    have ⟨kept_left, kept_right⟩ := List.forall_mem_append.mp kept
    yields_binaryOp (yields_plain left kept_left) (yields_plain right kept_right)
  | .ternaryOp condition whenTrue whenFalse, kept =>
    have ⟨before, kept_false⟩ := List.forall_mem_append.mp kept
    have ⟨kept_condition, kept_true⟩ := List.forall_mem_append.mp before
    yields_ternaryOp (yields_plain condition kept_condition) (yields_plain whenTrue kept_true)
      (yields_plain whenFalse kept_false)
  | .complexReference name, kept =>
    yields_tagged (by cases name <;> exact nofun) (fun _ => by cases name <;> rfl)
      ((name_yields_plain name kept).map complexReference)
  | .variableRef name, _ => yields_of_opened (depth_tagged _ _) rfl fun _ => rfl
  | .fieldRef target field, kept => by
    rw [plain, mapLiterals, optionalMapLiterals_eq_map]
    exact yields_fieldRef (optional_yields_plain target kept)
  | .typeRef type, _ => yields_tagged nofun (fun _ => rfl) (type.yields_toJson.map typeRef)
  | .this, _ => fun room => by cases room <;> rfl
  | .cast targetType expr, kept => yields_cast (yields_plain expr kept)

theorem name_yields_plain : (name : QualifiedName) → (∀ p ∈ name.literals, p.plain.Kept) →
    Yields QualifiedName.ofJson? name.toJson (name.mapLiterals Primitive.plain)
  | .literal _, _ => yields_of_opened (depth_tagged _ _) rfl fun _ => rfl
  | .parts segments, kept => by
    rw [QualifiedName.mapLiterals, listMapLiterals_eq_map]
    exact yields_parts (list_yields_plain segments kept)

theorem optional_yields_plain : (target : Option Expr) →
    (∀ p ∈ optionalLiterals target, p.plain.Kept) → ∀ e ∈ target, Yields ofJson? e.toJson e.plain
  | none, _ => nofun
  | some e, kept => fun _ own => Option.some.inj own ▸ yields_plain e kept

theorem list_yields_plain : (list : List Expr) → (∀ p ∈ listLiterals list, p.plain.Kept) →
    ∀ e ∈ list, Yields ofJson? e.toJson e.plain
  | [], _ => nofun
  | e :: rest, kept =>
    have ⟨kept_first, kept_rest⟩ := List.forall_mem_append.mp kept
    List.forall_mem_cons.mpr ⟨yields_plain e kept_first, list_yields_plain rest kept_rest⟩

end

end Expr

namespace Stmt

theorem yields_variableDeclaration {name : String} {init : Option Expr} {back : Expr → Expr}
    (yields_init : ∀ e ∈ init, Yields Expr.ofJson? e.toJson (back e)) :
    Yields ofJson? (variableDeclaration name init).toJson
      (.variableDeclaration name (init.map back)) := by
  refine yields_of_opened (depth_tagged _ _) rfl ?_
  change Yields variableDeclarationOfJson? _ _
  refine yields_of_opened rfl rfl fun room => ?_
  rw [variableDeclarationOfJson?, fields?_record (by rfl) (by decide)]
  simp [Expr.optional_of_yields yields_init, bind_of_fits, membersDepth]

theorem yields_assignment {left right : Expr} {back : Expr → Expr}
    (yields_left : Yields Expr.ofJson? left.toJson (back left))
    (yields_right : Yields Expr.ofJson? right.toJson (back right)) :
    Yields ofJson? (assignment left right).toJson (.assignment (back left) (back right)) := by
  refine yields_of_opened (depth_tagged _ _) rfl ?_
  change Yields assignmentOfJson? _ _
  refine yields_of_opened rfl rfl fun room => ?_
  rw [assignmentOfJson?, fields?_record (by rfl) (by decide)]
  simp [yields_left room, yields_right room, bind_of_fits, ite_and, membersDepth]

def plain (s : Stmt) : Stmt := s.mapLiterals Primitive.plain

theorem yields_plain (s : Stmt) (kept : ∀ p ∈ s.literals, p.plain.Kept) :
    Yields ofJson? s.toJson s.plain := by
  cases s with
  | expression expr =>
    exact yields_of_opened (depth_tagged _ _) rfl ((expr.yields_plain kept).map Stmt.expression)
  | variableDeclaration name init =>
    rw [plain, mapLiterals, Expr.optionalMapLiterals_eq_map]
    exact yields_variableDeclaration (Expr.optional_yields_plain init kept)
  | assignment left right =>
    obtain ⟨kept_left, kept_right⟩ := List.forall_mem_append.mp kept
    exact yields_assignment (left.yields_plain kept_left) (right.yields_plain kept_right)
  | returning value =>
    refine yields_of_opened (depth_tagged _ _) rfl fun room => ?_
    change (optional? _ (some (Expr.optionalToJson value))).map Stmt.returning = _
    rw [Expr.optional_of_yields (Expr.optional_yields_plain value kept), plain, mapLiterals,
      Expr.optionalMapLiterals_eq_map]
    split <;> rfl
  | goto label => exact yields_of_opened (depth_tagged _ _) rfl fun _ => rfl

theorem list_yields_plain {list : List Stmt} (kept : ∀ s ∈ list, ∀ p ∈ s.literals, p.plain.Kept) :
    Yields listOfJson? (listToJson list) (list.map plain) :=
  yields_of_opened rfl rfl (mapM_of_yields fun s among => s.yields_plain (kept s among))

end Stmt

theorem Primitive.kept_plain {value : Primitive} (kept : value.Kept) : value.plain.Kept := by
  rwa [plain_eq_self kept.1]

theorem Expr.yields_toJson (e : Expr) (kept : ∀ p ∈ e.literals, p.Kept) :
    Yields ofJson? e.toJson e := by
  have own : e.plain = e :=
    e.mapLiterals_eq_self fun p among => Primitive.plain_eq_self (kept p among).1
  have yields := e.yields_plain fun p among => Primitive.kept_plain (kept p among)
  rwa [own] at yields

theorem Expr.name_yields (name : QualifiedName) (kept : ∀ p ∈ name.literals, p.Kept) :
    Yields QualifiedName.ofJson? name.toJson name := by
  have own := name.mapLiterals_eq_self fun p among => Primitive.plain_eq_self (kept p among).1
  have yields := name_yields_plain name fun p among => Primitive.kept_plain (kept p among)
  rwa [own] at yields

theorem Stmt.yields_toJson (s : Stmt) (kept : ∀ p ∈ s.literals, p.Kept) :
    Yields ofJson? s.toJson s := by
  have own : s.plain = s :=
    s.mapLiterals_eq_self fun p among => Primitive.plain_eq_self (kept p among).1
  have yields := s.yields_plain fun p among => Primitive.kept_plain (kept p among)
  rwa [own] at yields

theorem Stmt.list_yields {list : List Stmt} (kept : ∀ s ∈ list, ∀ p ∈ s.literals, p.Kept) :
    Yields listOfJson? (listToJson list) list := by
  have each : ∀ s ∈ list, Yields ofJson? s.toJson (id s) := fun s among =>
    s.yields_toJson (kept s among)
  have yields := mapM_of_yields each
  rw [List.map_id] at yields
  exact yields_of_opened rfl rfl yields

theorem Primitive.numbered_toJson (value : Primitive) : value.toJson.Numbered := by
  cases value with
  | null => trivial
  | integer value => exact ⟨Numeral.ofInt_wellFormed _, trivial⟩
  | float value =>
    refine ⟨?_, trivial⟩
    split
    · exact value.documentNumeral_wellFormed
    · trivial
  | _ => exact ⟨trivial, trivial⟩

theorem TypeRef.numbered_toJson (t : TypeRef) : t.toJson.Numbered := by simp [toJson]

mutual

theorem Expr.numbered_toJson : (e : Expr) → e.toJson.Numbered
  | .invocation target method args marker => by
    simpa [Expr.toJson, Expr.numbered_optionalToJson target]
      using Expr.numbered_listToJson args
  | .arrayLiteral elements => by simpa [Expr.toJson] using Expr.numbered_listToJson elements
  | .primitive value => by simp [Expr.toJson, value.numbered_toJson]
  | .binaryOp operator left right => by
    simp [Expr.toJson, BinaryOperator.toJson, left.numbered_toJson, right.numbered_toJson]
  | .ternaryOp condition whenTrue whenFalse => by
    simp [Expr.toJson, condition.numbered_toJson, whenTrue.numbered_toJson,
      whenFalse.numbered_toJson]
  | .complexReference name => by simp [Expr.toJson, name.numbered_toJson]
  | .variableRef _ => by simp [Expr.toJson]
  | .fieldRef target field => by simp [Expr.toJson, Expr.numbered_optionalToJson target]
  | .typeRef type => by simp [Expr.toJson, type.numbered_toJson]
  | .this => trivial
  | .cast targetType expr => by simp [Expr.toJson, expr.numbered_toJson]

theorem QualifiedName.numbered_toJson : (name : QualifiedName) → name.toJson.Numbered
  | .literal _ => by simp [QualifiedName.toJson]
  | .parts segments => by simpa [QualifiedName.toJson] using Expr.numbered_listToJson segments

theorem Expr.numbered_optionalToJson : (target : Option Expr) →
    (Expr.optionalToJson target).Numbered
  | none => trivial
  | some e => e.numbered_toJson

theorem Expr.numbered_listToJson : (list : List Expr) →
    ∀ item ∈ Expr.listToJson list, item.Numbered
  | [] => nofun
  | e :: rest => List.forall_mem_cons.mpr ⟨e.numbered_toJson, Expr.numbered_listToJson rest⟩

end

theorem Stmt.numbered_toJson (s : Stmt) : s.toJson.Numbered := by
  cases s <;> simp [toJson, Expr.numbered_toJson, Expr.numbered_optionalToJson]

theorem Stmt.numbered_listToJson (list : List Stmt) : (listToJson list).Numbered := by
  simp [listToJson, numbered_toJson]

namespace Json

-- Reading the compact text of a value gives the value where the text nests within the limit, and
-- nothing where it nests deeper.
def RoundTrips (read : Nat → Json → Option α) (write : α → Json) (a : α) : Prop :=
  decodeText? read (write a).compact = if (write a).depth ≤ nestingLimit then some a else none

theorem decodeText?_compact {read : Nat → Json → Option α} {j : Json} {a : α}
    (numbered : j.Numbered) (yields : Yields read j a) :
    decodeText? read j.compact = if j.depth ≤ nestingLimit then some a else none := by
  rw [decodeText?, ofText?_compact numbered]
  exact yields nestingLimit

theorem roundTrips_of_yields {read : Nat → Json → Option α} {write : α → Json} {a : α}
    (numbered : (write a).Numbered) (yields : Yields read (write a) a) :
    RoundTrips read write a :=
  decodeText?_compact numbered yields

-- Everything in the model is read back from its compact text: the form of every node, the spelling
-- of every decimal, the fields that may be missing.
theorem model_roundTrips :
    (∀ e : Expr, (∀ p ∈ e.literals, p.Kept) → RoundTrips Expr.ofJson? Expr.toJson e) ∧
      (∀ s : Stmt, (∀ p ∈ s.literals, p.Kept) → RoundTrips Stmt.ofJson? Stmt.toJson s) ∧
      (∀ list : List Stmt, (∀ s ∈ list, ∀ p ∈ s.literals, p.Kept) →
        RoundTrips Stmt.listOfJson? Stmt.listToJson list) ∧
      (∀ p : Primitive, p.Kept → RoundTrips Primitive.ofJson? Primitive.toJson p) ∧
      (∀ n : QualifiedName, (∀ p ∈ n.literals, p.Kept) →
        RoundTrips QualifiedName.ofJson? QualifiedName.toJson n) ∧
      ∀ t : TypeRef, RoundTrips TypeRef.ofJson? TypeRef.toJson t :=
  ⟨fun e kept => roundTrips_of_yields e.numbered_toJson (e.yields_toJson kept),
    fun s kept => roundTrips_of_yields s.numbered_toJson (s.yields_toJson kept),
    fun list kept => roundTrips_of_yields (Stmt.numbered_listToJson list) (Stmt.list_yields kept),
    fun p kept => roundTrips_of_yields p.numbered_toJson (Primitive.yields_toJson kept),
    fun n kept => roundTrips_of_yields n.numbered_toJson (Expr.name_yields n kept),
    fun t => roundTrips_of_yields t.numbered_toJson t.yields_toJson⟩

theorem model_roundTrips_statements :
    let half : Primitive := .float ⟨0x3fe0000000000000⟩
    let price : Primitive := .decimal ⟨true, 150, 2, by decide, by decide⟩
    let list : List Stmt := [.assignment (.variableRef "x") (.primitive half),
      .returning (some (.primitive price))]
    (half.Kept ∧ price.Kept) ∧ (Stmt.listToJson list).depth = 5 ∧
      decodeText? Stmt.listOfJson? (Stmt.listToJson list).compact = some list := by
  intro half price list
  have half_kept : half.Kept :=
    ⟨(by decide : Binary64.isFinite _ = true), (by decide +kernel : Numeral.binary64? _ = some _)⟩
  have price_kept : price.Kept := ⟨fun zero => absurd zero (by decide), trivial⟩
  refine ⟨⟨half_kept, price_kept⟩, by decide, ?_⟩
  refine (model_roundTrips.2.2.1 list fun s among p literal => ?_).trans (if_pos (by decide))
  simp only [list, List.mem_cons, List.not_mem_nil, or_false] at among
  rcases among with rfl | rfl <;>
    simp only [Stmt.literals, Expr.literals, Expr.optionalLiterals, List.nil_append,
      List.mem_singleton] at literal
  · exact literal ▸ half_kept
  · exact literal ▸ price_kept

end Json
end HotkeyScript
