import HotkeyScript.Proofs.ExactReading
import HotkeyScript.Proofs.FloatReading
import HotkeyScript.Proofs.NestingLimit
namespace HotkeyScript

open Json

section Depth

variable {room : Nat} {j : Json}

theorem Primitive.Spells.depth_le {value : Primitive} (spelled : value.Spells room j) :
    value.toJson.depth ≤ room := by
  cases spelled with
  | null => exact Nat.zero_le room
  | float nearest =>
    rw [toJson, if_pos (Numeral.isFinite_of_binary64? nearest)]
    exact Nat.succ_le_succ (Nat.zero_le _)
  | _ => exact Nat.succ_le_succ (Nat.zero_le _)

mutual

theorem Expr.Spells.depth_le {room : Nat} {j : Json} {e : Expr} :
    e.Spells room j → e.toJson.depth ≤ room + 1
  | .invocation _ on args _ => by
    have first := on.depth_le
    have others := args.depth_le
    simp [Expr.toJson, Json.record, depth, membersDepth]
    omega
  | .arrayLiteral spelled => by
    have inside := spelled.depth_le
    simp [Expr.toJson, depth]
    omega
  | .primitive spelled => by
    have inside := spelled.depth_le
    simp [Expr.toJson]
    omega
  | .binaryOp _ _ left right => by
    have first := left.depth_le
    have second := right.depth_le
    simp [Expr.toJson, BinaryOperator.toJson, Json.record, depth, membersDepth]
    omega
  | .ternaryOp _ condition whenTrue whenFalse => by
    have first := condition.depth_le
    have second := whenTrue.depth_le
    have third := whenFalse.depth_le
    simp [Expr.toJson, Json.record, depth, membersDepth]
    omega
  | .complexReference spelled => by
    have inside := spelled.depth_le
    simp [Expr.toJson]
    omega
  | .variableRef => by simp [Expr.toJson]
  | .fieldRef _ on => by
    have inside := on.depth_le
    simp [Expr.toJson, Json.record, depth, membersDepth]
    omega
  | .typeRef (.record _ _) => by
    simp [Expr.toJson, TypeRef.toJson, Json.record, depth, membersDepth]
  | .this _ => Nat.zero_le _
  | .cast _ spelled => by
    have inside := spelled.depth_le
    simp [Expr.toJson, Json.record, depth, membersDepth]
    omega

theorem QualifiedName.Spells.depth_le {room : Nat} {j : Json} {name : QualifiedName} :
    name.Spells room j → name.toJson.depth ≤ room + 1
  | .literal => by simp [QualifiedName.toJson]
  | .parts spelled => by
    have inside := spelled.depth_le
    simp [QualifiedName.toJson, depth]
    omega

theorem Expr.OptionalSpells.depth_le {room : Nat} {j : Option Json} {target : Option Expr} :
    Expr.OptionalSpells room j target → (Expr.optionalToJson target).depth ≤ room + 1
  | .missing | .null => Nat.zero_le _
  | .given spelled => spelled.depth_le

theorem Expr.ArgsSpell.depth_le {room : Nat} {j : Option Json} {list : List Expr} :
    Expr.ArgsSpell room j list → itemsDepth (Expr.listToJson list) ≤ room
  | .missing => Nat.zero_le _
  | .given spelled => spelled.depth_le

theorem Expr.ListSpells.depth_le {room : Nat} {j : Json} {list : List Expr} :
    Expr.ListSpells room j list → itemsDepth (Expr.listToJson list) ≤ room
  | .array spelled => spelled.depth_le

theorem Expr.ItemsSpell.depth_le {room : Nat} {items : List Json} {list : List Expr} :
    Expr.ItemsSpell room items list → itemsDepth (Expr.listToJson list) ≤ room + 1
  | .nil => Nat.zero_le _
  | .cons first others => Nat.max_le.mpr ⟨first.depth_le, others.depth_le⟩

end

theorem Stmt.Spells.depth_le {s : Stmt} (spelled : s.Spells room j) :
    s.toJson.depth ≤ room + 1 := by
  cases spelled with
  | expression spelled =>
    have inside := spelled.depth_le
    simp [toJson]
    omega
  | variableDeclaration _ spelled =>
    have inside := spelled.depth_le
    simp [toJson, Json.record, depth, membersDepth]
    omega
  | assignment _ left right =>
    have first := left.depth_le
    have second := right.depth_le
    simp [toJson, Json.record, depth, membersDepth]
    omega
  | returning spelled =>
    have inside := spelled.depth_le
    simp [toJson]
    omega
  | goto => simp [toJson]

theorem Stmt.ListSpells.depth_le {list : List Stmt} (spelled : ListSpells room j list) :
    (listToJson list).depth ≤ room + 1 := by
  obtain ⟨each⟩ := spelled
  refine Nat.succ_le_succ ?_
  induction each with
  | nil => exact Nat.zero_le _
  | cons first _ ih => exact Nat.max_le.mpr ⟨first.depth_le, ih⟩

end Depth

section Literals

variable {room : Nat} {j : Json}

theorem Primitive.Spells.storable {value : Primitive} (spelled : value.Spells room j) :
    value.plain.Storable := by
  cases spelled with
  | float nearest => exact Numeral.isFinite_of_binary64? nearest
  | decimalText | decimalNumber => exact Decimal.unsigned_plain _
  | _ => trivial

mutual

theorem Expr.Spells.storable {room : Nat} {j : Json} {e : Expr} :
    e.Spells room j → ∀ p ∈ e.literals, p.plain.Storable
  | .invocation _ on args _ => List.forall_mem_append.mpr ⟨on.storable, args.storable⟩
  | .arrayLiteral spelled => spelled.storable
  | .primitive spelled => List.forall_mem_singleton.mpr spelled.storable
  | .binaryOp _ _ left right => List.forall_mem_append.mpr ⟨left.storable, right.storable⟩
  | .ternaryOp _ condition whenTrue whenFalse =>
    List.forall_mem_append.mpr
      ⟨List.forall_mem_append.mpr ⟨condition.storable, whenTrue.storable⟩, whenFalse.storable⟩
  | .complexReference spelled => spelled.storable
  | .variableRef | .typeRef _ | .this _ => nofun
  | .fieldRef _ on => on.storable
  | .cast _ spelled => spelled.storable

theorem QualifiedName.Spells.storable {room : Nat} {j : Json} {name : QualifiedName} :
    name.Spells room j → ∀ p ∈ name.literals, p.plain.Storable
  | .literal => nofun
  | .parts spelled => spelled.storable

theorem Expr.OptionalSpells.storable {room : Nat} {j : Option Json} {target : Option Expr} :
    Expr.OptionalSpells room j target → ∀ p ∈ Expr.optionalLiterals target, p.plain.Storable
  | .missing | .null => nofun
  | .given spelled => spelled.storable

theorem Expr.ArgsSpell.storable {room : Nat} {j : Option Json} {list : List Expr} :
    Expr.ArgsSpell room j list → ∀ p ∈ Expr.listLiterals list, p.plain.Storable
  | .missing => nofun
  | .given spelled => spelled.storable

theorem Expr.ListSpells.storable {room : Nat} {j : Json} {list : List Expr} :
    Expr.ListSpells room j list → ∀ p ∈ Expr.listLiterals list, p.plain.Storable
  | .array spelled => spelled.storable

theorem Expr.ItemsSpell.storable {room : Nat} {items : List Json} {list : List Expr} :
    Expr.ItemsSpell room items list → ∀ p ∈ Expr.listLiterals list, p.plain.Storable
  | .nil => nofun
  | .cons first others => List.forall_mem_append.mpr ⟨first.storable, others.storable⟩

end

theorem Stmt.Spells.storable {s : Stmt} (spelled : s.Spells room j) :
    ∀ p ∈ s.literals, p.plain.Storable := by
  cases spelled with
  | expression spelled => exact spelled.storable
  | variableDeclaration _ spelled => exact spelled.storable
  | assignment _ left right => exact List.forall_mem_append.mpr ⟨left.storable, right.storable⟩
  | returning spelled => exact spelled.storable
  | goto => exact nofun

theorem Stmt.ListSpells.storable {list : List Stmt} (spelled : ListSpells room j list) :
    ∀ s ∈ list, ∀ p ∈ s.literals, p.plain.Storable := by
  obtain ⟨each⟩ := spelled
  intro s among
  obtain ⟨item, own⟩ := exists_spelled each among
  exact own.storable

end Literals

section Plain

theorem Decimal.sameValue_plain (d : Decimal) : d.sameValue d.plain := by
  by_cases zero : d.mantissa = 0 <;> simp [sameValue, plain, ticks, zero]

theorem Binary64.sameValue_self {x : Binary64} (finite : x.isFinite) : x.sameValue x := by
  have number : x.isNaN = false :=
    decide_eq_false (Nat.not_lt_of_lt (of_decide_eq_true finite))
  simp [sameValue, number]

namespace Primitive

theorem same_plain {p : Primitive} (storable : p.plain.Storable) : p.same p.plain := by
  cases p with
  | float value => exact Binary64.sameValue_self storable
  | decimal value => exact value.sameValue_plain
  | _ => simp [plain, same]

theorem depth_toJson_plain (p : Primitive) : p.plain.toJson.depth = p.toJson.depth := by
  cases p <;> rfl

theorem readsBack_plain {p : Primitive} (readsBack : p.ReadsBack) : p.plain.ReadsBack := by
  cases p <;> exact readsBack

theorem plain_of_unsigned {p : Primitive}
    (unsigned : ∀ d, p = .decimal d → d.mantissa = 0 → d.negative = false) : p.plain = p := by
  cases p with
  | decimal d => exact congrArg Primitive.decimal (Decimal.plain_eq_self (unsigned d rfl))
  | _ => rfl

end Primitive
end Plain

namespace Json

section Settling

variable {α : Type} (read : Nat → Json → Option α) (write : α → Json) (same : α → α → Prop)
variable (literals : α → List Primitive) (plain : α → α)

-- What becomes of a value that was read from a text when it is written out and read again.
structure Settles (text : String) (a : α) : Prop where
  nests : ∀ room, (ofText? text).bind (read room) = some a → (write a).depth ≤ room + 1
  refused : nestingLimit < (write a).depth → decodeText? read (write a).compact = none
  accepted : (write a).depth ≤ nestingLimit →
    decodeText? read (write a).compact = some (plain a)
  equal : same a (plain a)
  -- All that can get lost is the sign of a decimal zero.
  exact : (∀ d, .decimal d ∈ literals a → d.mantissa = 0 → d.negative = false) → plain a = a
  stable : (write a).depth ≤ nestingLimit →
    decodeText? read (write (plain a)).compact = some (plain a)

structure Understood (spells : Nat → Json → α → Prop) : Prop where
  reads : ∀ {room : Nat} {j : Json} {a : α}, read room j = some a ↔ spells room j a
  numbered : ∀ a, (write a).Numbered
  depth_le : ∀ {room : Nat} {j : Json} {a : α}, spells room j a → (write a).depth ≤ room + 1
  storable : ∀ {room : Nat} {j : Json} {a : α}, spells room j a →
    ∀ p ∈ literals a, p.plain.Storable
  yields : ∀ {a : α}, (∀ p ∈ literals a, p.plain.Kept) → Yields read (write a) (plain a)
  literals_plain : ∀ a, literals (plain a) = (literals a).map Primitive.plain
  level : ∀ a, (write (plain a)).depth = (write a).depth
  equal : ∀ {a : α}, (∀ p ∈ literals a, p.same p.plain) → same a (plain a)
  plain_eq_self : ∀ {a : α}, (∀ p ∈ literals a, p.plain = p) → plain a = a

variable {read write same literals plain}

theorem Understood.settles {spells : Nat → Json → α → Prop}
    (known : Understood read write same literals plain spells) {text : String} {a : α}
    (own : decodeText? read text = some a) (readsBack : ∀ p ∈ literals a, p.ReadsBack) :
    Settles read write same literals plain text a := by
  obtain ⟨j, _, inside⟩ := Option.bind_eq_some_iff.mp own
  have storable := known.storable (known.reads.1 inside)
  have kept : ∀ p ∈ literals a, p.plain.Kept := fun p among =>
    ⟨storable p among, Primitive.readsBack_plain (readsBack p among)⟩
  have kept_plain : ∀ p ∈ literals (plain a), p.Kept := by
    rw [known.literals_plain]
    exact List.forall_mem_map.mpr kept
  have settled : plain (plain a) = plain a := known.plain_eq_self fun p among =>
    Primitive.plain_eq_self (kept_plain p among).1
  have again : Yields read (write (plain a)) (plain a) := by
    have yields := known.yields fun p among => Primitive.kept_plain (kept_plain p among)
    rwa [settled] at yields
  refine ⟨fun room nested => ?_, fun deep => ?_, fun fits => ?_, ?_, fun unsigned => ?_,
    fun fits => ?_⟩
  · obtain ⟨j, _, inside⟩ := Option.bind_eq_some_iff.mp nested
    exact known.depth_le (known.reads.1 inside)
  · rw [decodeText?_compact (known.numbered a) (known.yields kept),
      if_neg (Nat.not_le_of_lt deep)]
  · rw [decodeText?_compact (known.numbered a) (known.yields kept), if_pos fits]
  · exact known.equal fun p among => Primitive.same_plain (storable p among)
  · exact known.plain_eq_self fun p among =>
      Primitive.plain_of_unsigned fun d is_decimal => unsigned d (is_decimal ▸ among)
  · rw [decodeText?_compact (known.numbered (plain a)) again, if_pos (known.level a ▸ fits)]

theorem Understood.read_text {spells : Nat → Json → α → Prop}
    (known : Understood read write same literals plain spells) {j : Json} {a : α}
    (numbered : j.Numbered) (spelled : spells nestingLimit j a) :
    decodeText? read j.compact = some a := by
  rw [decodeText?, ofText?_compact numbered]
  exact known.reads.2 spelled

end Settling

theorem expr_understood : Understood Expr.ofJson? Expr.toJson (fun e e' => e.same e')
    Expr.literals Expr.plain Expr.Spells where
  reads := Expr.ofJson?_eq_some_iff
  numbered := Expr.numbered_toJson
  depth_le spelled := spelled.depth_le
  storable spelled := spelled.storable
  yields kept := Expr.yields_plain _ kept
  literals_plain := Expr.literals_mapLiterals
  level := Expr.depth_toJson_mapLiterals Primitive.depth_toJson_plain
  equal := Expr.same_mapLiterals _
  plain_eq_self := Expr.mapLiterals_eq_self _

theorem stmt_understood : Understood Stmt.ofJson? Stmt.toJson (fun s s' => s.same s')
    Stmt.literals Stmt.plain Stmt.Spells where
  reads := Stmt.ofJson?_eq_some_iff
  numbered := Stmt.numbered_toJson
  depth_le spelled := spelled.depth_le
  storable spelled := spelled.storable
  yields kept := Stmt.yields_plain _ kept
  literals_plain := Stmt.literals_mapLiterals
  level := Stmt.depth_toJson_mapLiterals Primitive.depth_toJson_plain
  equal := Stmt.same_mapLiterals _
  plain_eq_self := Stmt.mapLiterals_eq_self _

theorem list_understood : Understood Stmt.listOfJson? Stmt.listToJson
    (List.Forall₂ fun s s' => s.same s') Stmt.listLiterals (List.map Stmt.plain)
    Stmt.ListSpells where
  reads := Stmt.listOfJson?_eq_some_iff
  numbered := Stmt.numbered_listToJson
  depth_le spelled := spelled.depth_le
  storable spelled := List.forall_mem_flatMap.mpr spelled.storable
  yields kept := Stmt.list_yields_plain (List.forall_mem_flatMap.mp kept)
  literals_plain list := by
    simp [Stmt.listLiterals, List.flatMap_map, List.map_flatMap, Stmt.plain,
      Stmt.literals_mapLiterals]
  level list := by
    refine congrArg Nat.succ ?_
    induction list with
    | nil => rfl
    | cons s rest ih =>
      exact congr_arg₂ max (s.depth_toJson_mapLiterals Primitive.depth_toJson_plain) ih
  equal same := List.forall₂_map_right_iff.mpr (List.forall₂_same.mpr fun s among =>
    s.same_mapLiterals (List.forall_mem_flatMap.mp same s among))
  plain_eq_self kept := (List.map_congr_left fun s among =>
    s.mapLiterals_eq_self (List.forall_mem_flatMap.mp kept s among)).trans (List.map_id' _)

-- Whatever a text is read as, its document is read again where it keeps within the limit on
-- nesting, as a value that is equal and whose own document is settled. The floats of the value are
-- taken to read back.
theorem reencoding_settles :
    (∀ text e, decodeText? Expr.ofJson? text = some e → (∀ p ∈ e.literals, p.ReadsBack) →
      Settles Expr.ofJson? Expr.toJson (fun e e' => e.same e') Expr.literals Expr.plain text e) ∧
    (∀ text s, decodeText? Stmt.ofJson? text = some s → (∀ p ∈ s.literals, p.ReadsBack) →
      Settles Stmt.ofJson? Stmt.toJson (fun s s' => s.same s') Stmt.literals Stmt.plain text s) ∧
    ∀ text list, decodeText? Stmt.listOfJson? text = some list →
      (∀ p ∈ Stmt.listLiterals list, p.ReadsBack) →
        Settles Stmt.listOfJson? Stmt.listToJson (List.Forall₂ fun s s' => s.same s')
          Stmt.listLiterals (List.map Stmt.plain) text list :=
  ⟨fun _ _ own readsBack => expr_understood.settles own readsBack,
    fun _ _ own readsBack => stmt_understood.settles own readsBack,
    fun _ _ own readsBack => list_understood.settles own readsBack⟩

theorem reencoding_settles_half :
    let half : Primitive := .float ⟨0x3fe0000000000000⟩
    let document : Json := tagged "invocation" (.array [.null, .ofString "f",
      .array [tagged "primitive" (tagged "float" (.number ⟨false, ['0'], ['5'], none⟩))]])
    let e : Expr := .call "f" [.primitive half]
    (decodeText? Expr.ofJson? document.compact = some e ∧ ∀ p ∈ e.literals, p.ReadsBack) ∧
      Settles Expr.ofJson? Expr.toJson (fun e e' => e.same e') Expr.literals Expr.plain
        document.compact e ∧
      Settles Stmt.ofJson? Stmt.toJson (fun s s' => s.same s') Stmt.literals Stmt.plain
        (tagged "expression" document).compact (.expression e) ∧
      Settles Stmt.listOfJson? Stmt.listToJson (List.Forall₂ fun s s' => s.same s')
        Stmt.listLiterals (List.map Stmt.plain)
        (Json.array [tagged "expression" document]).compact [.expression e] := by
  intro half document e
  have nearest : (⟨false, ['0'], ['5'], none⟩ : Numeral).binary64? = some ⟨0x3fe0000000000000⟩ := by
    decide +kernel
  have numeral : (⟨false, ['0'], ['5'], none⟩ : Numeral).WellFormed :=
    ⟨List.forall_mem_singleton.mpr (by decide), by decide, by decide,
      List.forall_mem_singleton.mpr (by decide), nofun⟩
  have numbered : document.Numbered := by
    simpa [document] using ⟨trivial, numeral⟩
  have spelled {room : Nat} : e.Spells (room + 6) document :=
    .invocation (.array (by decide)) .null
      (.given (.array (.cons (.primitive (.float nearest)) .nil))) .missing
  have readsBack : ∀ p ∈ [half], p.ReadsBack :=
    List.forall_mem_singleton.mpr (by decide +kernel : Numeral.binary64? _ = some _)
  have read : decodeText? Expr.ofJson? document.compact = some e :=
    expr_understood.read_text numbered spelled
  refine ⟨⟨read, readsBack⟩, ?_, ?_, ?_⟩
  · exact reencoding_settles.1 _ e read readsBack
  · exact reencoding_settles.2.1 _ (.expression e)
      (stmt_understood.read_text (by simpa using numbered) (.expression spelled))
      readsBack
  · exact reencoding_settles.2.2 _ [.expression e]
      (list_understood.read_text (by simpa using numbered)
        (.array (.cons (.expression spelled) .nil))) readsBack

def arrays (inner : Json) : Nat → Json
  | 0 => inner
  | n + 1 => tagged "array_literal" (.array [inner.arrays n])

theorem numbered_arrays {inner : Json} (numbered : inner.Numbered) (n : Nat) :
    (inner.arrays n).Numbered := by
  induction n with
  | zero => exact numbered
  | succ n ih => simpa [arrays] using ih

theorem spells_arrays {room : Nat} {inner : Json} {e : Expr} (spelled : e.Spells room inner)
    (n : Nat) : (e.arrays n).Spells (room + 2 * n) (inner.arrays n) := by
  induction n with
  | zero => exact spelled
  | succ n ih => exact .arrayLiteral (.array (.cons ih .nil))

-- Returned, a call without its arguments in 62 arrays leaves no room for an array of arguments.
def bareCall : Json :=
  tagged "return" ((tagged "invocation" (record [("method", .ofString "f")])).arrays 62)

def bareCallStmt : Stmt := .returning (some ((Expr.call "f" []).arrays 62))

theorem bareCall_reencoded :
    decodeText? Stmt.ofJson? bareCall.compact = some bareCallStmt ∧ bareCallStmt.literals = [] ∧
      decodeText? Stmt.ofJson? bareCallStmt.toJson.compact = none := by
  have bare : (Expr.call "f" []).Spells 2
      (tagged "invocation" (record [("method", .ofString "f")])) :=
    .invocation (fields?_eq_some_iff.1 rfl) .missing .missing .missing
  have numbered : bareCall.Numbered := by
    simpa [bareCall] using numbered_arrays (by simp) 62
  have no_literals : bareCallStmt.literals = [] := Expr.literals_arrays _ 62
  have yields := bareCallStmt.yields_toJson (by simp [no_literals])
  have deep : bareCallStmt.toJson.depth = 128 := by
    simp [bareCallStmt, Stmt.toJson, Expr.optionalToJson, Expr.depth_toJson_arrays]
    rfl
  refine ⟨?_, no_literals, ?_⟩
  · exact stmt_understood.read_text numbered (.returning (.given (spells_arrays bare 62)))
  · rw [decodeText?_compact bareCallStmt.numbered_toJson yields, if_neg (by rw [deep]; decide)]

def zeroExpr (negative : Bool) : Expr :=
  .primitive (.decimal ⟨negative, 0, 28, by decide, by decide⟩)

theorem signedZero_reencoded :
    decodeText? Expr.ofJson?
        (tagged "primitive" (tagged "decimal" (.ofString "-0.4e-28"))).compact
      = some (zeroExpr true) ∧
      decodeText? Expr.ofJson? (zeroExpr true).toJson.compact = some (zeroExpr false) ∧
        (zeroExpr false).toJson.compact ≠ (zeroExpr true).toJson.compact := by
  have kept : ∀ p ∈ (zeroExpr true).literals, p.plain.Kept :=
    List.forall_mem_singleton.mpr ⟨fun _ => rfl, trivial⟩
  have yields : Yields Expr.ofJson? (zeroExpr true).toJson (zeroExpr false) :=
    Expr.yields_plain _ kept
  refine ⟨?_, ?_, fun same => ?_⟩
  · exact expr_understood.read_text (by simp) (.primitive (.decimalText (by decide)))
  · rw [decodeText?_compact (Expr.numbered_toJson _) yields, if_pos (by decide)]
  · have documents := congrArg ofText? same
    rw [ofText?_compact (Expr.numbered_toJson _), ofText?_compact (Expr.numbered_toJson _)]
      at documents
    simp only [zeroExpr, Expr.toJson, Primitive.toJson, tagged, ofString, Option.some.injEq,
      object.injEq, List.cons.injEq, Prod.mk.injEq, string.injEq, true_and, and_true] at documents
    exact absurd documents (by decide)

-- What is written out again for a text is not always read again, and not always settled at once,
-- even without any float.
theorem reencoding_changes :
    (decodeText? Stmt.ofJson? bareCall.compact = some bareCallStmt ∧
      (∀ p ∈ bareCallStmt.literals, p.ReadsBack) ∧
        decodeText? Stmt.ofJson? bareCallStmt.toJson.compact = none) ∧
    (decodeText? Expr.ofJson?
          (tagged "primitive" (tagged "decimal" (.ofString "-0.4e-28"))).compact
        = some (zeroExpr true) ∧
      (∀ p ∈ (zeroExpr true).literals, p.ReadsBack) ∧
        decodeText? Expr.ofJson? (zeroExpr true).toJson.compact = some (zeroExpr false) ∧
          (zeroExpr false).toJson.compact ≠ (zeroExpr true).toJson.compact) := by
  obtain ⟨read, no_literals, refused⟩ := bareCall_reencoded
  obtain ⟨signed, unsigned, differ⟩ := signedZero_reencoded
  have no_float : ∀ p ∈ (zeroExpr true).literals, p.ReadsBack :=
    List.forall_mem_singleton.mpr trivial
  exact ⟨⟨read, by simp [no_literals], refused⟩, signed, no_float, unsigned, differ⟩

end Json
end HotkeyScript
