import HotkeyScript.Json.Reader
import HotkeyScript.Proofs.Spelling
namespace HotkeyScript

namespace Json

variable {α : Type} {members : List (JsonText × Json)} {name : String}

theorem occursOnce_split {before after : List (JsonText × Json)} {value : Json} :
    occursOnce (before ++ (some name, value) :: after) name
      ↔ ∀ m ∈ before ++ after, m.1 ≠ some name := by
  rw [occursOnce, decide_eq_true_eq, List.filter_append, List.filter_cons_of_pos (by simp)]
  constructor
  · intro few m among same
    have matching : m ∈ before.filter (fun m => m.1 = some name)
        ++ after.filter (fun m => m.1 = some name) := by
      rw [← List.filter_append, List.mem_filter]
      exact ⟨among, decide_eq_true same⟩
    have := List.length_pos_of_mem matching
    simp only [List.length_append, List.length_cons] at few this
    omega
  · intro once
    have none_other : (before ++ after).filter (fun m => m.1 = some name) = [] :=
      List.filter_eq_nil_iff.mpr fun m among same => once m among (of_decide_eq_true same)
    rw [List.filter_append, List.append_eq_nil_iff] at none_other
    simp [none_other.1, none_other.2]

theorem field_iff {value : Option Json} :
    Field members name value ↔ occursOnce members name ∧ members.lookup (some name) = value := by
  constructor
  · intro field
    cases field with
    | missing absent =>
      have none_found : members.filter (fun m => m.1 = some name) = [] :=
        List.filter_eq_nil_iff.mpr fun m among same => absent m among (of_decide_eq_true same)
      refine ⟨by simp [occursOnce, none_found], List.lookup_eq_none_iff.mpr fun m among => ?_⟩
      exact bne_iff_ne.mpr (absent m among).symm
    | given found once =>
      subst found
      refine ⟨occursOnce_split.2 once, List.lookup_eq_some_iff.mpr ⟨_, _, rfl, fun m among => ?_⟩⟩
      exact bne_iff_ne.mpr (once m (List.mem_append_left _ among)).symm
  · rintro ⟨once, found⟩
    cases value with
    | none =>
      exact .missing fun m among => (bne_iff_ne.mp (List.lookup_eq_none_iff.mp found m among)).symm
    | some value =>
      obtain ⟨before, after, rfl, _⟩ := List.lookup_eq_some_iff.mp found
      exact .given rfl (occursOnce_split.1 once)

theorem fields_iff {names : List String} {values : List (Option Json)} :
    List.Forall₂ (Field members) names values ↔
      (∀ name ∈ names, occursOnce members name) ∧
        names.map (fun name => members.lookup (some name)) = values := by
  induction names generalizing values with
  | nil => cases values <;> simp
  | cons name rest ih =>
    cases values with
    | nil => simp
    | cons value values =>
      rw [List.forall₂_cons, ih, field_iff, List.forall_mem_cons, List.map_cons, List.cons.injEq]
      grind

theorem fields?_eq_some_iff {names : List String} {j : Json} {values : List (Option Json)} :
    j.fields? names = some values ↔ Record names j values := by
  constructor
  · intro read
    cases j with
    | object members =>
      rw [fields?, Option.ite_none_right_eq_some, Bool.and_eq_true] at read
      obtain ⟨⟨keys, once⟩, found⟩ := read
      exact .object (by simpa using keys)
        (fields_iff.2 ⟨by simpa using once, Option.some.inj found⟩)
    | array items =>
      rw [fields?, Option.ite_none_right_eq_some] at read
      obtain ⟨fit, found⟩ := read
      exact Option.some.inj found ▸ .array fit
    | _ => cases read
  · intro record
    cases record with
    | object keys fields =>
      obtain ⟨once, found⟩ := fields_iff.1 fields
      rw [fields?, if_pos, found]
      simp only [Bool.and_eq_true, List.all_eq_true]
      exact ⟨keys, once⟩
    | array fit => exact if_pos fit

theorem name?_eq_some_iff {j : Json} {room : Nat} :
    j.name? room = some name ↔ Named name room j := by
  constructor
  · intro read
    unfold name? at read
    split at read
    · subst read; exact .string
    · split at read
      · cases read
        cases room with
        | zero => contradiction
        | succ room => exact .object
      · cases read
    · cases read
  · rintro (_ | _) <;> simp [name?, ofString, tagged]

theorem name?_tagged_ne {tag : String} {j : Json} {room : Nat} (other : tag ≠ name) :
    (tagged tag j).name? room ≠ some name := by
  intro same
  cases name?_eq_some_iff.1 same
  exact other rfl

theorem mapM_eq_some_iff {read : Json → Option α} {spells : Json → α → Prop}
    (reads : ∀ {j : Json} {a : α}, read j = some a ↔ spells j a) {items : List Json}
    {list : List α} : items.mapM read = some list ↔ List.Forall₂ spells items list := by
  induction items generalizing list with
  | nil => cases list <;> simp
  | cons item rest ih =>
    cases list <;> simp [List.mapM_cons, Option.bind_eq_some_iff, reads, ih]

theorem flag_iff {marker : Option Json} {value : Bool} :
    orDefault? false bool? marker = some value ↔ Flag marker value := by
  constructor
  · intro read
    cases marker with
    | none => exact Option.some.inj read ▸ .missing
    | some j =>
      cases j <;> cases read
      exact .given
  · rintro (_ | _) <;> rfl

theorem text?_eq_some_iff {j : Json} {text : String} : j.text? = some text ↔ j = ofString text := by
  cases j <;> simp [text?, ofString]

end Json

open Json

namespace Primitive

theorem char?_eq_some_iff {j : Json} {c : Char} :
    char? j = some c ↔ j = .ofString (String.singleton c) := by
  constructor
  · intro read
    unfold char? at read
    split at read
    · next c' spelled =>
      obtain ⟨text, own, listed⟩ := Option.map_eq_some_iff.mp spelled
      cases read
      rw [text?_eq_some_iff.mp own, ← String.ofList_toList (s := text), listed]
      rfl
    · cases read
  · rintro rfl
    simp [char?, ofString, Json.text?]

theorem int64?_eq_some_iff {value : Int} {word : Int64} :
    int64? value = some word ↔ value = word.toInt := by
  have least : Int64.minValue.toInt = -9223372036854775808 := by decide
  have greatest : Int64.maxValue.toInt = 9223372036854775807 := by decide
  have low := word.le_toInt
  have high := word.toInt_lt
  rw [int64?, Option.ite_none_right_eq_some, Bool.and_eq_true, decide_eq_true_eq,
    decide_eq_true_eq, least, greatest, Option.some.injEq]
  constructor
  · rintro ⟨within, rfl⟩
    rw [Int64.toInt_ofInt_of_le (by omega) (by omega)]
  · rintro rfl
    exact ⟨by omega, Int64.ofInt_toInt word⟩

theorem integer_iff {n : Numeral} {word : Int64} :
    n.integer?.bind int64? = some word ↔
      (n.fraction = [] ∧ n.exponent = none) ∧
        (if n.negative then -(Numeral.digitsValue n.whole : Int)
          else Numeral.digitsValue n.whole) = word.toInt ∧
        (n.negative → word ≠ 0) := by
  have low := word.le_toInt
  have high := word.toInt_lt
  have zero : word = 0 ↔ word.toInt = 0 := by rw [← Int64.toInt_inj, Int64.toInt_zero]
  have signed : Numeral.signedBound = 9223372036854775808 := rfl
  have unsigned : Numeral.wordBound = 18446744073709551616 := rfl
  simp only [Option.bind_eq_some_iff, int64?_eq_some_iff, exists_eq_right, Numeral.integer?,
    Option.ite_none_right_eq_some, Bool.and_eq_true, List.isEmpty_iff, Option.isNone_iff_eq_none,
    ne_eq, zero]
  refine and_congr_right fun _ => ?_
  generalize Numeral.digitsValue n.whole = digits
  cases n.negative with
  | true =>
    simp only [if_true, Option.ite_none_right_eq_some, decide_eq_true_eq, Option.some.injEq,
      true_implies]
    omega
  | false =>
    simp only [Bool.false_eq_true, if_false, Option.ite_none_right_eq_some, Option.some.injEq,
      false_implies, and_true]
    omega

theorem spells_of_ofPayload? {room : Nat} {tag : String} {payload : Json} {value : Primitive}
    (read : ofPayload? tag payload = some value) :
    value.Spells (room + 1) (.tagged tag payload) := by
  unfold ofPayload? at read
  split at read
  · obtain ⟨text, own, rfl⟩ := Option.map_eq_some_iff.mp read
    rw [text?_eq_some_iff.mp own]
    exact .string
  · obtain ⟨value, own, rfl⟩ := Option.map_eq_some_iff.mp read
    cases payload <;> cases own
    exact .boolean
  · obtain ⟨whole, own, exact⟩ := Option.bind_eq_some_iff.mp read
    obtain ⟨word, fits, rfl⟩ := Option.map_eq_some_iff.mp exact
    cases payload <;> try cases own
    next n =>
      obtain ⟨plain, digits, unsigned⟩ :=
        integer_iff.1 (Option.bind_eq_some_iff.mpr ⟨whole, own, fits⟩)
      exact .integer plain digits unsigned
  · obtain ⟨value, own, rfl⟩ := Option.map_eq_some_iff.mp read
    cases payload <;> try cases own
    exact .float own
  · obtain ⟨value, own, rfl⟩ := Option.map_eq_some_iff.mp read
    cases payload with
    | string text =>
      obtain ⟨text, rfl, own⟩ := Option.bind_eq_some_iff.mp own
      exact .decimalText own
    | number n => exact .decimalNumber own
    | _ => cases own
  · obtain ⟨value, own, rfl⟩ := Option.map_eq_some_iff.mp read
    rw [char?_eq_some_iff.1 own]
    exact .char
  · cases read

theorem ofJson?_tagged {room : Nat} {tag : String} {payload : Json} {value : Primitive}
    (data : payload ≠ .null) (read : ofPayload? tag payload = some value) :
    ofJson? (room + 1) (.tagged tag payload) = some value := by
  unfold ofJson?
  rw [name?_tagged data, if_neg nofun]
  exact read

theorem ofJson?_eq_some_iff {room : Nat} {j : Json} {value : Primitive} :
    ofJson? room j = some value ↔ value.Spells room j := by
  constructor
  · intro read
    unfold ofJson? at read
    split at read
    · next named => exact Option.some.inj read ▸ .null (name?_eq_some_iff.1 named)
    · split at read
      · exact spells_of_ofPayload? read
      · cases read
  · intro spelled
    cases spelled with
    | null named =>
      unfold ofJson?
      rw [if_pos (name?_eq_some_iff.2 named)]
    | string => exact ofJson?_tagged nofun rfl
    | boolean => exact ofJson?_tagged nofun rfl
    | integer plain digits unsigned =>
      obtain ⟨whole, own, fits⟩ :=
        Option.bind_eq_some_iff.mp (integer_iff.2 ⟨plain, digits, unsigned⟩)
      exact ofJson?_tagged nofun (by simp [ofPayload?, numeral?, own, fits])
    | float nearest => exact ofJson?_tagged nofun (congrArg (Option.map Primitive.float) nearest)
    | decimalText read => exact ofJson?_tagged nofun (congrArg (Option.map Primitive.decimal) read)
    | decimalNumber read =>
      exact ofJson?_tagged nofun (congrArg (Option.map Primitive.decimal) read)
    | char =>
      exact ofJson?_tagged nofun (congrArg (Option.map Primitive.char) (char?_eq_some_iff.2 rfl))

end Primitive

theorem TypeRef.ofJson?_eq_some_iff {room : Nat} {j : Json} {type : TypeRef} :
    ofJson? room j = some type ↔ type.Spells room j := by
  constructor
  · intro read
    cases room with
    | zero => cases read
    | succ room =>
      obtain ⟨values, found, named⟩ := Option.bind_eq_some_iff.mp read
      split at named
      · simp only [Option.bind_eq_bind, Option.bind_eq_some_iff, Option.some.injEq,
          text?_eq_some_iff, flag_iff] at named
        obtain ⟨name, rfl, flag, marked, rfl⟩ := named
        exact .record (fields?_eq_some_iff.1 found) marked
      · cases named
  · rintro ⟨record, marked⟩
    refine Option.bind_eq_some_iff.mpr ⟨_, fields?_eq_some_iff.2 record, ?_⟩
    simp [flag_iff.mpr marked]

theorem BinaryOperator.ofCode?_eq_some_iff {code : String} {o : BinaryOperator} :
    ofCode? code = some o ↔ code = o.code := by
  constructor
  · intro found
    have named := List.find?_some found
    exact (of_decide_eq_true named).symm
  · rintro rfl
    exact ofCode?_code o

theorem BinaryOperator.ofJson?_eq_some_iff {room : Nat} {j : Json} {o : BinaryOperator} :
    ofJson? room j = some o ↔ Named o.code room j := by
  simp [ofJson?, Option.bind_eq_some_iff, name?_eq_some_iff, ofCode?_eq_some_iff]

namespace Expr

def ReadsSpelled (room : Nat) : Prop :=
  ∀ less ≤ room, ∀ j e, ofJson? less j = some e → e.Spells less j

theorem ReadsSpelled.own {room : Nat} {j : Json} {e : Expr} (sound : ReadsSpelled room)
    (read : ofJson? room j = some e) : e.Spells room j :=
  sound room room.le_refl j e read

theorem ReadsSpelled.less {room : Nat} (sound : ReadsSpelled (room + 1)) : ReadsSpelled room :=
  fun less within => sound less (Nat.le_succ_of_le within)

section Soundness

variable {room : Nat} (sound : ReadsSpelled room)
include sound

theorem optionalSpells_of_read {j : Option Json} {target : Option Expr}
    (read : optional? (ofJson? room) j = some target) : OptionalSpells room j target := by
  unfold optional? at read
  split at read
  · exact Option.some.inj read ▸ .missing
  · exact Option.some.inj read ▸ .null
  · obtain ⟨e, own, rfl⟩ := Option.map_eq_some_iff.mp read
    exact .given (sound.own own)

theorem listSpells_of_read {j : Json} {list : List Expr}
    (read : listOfJson? room j = some list) : ListSpells room j list := by
  cases room with
  | zero => cases read
  | succ inside =>
    cases j with
    | array items =>
      refine .array ?_
      change items.mapM (ofJson? inside) = some list at read
      induction items generalizing list with
      | nil => exact Option.some.inj read ▸ .nil
      | cons item rest ih =>
        simp only [List.mapM_cons, Option.bind_eq_bind, Option.bind_eq_some_iff,
          Option.pure_def, Option.some.injEq] at read
        obtain ⟨e, own, others, later, rfl⟩ := read
        exact .cons (sound inside inside.le_succ item e own) (ih later)
    | _ => cases read

theorem invocation_spelled {j : Json} {e : Expr} (read : invocationOfJson? room j = some e) :
    e.Spells (room + 1) (.tagged "invocation" j) := by
  obtain _ | room := room
  · cases read
  have sound := sound.less
  obtain ⟨values, found, named⟩ := Option.bind_eq_some_iff.mp read
  split at named
  · next args _ =>
    simp only [Option.bind_eq_bind, Option.bind_eq_some_iff, Option.some.injEq,
      text?_eq_some_iff, flag_iff] at named
    obtain ⟨target, on, method, rfl, list, given, flag, marked, rfl⟩ := named
    have spelled_args : ArgsSpell room args list := by
      cases args with
      | none => exact Option.some.inj given ▸ .missing
      | some args => exact .given (listSpells_of_read sound given)
    exact .invocation (fields?_eq_some_iff.1 found) (optionalSpells_of_read sound on)
      spelled_args marked
  · cases named

theorem binaryOp_spelled {j : Json} {e : Expr} (read : binaryOpOfJson? room j = some e) :
    e.Spells (room + 1) (.tagged "binary_op" j) := by
  obtain _ | room := room
  · cases read
  have sound := sound.less
  obtain ⟨values, found, named⟩ := Option.bind_eq_some_iff.mp read
  split at named
  · simp only [Option.bind_eq_bind, Option.bind_eq_some_iff, Option.some.injEq,
      BinaryOperator.ofJson?_eq_some_iff] at named
    obtain ⟨operator, operates, left, first, right, second, rfl⟩ := named
    exact .binaryOp (fields?_eq_some_iff.1 found) operates (sound.own first) (sound.own second)
  · cases named

theorem ternaryOp_spelled {j : Json} {e : Expr} (read : ternaryOpOfJson? room j = some e) :
    e.Spells (room + 1) (.tagged "ternary_op" j) := by
  obtain _ | room := room
  · cases read
  have sound := sound.less
  obtain ⟨values, found, named⟩ := Option.bind_eq_some_iff.mp read
  split at named
  · simp only [Option.bind_eq_bind, Option.bind_eq_some_iff, Option.some.injEq] at named
    obtain ⟨condition, first, whenTrue, second, whenFalse, third, rfl⟩ := named
    exact .ternaryOp (fields?_eq_some_iff.1 found) (sound.own first) (sound.own second)
      (sound.own third)
  · cases named

theorem fieldRef_spelled {j : Json} {e : Expr} (read : fieldRefOfJson? room j = some e) :
    e.Spells (room + 1) (.tagged "field_ref" j) := by
  obtain _ | room := room
  · cases read
  have sound := sound.less
  obtain ⟨values, found, named⟩ := Option.bind_eq_some_iff.mp read
  split at named
  · simp only [Option.bind_eq_bind, Option.bind_eq_some_iff, Option.some.injEq,
      text?_eq_some_iff] at named
    obtain ⟨target, on, field, rfl, rfl⟩ := named
    exact .fieldRef (fields?_eq_some_iff.1 found) (optionalSpells_of_read sound on)
  · cases named

theorem cast_spelled {j : Json} {e : Expr} (read : castOfJson? room j = some e) :
    e.Spells (room + 1) (.tagged "cast" j) := by
  obtain _ | room := room
  · cases read
  have sound := sound.less
  obtain ⟨values, found, named⟩ := Option.bind_eq_some_iff.mp read
  split at named
  · simp only [Option.bind_eq_bind, Option.bind_eq_some_iff, Option.some.injEq,
      text?_eq_some_iff] at named
    obtain ⟨targetType, rfl, expr, inner, rfl⟩ := named
    exact .cast (fields?_eq_some_iff.1 found) (sound.own inner)
  · cases named

end Soundness

theorem name_spelled {room : Nat} (sound : ReadsSpelled room) {j : Json} {name : QualifiedName}
    (read : QualifiedName.ofJson? room j = some name) : name.Spells room j := by
  obtain _ | room := room
  · cases read
  have sound := sound.less
  unfold QualifiedName.ofJson? at read
  split at read
  · split at read
    · obtain ⟨text, own, rfl⟩ := Option.map_eq_some_iff.mp read
      rw [text?_eq_some_iff.mp own]
      exact .literal
    · obtain ⟨segments, own, rfl⟩ := Option.map_eq_some_iff.mp read
      exact .parts (listSpells_of_read sound own)
    · cases read
  · cases read

-- The form of a node takes some of the room, so its parts are read in less.
theorem spelled_of_opened {room : Nat} (sound : ReadsSpelled room) {j : Json} {e : Expr}
    (read : ofJson? (room + 1) j = some e) : e.Spells (room + 1) j := by
  unfold ofJson? at read
  split at read
  · next named => exact Option.some.inj read ▸ .this (name?_eq_some_iff.1 named)
  · split at read
    · split at read
      · exact invocation_spelled sound read
      · obtain ⟨elements, own, rfl⟩ := Option.map_eq_some_iff.mp read
        exact .arrayLiteral (listSpells_of_read sound own)
      · obtain ⟨value, own, rfl⟩ := Option.map_eq_some_iff.mp read
        exact .primitive (Primitive.ofJson?_eq_some_iff.1 own)
      · exact binaryOp_spelled sound read
      · exact ternaryOp_spelled sound read
      · obtain ⟨name, own, rfl⟩ := Option.map_eq_some_iff.mp read
        exact .complexReference (name_spelled sound own)
      · obtain ⟨name, own, rfl⟩ := Option.map_eq_some_iff.mp read
        rw [text?_eq_some_iff.mp own]
        exact .variableRef
      · exact fieldRef_spelled sound read
      · obtain ⟨type, own, rfl⟩ := Option.map_eq_some_iff.mp read
        exact .typeRef (TypeRef.ofJson?_eq_some_iff.1 own)
      · exact cast_spelled sound read
      · cases read
    · cases read

theorem readsSpelled (room : Nat) : ReadsSpelled room := by
  induction room with
  | zero =>
    -- Only a node without data is read where nothing may be opened.
    intro less within j e read
    cases Nat.le_zero.mp within
    unfold ofJson? at read
    rw [Option.ite_none_right_eq_some] at read
    exact Option.some.inj read.2 ▸ .this (name?_eq_some_iff.1 read.1)
  | succ room sound =>
    intro less within j e read
    obtain within | rfl := Nat.le_succ_iff.mp within
    · exact sound less within j e read
    · exact spelled_of_opened sound read

theorem ofJson?_tagged {room : Nat} {tag : String} (payload : Json) :
    tag ≠ "this" → ofJson? (room + 1) (.tagged tag payload)
      = match tag with
        | "invocation" => Expr.invocationOfJson? room payload
        | "array_literal" => (Expr.listOfJson? room payload).map .arrayLiteral
        | "primitive" => (Primitive.ofJson? room payload).map .primitive
        | "binary_op" => Expr.binaryOpOfJson? room payload
        | "ternary_op" => Expr.ternaryOpOfJson? room payload
        | "complex_reference" => (QualifiedName.ofJson? room payload).map .complexReference
        | "variable_ref" => payload.text?.map .variableRef
        | "field_ref" => Expr.fieldRefOfJson? room payload
        | "type_ref" => (TypeRef.ofJson? room payload).map .typeRef
        | "cast" => Expr.castOfJson? room payload
        | _ => none := by
  intro form
  unfold ofJson?
  rw [if_neg (name?_tagged_ne form)]
  rfl

theorem optional?_of_spelled {room : Nat} {j : Json} {e : Expr} (spelled : e.Spells room j)
    (read : ofJson? room j = some e) : optional? (ofJson? room) (some j) = some (some e) := by
  have data : j ≠ .null := by
    rintro rfl
    nomatch spelled
  rw [optional?_of_ne_null data, read]
  rfl

end Expr

mutual

theorem Expr.Spells.read {room : Nat} {j : Json} {e : Expr} :
    e.Spells room j → Expr.ofJson? room j = some e
  | .invocation record on args marked => by
    simp [Expr.ofJson?_tagged, Expr.invocationOfJson?, fields?_eq_some_iff.2 record, on.read,
      args.read, flag_iff.mpr marked]
  | .arrayLiteral spelled => by
    simp [Expr.ofJson?_tagged, spelled.read]
  | .primitive spelled => by simp [Expr.ofJson?_tagged, Primitive.ofJson?_eq_some_iff.2 spelled]
  | .binaryOp record operates left right => by
    simp [Expr.ofJson?_tagged, Expr.binaryOpOfJson?, fields?_eq_some_iff.2 record,
      BinaryOperator.ofJson?_eq_some_iff.2 operates, left.read, right.read]
  | .ternaryOp record condition whenTrue whenFalse => by
    simp [Expr.ofJson?_tagged, Expr.ternaryOpOfJson?, fields?_eq_some_iff.2 record,
      condition.read, whenTrue.read, whenFalse.read]
  | .complexReference spelled => by simp [Expr.ofJson?_tagged, spelled.read]
  | .variableRef => rfl
  | .fieldRef record on => by
    simp [Expr.ofJson?_tagged, Expr.fieldRefOfJson?, fields?_eq_some_iff.2 record, on.read]
  | .typeRef spelled => by simp [Expr.ofJson?_tagged, TypeRef.ofJson?_eq_some_iff.2 spelled]
  | .this named => by
    unfold Expr.ofJson?
    split <;> rw [if_pos (name?_eq_some_iff.2 named)]
  | .cast record spelled => by
    simp [Expr.ofJson?_tagged, Expr.castOfJson?, fields?_eq_some_iff.2 record, spelled.read]

theorem QualifiedName.Spells.read {room : Nat} {j : Json} {name : QualifiedName} :
    name.Spells room j → QualifiedName.ofJson? room j = some name
  | .literal => rfl
  | .parts spelled => congrArg (Option.map QualifiedName.parts) spelled.read

theorem Expr.OptionalSpells.read {room : Nat} {j : Option Json} {target : Option Expr} :
    Expr.OptionalSpells room j target → optional? (Expr.ofJson? room) j = some target
  | .missing => rfl
  | .null => rfl
  | .given spelled => Expr.optional?_of_spelled spelled spelled.read

theorem Expr.ArgsSpell.read {room : Nat} {j : Option Json} {list : List Expr} :
    Expr.ArgsSpell room j list → orDefault? [] (Expr.listOfJson? room) j = some list
  | .missing => rfl
  | .given spelled => spelled.read

theorem Expr.ListSpells.read {room : Nat} {j : Json} {list : List Expr} :
    Expr.ListSpells room j list → Expr.listOfJson? room j = some list
  | .array spelled => spelled.read

theorem Expr.ItemsSpell.read {room : Nat} {items : List Json} {list : List Expr} :
    Expr.ItemsSpell room items list → items.mapM (Expr.ofJson? room) = some list
  | .nil => rfl
  | .cons first others => by simp [List.mapM_cons, first.read, others.read]

end

theorem Expr.ofJson?_eq_some_iff {room : Nat} {j : Json} {e : Expr} :
    ofJson? room j = some e ↔ e.Spells room j :=
  ⟨fun read => (readsSpelled room).own read, fun spelled => spelled.read⟩

theorem Expr.optional?_eq_some_iff {room : Nat} {j : Option Json} {target : Option Expr} :
    optional? (ofJson? room) j = some target ↔ OptionalSpells room j target :=
  ⟨optionalSpells_of_read (readsSpelled room), fun spelled => spelled.read⟩

namespace Stmt

theorem variableDeclaration_spelled {room : Nat} {j : Json} {s : Stmt}
    (read : variableDeclarationOfJson? room j = some s) :
    s.Spells (room + 1) (.tagged "variable_declaration" j) := by
  obtain _ | room := room
  · cases read
  obtain ⟨values, found, named⟩ := Option.bind_eq_some_iff.mp read
  split at named
  · simp only [Option.bind_eq_bind, Option.bind_eq_some_iff, Option.some.injEq,
      text?_eq_some_iff, Expr.optional?_eq_some_iff] at named
    obtain ⟨name, rfl, init, spelled, rfl⟩ := named
    exact .variableDeclaration (fields?_eq_some_iff.1 found) spelled
  · cases named

theorem assignment_spelled {room : Nat} {j : Json} {s : Stmt}
    (read : assignmentOfJson? room j = some s) :
    s.Spells (room + 1) (.tagged "assignment" j) := by
  obtain _ | room := room
  · cases read
  obtain ⟨values, found, named⟩ := Option.bind_eq_some_iff.mp read
  split at named
  · simp only [Option.bind_eq_bind, Option.bind_eq_some_iff, Option.some.injEq,
      Expr.ofJson?_eq_some_iff] at named
    obtain ⟨left, first, right, second, rfl⟩ := named
    exact .assignment (fields?_eq_some_iff.1 found) first second
  · cases named

theorem spells_of_ofJson? {room : Nat} {j : Json} {s : Stmt} (read : ofJson? room j = some s) :
    s.Spells room j := by
  unfold ofJson? at read
  split at read
  · cases read
  · next room =>
    split at read
    · split at read
      · obtain ⟨expr, own, rfl⟩ := Option.map_eq_some_iff.mp read
        exact .expression (Expr.ofJson?_eq_some_iff.1 own)
      · exact variableDeclaration_spelled read
      · exact assignment_spelled read
      · obtain ⟨value, own, rfl⟩ := Option.map_eq_some_iff.mp read
        exact .returning (Expr.optional?_eq_some_iff.1 own)
      · obtain ⟨label, own, rfl⟩ := Option.map_eq_some_iff.mp read
        rw [text?_eq_some_iff.mp own]
        exact .goto
      · cases read
    · cases read

theorem Spells.read {room : Nat} {j : Json} {s : Stmt} (spelled : s.Spells room j) :
    ofJson? room j = some s := by
  cases spelled with
  | expression spelled => exact congrArg (Option.map Stmt.expression) spelled.read
  | variableDeclaration record spelled =>
    change variableDeclarationOfJson? (_ + 1) _ = _
    simp [variableDeclarationOfJson?, fields?_eq_some_iff.2 record, spelled.read]
  | assignment record left right =>
    change assignmentOfJson? (_ + 1) _ = _
    simp [assignmentOfJson?, fields?_eq_some_iff.2 record, left.read, right.read]
  | returning spelled => exact congrArg (Option.map Stmt.returning) spelled.read
  | goto => rfl

theorem ofJson?_eq_some_iff {room : Nat} {j : Json} {s : Stmt} :
    ofJson? room j = some s ↔ s.Spells room j :=
  ⟨spells_of_ofJson?, Spells.read⟩

theorem listOfJson?_eq_some_iff {room : Nat} {j : Json} {list : List Stmt} :
    listOfJson? room j = some list ↔ ListSpells room j list := by
  constructor
  · intro read
    unfold listOfJson? at read
    split at read
    · cases read
    · split at read
      · exact .array ((mapM_eq_some_iff ofJson?_eq_some_iff).mp read)
      · cases read
  · rintro ⟨each⟩
    exact (mapM_eq_some_iff ofJson?_eq_some_iff).mpr each

end Stmt

namespace Json

def Represents {α : Type} (spells : Nat → Json → α → Prop) (j : Json) (a : α) : Prop :=
  ∃ room, spells room j a

-- Reading gives the one value that a document stands for, and nothing from a document that stands
-- for none. From a text it does so where the document keeps within the limit on nesting.
structure ReadsExactly {α : Type} (read : Nat → Json → Option α)
    (spells : Nat → Json → α → Prop) : Prop where
  accepts : ∀ j a, decode? read j = some a ↔ Represents spells j a
  refuses : ∀ j, decode? read j = none ↔ ∀ a, ¬ Represents spells j a
  unique : ∀ j a b, Represents spells j a → Represents spells j b → a = b
  limited : ∀ text a,
    decodeText? read text = some a ↔ ∃ j, ofText? text = some j ∧ spells nestingLimit j a

theorem readsExactly_of_spells {α : Type} {read : Nat → Json → Option α}
    {spells : Nat → Json → α → Prop}
    (reads : ∀ {room : Nat} {j : Json} {a : α}, read room j = some a ↔ spells room j a)
    (fits : ∀ {room : Nat} {j : Json} {a : α}, spells room j a → spells j.depth j a) :
    ReadsExactly read spells := by
  have accepts (j : Json) (a : α) : decode? read j = some a ↔ Represents spells j a :=
    ⟨fun decoded => ⟨_, reads.1 decoded⟩,
      fun ⟨_, spelled⟩ => reads.2 (fits spelled)⟩
  refine ⟨accepts, fun j => ?_, fun j a b first second => ?_, fun text a => ?_⟩
  · simp only [Option.eq_none_iff_forall_ne_some, ne_eq, accepts]
  · exact Option.some.inj (((accepts j a).mpr first).symm.trans ((accepts j b).mpr second))
  · simp only [decodeText?, Option.bind_eq_some_iff, reads]

-- Expressions, statements and lists of statements are read from exactly the documents that spell
-- them, and no document spells two.
theorem decode_exact :
    ReadsExactly Expr.ofJson? Expr.Spells ∧ ReadsExactly Stmt.ofJson? Stmt.Spells ∧
      ReadsExactly Stmt.listOfJson? Stmt.ListSpells :=
  ⟨readsExactly_of_spells Expr.ofJson?_eq_some_iff fun spelled => spelled.fits (Nat.le_refl _),
    readsExactly_of_spells Stmt.ofJson?_eq_some_iff fun spelled => spelled.fits (Nat.le_refl _),
    readsExactly_of_spells Stmt.listOfJson?_eq_some_iff fun spelled =>
      spelled.fits (Nat.le_refl _)⟩

example : Represents Expr.Spells
    (tagged "invocation" (.array [.null, .ofString "f"])) (.call "f" []) :=
  ⟨2, .invocation (.array (by decide)) .null .missing .missing⟩

end Json

end HotkeyScript
