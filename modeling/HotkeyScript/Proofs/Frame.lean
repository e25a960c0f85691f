import HotkeyScript.Proofs.Layout
namespace HotkeyScript

-- An expression with one of its own expressions left out.
inductive Frame where
  | inTarget (method : String) (args : List Expr) (marker : Bool)
  | inArgument (target : Option Expr) (method : String) (first rest : List Expr) (marker : Bool)
  | inElement (first rest : List Expr)
  | inLeft (operator : BinaryOperator) (right : Expr)
  | inRight (operator : BinaryOperator) (left : Expr)
  | inCondition (whenTrue whenFalse : Expr)
  | inWhenTrue (condition whenFalse : Expr)
  | inWhenFalse (condition whenTrue : Expr)
  | inSegment (first rest : List Expr)
  | inOwner (field : String)

namespace Frame

def fill : Frame → Expr → Expr
  | .inTarget method args marker, e => .invocation (some e) method args marker
  | .inArgument target method first rest marker, e =>
    .invocation target method (first ++ e :: rest) marker
  | .inElement first rest, e => .arrayLiteral (first ++ e :: rest)
  | .inLeft operator right, e => .binaryOp operator e right
  | .inRight operator left, e => .binaryOp operator left e
  | .inCondition whenTrue whenFalse, e => .ternaryOp e whenTrue whenFalse
  | .inWhenTrue condition whenFalse, e => .ternaryOp condition e whenFalse
  | .inWhenFalse condition whenTrue, e => .ternaryOp condition whenTrue e
  | .inSegment first rest, e => .complexReference (.parts (first ++ e :: rest))
  | .inOwner field, e => .fieldRef (some e) field

def isSegment : Frame → Bool
  | .inSegment .. => true
  | _ => false

theorem kind_fill (frame : Frame) (a b : Expr) : (frame.fill a).kind = (frame.fill b).kind := by
  cases frame <;> rfl

theorem isInternalType_fill (frame : Frame) (e : Expr) : (frame.fill e).isInternalType = false := by
  cases frame <;> rfl

end Frame

abbrev Place := List Frame

namespace Place

def fill (place : Place) (e : Expr) : Expr := place.foldr Frame.fill e

def inSegment (place : Place) : Bool := place.getLast?.any Frame.isSegment

def patch (place : Place) (text : String) : Expr :=
  if place.inSegment then .string text else .var text

theorem inSegment_append (outer inner : Place) (deeper : inner ≠ []) :
    inSegment (outer ++ inner) = inner.inSegment := by
  simp only [inSegment, List.getLast?_append]
  cases last : inner.getLast? with
  | none => exact absurd (List.getLast?_eq_none_iff.mp last) deeper
  | some frame => rfl

theorem inSegment_cons {frame : Frame} {place : Place} (outer : frame.isSegment = false)
    (inner : place.inSegment = false) : inSegment (frame :: place) = false := by
  cases place with
  | nil => simpa [inSegment] using outer
  | cons next rest => exact (inSegment_append [frame] (next :: rest) (by simp)).trans inner

theorem patch_append {outer inner : Place} (text : String)
    (plain : inner = [] → outer.inSegment = false) :
    patch (outer ++ inner) text = inner.patch text := by
  cases inner with
  | nil =>
    rw [List.append_nil, patch, plain rfl]
    rfl
  | cons frame rest => simp only [patch, inSegment_append outer (frame :: rest) (by simp)]

end Place

namespace Layout

-- The layout has the part `c`, and `before` is what stands before it.
def Reaches (l before : Layout) (d : Descent) (c : Expr) : Prop :=
  ∃ after, l = before ++ .part d c :: after

variable {before : Layout} {d : Descent} {c : Expr}

@[simp] theorem reaches_nil : ¬ Reaches [] before d c := by simp [Reaches]

@[simp] theorem reaches_fixed (written : Emission) (l : Layout) :
    Reaches (.fixed written :: l) before d c
      ↔ ∃ after, before = .fixed written :: after ∧ l.Reaches after d c := by
  constructor
  · rintro ⟨rest, split⟩
    cases before with
    | nil => cases split
    | cons item after =>
      obtain ⟨rfl, further⟩ := List.cons.inj split
      exact ⟨after, rfl, rest, further⟩
  · rintro ⟨after, rfl, rest, rfl⟩
    exact ⟨rest, rfl⟩

@[simp] theorem reaches_part (descent : Descent) (e : Expr) (l : Layout) :
    Reaches (.part descent e :: l) before d c
      ↔ (before = [] ∧ d = descent ∧ c = e) ∨
        ∃ after, before = .part descent e :: after ∧ l.Reaches after d c := by
  constructor
  · rintro ⟨rest, split⟩
    cases before with
    | nil =>
      cases split
      exact .inl ⟨rfl, rfl, rfl⟩
    | cons item after =>
      obtain ⟨rfl, further⟩ := List.cons.inj split
      exact .inr ⟨after, rfl, rest, further⟩
  · rintro (⟨rfl, rfl, rfl⟩ | ⟨after, rfl, rest, rfl⟩)
    · exact ⟨l, rfl⟩
    · exact ⟨rest, rfl⟩

@[simp] theorem reaches_append (first second : Layout) :
    Reaches (first ++ second) before d c
      ↔ first.Reaches before d c ∨ ∃ after, before = first ++ after ∧ second.Reaches after d c := by
  induction first generalizing before with
  | nil => simp
  | cons item first ih =>
    cases item with
    | fixed written =>
      simp only [List.cons_append, reaches_fixed, ih]
      grind
    | part descent e =>
      simp only [List.cons_append, reaches_part, ih]
      grind

theorem reaches_operands {d₁ d₂ : Descent} {a b : Expr} {written : Emission} {l : Layout} :
    Reaches (.part d₁ a :: .fixed written :: .part d₂ b :: l) before d c
      ↔ (before = [] ∧ d = d₁ ∧ c = a) ∨
        (before = [.part d₁ a, .fixed written] ∧ d = d₂ ∧ c = b) ∨
        ∃ after, before = .part d₁ a :: .fixed written :: .part d₂ b :: after
          ∧ l.Reaches after d c := by
  simp only [reaches_part, reaches_fixed]
  grind

theorem reaches_parenthesizedUnless (bare : Bool) (body : Layout) :
    (parenthesizedUnless bare body).Reaches before d c
      ↔ ∃ inner, before = (if bare then [] else [.fixed (.text Token.parenOpen)]) ++ inner
        ∧ body.Reaches inner d c := by
  cases bare with
  | true => simp [parenthesizedUnless]
  | false =>
    simp only [parenthesizedUnless, Bool.false_eq_true, if_false, List.cons_append,
      List.nil_append, reaches_fixed, reaches_append, reaches_nil, and_false, exists_false,
      or_false]

@[simp] theorem not_reaches_refusal (cause : Malformation) :
    ¬ (refusal cause).Reaches before d c := by simp [refusal]

theorem reaches_separated {ls : List Layout} (reached : (separated ls).Reaches before d c) :
    ∃ first l rest lead inner, ls = first ++ l :: rest ∧ before = lead ++ inner ∧
      l.Reaches inner d c ∧
      ∀ l' c', l'.Reaches inner d c' → (separated (first ++ l' :: rest)).Reaches before d c' := by
  fun_induction separated ls generalizing before with
  | case1 => cases reaches_nil reached
  | case2 l => exact ⟨[], l, [], [], before, rfl, rfl, reached, fun _ _ there => there⟩
  | case3 l rest nonempty ih =>
    obtain ⟨next, others, rfl⟩ : ∃ next others, rest = next :: others := by
      cases rest with
      | nil => exact absurd rfl nonempty
      | cons next others => exact ⟨next, others, rfl⟩
    rcases (reaches_append _ _).mp reached with here | ⟨_, rfl, there⟩
    · refine ⟨[], l, next :: others, [], before, rfl, rfl, here, ?_⟩
      intro l' c' found
      exact (reaches_append _ _).mpr (.inl found)
    · obtain ⟨_, rfl, further⟩ := (reaches_fixed _ _).mp there
      obtain ⟨first, k, last, lead, inner, split, rfl, found, stays⟩ := ih further
      refine ⟨l :: first, k, last, l ++ .fixed .listSeparator :: lead, inner,
        congrArg (l :: ·) split, by simp, found, ?_⟩
      intro l' c' again
      have kept : separated (l :: (first ++ l' :: last))
          = l ++ .fixed .listSeparator :: separated (first ++ l' :: last) := by
        cases first <;> rfl
      show (separated (l :: (first ++ l' :: last))).Reaches _ d c'
      rw [kept]
      refine (reaches_append _ _).mpr (.inr ⟨_, rfl, ?_⟩)
      exact (reaches_fixed _ _).mpr ⟨_, rfl, stays l' c' again⟩

theorem reaches_parts {es : List Expr} (reached : (separated (parts es)).Reaches before d c) :
    ∃ first rest, es = first ++ c :: rest ∧
      ∀ c', (separated (parts (first ++ c' :: rest))).Reaches before d c' := by
  obtain ⟨_, _, _, lead, inner, split, rfl, found, stays⟩ := reaches_separated reached
  obtain ⟨first, others, rfl, rfl, tail⟩ := List.map_eq_append_iff.mp split
  obtain ⟨e, rest, rfl, rfl, rfl⟩ := List.map_eq_cons_iff.mp tail
  obtain ⟨rfl, rfl, rfl⟩ : inner = [] ∧ d = .nested ∧ c = e := by simpa using found
  refine ⟨first, rest, rfl, fun c' => ?_⟩
  have there := stays [.part .nested c'] c' (by simp)
  simpa [parts] using there

theorem reaches_call {method : String} {args : List Expr}
    (reached : (call method args).Reaches before d c) :
    ∃ first rest, args = first ++ c :: rest ∧
      ∀ c', (call method (first ++ c' :: rest)).Reaches before d c' := by
  simp only [call, List.cons_append, List.nil_append, reaches_fixed, reaches_append, reaches_nil,
    and_false, exists_false, or_false] at reached
  obtain ⟨_, rfl, _, rfl, listed⟩ := reached
  obtain ⟨first, rest, rfl, stays⟩ := reaches_parts listed
  exact ⟨first, rest, rfl, fun c' => by simp [call, stays c']⟩

theorem reaches_array {elements : List Expr} (reached : (array elements).Reaches before d c) :
    ∃ first rest, elements = first ++ c :: rest ∧
      ∀ c', (array (first ++ c' :: rest)).Reaches before d c' := by
  simp only [array, List.cons_append, reaches_fixed, reaches_append, reaches_nil, and_false,
    exists_false, or_false] at reached
  obtain ⟨_, rfl, listed⟩ := reached
  obtain ⟨first, rest, rfl, stays⟩ := reaches_parts listed
  exact ⟨first, rest, rfl, fun c' => by simp [array, stays c']⟩

theorem reaches_map (ls : List Layout) :
    (map ls).Reaches before d c ↔
      ∃ inner, before = .fixed (.text Token.blockOpen) :: .fixed .space :: inner ∧
        (separated ls).Reaches inner d c := by
  cases ls with
  | nil => simp [map, separated]
  | cons l rest =>
    simp only [map, List.isEmpty_cons, Bool.false_eq_true, if_false, List.cons_append,
      List.nil_append, reaches_fixed, reaches_append, reaches_nil, and_false, exists_false, or_false]
    grind

theorem reaches_entries {keys values : List Expr}
    (reached : (map (entries keys values)).Reaches before d c) :
    (∃ first rest, keys = first ++ c :: rest ∧
      ∀ c', (map (entries (first ++ c' :: rest) values)).Reaches before d c') ∨
    ∃ first rest, values = first ++ c :: rest ∧
      ∀ c', (map (entries keys (first ++ c' :: rest))).Reaches before d c' := by
  obtain ⟨within, rfl, there⟩ := (reaches_map _).mp reached
  obtain ⟨_, _, _, lead, inner, split, rfl, found, stays⟩ := reaches_separated there
  obtain ⟨keys₁, _, values₁, _, same, rfl, rfl, rfl, tail⟩ := List.zipWith_eq_append_iff.mp split
  obtain ⟨key, keys₂, value, values₂, rfl, rfl, rfl, rfl⟩ := List.zipWith_eq_cons_iff.mp tail.symm
  have entry (k v : Expr) :
      entries (keys₁ ++ k :: keys₂) (values₁ ++ v :: values₂)
        = entries keys₁ values₁ ++ [.part .nested k, .fixed .assignment, .part .nested v]
          :: entries keys₂ values₂ := by
    simp [entries, List.zipWith_append same]
  rcases (reaches_part _ _ _).mp found with ⟨rfl, rfl, rfl⟩ | ⟨_, rfl, second⟩
  · refine .inl ⟨keys₁, keys₂, rfl, fun c' => ?_⟩
    rw [entry, reaches_map]
    exact ⟨_, rfl, stays _ c' (by simp)⟩
  · obtain ⟨_, rfl, third⟩ := (reaches_fixed _ _).mp second
    obtain ⟨rfl, rfl, rfl⟩ : _ = [] ∧ d = .nested ∧ c = value := by simpa using third
    refine .inr ⟨values₁, values₂, rfl, fun c' => ?_⟩
    rw [entry, reaches_map]
    exact ⟨_, rfl, stays _ c' (by simp)⟩

theorem reaches_operation {selector left right : Expr}
    (reached : (operation selector left right).Reaches before d c) :
    (c = left ∧ ∀ c', (operation selector c' right).Reaches before d c') ∨
      (c = right ∧ ∀ c', (operation selector left c').Reaches before d c') := by
  unfold operation at reached ⊢
  split at reached
  · next _ name =>
    split at reached
    · next operator named =>
      rcases reaches_operands.1 reached with
        ⟨rfl, rfl, rfl⟩ | ⟨rfl, rfl, rfl⟩ | ⟨_, _, nothing⟩
      · exact .inl ⟨rfl, fun c' => by simp⟩
      · exact .inr ⟨rfl, fun c' => by simp⟩
      · exact absurd nothing reaches_nil
    · exact absurd reached (not_reaches_refusal _)
  · exact absurd reached (not_reaches_refusal _)

theorem reaches_mapOf {keys values : Expr} (reached : (mapOf keys values).Reaches before d c) :
    (∃ frame : Frame, frame.isSegment = false ∧ keys = frame.fill c ∧
      ∀ c', (mapOf (frame.fill c') values).Reaches before d c') ∨
    ∃ frame : Frame, frame.isSegment = false ∧ values = frame.fill c ∧
      ∀ c', (mapOf keys (frame.fill c')).Reaches before d c' := by
  unfold mapOf at reached
  split at reached
  · next keys values =>
    split at reached
    · next same =>
      rcases reaches_entries reached with ⟨first, rest, rfl, stays⟩ | ⟨first, rest, rfl, stays⟩
      · refine .inl ⟨.inElement first rest, rfl, rfl, fun c' => ?_⟩
        have again : (first ++ c' :: rest).length = values.length := by simpa using same
        simp only [Frame.fill, mapOf, if_pos again]
        exact stays c'
      · refine .inr ⟨.inElement first rest, rfl, rfl, fun c' => ?_⟩
        have again : keys.length = (first ++ c' :: rest).length := by simpa using same
        simp only [Frame.fill, mapOf, if_pos again]
        exact stays c'
    · exact absurd reached (not_reaches_refusal _)
  · exact absurd reached (not_reaches_refusal _)

theorem reaches_markerCall {method : String} {args : List Expr}
    (reached : (markerCall method args).Reaches before d c) :
    ∃ first arg rest, ∃ place : Place, args = first ++ arg :: rest ∧ arg = place.fill c ∧
      place.inSegment = false ∧
      ∀ c', (markerCall method (first ++ place.fill c' :: rest)).Reaches before d c' := by
  unfold markerCall at reached
  cases found : Intrinsic.find? method args.length with
  | none =>
    simp only [found] at reached
    obtain ⟨first, rest, rfl, stays⟩ := reaches_call reached
    refine ⟨first, c, rest, [], rfl, rfl, rfl, fun c' => ?_⟩
    have again : Intrinsic.find? method (first ++ c' :: rest).length = none := by
      simpa using found
    simp only [markerCall, again, Place.fill, List.foldr_nil]
    exact stays c'
  | some i =>
    simp only [found] at reached
    cases Intrinsic.takes_of_find? found <;>
      simp only [List.length_cons, List.length_nil, Nat.zero_add, Nat.reduceAdd] at found
    case labelJump label =>
      simp only [jumpTo] at reached
      split at reached <;> simp at reached
    case conditional condition =>
      obtain ⟨rfl, rfl, rfl⟩ : _ ∧ _ ∧ _ := by simpa using reached
      exact ⟨[], c, [], [], rfl, rfl, rfl, fun c' => by simp [markerCall, found, Place.fill]⟩
    case operate selector left right =>
      rcases reaches_operation reached with ⟨rfl, stays⟩ | ⟨rfl, stays⟩
      · exact ⟨[selector], c, [right], [], rfl, rfl, rfl, fun c' => by
          simpa [markerCall, found, Place.fill] using stays c'⟩
      · exact ⟨[selector, left], c, [], [], rfl, rfl, rfl, fun c' => by
          simpa [markerCall, found, Place.fill] using stays c'⟩
    case arrayExtend size => exact absurd reached reaches_nil
    case indexedAssign key index container value =>
      simp only [reaches_fixed, reaches_part, reaches_nil, and_false, exists_false,
        or_false] at reached
      rcases reached with ⟨rfl, rfl, rfl⟩ | ⟨_, rfl, ⟨rfl, rfl, rfl⟩ |
        ⟨_, rfl, ⟨rfl, rfl, rfl⟩ | ⟨_, rfl, _, rfl, rfl, rfl, rfl⟩⟩⟩
      · exact ⟨[key], c, [container, value], [], rfl, rfl, rfl, fun c' => by
          simp [markerCall, found, Place.fill]⟩
      · exact ⟨[key, index], c, [value], [], rfl, rfl, rfl, fun c' => by
          simp [markerCall, found, Place.fill]⟩
      · exact ⟨[], c, [index, container, value], [], rfl, rfl, rfl, fun c' => by
          simp [markerCall, found, Place.fill]⟩
      · exact ⟨[key, index, container], c, [], [], rfl, rfl, rfl, fun c' => by
          simp [markerCall, found, Place.fill]⟩
    case indexAccess container index =>
      rcases reaches_operands.1 reached with
        ⟨rfl, rfl, rfl⟩ | ⟨rfl, rfl, rfl⟩ | ⟨_, rfl, nothing⟩
      · exact ⟨[], c, [index], [], rfl, rfl, rfl, fun c' => by
          simp [markerCall, found, Place.fill]⟩
      · exact ⟨[container], c, [], [], rfl, rfl, rfl, fun c' => by
          simp [markerCall, found, Place.fill]⟩
      · simp at nothing
    case mapLiteral keys values =>
      rcases reaches_mapOf reached with ⟨frame, plain, rfl, stays⟩ | ⟨frame, plain, rfl, stays⟩
      · refine ⟨[], _, [values], [frame], rfl, rfl, Place.inSegment_cons plain rfl, fun c' => ?_⟩
        simpa [markerCall, found, Place.fill] using stays c'
      · refine ⟨[keys], _, [], [frame], rfl, rfl, Place.inSegment_cons plain rfl, fun c' => ?_⟩
        simpa [markerCall, found, Place.fill] using stays c'

theorem reaches_segment {options : Options} {e : Expr}
    (reached : (segment options e).Reaches before d c) :
    c = e ∧ c.kind = .complexReference ∧
      ∀ c', c'.kind = .complexReference → (segment options c').Reaches before d c' := by
  cases e with
  | primitive value => cases value <;> simp [segment] at reached
  | complexReference name =>
    obtain ⟨rfl, rfl, rfl⟩ : before = [.fixed (.text Token.resolve)] ∧ d = .nested
        ∧ c = .complexReference name := by
      simp [segment] at reached
      grind
    refine ⟨rfl, rfl, fun c' same => ?_⟩
    cases c' with
    | complexReference name => simp [segment]
    | _ => cases same
  | _ => simp [segment] at reached

theorem reaches_segments {options : Options} {segments : List Expr}
    (reached : Reaches (segments.flatMap (segment options)) before d c) :
    ∃ first rest, segments = first ++ c :: rest ∧ c.kind = .complexReference ∧
      ∀ c', c'.kind = .complexReference →
        Reaches ((first ++ c' :: rest).flatMap (segment options)) before d c' := by
  induction segments generalizing before with
  | nil => simp at reached
  | cons e others ih =>
    rcases (reaches_append _ _).mp reached with here | ⟨_, rfl, there⟩
    · obtain ⟨rfl, kind, stays⟩ := reaches_segment here
      refine ⟨[], others, rfl, kind, fun c' same => ?_⟩
      simp [stays c' same]
    · obtain ⟨first, rest, rfl, kind, stays⟩ := ih there
      refine ⟨e :: first, rest, rfl, kind, fun c' same => ?_⟩
      have there := stays c' same
      rw [List.cons_append, List.flatMap_cons, reaches_append]
      exact .inr ⟨_, rfl, there⟩

end Layout

namespace Expr

-- A tree that may stand where another one stands: neither is a type, and a name put together at
-- run time stays one.
def Replaces (c' c : Expr) : Prop :=
  c'.isInternalType = false ∧ (c.kind = .complexReference → c'.kind = .complexReference)

variable {options : Options} {bare : Bool} {before : Layout} {d : Descent} {c : Expr}

theorem place_of_part {e : Expr} (reached : (e.layout options bare).Reaches before d c) :
    ∃ frame, ∃ place : Place, e = frame.fill (place.fill c) ∧
      (Place.inSegment (frame :: place) = false ∨ c.kind = .complexReference) ∧
      ∀ c', c'.Replaces c →
        ((frame.fill (place.fill c')).layout options bare).Reaches before d c' := by
  cases e with
  | invocation target method args marker =>
    simp only [layout, Layout.invocation] at reached
    split at reached
    · simp at reached
    · next t written =>
      cases eq_of_written? written
      rcases (Layout.reaches_part _ _ _).mp reached with ⟨rfl, rfl, rfl⟩ | ⟨_, rfl, further⟩
      · refine ⟨.inTarget method args false, [], rfl, .inl rfl, ?_⟩
        rintro c' ⟨outward, _⟩
        simp [layout, Layout.invocation, written?, outward, Frame.fill, Place.fill]
      · obtain ⟨_, rfl, called⟩ := (Layout.reaches_fixed _ _).mp further
        obtain ⟨first, rest, rfl, stays⟩ := Layout.reaches_call called
        refine ⟨.inArgument (some t) method first rest false, [], rfl,
          .inl rfl, fun c' _ => ?_⟩
        simp [layout, Layout.invocation, written, Frame.fill, Place.fill, stays c']
    · next written =>
      obtain ⟨first, _, rest, place, rfl, rfl, plain, stays⟩ := Layout.reaches_markerCall reached
      refine ⟨.inArgument target method first rest true, place, rfl,
        .inl (Place.inSegment_cons rfl plain), fun c' _ => ?_⟩
      simpa [layout, Layout.invocation, written, Frame.fill] using stays c'
    · next written =>
      obtain ⟨first, rest, rfl, stays⟩ := Layout.reaches_call reached
      refine ⟨.inArgument target method first rest false, [], rfl,
        .inl rfl, fun c' _ => ?_⟩
      simpa [layout, Layout.invocation, written, Frame.fill, Place.fill] using stays c'
  | arrayLiteral elements =>
    obtain ⟨first, rest, rfl, stays⟩ := Layout.reaches_array reached
    exact ⟨.inElement first rest, [], rfl, .inl rfl,
      fun c' _ => stays c'⟩
  | primitive value => simp [layout] at reached
  | binaryOp operator left right =>
    obtain ⟨_, rfl, within⟩ := (Layout.reaches_parenthesizedUnless _ _).mp reached
    rcases Layout.reaches_operands.1 within with
      ⟨rfl, rfl, rfl⟩ | ⟨rfl, rfl, rfl⟩ | ⟨_, _, nothing⟩
    · refine ⟨.inLeft operator right, [], rfl, .inl rfl, fun c' _ => ?_⟩
      exact (Layout.reaches_parenthesizedUnless _ _).mpr ⟨_, rfl, by simp [Place.fill]⟩
    · refine ⟨.inRight operator left, [], rfl, .inl rfl, fun c' _ => ?_⟩
      exact (Layout.reaches_parenthesizedUnless _ _).mpr ⟨_, rfl, by simp [Place.fill]⟩
    · exact absurd nothing Layout.reaches_nil
  | ternaryOp condition whenTrue whenFalse =>
    simp only [layout, Layout.reaches_fixed, Layout.reaches_part, Layout.reaches_nil, and_false,
      exists_false, or_false] at reached
    rcases reached with ⟨rfl, rfl, rfl⟩ |
      ⟨_, rfl, _, rfl, ⟨rfl, rfl, rfl⟩ | ⟨_, rfl, _, rfl, rfl, rfl, rfl⟩⟩
    · exact ⟨.inCondition whenTrue whenFalse, [], rfl,
        .inl rfl,
        fun c' _ => by simp [layout, Frame.fill, Place.fill]⟩
    · exact ⟨.inWhenTrue condition whenFalse, [], rfl,
        .inl rfl,
        fun c' _ => by simp [layout, Frame.fill, Place.fill]⟩
    · exact ⟨.inWhenFalse condition whenTrue, [], rfl,
        .inl rfl,
        fun c' _ => by simp [layout, Frame.fill, Place.fill]⟩
  | complexReference name =>
    cases name with
    | literal text => simp [layout] at reached
    | parts segments =>
      obtain ⟨first, rest, rfl, kind, stays⟩ := Layout.reaches_segments reached
      exact ⟨.inSegment first rest, [], rfl, .inr kind, fun c' replaces =>
        stays c' (replaces.2 kind)⟩
  | fieldRef target field =>
    cases target with
    | none => simp [layout] at reached
    | some target =>
      obtain ⟨rfl, rfl, rfl⟩ : before = [] ∧ d = .nested ∧ c = target := by
        simpa [layout] using reached
      exact ⟨.inOwner field, [], rfl, .inl rfl, fun c' _ => by
        simp [layout, Frame.fill, Place.fill]⟩
  | typeRef type => cases internal : type.internal <;> simp [layout, internal] at reached
  | _ => simp [layout] at reached

end Expr
end HotkeyScript
