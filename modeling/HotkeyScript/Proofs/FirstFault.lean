import HotkeyScript.Proofs.Frame
import HotkeyScript.Proofs.SinkLaw
namespace HotkeyScript

def Expr.isMarkerCall : Expr → Bool
  | .invocation _ _ _ marker => marker
  | _ => false

abbrev Layout.Faultless (l : Layout) : Prop := l.Holds (fun _ _ => True) (fun _ => False)

theorem Layout.faultless_markerCall (method : String) (args : List Expr) :
    (markerCall method args).Faultless ∨ ∃ cause, markerCall method args = refusal cause := by
  unfold markerCall
  cases found : Intrinsic.find? method args.length with
  | none => simp
  | some i =>
    cases Intrinsic.takes_of_find? found
    case labelJump label =>
      simp only [jumpTo]
      split
      · exact .inl (by simp [Item.Holds, Emission.jump, Emission.space])
      · exact .inr ⟨_, rfl⟩
    case operate selector left right =>
      simp only [operation]
      split
      · split
        · exact .inl (by simp [Item.Holds, Emission.spaced, Emission.space])
        · exact .inr ⟨_, rfl⟩
      · exact .inr ⟨_, rfl⟩
    case mapLiteral keys values =>
      simp only [mapOf]
      split
      · split
        · next same => exact .inl (by simp [Layout.holds_map same])
        · exact .inr ⟨_, rfl⟩
      · exact .inr ⟨_, rfl⟩
    all_goals
      exact .inl (by simp [Item.Holds, Emission.assignment, Emission.spaced, Emission.space])

theorem Expr.faultless_or_refused (e : Expr) (options : Options) (bare : Bool) :
    (e.layout options bare).Faultless ∨
      (∃ f, e.layout options bare = [.fixed (.fail f)] ∧ e.kind ≠ .complexReference ∧
        ∀ cause, f = .malformedIntrinsic cause → e.isMarkerCall) ∨
      ∃ segments, e = .complexReference (.parts segments) := by
  cases e with
  | invocation target method args marker =>
    simp only [layout, Layout.invocation]
    split
    · exact .inr (.inl ⟨_, rfl, by simp [kind], fun _ _ => rfl⟩)
    · exact .inl (by simp [Item.Holds])
    · rcases Layout.faultless_markerCall method args with fine | ⟨cause, refused⟩
      · exact .inl fine
      · exact .inr (.inl ⟨_, refused, by simp [kind], fun _ _ => rfl⟩)
    · exact .inl (by simp)
  | primitive value =>
    cases faulty : (value.emission options).fault with
    | none => exact .inl (by simp [layout, Item.Holds, faulty])
    | some f =>
      obtain ⟨failed, literal, rfl⟩ := Primitive.emission_eq_fail faulty
      exact .inr (.inl
        ⟨.unsupportedLiteral literal, by simp [layout, failed], by simp [kind], by simp⟩)
  | binaryOp operator left right =>
    cases bare <;>
      exact .inl (by
        simp [layout, Layout.parenthesizedUnless, Item.Holds, Emission.spaced, Emission.space])
  | complexReference name =>
    cases name with
    | literal text => exact .inl (by simp [layout, Item.Holds])
    | parts segments => exact .inr (.inr ⟨segments, rfl⟩)
  | fieldRef target field =>
    cases target with
    | none => exact .inl (by simp [layout, Item.Holds])
    | some target =>
      cases separated : options.fieldSeparator && !target.isInternalType <;>
        exact .inl (by simp [layout, separated, Item.Holds])
  | typeRef type =>
    cases internal : type.internal <;> exact .inl (by simp [layout, internal, Item.Holds])
  | this => exact .inr (.inl ⟨_, rfl, by simp [kind], by simp⟩)
  | cast targetType expr => exact .inr (.inl ⟨_, rfl, by simp [kind], by simp⟩)
  | arrayLiteral elements => exact .inl (by simp [layout])
  | ternaryOp condition whenTrue whenFalse =>
    exact .inl (by simp [layout, Item.Holds, Emission.spaced, Emission.space])
  | variableRef name => exact .inl (by simp [layout, Item.Holds])

namespace Layout

variable {options : Options} {context : Context}

theorem first_fault {l : Layout} {f : Fault} (faulty : (l.emission options context).fault = some f) :
    ∃ before item after, l = before ++ item :: after ∧
      (Layout.emission options context before).fault = none ∧
      (item.emission options context).fault = some f ∧
      (l.emission options context).contents
        = (Layout.emission options context before).contents
          ++ (item.emission options context).contents := by
  induction l with
  | nil => cases faulty
  | cons item rest ih =>
    rw [emission_cons, Emission.fault_andThen] at faulty
    cases own : (item.emission options context).fault with
    | some g =>
      obtain rfl : g = f := by simpa [own] using faulty
      refine ⟨[], item, rest, rfl, rfl, own, ?_⟩
      rw [emission_cons, Emission.andThen_of_fault _ (by simp [own])]
      simp
    | none =>
      obtain ⟨before, other, after, rfl, fine, found, contents⟩ := ih (by simpa [own] using faulty)
      refine ⟨item :: before, other, after, rfl, by simp [own, fine], found, ?_⟩
      rw [emission_cons, Emission.contents_andThen _ own, contents, emission_cons,
        Emission.contents_andThen _ own, String.append_assoc]

theorem contents_prefix {before after : Layout} {item : Item} {text : String}
    (fine : (Layout.emission options context before).fault = none)
    (begins : text.toList <+: (item.emission options context).contents.toList) :
    ((Layout.emission options context before).contents ++ text).toList
      <+: (Layout.emission options context (before ++ item :: after)).contents.toList := by
  rw [emission_append, Emission.contents_andThen _ fine, emission_cons, String.toList_append,
    String.toList_append, List.prefix_append_right_inj]
  exact begins.trans (Emission.contents_andThen_prefix _ _)

theorem eq_of_single {before after : Layout} {own written : Emission}
    (split : [.fixed own] = before ++ .fixed written :: after) : before = [] ∧ written = own := by
  cases before with
  | nil =>
    cases split
    exact ⟨rfl, rfl⟩
  | cons item rest => simp at split

theorem faulty_segment {e : Expr} {before after : Layout} {written : Emission} {f : Fault}
    (split : segment options e = before ++ .fixed written :: after)
    (faulty : written.fault = some f) :
    before = [] ∧ written = .fail f ∧ ∀ cause, f ≠ .malformedIntrinsic cause := by
  cases e with
  | complexReference name =>
    have own : Item.fixed written ∈ segment options (.complexReference name) := by simp [split]
    simp [segment] at own
    rcases own with rfl | rfl
    all_goals cases faulty
  | primitive value =>
    cases value with
    | string text =>
      obtain ⟨_, rfl⟩ := eq_of_single split
      cases faulty
    | _ =>
      obtain ⟨rfl, rfl⟩ := eq_of_single split
      obtain ⟨failed, literal, rfl⟩ := Primitive.emission_eq_fail faulty
      exact ⟨rfl, failed, by simp⟩
  | _ =>
    obtain ⟨rfl, rfl⟩ := eq_of_single split
    cases faulty
    exact ⟨rfl, rfl, by simp⟩

theorem faulty_segments {segments : List Expr} {before after : Layout} {written : Emission}
    {f : Fault}
    (split : segments.flatMap (segment options) = before ++ .fixed written :: after)
    (faulty : written.fault = some f) :
    ∃ first culprit rest, segments = first ++ culprit :: rest ∧
      before = first.flatMap (segment options) ∧ written = .fail f ∧
      ∀ cause, f ≠ .malformedIntrinsic cause := by
  induction segments generalizing before with
  | nil => simp at split
  | cons e others ih =>
    rw [List.flatMap_cons, List.append_eq_append_iff] at split
    rcases split with ⟨inner, rfl, later⟩ | ⟨inner, here, tail⟩
    · obtain ⟨first, culprit, rest, rfl, rfl, failed⟩ := ih later
      exact ⟨e :: first, culprit, rest, rfl, by simp, failed⟩
    · cases inner with
      | nil =>
        obtain ⟨first, culprit, rest, rfl, earlier, failed⟩ := @ih [] tail.symm
        exact ⟨e :: first, culprit, rest, rfl, by simp [← earlier, here], failed⟩
      | cons item inner =>
        obtain ⟨rfl, _⟩ := List.cons.inj tail
        obtain ⟨rfl, failed⟩ := faulty_segment here faulty
        exact ⟨[], e, others, rfl, rfl, failed⟩

end Layout

namespace Expr

variable {options : Options} {context : Context} {f : Fault} {e : Expr}

theorem emission_of_within (within : ¬ options.maxDepth < context.depth) (e : Expr) :
    e.emission options context
      = (e.layout options context.statement).emission options context := by
  rw [emission_eq_layout, if_neg within]

theorem layout_of_isMarkerCall (marked : e.isMarkerCall) (bare bare' : Bool) :
    e.layout options bare = e.layout options bare' := by
  cases e with
  | invocation target method args marker => rfl
  | _ => cases marked

-- A place of a fault. What is put there instead is written after the very text that the tree
-- left, and a marker call at fault has written nothing.
structure FaultAt (options : Options) (context : Context) (f : Fault) (e : Expr) (place : Place)
    (culprit : Expr) : Prop where
  there : e = place.fill culprit
  replaces : ∀ text, (place.fill (place.patch text)).Replaces e
  resumes : ∀ text, ((e.emission options context).contents ++ text).toList
    <+: ((place.fill (place.patch text)).emission options context).contents.toList
  untouched : ∀ cause, f = .malformedIntrinsic cause → culprit.isMarkerCall ∧
    ∀ c : Context, ¬ options.maxDepth < c.depth → culprit.emission options c = .fail f

theorem faultAt_refused (within : ¬ options.maxDepth < context.depth)
    (refused : e.layout options context.statement = [.fixed (.fail f)])
    (kind : e.kind ≠ .complexReference)
    (malformed : ∀ cause, f = .malformedIntrinsic cause → e.isMarkerCall) :
    FaultAt options context f e [] e := by
  refine ⟨rfl, fun _ => ⟨rfl, fun same => absurd same kind⟩, fun text => ?_,
    fun cause same => ⟨malformed cause same, fun c shallow => ?_⟩⟩
  · show _ <+: ((var text).emission options context).contents.toList
    rw [emission_of_within within, refused, emission_of_within within]
    simp [var, layout, Item.emission]
  · rw [emission_of_within shallow, layout_of_isMarkerCall (malformed cause same), refused]
    simp [Item.emission]

theorem faultAt_segment (within : ¬ options.maxDepth < context.depth) {first rest : List Expr}
    {culprit : Expr}
    (fine : (Layout.emission options context (first.flatMap (Layout.segment options))).fault = none)
    (left : ((complexReference (.parts (first ++ culprit :: rest))).emission options
        context).contents
      = (Layout.emission options context (first.flatMap (Layout.segment options))).contents)
    (other : ∀ cause, f ≠ .malformedIntrinsic cause) :
    FaultAt options context f (.complexReference (.parts (first ++ culprit :: rest)))
      [.inSegment first rest] culprit := by
  refine ⟨rfl, fun _ => ⟨rfl, fun _ => rfl⟩, fun text => ?_,
    fun cause same => absurd same (other cause)⟩
  show _ <+: ((complexReference (.parts (first ++ string text :: rest))).emission options
    context).contents.toList
  have relaid : (complexReference (.parts (first ++ string text :: rest))).layout options
      context.statement = first.flatMap (Layout.segment options)
        ++ .fixed (.text text) :: rest.flatMap (Layout.segment options) := by
    simp [layout, string, Layout.segment]
  rw [left, emission_of_within within, relaid]
  exact Layout.contents_prefix fine (by simp [Item.emission])

theorem faultAt_part (within : ¬ options.maxDepth < context.depth) {before : Layout} {d : Descent}
    {c culprit : Expr} {inner : Place}
    (reached : (e.layout options context.statement).Reaches before d c)
    (fine : (Layout.emission options context before).fault = none)
    (left : (e.emission options context).contents
      = (Layout.emission options context before).contents
        ++ (c.emission options (d.context context)).contents)
    (part : FaultAt options (d.context context) f c inner culprit) :
    ∃ place, FaultAt options context f e place culprit := by
  obtain ⟨frame, outer, rfl, outside, stays⟩ := place_of_part reached
  have patched (text : String) :
      Place.patch (frame :: outer ++ inner) text = inner.patch text := by
    apply Place.patch_append
    rintro rfl
    rcases outside with plain | kind
    · exact plain
    · cases (part.replaces text).2 kind
  have filled (text : String) :
      Place.fill (frame :: outer ++ inner) (Place.patch (frame :: outer ++ inner) text)
        = frame.fill (outer.fill (inner.fill (inner.patch text))) := by
    rw [patched]
    simp [Place.fill]
  refine ⟨frame :: outer ++ inner, ?_, fun text => ?_, fun text => ?_, part.untouched⟩
  · simp [Place.fill, part.there]
  · rw [filled]
    exact ⟨frame.isInternalType_fill _, fun kind => (frame.kind_fill _ _).trans kind⟩
  · obtain ⟨after, relaid⟩ := stays _ (part.replaces text)
    rw [filled, left, emission_of_within within, relaid, String.append_assoc]
    exact Layout.contents_prefix fine (part.resumes text)

theorem exists_faultAt (e : Expr) (options : Options) (context : Context)
    (faulty : (e.emission options context).fault = some f) (shape : f.OfShape) :
    ∃ place culprit, FaultAt options context f e place culprit := by
  induction e using Expr.layout_induction generalizing options context with
  | step e ih =>
    have within : ¬ options.maxDepth < context.depth := by
      intro exceeded
      rw [emission_eq_layout, if_pos exceeded] at faulty
      cases faulty
      exact shape _ rfl
    rw [emission_of_within within] at faulty
    obtain ⟨before, item, after, split, fine, found, left⟩ := Layout.first_fault faulty
    rw [← emission_of_within within] at left
    -- The item at fault is a part, with a fault inside, or the form of the expression itself.
    cases item with
    | part d c =>
      obtain ⟨inner, culprit, part⟩ :=
        ih options context.statement d c (by simp [split]) options (d.context context) found
      obtain ⟨place, whole⟩ := faultAt_part within ⟨after, split⟩ fine left part
      exact ⟨place, culprit, whole⟩
    | fixed written =>
      rcases e.faultless_or_refused options context.statement with
        faultless | ⟨g, refused, kind, malformed⟩ | ⟨segments, rfl⟩
      · exact absurd found fun fault => faultless (.fixed written) (by simp [split]) f fault
      · obtain ⟨rfl, rfl⟩ := Layout.eq_of_single (refused.symm.trans split)
        cases found
        exact ⟨[], e, faultAt_refused within refused kind malformed⟩
      · obtain ⟨first, culprit, rest, rfl, rfl, rfl, other⟩ := Layout.faulty_segments split found
        refine ⟨_, culprit, faultAt_segment within fine ?_ other⟩
        simpa [Item.emission] using left

end Expr

-- A job of one expression that is refused for its shape leaves the text before the expression at
-- fault: there is a place in the tree such that any name put there, or any literal where the
-- place is a segment of a name, is written after that text, whatever comes of the rest.
theorem Printer.emit_first_fault (options : Options) (e : Expr) (context : Context) (f : Fault)
    (refused : (Printer.emit { options } (.expression e context)).2 = some (.fault f))
    (shape : f.OfShape) :
    ∃ place : Place, ∃ culprit, e = place.fill culprit ∧
      (∀ text, ((Printer.emit { options } (.expression e context)).1.text ++ text).toList
        <+: (Printer.emit { options }
          (.expression (place.fill (place.patch text)) context)).1.text.toList) ∧
      ∀ cause, f = .malformedIntrinsic cause →
        culprit.isMarkerCall ∧
          ∀ c : Context, ¬ options.maxDepth < c.depth → culprit.emission options c = .fail f := by
  rw [emit_fresh] at refused
  have faulty : (e.emission options context).fault = some f := by
    cases fault : (e.emission options context).fault with
    | none => simp [Job.emission, fault] at refused
    | some g => simpa [Job.emission, fault] using refused
  obtain ⟨place, culprit, whole⟩ := e.exists_faultAt options context faulty shape
  refine ⟨place, culprit, whole.there, fun text => ?_, whole.untouched⟩
  rw [emit_fresh, emit_fresh]
  exact whole.resumes text

-- In an array whose second element has no form in scripts, any name could stand second.
theorem Printer.emit_first_fault_in_array :
    (Printer.emit {} (.expression (.array [.var "x", .this]) .root)).2
        = some (.fault (.unsupportedExpression .this)) ∧
      (Fault.unsupportedExpression .this).OfShape ∧
      ∃ place : Place, ∃ culprit, Expr.array [.var "x", .this] = place.fill culprit ∧
        ∀ text, ((Printer.emit {} (.expression (.array [.var "x", .this]) .root)).1.text
            ++ text).toList
          <+: (Printer.emit {}
            (.expression (place.fill (place.patch text)) .root)).1.text.toList := by
  have refused : (Printer.emit {} (.expression (.array [.var "x", .this]) .root)).2
      = some (.fault (.unsupportedExpression .this)) := by decide
  have shape : (Fault.unsupportedExpression .this).OfShape := by simp
  obtain ⟨place, culprit, there, resumes, _⟩ :=
    Printer.emit_first_fault {} (.array [.var "x", .this]) .root _ refused shape
  exact ⟨refused, shape, place, culprit, there, resumes⟩

end HotkeyScript
