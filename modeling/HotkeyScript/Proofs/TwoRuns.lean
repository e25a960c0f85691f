import HotkeyScript.Proofs.Layout
import HotkeyScript.Expr.Emission
namespace HotkeyScript

def Stmt.exprs : Stmt → List Expr
  | .expression expr => [expr]
  | .variableDeclaration _ init => init.toList
  | .assignment left right => [left, right]
  | .returning value => value.toList
  | .goto _ => []

-- A relation that is kept by writing one thing after another. What is refused for its shape is
-- refused in both runs.
structure Emission.Congruence (R : Emission → Emission → Prop) : Prop where
  fixed : ∀ a : Emission, (∀ f, a.fault = some f → f.OfShape) → R a a
  andThen : ∀ {a b c d : Emission}, R a b → R c d → R (a ++ c) (b ++ d)

def Options.SameStyle (options options' : Options) : Prop :=
  options'.escapeStrings = options.escapeStrings ∧ options'.fieldSeparator = options.fieldSeparator

theorem Expr.layout_of_sameStyle {options options' : Options} (same : options.SameStyle options')
    (e : Expr) (bare : Bool) : e.layout options' bare = e.layout options bare := by
  obtain ⟨escaping, separating⟩ := same
  have literal (value : Primitive) : value.emission options' = value.emission options := by
    cases value <;> simp [Primitive.emission, stringLiteral, stringPieces, escaping]
  have segment (e : Expr) : Layout.segment options' e = Layout.segment options e := by
    cases e with
    | primitive value => cases value <;> simp [Layout.segment, literal]
    | _ => rfl
  cases e with
  | primitive value => simp only [layout, literal]
  | complexReference name => cases name <;> simp [layout, funext segment]
  | fieldRef target field => cases target <;> simp [layout, separating]
  | _ => rfl

theorem Layout.emission_congr {options options' : Options} {context context' : Context}
    {l : Layout}
    (parts : ∀ d c, .part d c ∈ l →
      c.emission options (d.context context) = c.emission options' (d.context context')) :
    l.emission options context = l.emission options' context' := by
  induction l with
  | nil => rfl
  | cons item rest ih =>
    rw [emission_cons, emission_cons, ih fun d c part => parts d c (List.mem_cons_of_mem item part)]
    congr 1
    cases item with
    | fixed written => rfl
    | part d c => exact parts d c List.mem_cons_self

theorem Emission.Congruence.eq : Congruence Eq where
  fixed _ _ := rfl
  andThen first second := by rw [first, second]

namespace Emission.Congruence

variable {R : Emission → Emission → Prop} (congruence : Congruence R)
include congruence

theorem text (piece : String) : R (.text piece) (.text piece) := congruence.fixed _ (by simp)

theorem space : R .space .space := congruence.text _

theorem nothing : R .nothing .nothing := congruence.fixed _ (by simp)

theorem assignment : R .assignment .assignment :=
  congruence.fixed _ (by simp [Emission.assignment, Emission.spaced, Emission.space])

theorem layout {options options' : Options} {context context' : Context} {l : Layout}
    (shape : l.Holds (fun _ _ => True) Fault.OfShape)
    (parts : ∀ d c, .part d c ∈ l →
      R (c.emission options (d.context context)) (c.emission options' (d.context context'))) :
    R (l.emission options context) (l.emission options' context') := by
  induction l with
  | nil => exact congruence.nothing
  | cons item rest ih =>
    obtain ⟨here, later⟩ := Layout.holds_cons item rest |>.mp shape
    refine congruence.andThen ?_
      (ih later fun d c part => parts d c (List.mem_cons_of_mem item part))
    cases item with
    | fixed written => exact congruence.fixed written here
    | part d c => exact parts d c List.mem_cons_self

-- The two runs are at contexts that `C` relates, which going down into a part keeps.
theorem expr {options options' : Options} (same : options.SameStyle options')
    {C : Context → Context → Prop} (flag : ∀ {c c'}, C c c' → c'.statement = c.statement)
    (descent : ∀ (d : Descent) {c c'}, C c c' → C (d.context c) (d.context c'))
    (guard : ∀ (e : Expr) {c c'}, C c c' →
      options.maxDepth < c.depth ∨ options'.maxDepth < c'.depth →
      R (e.emission options c) (e.emission options' c'))
    (e : Expr) {context context' : Context} (related : C context context') :
    R (e.emission options context) (e.emission options' context') := by
  induction e using Expr.layout_induction generalizing context context' with
  | step e ih =>
    by_cases exceeded : options.maxDepth < context.depth ∨ options'.maxDepth < context'.depth
    · exact guard e related exceeded
    · obtain ⟨within, within'⟩ := not_or.mp exceeded
      rw [Expr.emission_eq_layout, Expr.emission_eq_layout, if_neg within, if_neg within',
        flag related, Expr.layout_of_sameStyle same]
      refine congruence.layout ?_ fun d c part => ih options _ d c part (descent d related)
      exact (e.layout_holds options context.statement).mono (fun _ _ _ => trivial)
        (fun _ shape => shape)

theorem stmt {options options' : Options} {context context' : Context} (s : Stmt)
    (body : ∀ e ∈ s.exprs, R (e.emission options context.asStatement)
      (e.emission options' context'.asStatement))
    (side : ∀ e ∈ s.exprs, R (e.emission options context.operand)
      (e.emission options' context'.operand))
    (value : ∀ e ∈ s.exprs, R (e.emission options context.nested)
      (e.emission options' context'.nested)) :
    R (s.emission options context) (s.emission options' context') := by
  cases s with
  | expression expr => exact body expr List.mem_cons_self
  | variableDeclaration name init =>
    refine congruence.andThen (congruence.andThen (congruence.text name) congruence.assignment) ?_
    cases init with
    | none => exact congruence.text _
    | some init => exact value init List.mem_cons_self
  | assignment left right =>
    obtain ⟨first, second, _⟩ := by simpa only [Stmt.exprs, List.forall_mem_cons] using side
    exact congruence.andThen (congruence.andThen first congruence.assignment) second
  | returning result =>
    refine congruence.andThen (congruence.text _) ?_
    cases result with
    | none => exact congruence.nothing
    | some result => exact congruence.andThen congruence.space (value result List.mem_cons_self)
  | goto label => exact congruence.fixed _ (by simp [Stmt.emission, Emission.jump, Emission.space])

end Emission.Congruence
end HotkeyScript
