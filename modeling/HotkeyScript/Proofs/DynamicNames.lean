import HotkeyScript.Proofs.Grouping
namespace HotkeyScript

-- A segment whose text can be told from its neighbours: a string that is there and has no mark in
-- it, or a reference to a name of such segments, no two strings side by side.
inductive Expr.Segment : Expr → Prop where
  | string {text : String} (nonempty : text ≠ "") (unmarked : '%' ∉ text.toList) :
      Segment (.string text)
  | reference {segments : List Expr} (nonempty : segments ≠ [])
      (each : ∀ e ∈ segments, Segment e)
      (apart : segments.IsChain fun e f => e.kind = .primitive → f.kind ≠ .primitive) :
      Segment (.complexReference (.parts segments))

theorem Expr.segment_string {text : String} :
    (string text).Segment ↔ text ≠ "" ∧ '%' ∉ text.toList := by
  refine ⟨fun segment => ?_, fun ⟨nonempty, unmarked⟩ => .string nonempty unmarked⟩
  cases segment with
  | string nonempty unmarked => exact ⟨nonempty, unmarked⟩

theorem Expr.segment_reference {segments : List Expr} :
    (complexReference (.parts segments)).Segment ↔
      segments ≠ [] ∧ (∀ e ∈ segments, e.Segment) ∧
        segments.IsChain fun e f => e.kind = .primitive → f.kind ≠ .primitive := by
  refine ⟨fun segment => ?_, fun ⟨nonempty, each, apart⟩ => .reference nonempty each apart⟩
  cases segment with
  | reference nonempty each apart => exact ⟨nonempty, each, apart⟩

def QualifiedName.Dynamic (name : QualifiedName) : Prop := (Expr.complexReference name).Segment

inductive NameToken where
  | mark
  | string (level : Nat) (text : String)

namespace NameToken

def chars : NameToken → List Char
  | mark => ['%']
  | string _ text => text.toList

def text? : NameToken → Option String
  | mark => none
  | string _ text => some text

def level? : NameToken → Option Nat
  | mark => none
  | string level _ => some level

end NameToken

mutual

-- What a segment is written with, in order. A string stands at the level of the name that it is a
-- segment of, and a reference is a level further down, between two marks.
def Expr.nameTokens (level : Nat) : Expr → List NameToken
  | .primitive (.string text) => [.string level text]
  | .complexReference name => .mark :: name.tokens (level + 1) ++ [.mark]
  | _ => []

def QualifiedName.tokens (level : Nat) : QualifiedName → List NameToken
  | .literal _ => []
  | .parts segments => Expr.listNameTokens level segments

def Expr.listNameTokens (level : Nat) : List Expr → List NameToken
  | [] => []
  | e :: rest => e.nameTokens level ++ Expr.listNameTokens level rest

end

namespace QualifiedName

def outline (name : QualifiedName) : List (Option String) :=
  (name.tokens 0).map NameToken.text?

def levels (name : QualifiedName) : List Nat :=
  (name.tokens 0).filterMap NameToken.level?

end QualifiedName

namespace NameToken

def Pauses : List NameToken → Prop
  | string _ _ :: _ => False
  | _ => True

def Legible : List NameToken → Prop
  | [] => True
  | mark :: rest => Legible rest
  | string _ text :: rest => text ≠ "" ∧ '%' ∉ text.toList ∧ Pauses rest ∧ Legible rest

theorem Pauses.avoids {tokens : List NameToken} (pauses : Pauses tokens) :
    Text.Avoids (· != '%') (tokens.flatMap chars) := by
  cases tokens with
  | nil => simp
  | cons head rest =>
    cases head with
    | mark => simp [chars]
    | string level text => exact pauses.elim

theorem Legible.begins {level : Nat} {text : String} {rest : List NameToken}
    (legible : Legible (string level text :: rest)) :
    ∃ c more, (string level text :: rest).flatMap chars = c :: more ∧ c ≠ '%' := by
  obtain ⟨nonempty, unmarked, _⟩ := legible
  cases spelled : text.toList with
  | nil => exact absurd (String.toList_eq_nil_iff.mp spelled) nonempty
  | cons c more =>
    refine ⟨c, more ++ rest.flatMap chars, by simp [chars, spelled], ?_⟩
    exact fun mark => unmarked (by simp [spelled, mark])

theorem outline_of_chars {s t : List NameToken} (legible : Legible s) (legible' : Legible t)
    (same : s.flatMap chars = t.flatMap chars) : s.map text? = t.map text? := by
  induction s generalizing t with
  | nil =>
    cases t with
    | nil => rfl
    | cons head' rest' =>
      cases head' with
      | mark => simp [chars] at same
      | string level' text' =>
        obtain ⟨c, more, begins, _⟩ := legible'.begins
        cases same.trans begins
  | cons head rest ih =>
    cases head with
    | mark =>
      cases t with
      | nil => simp [chars] at same
      | cons head' rest' =>
        cases head' with
        | mark =>
          have further : Legible rest' := legible'
          have rests : rest.flatMap chars = rest'.flatMap chars := by simpa [chars] using same
          simp [text?, ih legible further rests]
        | string level' text' =>
          obtain ⟨c, more, begins, other⟩ := legible'.begins
          cases same.trans begins
          exact absurd rfl other
    | string level text =>
      obtain ⟨c, more, begins, other⟩ := legible.begins
      cases t with
      | nil => cases begins.symm.trans same
      | cons head' rest' =>
        cases head' with
        | mark =>
          cases begins.symm.trans same
          exact absurd rfl other
        | string level' text' =>
          obtain ⟨_, unmarked, pauses, further⟩ := legible
          obtain ⟨_, unmarked', pauses', further'⟩ := legible'
          have run {text : String} (unmarked : '%' ∉ text.toList) :
              ∀ c ∈ text.toList, (c != '%') = true := by
            intro c among
            simpa using ne_of_mem_of_not_mem among unmarked
          obtain ⟨texts, rests⟩ := Text.run_inj (run unmarked) (run unmarked') pauses.avoids
            pauses'.avoids same
          simp [text?, String.toList_inj.mp texts, ih further further' rests]

theorem chars_of_outline {s t : List NameToken} (same : s.map text? = t.map text?) :
    s.flatMap chars = t.flatMap chars := by
  have spelled (tokens : List NameToken) :
      tokens.flatMap chars = (tokens.map text?).flatMap (·.elim ['%'] String.toList) := by
    rw [List.flatMap_map]
    exact List.flatMap_congr fun token _ => by cases token <;> rfl
  rw [spelled, spelled, same]

def sides (level : Nat) : List (Option String) → List Nat
  | [] => []
  | none :: rest => sides (level + 1) rest
  | some _ :: rest => level % 2 :: sides level rest

theorem sides_congr {level level' : Nat} (same : level % 2 = level' % 2)
    (outline : List (Option String)) : sides level outline = sides level' outline := by
  induction outline generalizing level level' with
  | nil => rfl
  | cons head rest ih =>
    cases head with
    | none => exact ih (by omega)
    | some text => simp only [sides, same, ih same]

-- The level that the text is at, if all marks up to the next string stand before references. It is
-- the right one where a segment begins, and one further up where a reference has yet to end.
def startLevel : List NameToken → Option Int
  | [] => none
  | mark :: rest => (startLevel rest).map (· - 1)
  | string level _ :: _ => some level

def Below (level : Nat) (tokens : List NameToken) : Prop := ∀ k ∈ startLevel tokens, k < level

theorem below_mark {level : Nat} {rest : List NameToken} :
    Below level (mark :: rest) ↔ Below (level + 1) rest := by
  cases next : startLevel rest with
  | none => simp [Below, startLevel, next]
  | some k =>
    simp only [Below, startLevel, next, Option.map_some, Option.mem_some_iff, forall_eq']
    omega

theorem Below.further {level : Nat} {tokens : List NameToken} (below : Below level tokens) :
    Below (level + 1) tokens := by
  intro k next
  have less := below k next
  omega

theorem levels_of_mod {s t : List Nat} (sides : s.map (· % 2) = t.map (· % 2))
    (near : ∀ pair ∈ s.zip t, pair.1 < pair.2 + 2 ∧ pair.2 < pair.1 + 2) : s = t := by
  induction s generalizing t with
  | nil => simpa using sides.symm
  | cons level rest ih =>
    cases t with
    | nil => simp at sides
    | cons level' rest' =>
      obtain ⟨side, further⟩ := List.cons.inj sides
      obtain ⟨close, between⟩ := List.forall_mem_cons.mp near
      have heads : level = level' := by
        simp only at side close
        omega
      rw [heads, ih further between]

theorem eq_of_outline {s t : List NameToken} (outline : s.map text? = t.map text?)
    (levels : s.filterMap level? = t.filterMap level?) : s = t := by
  induction s generalizing t with
  | nil =>
    cases t with
    | nil => rfl
    | cons head rest => cases outline
  | cons head rest ih =>
    cases t with
    | nil => cases outline
    | cons head' rest' =>
      obtain ⟨heads, rests⟩ := List.cons.inj outline
      cases head <;> cases head' <;> simp [text?, level?] at heads levels ⊢
      · exact ih rests levels
      · exact ⟨⟨levels.1, heads⟩, ih rests levels.2⟩

end NameToken

namespace Expr

open NameToken

@[simp] theorem nameTokens_reference (level : Nat) (segments : List Expr) :
    (complexReference (.parts segments)).nameTokens level
      = .mark :: listNameTokens (level + 1) segments ++ [.mark] := rfl

@[simp] theorem listNameTokens_cons (level : Nat) (e : Expr) (rest : List Expr) :
    listNameTokens level (e :: rest) = e.nameTokens level ++ listNameTokens level rest := rfl

theorem listNameTokens_cons_append (level : Nat) (e : Expr) (more : List Expr)
    (rest : List NameToken) :
    listNameTokens level (e :: more) ++ rest
      = e.nameTokens level ++ (listNameTokens level more ++ rest) := by
  rw [listNameTokens_cons, List.append_assoc]

variable {e : Expr} {segments : List Expr}

theorem Segment.pauses (segment : e.Segment) (reference : e.kind ≠ .primitive) (level : Nat)
    (rest : List NameToken) : Pauses (e.nameTokens level ++ rest) := by
  cases segment with
  | string => exact absurd rfl reference
  | reference => trivial

theorem legible_listNameTokens {level : Nat} {rest : List NameToken}
    (segment : ∀ e ∈ segments, e.Segment)
    (each : ∀ e ∈ segments, ∀ (rest : List NameToken), Legible rest →
      (e.kind = .primitive → Pauses rest) → Legible (e.nameTokens level ++ rest))
    (apart : segments.IsChain fun e f => e.kind = .primitive → f.kind ≠ .primitive)
    (legible : Legible rest) (pauses : Pauses rest) :
    Legible (listNameTokens level segments ++ rest) := by
  induction segments with
  | nil => exact legible
  | cons e more ih =>
    rw [listNameTokens_cons_append]
    obtain ⟨segment_e, segment_more⟩ := List.forall_mem_cons.mp segment
    obtain ⟨each_e, each_more⟩ := List.forall_mem_cons.mp each
    refine each_e _ (ih segment_more each_more apart.of_cons) fun string => ?_
    cases more with
    | nil => exact pauses
    | cons f further =>
      rw [listNameTokens_cons_append]
      have reference := (List.isChain_cons_cons.mp apart).1 string
      exact (segment_more f List.mem_cons_self).pauses reference level _

theorem Segment.legible (segment : e.Segment) (level : Nat) (rest : List NameToken)
    (legible : Legible rest) (pauses : e.kind = .primitive → Pauses rest) :
    Legible (e.nameTokens level ++ rest) := by
  induction segment generalizing level rest with
  | string nonempty unmarked => exact ⟨nonempty, unmarked, pauses rfl, legible⟩
  | @reference segments _ each apart ih =>
    have inner : Legible (listNameTokens (level + 1) segments ++ .mark :: rest) :=
      legible_listNameTokens each (fun e among => ih e among (level + 1)) apart legible trivial
    simpa [Legible] using inner

theorem sides_listNameTokens {level : Nat} {outline : List (Option String)}
    (each : ∀ e ∈ segments, ∀ outline, sides level ((e.nameTokens level).map text? ++ outline)
      = ((e.nameTokens level).filterMap level?).map (· % 2) ++ sides level outline) :
    sides level ((listNameTokens level segments).map text? ++ outline)
      = ((listNameTokens level segments).filterMap level?).map (· % 2) ++ sides level outline := by
  induction segments with
  | nil => rfl
  | cons e more ih =>
    obtain ⟨each_e, each_more⟩ := List.forall_mem_cons.mp each
    simp only [listNameTokens_cons, List.map_append, List.filterMap_append, List.append_assoc]
    rw [each_e, ih each_more]

theorem Segment.sides (segment : e.Segment) (level : Nat) (outline : List (Option String)) :
    NameToken.sides level ((e.nameTokens level).map text? ++ outline)
      = ((e.nameTokens level).filterMap level?).map (· % 2)
        ++ NameToken.sides level outline := by
  induction segment generalizing level outline with
  | string => rfl
  | @reference segments _ _ _ ih =>
    have inner := @sides_listNameTokens segments (level + 1) (none :: outline)
      fun e among => ih e among (level + 1)
    have back : NameToken.sides (level + 1 + 1) outline = NameToken.sides level outline :=
      sides_congr (by omega) outline
    simpa [text?, level?, NameToken.sides, back, List.filterMap_cons] using inner

theorem startLevel_listNameTokens {level : Nat} {rest : List NameToken} (nonempty : segments ≠ [])
    (each : ∀ e ∈ segments, ∀ rest,
      startLevel (e.nameTokens level ++ rest) = some (level : Int)) :
    startLevel (listNameTokens level segments ++ rest) = some (level : Int) := by
  cases segments with
  | nil => exact absurd rfl nonempty
  | cons e more =>
    rw [listNameTokens_cons_append]
    exact each e List.mem_cons_self _

theorem Segment.startLevel (segment : e.Segment) (level : Nat) (rest : List NameToken) :
    NameToken.startLevel (e.nameTokens level ++ rest) = some (level : Int) := by
  induction segment generalizing level rest with
  | string => rfl
  | @reference segments nonempty _ _ ih =>
    have inner := @startLevel_listNameTokens segments (level + 1) (.mark :: rest) nonempty
      fun e among => ih e among (level + 1)
    simp [NameToken.startLevel, inner]

theorem Segment.below_succ (segment : ∀ e ∈ segments, e.Segment) {level : Nat}
    {rest : List NameToken} (below : Below level rest) :
    Below (level + 1) (listNameTokens level segments ++ rest) := by
  cases segments with
  | nil => exact below.further
  | cons e more =>
    intro k next
    rw [listNameTokens_cons_append, (segment e List.mem_cons_self).startLevel] at next
    cases next
    omega

-- A list of segments is over where no segment of its level begins, so that two lists with one text
-- are over at the same place.
theorem listNameTokens_inj {level : Nat} {segments' : List Expr} {rest rest' : List NameToken}
    (segment : ∀ e ∈ segments, e.Segment) (segment' : ∀ e ∈ segments', e.Segment)
    (each : ∀ e ∈ segments, ∀ (f : Expr) (rest rest' : List NameToken), f.Segment →
      Below (level + 1) rest → Below (level + 1) rest' →
      e.nameTokens level ++ rest = f.nameTokens level ++ rest' → e = f ∧ rest = rest')
    (ends : Below level rest) (ends' : Below level rest')
    (same : listNameTokens level segments ++ rest = listNameTokens level segments' ++ rest') :
    segments = segments' ∧ rest = rest' := by
  have ended {e : Expr} (segment : e.Segment) (more : List NameToken) :
      ¬ Below level (e.nameTokens level ++ more) := fun below =>
    lt_irrefl _ (below level (segment.startLevel level more))
  induction segments generalizing segments' with
  | nil =>
    cases segments' with
    | nil => exact ⟨rfl, same⟩
    | cons f more' =>
      rw [listNameTokens_cons_append] at same
      subst same
      exact absurd ends (ended (segment' f List.mem_cons_self) _)
  | cons e more ih =>
    rw [listNameTokens_cons_append] at same
    cases segments' with
    | nil =>
      subst same
      exact absurd ends' (ended (segment e List.mem_cons_self) _)
    | cons f more' =>
      rw [listNameTokens_cons_append] at same
      obtain ⟨_, segment_more⟩ := List.forall_mem_cons.mp segment
      obtain ⟨segment_f, segment_more'⟩ := List.forall_mem_cons.mp segment'
      obtain ⟨each_e, each_more⟩ := List.forall_mem_cons.mp each
      obtain ⟨rfl, rests⟩ := each_e f _ _ segment_f (Segment.below_succ segment_more ends)
        (Segment.below_succ segment_more' ends') same
      obtain ⟨rfl, rfl⟩ := ih segment_more segment_more' each_more rests
      exact ⟨rfl, rfl⟩

theorem Segment.nameTokens_inj (segment : e.Segment) {f : Expr} (segment' : f.Segment) {level : Nat}
    {rest rest' : List NameToken} (ends : Below (level + 1) rest) (ends' : Below (level + 1) rest')
    (same : e.nameTokens level ++ rest = f.nameTokens level ++ rest') : e = f ∧ rest = rest' := by
  induction segment generalizing f level rest rest' with
  | string =>
    cases segment' with
    | string =>
      obtain ⟨heads, rests⟩ := List.cons.inj same
      cases heads
      exact ⟨rfl, rests⟩
    | reference => cases (List.cons.inj same).1
  | @reference segments _ each _ ih =>
    cases segment' with
    | string => cases (List.cons.inj same).1
    | @reference segments' _ each' _ =>
      simp only [nameTokens_reference, List.cons_append, List.append_assoc, List.nil_append,
        List.cons.injEq, true_and] at same
      obtain ⟨rfl, closed⟩ := listNameTokens_inj each each'
        (fun e among f rest rest' segment' ends ends' same => ih e among segment' ends ends' same)
        (below_mark.mpr ends.further) (below_mark.mpr ends'.further) same
      exact ⟨rfl, (List.cons.inj closed).2⟩

end Expr

namespace QualifiedName

open NameToken

@[simp] theorem tokens_parts (level : Nat) (segments : List Expr) :
    (parts segments).tokens level = Expr.listNameTokens level segments := rfl

variable {a b : QualifiedName}

theorem Dynamic.legible (dynamic : a.Dynamic) : Legible (a.tokens 0) := by
  cases dynamic with
  | @reference segments _ each apart =>
    have legible : Legible (Expr.listNameTokens 0 segments ++ []) :=
      Expr.legible_listNameTokens each (fun e among => (each e among).legible 0) apart trivial
        trivial
    simpa using legible

theorem Dynamic.levels_mod (dynamic : a.Dynamic) : a.levels.map (· % 2) = sides 0 a.outline := by
  cases dynamic with
  | @reference segments _ each _ =>
    have split := @Expr.sides_listNameTokens segments 0 [] fun e among => (each e among).sides 0
    simpa [outline, levels, sides] using split.symm

theorem Dynamic.eq_of_outline (dynamic : a.Dynamic) (dynamic' : b.Dynamic)
    (outline : a.outline = b.outline) (levels : a.levels = b.levels) : a = b := by
  have tokens := NameToken.eq_of_outline outline levels
  cases dynamic with
  | @reference segments _ each _ =>
    cases dynamic' with
    | @reference segments' _ each' _ =>
      have ends : Below 0 [] := by simp [Below, startLevel]
      have same : Expr.listNameTokens 0 segments ++ [] = Expr.listNameTokens 0 segments' ++ [] := by
        simpa using tokens
      obtain ⟨rfl, _⟩ := Expr.listNameTokens_inj each each'
        (fun e among f _ _ segment' => (each e among).nameTokens_inj segment') ends ends same
      rfl

end QualifiedName

namespace Expr

variable {options : Options} {context : Context} {e : Expr} {segments : List Expr}

theorem contents_segments {level : Nat}
    (each : ∀ e ∈ segments, (Layout.emission options context (.segment options e)).fault = none →
      (Layout.emission options context (.segment options e)).contents.toList
        = (e.nameTokens level).flatMap NameToken.chars)
    (written :
      (Layout.emission options context (segments.flatMap (Layout.segment options))).fault = none) :
    (Layout.emission options context
        (segments.flatMap (Layout.segment options))).contents.toList
      = (listNameTokens level segments).flatMap NameToken.chars := by
  induction segments with
  | nil => rfl
  | cons e more ih =>
    obtain ⟨each_e, each_more⟩ := List.forall_mem_cons.mp each
    rw [List.flatMap_cons, Layout.emission_append] at written ⊢
    rw [Emission.fault_andThen, Option.or_eq_none_iff] at written
    rw [Emission.contents_andThen _ written.1, String.toList_append, each_e written.1,
      ih each_more written.2, listNameTokens_cons, List.flatMap_append]

theorem contents_parts {level : Nat}
    (each : ∀ e ∈ segments, (Layout.emission options context (.segment options e)).fault = none →
      (Layout.emission options context (.segment options e)).contents.toList
        = (e.nameTokens level).flatMap NameToken.chars)
    (written : ((complexReference (.parts segments)).emission options context).fault = none) :
    ((complexReference (.parts segments)).emission options context).contents.toList
      = (listNameTokens level segments).flatMap NameToken.chars := by
  have laid := emission_of_fine written
  rw [laid] at written ⊢
  exact contents_segments each written

theorem Segment.contents (segment : e.Segment) (context : Context) (level : Nat)
    (written : (Layout.emission options context (.segment options e)).fault = none) :
    (Layout.emission options context (.segment options e)).contents.toList
      = (e.nameTokens level).flatMap NameToken.chars := by
  induction segment generalizing context level with
  | @string text => simp [Expr.string, Layout.segment, Item.emission, nameTokens, NameToken.chars]
  | @reference segments _ _ _ ih =>
    have marked : Layout.emission options context
          (.segment options (.complexReference (.parts segments)))
        = .text Token.resolve
          ++ ((complexReference (.parts segments)).emission options context.nested
            ++ .text Token.resolve) := by
      simp [Layout.segment, Item.emission, Descent.context]
    have mark : Token.resolve.toList = ['%'] := by decide
    rw [marked] at written ⊢
    have fine : ((complexReference (.parts segments)).emission options context.nested).fault
        = none := by
      simpa using written
    have inner := contents_parts (fun e among => ih e among context.nested (level + 1)) fine
    rw [Emission.contents_andThen _ rfl, Emission.contents_andThen _ fine]
    simp [mark, inner, NameToken.chars]

end Expr

theorem QualifiedName.Dynamic.contents {name : QualifiedName} (dynamic : name.Dynamic)
    {options : Options} {context : Context}
    (written : ((Expr.complexReference name).emission options context).fault = none) :
    ((Expr.complexReference name).emission options context).contents.toList
      = (name.tokens 0).flatMap NameToken.chars := by
  cases dynamic with
  | reference _ each _ =>
    exact Expr.contents_parts (fun e among => (each e among).contents context 0) written

namespace Printer

-- The text of a name that is put together at run time determines its strings, in their order, and
-- the marks between them, and is determined by them. Where two names have one text, a string stands
-- at an even level in one of them if it does in the other, and the names are the same unless some
-- string stands two levels or more further down in one of them; so they are the same if no
-- reference in them is in a reference.
theorem emit_dynamic_name (options : Options) {a b : QualifiedName} (dynamic : a.Dynamic)
    (dynamic' : b.Dynamic) (context context' : Context) :
    let first := Printer.emit { options } (.expression (.complexReference a) context)
    let second := Printer.emit { options } (.expression (.complexReference b) context')
    first.2 = none → second.2 = none →
      (first.1.text = second.1.text ↔ a.outline = b.outline) ∧
      (first.1.text = second.1.text →
        a.levels.map (· % 2) = b.levels.map (· % 2) ∧
        ((∀ pair ∈ a.levels.zip b.levels, pair.1 < pair.2 + 2 ∧ pair.2 < pair.1 + 2) → a = b) ∧
        ((∀ level ∈ a.levels ++ b.levels, level ≤ 1) → a = b)) := by
  intro first second written written'
  simp only [first, second, emit_fresh, Option.map_eq_none_iff, Job.emission] at written written'
  have texts : first.1.text = second.1.text ↔ a.outline = b.outline := by
    simp only [first, second, emit_fresh, text, Job.emission]
    rw [← String.toList_inj, dynamic.contents written, dynamic'.contents written']
    exact ⟨NameToken.outline_of_chars dynamic.legible dynamic'.legible,
      NameToken.chars_of_outline⟩
  refine ⟨texts, fun same => ?_⟩
  have outline := texts.mp same
  have sides : a.levels.map (· % 2) = b.levels.map (· % 2) := by
    rw [dynamic.levels_mod, dynamic'.levels_mod, outline]
  have near (close : ∀ pair ∈ a.levels.zip b.levels,
      pair.1 < pair.2 + 2 ∧ pair.2 < pair.1 + 2) : a = b :=
    dynamic.eq_of_outline dynamic' outline (NameToken.levels_of_mod sides close)
  refine ⟨sides, near, fun shallow => near fun pair among => ?_⟩
  have first := shallow pair.1 (List.mem_append_left _ (List.of_mem_zip among).1)
  have second := shallow pair.2 (List.mem_append_right _ (List.of_mem_zip among).2)
  omega

-- An element of an array by its index, and two names of one text: the same strings and marks, but
-- one string two levels further down.
theorem emit_dynamic_name_of_levels :
    let name (text : String) : Expr := .complexReference (.parts [.string text])
    let element : QualifiedName := .parts [.string "arr", name "i"]
    let flat : QualifiedName := .parts [name "a", .string "b", name "c"]
    let deep : QualifiedName :=
      .parts [.complexReference (.parts [.string "a", name "b", .string "c"])]
    (Printer.emit {} (.ofExpr (.complexReference element))).1.text = "arr%i%" ∧
      element = .parts (.string "arr" :: ["i"].map name) ∧
      flat.outline = deep.outline ∧ flat.levels.map (· % 2) = deep.levels.map (· % 2) ∧
      flat.levels = [1, 0, 1] ∧ deep.levels = [1, 2, 1] := by
  intro name element flat deep
  have first : element.Dynamic := by
    simp [element, name, QualifiedName.Dynamic, Expr.segment_reference, Expr.segment_string,
      Expr.kind]
  have second : flat.Dynamic := by
    simp [flat, name, QualifiedName.Dynamic, Expr.segment_reference, Expr.segment_string,
      Expr.kind]
  have third : deep.Dynamic := by
    simp [deep, name, QualifiedName.Dynamic, Expr.segment_reference, Expr.segment_string,
      Expr.kind]
  have again := emit_dynamic_name {} first first .root .root (by decide +kernel) (by decide +kernel)
  have levels := emit_dynamic_name {} second third .root .root (by decide +kernel)
    (by decide +kernel)
  obtain ⟨sides, _⟩ := levels.2 (by decide +kernel)
  exact ⟨by decide +kernel, (again.2 rfl).2.2 (by decide), levels.1.mp (by decide +kernel), sides,
    rfl, rfl⟩

-- A string between two references, or in a reference that is itself in one.
theorem emit_dynamic_name_nesting_lost :
    let name (text : String) : Expr := .complexReference (.parts [.string text])
    let flat : QualifiedName := .parts [name "a", .string "b", name "c"]
    let deep : QualifiedName :=
      .parts [.complexReference (.parts [.string "a", name "b", .string "c"])]
    flat.Dynamic ∧ deep.Dynamic ∧
      Printer.WritesAlike {} .root (.complexReference flat) (.complexReference deep) ∧
      (Printer.emit {} (.ofExpr (.complexReference flat))).1.text = "%a%b%c%" ∧
      Expr.complexReference flat ≠ .complexReference deep := by
  intro name flat deep
  have dynamic : flat.Dynamic := by
    simp [flat, name, QualifiedName.Dynamic, Expr.segment_reference, Expr.segment_string,
      Expr.kind]
  have dynamic' : deep.Dynamic := by
    simp [deep, name, QualifiedName.Dynamic, Expr.segment_reference, Expr.segment_string,
      Expr.kind]
  exact ⟨dynamic, dynamic', ⟨by decide +kernel, by decide +kernel, by decide +kernel⟩,
    by decide +kernel, by simp [flat, deep, name]⟩

end Printer

end HotkeyScript
