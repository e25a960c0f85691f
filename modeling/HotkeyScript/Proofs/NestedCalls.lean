import HotkeyScript.Proofs.SinkLaw
namespace HotkeyScript

-- What a layout comes to when an emitter that may be cut off writes its parts. Nothing that
-- stands after a fault is reached.
def Layout.emissionWith? (part : Descent → Expr → Option Emission) : Layout → Option Emission
  | [] => some .nothing
  | .fixed written :: rest =>
    if written.fault.isSome then some written else (emissionWith? part rest).map (written ++ ·)
  | .part d c :: rest => do
    let written ← part d c
    if written.fault.isSome then some written else (emissionWith? part rest).map (written ++ ·)

-- An emitter with room for so many calls at once, that of the whole expression among them. There
-- is no result where it is cut off.
def Expr.emissionWithin? (options : Options) : Nat → Expr → Context → Option Emission
  | 0, _, _ => none
  | calls + 1, e, context =>
    if options.maxDepth < context.depth then some (.fail (.depthLimitExceeded options.maxDepth))
    else (e.layout options context.statement).emissionWith? fun d c =>
      Expr.emissionWithin? options calls c (d.context context)

namespace Layout

variable {options : Options} {context : Context} {part : Descent → Expr → Option Emission}

theorem emissionWith?_of_parts {l : Layout}
    (parts : ∀ d c, .part d c ∈ l → part d c = some (c.emission options (d.context context))) :
    l.emissionWith? part = some (l.emission options context) := by
  induction l with
  | nil => rfl
  | cons item rest ih =>
    have others := ih fun d c among => parts d c (List.mem_cons_of_mem item among)
    have joined (written : Emission) :
        (if written.fault.isSome then some written
          else (emissionWith? part rest).map (written ++ ·))
          = some (written ++ Layout.emission options context rest) := by
      split
      · next faulty => rw [Emission.andThen_of_fault _ faulty]
      · rw [others]; rfl
    cases item with
    | fixed written => exact joined written
    | part d c =>
      rw [emissionWith?, parts d c List.mem_cons_self]
      exact joined _

theorem eq_of_emissionWith? {l : Layout} {r : Emission}
    (parts : ∀ d c, .part d c ∈ l → ∀ r, part d c = some r →
      r = c.emission options (d.context context))
    (done : l.emissionWith? part = some r) : r = l.emission options context := by
  induction l generalizing r with
  | nil => exact (Option.some.inj done).symm
  | cons item rest ih =>
    have others := fun r => @ih r fun d c among => parts d c (List.mem_cons_of_mem item among)
    have joined (written : Emission)
        (done : (if written.fault.isSome then some written
          else (emissionWith? part rest).map (written ++ ·)) = some r) :
        r = written ++ Layout.emission options context rest := by
      split at done
      · next faulty => rw [Emission.andThen_of_fault _ faulty, Option.some.inj done]
      · obtain ⟨later, finished, rfl⟩ := Option.map_eq_some_iff.mp done
        rw [others later finished]
    cases item with
    | fixed written => exact joined written done
    | part d c =>
      obtain ⟨written, own, finished⟩ := Option.bind_eq_some_iff.mp done
      rw [joined written finished, parts d c List.mem_cons_self written own]
      rfl

end Layout

namespace Expr

variable {options : Options}

theorem eq_of_emissionWithin? {calls : Nat} {e : Expr} {context : Context} {r : Emission}
    (done : e.emissionWithin? options calls context = some r) : r = e.emission options context := by
  induction calls generalizing e context r with
  | zero => cases done
  | succ calls ih =>
    rw [emissionWithin?] at done
    rw [emission_eq_layout]
    split at done
    · next exceeded => rw [if_pos exceeded, Option.some.inj done]
    · next within =>
      rw [if_neg within]
      exact Layout.eq_of_emissionWith? (fun _ _ _ _ own => ih own) done

-- At the level of the expression so many calls are nested in one another, its own among them, and
-- at each deeper level no more than `k`.
inductive LevelRuns (k : Nat) : Nat → Expr → Prop where
  | intro {n : Nat} {e : Expr}
      (deeper : ∀ options bare c, .part .nested c ∈ e.layout options bare → LevelRuns k k c)
      (beside : ∀ options bare d c, d ≠ .nested → .part d c ∈ e.layout options bare →
        LevelRuns k n c) :
      LevelRuns k (n + 1) e

theorem emissionWithin?_of_levelRuns (bounded : options.maxDepth < 4294967295) {k n : Nat}
    {e : Expr} (runs : e.LevelRuns k n) (context : Context) {calls : Nat}
    (enough : n + (options.maxDepth.toNat + 1 - context.depth.toNat) * k ≤ calls) :
    e.emissionWithin? options calls context = some (e.emission options context) := by
  induction runs generalizing context calls with
  | @intro n e _ _ deeper beside =>
    obtain ⟨rest, rfl⟩ : ∃ rest, calls = rest + 1 := ⟨calls - 1, by omega⟩
    rw [emissionWithin?, emission_eq_layout]
    split
    · rfl
    · next within =>
      refine Layout.emissionWith?_of_parts fun d c part => ?_
      -- One call less is left for a part at the same level, and `k` for one on the next level.
      cases d with
      | same => exact beside options _ .same c (by simp) part _ (by simp [Descent.context]; omega)
      | operand =>
        refine beside options _ .operand c (by simp) part _ ?_
        simp only [Descent.context, Context.operand]
        omega
      | nested =>
        refine deeper options _ c part _ ?_
        rw [UInt32.lt_iff_toNat_lt] at bounded within
        have least : (4294967295 : UInt32).toNat = 4294967295 := rfl
        have level : (context.nested).depth.toNat = context.depth.toNat + 1 := by
          simp only [Context.nested, Context.toNat_deeper]
          omega
        obtain ⟨levels, room⟩ :
            ∃ levels, options.maxDepth.toNat + 1 - context.depth.toNat = levels + 1 :=
          ⟨options.maxDepth.toNat - context.depth.toNat, by omega⟩
        rw [room, Nat.succ_mul] at enough
        have below : options.maxDepth.toNat + 1 - (context.nested).depth.toNat = levels := by omega
        simp only [Descent.context, below]
        omega

-- A limit of `m` allows for `m + 2` levels from the root. As many calls at once are enough for
-- each level as marker constructs are nested in one another with their operands at one level.
theorem emission_within_calls (options : Options) (bounded : options.maxDepth < 4294967295)
    (k : Nat) (e : Expr) (runs : e.LevelRuns k k) :
    e.emissionWithin? options ((options.maxDepth.toNat + 2) * k) .root
      = some (e.emission options .root) := by
  refine emissionWithin?_of_levelRuns bounded runs .root ?_
  have root : Context.root.depth.toNat = 0 := rfl
  rw [root, Nat.sub_zero, Nat.add_mul, Nat.add_mul]
  omega

theorem emission_within_calls_of_sum :
    (1 : UInt32) < 4294967295 ∧
      (binary (.var "a") .add (.var "b")).LevelRuns 1 1 ∧
      (binary (.var "a") .add (.var "b")).emissionWithin? { maxDepth := 1 } 3 .root
        = some ((binary (.var "a") .add (.var "b")).emission { maxDepth := 1 } .root) := by
  have name (text : String) : (var text).LevelRuns 1 1 :=
    .intro (by simp [var, layout]) (by simp [var, layout])
  have runs : (binary (.var "a") .add (.var "b")).LevelRuns 1 1 := by
    refine .intro (fun options bare c part => ?_) (fun options bare d c other part => ?_)
    · cases bare <;> simp [binary, layout, Layout.parenthesizedUnless] at part
      all_goals rcases part with rfl | rfl <;> exact name _
    · cases bare <;> simp [binary, layout, Layout.parenthesizedUnless] at part
      all_goals rcases part with ⟨rfl, _⟩ | ⟨rfl, _⟩ <;> exact absurd rfl other
  exact ⟨by decide, runs, emission_within_calls { maxDepth := 1 } (by decide) 1 _ runs⟩

def conditionals : Nat → Expr
  | 0 => .var "x"
  | n + 1 => .markerCall "IfElse" [conditionals n]

theorem layout_conditionals (n : Nat) (bare : Bool) :
    (conditionals (n + 1)).layout options bare = [.part .same (conditionals n)] := by
  have found : Intrinsic.find? "IfElse" 1 = some .conditional :=
    Intrinsic.find?_self .conditional
  simp [conditionals, markerCall, layout, Layout.invocation, written?, Layout.markerCall, found]

theorem emission_conditionals (n : Nat) :
    (conditionals n).emission options .root = .text "x" := by
  have within : ¬ options.maxDepth < Context.root.depth := by
    simp [Context.root, UInt32.lt_iff_toNat_lt]
  induction n with
  | zero => rw [emission_eq_layout, if_neg within]; rfl
  | succ n ih =>
    rw [emission_eq_layout, if_neg within, layout_conditionals, Layout.emission_cons,
      Layout.emission_nil, Emission.andThen_nothing]
    exact ih

theorem emissionWithin?_conditionals (calls : Nat) (context : Context)
    (within : ¬ options.maxDepth < context.depth) :
    (conditionals calls).emissionWithin? options calls context = none := by
  induction calls with
  | zero => rfl
  | succ calls ih =>
    rw [emissionWithin?, if_neg within, layout_conditionals, Layout.emissionWith?]
    simp [Descent.context, ih]

end Expr

-- No number of calls is enough for every tree that a printer writes under a limit: here each of
-- the nested conditions waits for the next one at depth zero, and all of them are written.
theorem Printer.emit_exceeds_calls (options : Options) (calls : Nat) :
    ∃ e : Expr, Printer.emit { options } (.ofExpr e) = (⟨options, ⟨"x", none⟩⟩, none) ∧
      e.emissionWithin? options calls .root = none := by
  refine ⟨Expr.conditionals calls, ?_, ?_⟩
  · have written : (Job.ofExpr (Expr.conditionals calls)).emission options = .text "x" :=
      Expr.emission_conditionals calls
    rw [emit_fresh, written]
    rfl
  · exact Expr.emissionWithin?_conditionals calls .root
      (by simp [Context.root, UInt32.lt_iff_toNat_lt])

theorem Printer.calls_not_bounded_by_limit :
    ¬ ∀ limit : UInt32, limit < 4294967295 → ∃ calls : Nat,
      ∀ (options : Options) (e : Expr), options.maxDepth = limit →
        e.emissionWithin? options calls .root = some (e.emission options .root) := by
  intro claimed
  obtain ⟨calls, enough⟩ := claimed 0 (by decide)
  obtain ⟨e, _, cut⟩ := emit_exceeds_calls { maxDepth := 0 } calls
  rw [enough { maxDepth := 0 } e rfl] at cut
  cases cut

end HotkeyScript
