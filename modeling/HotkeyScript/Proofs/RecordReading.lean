import HotkeyScript.Json.Reader
import Mathlib.Order.MinMax
namespace HotkeyScript.Json

variable {α β : Type}

-- Reading the document gives the value where there is room for it, and nothing where there is not.
def Yields (read : Nat → Json → Option α) (j : Json) (a : α) : Prop :=
  ∀ room, read room j = if j.depth ≤ room then some a else none

theorem Yields.map {read : Nat → Json → Option α} {j : Json} {a : α} (yields : Yields read j a)
    (f : α → β) : Yields (fun room j => (read room j).map f) j (f a) := by
  intro room
  simp only [yields room]
  split <;> rfl

theorem yields_of_opened {read : Nat → Json → Option α} {j : Json} {a : α} {inside : Nat}
    (opens : j.depth = inside + 1) (closed : read 0 j = none)
    (opened : ∀ room, read (room + 1) j = if inside ≤ room then some a else none) :
    Yields read j a := by
  intro room
  rw [opens]
  cases room with
  | zero => rw [closed, if_neg (by omega)]
  | succ room => simp only [opened, Nat.add_le_add_iff_right]

theorem bind_of_fits {needed room : Nat} (a : α) (read : α → Option β) :
    (if needed ≤ room then some a else none).bind read
      = if needed ≤ room then read a else none := by
  split <;> rfl

@[simp] theorem depth_ofString (text : String) : (ofString text).depth = 0 := rfl

@[simp] theorem depth_bool (value : Bool) : (Json.bool value).depth = 0 := rfl

@[simp] theorem text?_ofString (text : String) : (ofString text).text? = some text := rfl

@[simp] theorem bool?_bool (value : Bool) : (Json.bool value).bool? = some value := rfl

@[simp] theorem depth_tagged (tag : String) (payload : Json) :
    (tagged tag payload).depth = payload.depth + 1 := by
  simp [tagged, depth, membersDepth]

theorem name?_tagged {tag : String} {payload : Json} (data : payload ≠ .null) (room : Nat) :
    (tagged tag payload).name? room = none := by
  cases payload <;> first | rfl | exact absurd rfl data

theorem optional?_of_ne_null {read : Json → Option α} {j : Json} (data : j ≠ .null) :
    optional? read (some j) = (read j).map some := by
  cases j <;> first | rfl | exact absurd rfl data

theorem mapM_of_yields {read : Nat → Json → Option β} {write : α → Json} {back : α → β}
    {list : List α} (each : ∀ a ∈ list, Yields read (write a) (back a)) (room : Nat) :
    (list.map write).mapM (read room)
      = if itemsDepth (list.map write) ≤ room then some (list.map back) else none := by
  induction list with
  | nil => rfl
  | cons a rest ih =>
    have first := each a List.mem_cons_self room
    have others := ih fun b among => each b (List.mem_cons_of_mem _ among)
    simp [List.mapM_cons, first, others, bind_of_fits, ite_and, itemsDepth]

theorem lookup_of_mem {members : List (JsonText × Json)} (distinct : (members.map Prod.fst).Nodup)
    {m : JsonText × Json} (among : m ∈ members) : members.lookup m.1 = some m.2 := by
  induction members with
  | nil => cases among
  | cons first rest ih =>
    obtain ⟨fresh, others⟩ := List.nodup_cons.mp distinct
    obtain rfl | later := List.mem_cons.mp among
    · exact List.lookup_cons_self
    · have ne : m.1 ≠ first.1 := fun same => fresh (same ▸ List.mem_map_of_mem later)
      rw [List.lookup_cons, beq_false_of_ne ne, ih others later]

theorem occursOnce_of_distinct {members : List (JsonText × Json)}
    (distinct : (members.map Prod.fst).Nodup) (name : String) : occursOnce members name := by
  rw [occursOnce, decide_eq_true_eq]
  induction members with
  | nil => exact Nat.zero_le 1
  | cons first rest ih =>
    obtain ⟨fresh, others⟩ := List.nodup_cons.mp distinct
    by_cases own : first.1 = some name
    · have no_other : rest.filter (fun m => m.1 = some name) = [] := by
        refine List.filter_eq_nil_iff.mpr fun m among same => fresh ?_
        rw [own, ← of_decide_eq_true same]
        exact List.mem_map_of_mem among
      simp [own, no_other]
    · simpa [own] using ih others

theorem fields?_record {names : List String} {members : List (String × Json)}
    (named : members.map Prod.fst = names) (distinct : names.Nodup) :
    (record members).fields? names = some (members.map (some ·.2)) := by
  subst named
  have keys : ((members.map fun m => (some m.1, m.2)).map Prod.fst).Nodup := by
    rw [List.map_map]
    exact List.pairwise_map.mpr (List.Pairwise.imp (fun ne same => ne (Option.some.inj same))
      (List.pairwise_map.mp distinct))
  have found : ∀ m ∈ members,
      (members.map fun m => (some m.1, m.2)).lookup (some m.1) = some m.2 := fun m among =>
    lookup_of_mem keys (List.mem_map_of_mem (f := fun m => (some m.1, m.2)) among)
  simp only [record, fields?]
  rw [if_pos]
  · rw [List.map_map]
    exact congrArg some (List.map_congr_left found)
  · simp [occursOnce_of_distinct keys]

end HotkeyScript.Json
