namespace HotkeyScript.Text

def Avoids (p : Char → Bool) (text : List Char) : Prop := ∀ c ∈ text.head?, p c = false

@[simp] theorem avoids_nil (p : Char → Bool) : Avoids p [] := by simp [Avoids]

@[simp] theorem avoids_cons (p : Char → Bool) (c : Char) (rest : List Char) :
    Avoids p (c :: rest) ↔ p c = false := by simp [Avoids]

theorem Avoids.mono {p q : Char → Bool} {text : List Char} (avoids : Avoids p text)
    (fewer : ∀ c, q c → p c) : Avoids q text := by
  intro c first
  have other := avoids c first
  cases begun : q c with
  | false => rfl
  | true => simp [fewer c begun] at other

theorem run_inj {p : Char → Bool} {a b r s : List Char} (run_a : ∀ c ∈ a, p c)
    (run_b : ∀ c ∈ b, p c) (ends_a : Avoids p r) (ends_b : Avoids p s)
    (same : a ++ r = b ++ s) : a = b ∧ r = s := by
  induction a generalizing b with
  | nil =>
    cases b with
    | nil => exact ⟨rfl, same⟩
    | cons d b =>
      have among := run_b d List.mem_cons_self
      rw [List.nil_append, List.cons_append] at same
      simp [same, among] at ends_a
  | cons c a ih =>
    cases b with
    | nil =>
      have among := run_a c List.mem_cons_self
      rw [List.nil_append, List.cons_append] at same
      simp [← same, among] at ends_b
    | cons d b =>
      obtain ⟨rfl, tails⟩ := List.cons.inj same
      obtain ⟨rfl, rests⟩ := ih (fun c more => run_a c (List.mem_cons_of_mem _ more))
        (fun d more => run_b d (List.mem_cons_of_mem _ more)) tails
      exact ⟨rfl, rests⟩

theorem takeWhile_run {p : Char → Bool} {run rest : List Char} (all : ∀ c ∈ run, p c)
    (ends : Avoids p rest) : (run ++ rest).takeWhile p = run := by
  rw [List.takeWhile_append_of_pos all]
  cases rest with
  | nil => simp
  | cons c rest => simp [(avoids_cons p c rest).mp ends]

theorem dropWhile_run {p : Char → Bool} {run rest : List Char} (all : ∀ c ∈ run, p c)
    (ends : Avoids p rest) : (run ++ rest).dropWhile p = rest := by
  rw [List.dropWhile_append_of_pos all]
  cases rest with
  | nil => rfl
  | cons c rest => simp [(avoids_cons p c rest).mp ends]

-- What stands between the occurrences of a mark, found from left to right. The number counts the
-- characters of an occurrence that are still to be passed over.
def cut (mark : List Char) : Nat → List Char → List (List Char)
  | _, [] => [[]]
  | more + 1, _ :: rest => cut mark more rest
  | 0, c :: rest =>
    if mark.isPrefixOf (c :: rest) then [] :: cut mark (mark.length - 1) rest
    else (cut mark 0 rest).modifyHead (c :: ·)

def split (mark text : String) : List String :=
  (cut mark.toList 0 text.toList).map String.ofList

theorem cut_passed (mark passed rest : List Char) :
    cut mark passed.length (passed ++ rest) = cut mark 0 rest := by
  induction passed with
  | nil => rfl
  | cons c passed ih => rw [List.length_cons, List.cons_append, cut, ih]

theorem cut_line {mark : List Char} (some_mark : mark ≠ []) {line : List Char}
    (unmarked : ∀ c ∈ line, c ∉ mark) (rest : List Char) :
    cut mark 0 (line ++ mark ++ rest) = line :: cut mark 0 rest := by
  obtain ⟨m, more, rfl⟩ := List.exists_cons_of_ne_nil some_mark
  induction line with
  | nil =>
    have found : (m :: more).isPrefixOf (m :: (more ++ rest)) := by simp
    rw [List.nil_append, List.cons_append, cut, if_pos found]
    exact congrArg _ (cut_passed (m :: more) more rest)
  | cons c line ih =>
    obtain ⟨other, later⟩ := List.forall_mem_cons.mp unmarked
    have absent : ¬ (m :: more).isPrefixOf (c :: (line ++ (m :: more) ++ rest)) := by
      intro found
      obtain ⟨same, _⟩ := List.cons_prefix_cons.mp (List.isPrefixOf_iff_prefix.mp found)
      exact other (same ▸ List.mem_cons_self)
    rw [List.cons_append, List.cons_append, cut, if_neg absent, ih later, List.modifyHead_cons]

theorem split_lines {mark : String} (some_mark : mark ≠ "") {lines : List String}
    (unmarked : ∀ line ∈ lines, ∀ c ∈ line.toList, c ∉ mark.toList) :
    split mark (String.join (lines.map (· ++ mark))) = lines ++ [""] := by
  have nonempty : mark.toList ≠ [] := by simpa using some_mark
  induction lines with
  | nil => rfl
  | cons line lines ih =>
    obtain ⟨own, others⟩ := List.forall_mem_cons.mp unmarked
    have rest := ih others
    unfold split at rest ⊢
    rw [List.map_cons, String.join_cons, String.toList_append, String.toList_append,
      cut_line nonempty own, List.map_cons, rest, String.ofList_toList, List.cons_append]

end HotkeyScript.Text
