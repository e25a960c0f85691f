import HotkeyScript.Json.Printer
import HotkeyScript.Proofs.NumberText
namespace HotkeyScript.Json

theorem hexDigit?_digitChar {k : Nat} (small : k < 16) : hexDigit? (Nat.digitChar k) = some k := by
  have all : ∀ k < 16, hexDigit? (Nat.digitChar k) = some k := by decide
  exact all k small

theorem readUnits_controlEscape {c : Char} (control : c.toNat < 0x20) (rest : List Char) :
    readUnits (controlEscape c ++ rest)
      = (readUnits rest).map fun (units, rest) => (c.toNat :: units, rest) := by
  have high := hexDigit?_digitChar (k := c.toNat / 16) (by omega)
  have low := hexDigit?_digitChar (k := c.toNat % 16) (by omega)
  have zero : hexDigit? '0' = some 0 := by decide
  have unit : hexUnit? '0' '0' (Nat.digitChar (c.toNat / 16)) (Nat.digitChar (c.toNat % 16))
      = some c.toNat := by
    simp [hexUnit?, high, low, zero]
    omega
  change readUnits ('\\' :: 'u' :: '0' :: '0' :: _ :: _ :: rest) = _
  rw [readUnits, unit]
  cases readUnits rest <;> rfl

theorem readUnits_escapedChar (c : Char) (rest : List Char) :
    readUnits (escapedChar c ++ rest)
      = (readUnits rest).map fun (units, rest) => (c.toNat :: units, rest) := by
  unfold escapedChar
  split
  case h_8 noQuote noEscape _ _ _ _ _ =>
    split
    · next control => exact readUnits_controlEscape control rest
    · next plain =>
      rw [List.singleton_append, readUnits, if_neg plain]
      · cases readUnits rest <;> rfl
      · exact noQuote
      · exact fun _ _ _ _ _ escape _ => noEscape escape
      · exact fun _ _ escape _ => noEscape escape
  all_goals cases read : readUnits rest <;> simp [readUnits, shortEscape?, read]

theorem readUnits_text (text rest : List Char) :
    readUnits (text.flatMap escapedChar ++ '\x22' :: rest)
      = some (text.map Char.toNat, rest) := by
  induction text with
  | nil => rfl
  | cons c text ih =>
    rw [List.flatMap_cons, List.append_assoc, readUnits_escapedChar, ih]
    rfl

theorem isSurrogate_toNat (c : Char) : isSurrogate c.toNat = false := by
  have valid : c.toNat < 0xd800 ∨ 0xdfff < c.toNat ∧ c.toNat < 0x110000 := c.valid
  simp [isSurrogate, isHighSurrogate, isLowSurrogate]
  omega

theorem joinUnits_text (text : List Char) : joinUnits (text.map Char.toNat) = some text := by
  induction text with
  | nil => rfl
  | cons c text ih =>
    have single := isSurrogate_toNat c
    cases text with
    | nil => simp [joinUnits, single]
    | cons d text =>
      have high : isHighSurrogate c.toNat = false := (Bool.or_eq_false_iff.mp single).1
      rw [List.map_cons, List.map_cons, joinUnits, high, single, ← List.map_cons, ih]
      simp

theorem readText_quoted (text : JsonText) (rest : List Char) :
    readText ((quoted text).tail ++ rest) = some (text, rest) := by
  cases text with
  | none => rfl
  | some text =>
    have units := readUnits_text text.toList rest
    simp [quoted, readText, units, joinUnits_text]

mutual

-- Every number in it is spelled as documents spell numbers.
def Numbered : Json → Prop
  | .number numeral => numeral.WellFormed
  | .array items => ItemsNumbered items
  | .object members => MembersNumbered members
  | _ => True

def ItemsNumbered : List Json → Prop
  | [] => True
  | item :: rest => item.Numbered ∧ ItemsNumbered rest

def MembersNumbered : List (JsonText × Json) → Prop
  | [] => True
  | (_, value) :: rest => value.Numbered ∧ MembersNumbered rest

end

@[simp] theorem numbered_ofString (text : String) : (ofString text).Numbered := trivial

@[simp] theorem numbered_bool (value : Bool) : (Json.bool value).Numbered := trivial

@[simp] theorem numbered_tagged (tag : String) (payload : Json) :
    (tagged tag payload).Numbered ↔ payload.Numbered := by
  simp [tagged, Numbered, MembersNumbered]

@[simp] theorem numbered_record (members : List (String × Json)) :
    (record members).Numbered ↔ ∀ m ∈ members, m.2.Numbered := by
  rw [record, Numbered]
  induction members with
  | nil => simp [MembersNumbered]
  | cons m rest ih => simp [MembersNumbered, ih]

@[simp] theorem numbered_array (items : List Json) :
    (Json.array items).Numbered ↔ ∀ item ∈ items, item.Numbered := by
  rw [Numbered]
  induction items with
  | nil => simp [ItemsNumbered]
  | cons item rest ih => simp [ItemsNumbered, ih]

def opens (c : Char) : Bool := !isBlank c && c != ']' && c != '\x7d'

def opensNumber (c : Char) : Bool := c = '-' || c.isDigit

theorem opens_of_opensNumber {c : Char} (first : opensNumber c) : opens c := by
  have ne (d : Char) (other : opensNumber d = false) : c ≠ d := by
    rintro rfl
    rw [first] at other
    cases other
  simp [opens, isBlank, ne ' ' (by decide), ne '\t' (by decide), ne '\n' (by decide),
    ne '\r' (by decide), ne ']' (by decide), ne '\x7d' (by decide)]

theorem number_begins {n : Numeral} (wellFormed : n.WellFormed) :
    ∃ c rest, n.text = c :: rest ∧ opensNumber c := by
  obtain ⟨negative, whole, fraction, exponent⟩ := n
  cases negative with
  | true => exact ⟨'-', _, rfl, rfl⟩
  | false =>
    cases whole with
    | nil => exact absurd rfl wellFormed.whole_ne_nil
    | cons c whole => exact ⟨c, _, rfl, by simp [opensNumber, wellFormed.whole c (by simp)]⟩

theorem value_begins {j : Json} (numbered : j.Numbered) :
    ∃ c rest, j.chars = c :: rest ∧ opens c := by
  cases j with
  | null => exact ⟨_, _, rfl, by decide⟩
  | bool value => cases value <;> exact ⟨_, _, rfl, by decide⟩
  | number n =>
    obtain ⟨c, rest, spelled, first⟩ := number_begins numbered
    exact ⟨c, rest, spelled, opens_of_opensNumber first⟩
  | string text => exact ⟨_, _, rfl, by decide⟩
  | array items => exact ⟨_, _, rfl, by decide⟩
  | object members => exact ⟨_, _, rfl, by decide⟩

theorem skipBlanks_of_opens {c : Char} (first : opens c) (rest : List Char) :
    skipBlanks (c :: rest) = c :: rest := by
  simp_all [skipBlanks, opens]

theorem readValue_number {n : Numeral} (wellFormed : n.WellFormed) {rest : List Char}
    (ends : Text.Avoids Numeral.goesOn rest) (bound : Nat) :
    readValue (bound + 1) (n.text ++ rest) = some (.number n, rest) := by
  have read := readNumeral_text wellFormed ends
  obtain ⟨c, further, spelled, first⟩ := number_begins wellFormed
  rw [spelled, List.cons_append] at read ⊢
  rw [readValue, skipBlanks_of_opens (opens_of_opensNumber first)]
  split
  case h_7 =>
    rw [read]
    rfl
  all_goals
    next begins =>
      injection begins with other
      rw [other] at first
      exact absurd first (by decide)

theorem readValue_string (text : JsonText) (rest : List Char) (bound : Nat) :
    readValue (bound + 1) (quoted text ++ rest) = some (.string text, rest) := by
  have read := readText_quoted text rest
  change readValue (bound + 1) ('\x22' :: ((quoted text).tail ++ rest)) = _
  rw [readValue, skipBlanks_of_opens (by decide)]
  simp only [read]
  rfl

-- What the readers do within a bound: every two steps use up a character, so a bound of twice the
-- length is never what ends the reading.
def ReadsValues (bound : Nat) : Prop :=
  ∀ j rest, j.Numbered → 2 * j.chars.length ≤ bound + 1 → Text.Avoids Numeral.goesOn rest →
    readValue bound (j.chars ++ rest) = some (j, rest)

def ReadsItems (bound : Nat) : Prop :=
  ∀ items rest, items ≠ [] → ItemsNumbered items → 2 * (itemChars items).length ≤ bound →
    readItems bound (itemChars items ++ ']' :: rest) = some (items, rest)

def ReadsMembers (bound : Nat) : Prop :=
  ∀ members rest, members ≠ [] → MembersNumbered members →
    2 * (memberChars members).length ≤ bound →
    readMembers bound (memberChars members ++ '\x7d' :: rest) = some (members, rest)

theorem itemChars_begins {items : List Json} (some_item : items ≠ [])
    (numbered : ItemsNumbered items) : ∃ c rest, itemChars items = c :: rest ∧ opens c := by
  cases items with
  | nil => exact absurd rfl some_item
  | cons item others =>
    obtain ⟨c, rest, spelled, first⟩ := value_begins numbered.1
    cases others with
    | nil => exact ⟨c, rest, spelled, first⟩
    | cons next others => exact ⟨c, _, by rw [itemChars, spelled]; rfl; simp, first⟩

theorem memberChars_begins {members : List (JsonText × Json)} (some_member : members ≠ []) :
    ∃ rest, memberChars members = '\x22' :: rest := by
  match members with
  | [] => exact absurd rfl some_member
  | [(key, value)] => exact ⟨_, rfl⟩
  | (key, value) :: next :: rest => exact ⟨_, rfl⟩

theorem readsValues_succ {bound : Nat} (items : ReadsItems bound) (members : ReadsMembers bound) :
    ReadsValues (bound + 1) := by
  intro j rest numbered enough ends
  cases j with
  | null => rfl
  | bool value => cases value <;> rfl
  | number n => exact readValue_number numbered ends bound
  | string text => exact readValue_string text rest bound
  | array list =>
    change readValue (bound + 1) ('[' :: (itemChars list ++ [']'] ++ rest)) = _
    rw [List.append_assoc, readValue, skipBlanks_of_opens (by decide)]
    by_cases empty : list = []
    · rw [empty]; rfl
    · obtain ⟨c, further, spelled, first⟩ := itemChars_begins empty numbered
      have read := items list rest empty numbered (by simp [chars] at enough; omega)
      rw [spelled, List.cons_append] at read
      simp only [spelled, List.cons_append, List.nil_append, skipBlanks_of_opens first]
      split
      · next closed => 
        injection closed with other
        rw [other] at first
        exact absurd first (by decide)
      · rw [read]; rfl
  | object list =>
    change readValue (bound + 1) ('\x7b' :: (memberChars list ++ ['\x7d'] ++ rest)) = _
    rw [List.append_assoc, readValue, skipBlanks_of_opens (by decide)]
    by_cases empty : list = []
    · rw [empty]; rfl
    · obtain ⟨further, spelled⟩ := memberChars_begins empty
      have read := members list rest empty numbered (by simp [chars] at enough; omega)
      rw [spelled, List.cons_append] at read
      simp only [spelled, List.cons_append, List.nil_append]
      rw [skipBlanks_of_opens (by decide)]
      split
      · next closed => injection closed with other; cases other
      · rw [read]; rfl

theorem readsItems_succ {bound : Nat} (values : ReadsValues bound) (items : ReadsItems bound) :
    ReadsItems (bound + 1) := by
  intro list rest some_item numbered enough
  match list with
  | [] => exact absurd rfl some_item
  | [item] =>
    have read := values item (']' :: rest) numbered.1 enough (by simp; decide)
    simp only [itemChars, readItems, read]
    rfl
  | item :: next :: others =>
    have read := values item (',' :: (itemChars (next :: others) ++ ']' :: rest)) numbered.1
      (by simp [itemChars] at enough ⊢; omega) (by simp; decide)
    have tail := items (next :: others) rest (by simp) numbered.2
      (by simp [itemChars] at enough ⊢; omega)
    rw [itemChars, List.append_assoc, List.cons_append, readItems, read]
    · simp [skipBlanks_of_opens (by decide : opens ','), tail]
    · simp

theorem quoted_append (text : JsonText) (rest : List Char) :
    quoted text ++ rest = '\x22' :: ((quoted text).tail ++ rest) := rfl

theorem readsMembers_succ {bound : Nat} (values : ReadsValues bound)
    (members : ReadsMembers bound) : ReadsMembers (bound + 1) := by
  intro list rest some_member numbered enough
  have colon : opens ':' := by decide
  match list with
  | [] => exact absurd rfl some_member
  | [(key, value)] =>
    have read := values value ('\x7d' :: rest) numbered.1
      (by simp [memberChars] at enough ⊢; omega) (by simp; decide)
    rw [memberChars, List.append_assoc, quoted_append, readMembers,
      skipBlanks_of_opens (by decide)]
    simp [readText_quoted, skipBlanks_of_opens colon, read]
    rfl
  | (key, value) :: next :: others =>
    have read := values value (',' :: (memberChars (next :: others) ++ '\x7d' :: rest)) numbered.1
      (by simp [memberChars] at enough ⊢; omega) (by simp; decide)
    have tail := members (next :: others) rest (by simp) numbered.2
      (by simp [memberChars] at enough ⊢; omega)
    rw [memberChars, List.append_assoc, quoted_append, readMembers,
      skipBlanks_of_opens (by decide)]
    · simp [readText_quoted, skipBlanks_of_opens colon, read,
        skipBlanks_of_opens (by decide : opens ','), tail]
    · simp

theorem reads (bound : Nat) : ReadsValues bound ∧ ReadsItems bound ∧ ReadsMembers bound := by
  induction bound with
  | zero =>
    refine ⟨fun j rest numbered enough => ?_, fun items rest some_item numbered enough => ?_,
      fun members rest some_member numbered enough => ?_⟩
    · obtain ⟨c, further, spelled, _⟩ := value_begins numbered
      simp [spelled] at enough
      omega
    · obtain ⟨c, further, spelled, _⟩ := itemChars_begins some_item numbered
      simp [spelled] at enough
    · obtain ⟨further, spelled⟩ := memberChars_begins some_member
      simp [spelled] at enough
  | succ bound ih =>
    obtain ⟨values, items, members⟩ := ih
    exact ⟨readsValues_succ items members, readsItems_succ values items,
      readsMembers_succ values members⟩

theorem ofText?_compact {j : Json} (numbered : j.Numbered) : ofText? j.compact = some j := by
  have read := (reads (readBound j.chars)).1 j [] numbered (by rw [readBound]; omega) (by simp)
  rw [List.append_nil] at read
  rw [ofText?, compact, String.toList_ofList, ofChars?, read]
  rfl

end HotkeyScript.Json
