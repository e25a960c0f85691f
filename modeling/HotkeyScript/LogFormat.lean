namespace HotkeyScript

-- The shape of diagnostic output. It is chosen by callers that set diagnostics up and has no part
-- in a script.
inductive LogFormat where
  | text
  | tree
  | json
deriving DecidableEq, Repr, Inhabited

-- No character outside the ASCII letters has a lower case with a letter of these words in it,
-- so lowering the ASCII letters alone decides both. Any other word means flat text.
def LogFormat.ofWord (word : String) : LogFormat :=
  let lowered := String.ofList (word.toList.map Char.toLower)
  if lowered = "tree" then .tree
  else if lowered = "json" then .json
  else .text

end HotkeyScript
