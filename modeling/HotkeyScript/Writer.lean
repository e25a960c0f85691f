import HotkeyScript.Emission
import HotkeyScript.Token
namespace HotkeyScript

class Write (σ : Type) where
  write : σ → String → σ × Bool

abbrev Writer (σ : Type) := ExceptT EmitError (StateM σ)

namespace Writer

-- What a call leaves behind, and the error that ended it, if one did.
def outcome {σ : Type} (w : Writer σ Unit) (place : σ) : σ × Option EmitError :=
  match w.run.run place with
  | (.ok _, place) => (place, none)
  | (.error e, place) => (place, some e)

def refuse {σ α : Type} (fault : Fault) : Writer σ α := throw (.fault fault)

variable {σ : Type} [Write σ]

def put (piece : String) : Writer σ Unit := do
  let (place, taken) := Write.write (← get) piece
  set place
  unless taken do throw .write

def space : Writer σ Unit := put Token.space

def listSeparator : Writer σ Unit := do
  put Token.listSeparator
  space

def spaced (token : String) : Writer σ Unit := do
  space
  put token
  space

def assignment : Writer σ Unit := spaced Token.assign

def separated : List (Writer σ Unit) → Writer σ Unit
  | [] => pure ()
  | [part] => part
  | part :: rest => do
    part
    listSeparator
    separated rest

def call (method : String) (args : List (Writer σ Unit)) : Writer σ Unit := do
  put method
  put Token.parenOpen
  separated args
  put Token.parenClose

def array (elements : List (Writer σ Unit)) : Writer σ Unit := do
  put Token.arrayOpen
  separated elements
  put Token.arrayClose

def entries (keys values : List (Writer σ Unit)) : List (Writer σ Unit) :=
  keys.zipWith (fun key value => do key; assignment; value) values

def map (entries : List (Writer σ Unit)) : Writer σ Unit := do
  put Token.blockOpen
  unless entries.isEmpty do
    space
    separated entries
    space
  put Token.blockClose

def jump (label : String) : Writer σ Unit := do
  put Token.gotoWord
  space
  put label

end Writer

-- The longest run of whole characters from the front that takes at most `room` bytes.
def Text.fitting (room : Nat) : List Char → List Char
  | [] => []
  | c :: rest => if c.utf8Size ≤ room then c :: fitting (room - c.utf8Size) rest else []

structure Sink where
  text : String := ""
  capacity : Option Nat := none
deriving DecidableEq, Repr

namespace Sink

def size (s : Sink) : Nat := s.text.utf8ByteSize

def write (s : Sink) (piece : String) : Sink × Bool :=
  match s.capacity with
  | none => ({ s with text := s.text ++ piece }, true)
  | some capacity =>
    if s.size + piece.utf8ByteSize ≤ capacity then ({ s with text := s.text ++ piece }, true)
    else
      let cut := Text.fitting (capacity - s.size) piece.toList
      ({ s with text := s.text ++ String.ofList cut }, false)

instance : Write Sink := ⟨write⟩

end Sink

end HotkeyScript
