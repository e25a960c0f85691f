import HotkeyScript.Token
namespace HotkeyScript

inductive NewLine where
  | lineFeed
  | carriageReturnLineFeed
deriving DecidableEq, Repr, Inhabited

def NewLine.text : NewLine → String
  | .lineFeed => "\n"
  | .carriageReturnLineFeed => "\r\n"

def NewLine.all : List NewLine := [.lineFeed, .carriageReturnLineFeed]

-- Trees come from outside and are only known to be finite. A limit on nesting turns a
-- pathological one into a fault instead of an exhausted stack.
def standardDepthLimit : UInt32 := 512

def smallStackDepthLimit : UInt32 := 128

def defaultDepthLimit : UInt32 := standardDepthLimit

structure Options where
  escapeStrings : Bool := false
  fieldSeparator : Bool := false
  maxDepth : UInt32 := defaultDepthLimit
  newLine : NewLine := .lineFeed
  indent : String := "    "
deriving DecidableEq, Repr, Inhabited

structure Context where
  statement : Bool := false
  depth : UInt32 := 0
deriving DecidableEq, Repr, Inhabited

namespace Context

def root : Context := {}

def asStatement (c : Context) : Context := ⟨true, c.depth⟩

def operand (c : Context) : Context := ⟨false, c.depth⟩

-- The depth counter stays at its greatest value instead of starting again at zero,
-- so a limit once passed stays passed.
def deeper (depth : UInt32) : UInt32 :=
  if depth = 4294967295 then depth else depth + 1

def nested (c : Context) : Context := ⟨false, deeper c.depth⟩

theorem toNat_deeper (d : UInt32) : (deeper d).toNat = min (d.toNat + 1) 4294967295 := by
  unfold deeper
  split
  · next top => subst top; decide
  · next below =>
    have bound := d.toNat_lt
    have distinct : d.toNat ≠ 4294967295 := fun same => below (UInt32.toNat_inj.mp same)
    have fits : d.toNat + 1 < 2 ^ 32 := by omega
    rw [UInt32.toNat_add]
    simp only [UInt32.toNat_ofNat]
    omega

end Context

end HotkeyScript
