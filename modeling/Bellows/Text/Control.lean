/-!
Control sequences of terminals. They colour text or move the cursor, and are left out of what is
printed to a file.
-/
namespace Bellows
namespace Control

/-- The character that starts a control sequence. -/
def escapeChar : Char := '\x1b'

/-- Whether a character may stand between the start and the end of a control sequence. -/
def isParameter (c : Char) : Bool := c = ';' || c = '?' || c.isDigit

/-- Whether a character continues the start of a control sequence, which is held back to front. -/
def continues (held : List Char) (c : Char) : Bool :=
  match held with
  | [] => c = escapeChar
  | [_] => c = '['
  | _ => isParameter c

/-- Whether a character ends the control sequence that is held. -/
def closes (held : List Char) (c : Char) : Bool := 2 ≤ held.length && c.isAlpha

/-- A text without its control sequences, where `held` may be the start of one. -/
def dropFrom (held : List Char) : List Char → List Char
  | [] => held.reverse
  | c :: cs =>
    if continues held c then dropFrom (c :: held) cs
    else if closes held c then dropFrom [] cs
    else if c = escapeChar then held.reverse ++ dropFrom [c] cs
    else held.reverse ++ c :: dropFrom [] cs

end Control

/-- A text without its control sequences. -/
def withoutControls (s : String) : String := String.ofList (Control.dropFrom [] s.toList)

end Bellows
