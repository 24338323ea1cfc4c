import TreeSpec.Text.Basic

/-!
# Text on the outputs

Colours are for terminals. They are dropped from all that is written but log lines, also where they
come from the data.
-/

namespace TreeSpec.CommandLine

set_option autoImplicit false

/-- A character between the start and the end of a sequence that sets colours. -/
def isColourParameter (c : CodePoint) : Bool := c.isDigit || c = ';' || c = '?'

/-- Drops the sequences that set colours from a text of at most `fuel` characters; `read` has the
latest character first. -/
def dropColours : Nat → Text → Text → Text
  | fuel + 1, read, .char '\x1b' :: .char '[' :: cs =>
    match cs.dropWhile isColourParameter with
    | c :: rest =>
      if c.isAlpha then dropColours fuel read rest
      else dropColours fuel ('\x1b' :: read) ('[' :: cs)
    | [] => dropColours fuel ('\x1b' :: read) ('[' :: cs)
  | fuel + 1, read, c :: cs => dropColours fuel (c :: read) cs
  | _, read, cs => read.reverseAux cs

def withoutColours (text : Text) : Text := dropColours text.length [] text

def firstLine (text : Text) : Text := text.takeWhile (· != '\n')

end TreeSpec.CommandLine
