import TreeSpec.Pattern.Reader

/-!
# Builtin patterns

The patterns of the builtin types, each as a text and as the expression that the text denotes. All
but `vars` describe the whole value.
-/

namespace TreeSpec.Builtin

set_option autoImplicit false

open Regex

/-! ## Parts -/

def lit (c : CodePoint) : Regex := .set (.of [.char c])

def word (s : Text) : List Regex := s.map lit

def oneOf (ranges : List (CodePoint × CodePoint)) : Regex :=
  .set (.of (ranges.map fun r => .range r.1 r.2))

def among (s : Text) : Regex := .set (.of (s.map .char))

def digit : Regex := .set (.of [.category .digit])

def wordChar : Regex := .set (.of [.category .word])

def anyChar : Regex := .set (.except [])

/-- The parts in order, from the start of the text to its end. -/
def whole (parts : List Regex) : Regex :=
  concat (.anchor .textStart :: parts ++ [.anchor .textEnd])

/-- Braces around a text, as in the written form of a bounded repetition. -/
def braced (s : Text) : Text := "\x7b" ++ s ++ "\x7d"

/-- A pattern between the start and the end of the value. -/
def anchored (source : Text) : Text := "\\A" ++ source ++ "\\Z"

/-! ## Numbers -/

def int : Pattern where
  source := anchored "-?\\d+"
  body := whole [(lit '-').optional, digit.plus]

def hexDigit : Regex := oneOf [('0', '9'), ('a', 'f'), ('A', 'F')]

/-- Hexadecimal digits with an optional `0x` in front. -/
def hex : Pattern where
  source := anchored "(?:0[xX])?[0-9a-fA-F]+"
  body := whole [(concat [lit '0', among "xX"]).optional, hexDigit.plus]

def oct : Pattern where
  source := anchored "[0-7]+"
  body := whole [(oneOf [('0', '7')]).plus]

def number : Pattern where
  source := anchored "[-+]?\\d+(?:[.,]\\d+)?"
  body := whole
    [(among "-+").optional, digit.plus, (concat [among ".,", digit.plus]).optional]

/-- A number of at most 65535 in five digits or fewer. -/
def port : Pattern where
  source := anchored
    ("(?:6553[0-5]|655[0-2]\\d|65[0-4]\\d\\d|6[0-4]\\d" ++ braced "3" ++ "|[1-5]\\d" ++
      braced "4" ++
      "|\\d" ++ braced "1,4" ++ ")")
  body := whole [choice
    [concat (word "6553" ++ [oneOf [('0', '5')]]),
      concat (word "655" ++ [oneOf [('0', '2')], digit]),
      concat (word "65" ++ [oneOf [('0', '4')], digit, digit]),
      concat [lit '6', oneOf [('0', '4')], digit.exactly 3],
      concat [oneOf [('1', '5')], digit.exactly 4],
      digit.between 1 4]]

/-! ## Text -/

def name : Pattern where
  source := anchored "[\\w-]+"
  body := whole [plus (.set (.of [.category .word, .char '-']))]

def line : Pattern where
  source := anchored "[^\\n\\r]*"
  body := whole [Regex.star (.set (.except [.char '\n', .char '\r']))]

def text : Pattern where
  source := anchored ".*"
  body := whole [Regex.star anyChar]

/-- A quoted pattern: between slashes, parentheses or braces, with modifiers after it. -/
def regexLiteral : Pattern where
  source := anchored "qr(?:/.*/|\\(.*\\)|\\\x7b.*\\\x7d)[imsxpn]*"
  body := whole (word "qr" ++
    [choice [concat [lit '/', Regex.star anyChar, lit '/'],
        concat [lit '(', Regex.star anyChar, lit ')'],
        concat [lit '\x7b', Regex.star anyChar, lit '\x7d']],
      Regex.star (among "imsxpn")])

def quoted : Pattern where
  source := anchored "'.*'"
  body := whole [lit '\x27', Regex.star anyChar, lit '\x27']

/-- A variable somewhere in the text: a dollar sign and a name, perhaps in brackets. -/
def vars : Pattern where
  source := "\\$(?:\\w+|\\(\\w+\\)|\\\x7b\\w+\\\x7d)"
  body := concat [lit '$', choice
    [wordChar.plus, concat [lit '(', wordChar.plus, lit ')'],
      concat [lit '\x7b', wordChar.plus, lit '\x7d']]]

/-! ## Places and addresses -/

/-- A scheme, a colon, two slashes and text without blanks. -/
def uri : Pattern where
  source := anchored "[A-Za-z][A-Za-z0-9+.\\-]*://[^\\s]+"
  body := whole ([oneOf [('A', 'Z'), ('a', 'z')],
    Regex.star (.set (.of [.range 'A' 'Z', .range 'a' 'z', .range '0' '9', .char '+', .char '.',
      .char '-']))] ++
    word "://" ++ [plus (.set (.except [.category .blank]))])

def path : Pattern where
  source := anchored "/[^\\0\\n]*"
  body := whole [lit '/', Regex.star (.set (.except [.char '\x00', .char '\n']))]

/-- A number from 0 to 255 without leading zeros. -/
def octetSource : Text := "(?:25[0-5]|2[0-4]\\d|1\\d\\d|[1-9]?\\d)"

def octet : Regex := choice
  [concat (word "25" ++ [oneOf [('0', '5')]]),
    concat [lit '2', oneOf [('0', '4')], digit],
    concat [lit '1', digit, digit],
    concat [(oneOf [('1', '9')]).optional, digit]]

def quadSource : Text := octetSource ++ "(?:\\." ++ octetSource ++ ")" ++ braced "3"

def quad : List Regex := [octet, (concat [lit '.', octet]).exactly 3]

def ipv4 : Pattern where
  source := anchored quadSource
  body := whole quad

/-- An address of four octets with the length of a network mask. -/
def cidrv4 : Pattern where
  source := anchored (quadSource ++ "/(?:3[0-2]|[12]?\\d)")
  body := whole (quad ++ [lit '/', choice
    [concat [lit '3', oneOf [('0', '2')]], concat [(among "12").optional, digit]]])

def groupSource : Text := "[0-9a-fA-F]" ++ braced "1,4"

def group : Regex := hexDigit.between 1 4

def groupColon : Regex := concat [group, lit ':']

def colonGroup : Regex := concat [lit ':', group]

/-- The forms of an address of eight groups: in full, with a double colon, with a dotted quad. -/
def groupsSource : Text :=
  let before (bounds : Text) : Text := "(?:" ++ groupSource ++ ":)" ++ braced bounds
  let after (bounds : Text) : Text := "(?::" ++ groupSource ++ ")" ++ braced bounds
  before "7" ++ groupSource ++ "|" ++
  before "6" ++ quadSource ++ "|" ++
  before "1,7" ++ ":|" ++
  before "1,6" ++ ":" ++ groupSource ++ "|" ++
  before "1,5" ++ after "1,2" ++ "|" ++
  before "1,4" ++ after "1,3" ++ "|" ++
  before "1,3" ++ after "1,4" ++ "|" ++
  before "1,2" ++ after "1,5" ++ "|" ++
  groupSource ++ ":" ++ after "1,6" ++ "|" ++
  before "1,4" ++ ":" ++ quadSource ++ "|" ++
  "::(?:[fF]" ++ braced "4" ++ "(?::0" ++ braced "1,4" ++ ")?:)?" ++ quadSource ++ "|:(?:" ++
  after "1,7" ++ "|:)"

def groups : Regex := choice
  [concat [groupColon.exactly 7, group],
    concat (groupColon.exactly 6 :: quad),
    concat [groupColon.between 1 7, lit ':'],
    concat [groupColon.between 1 6, lit ':', group],
    concat [groupColon.between 1 5, colonGroup.between 1 2],
    concat [groupColon.between 1 4, colonGroup.between 1 3],
    concat [groupColon.between 1 3, colonGroup.between 1 4],
    concat [groupColon.between 1 2, colonGroup.between 1 5],
    concat [group, lit ':', colonGroup.between 1 6],
    concat (groupColon.between 1 4 :: lit ':' :: quad),
    concat (word "::" ++ [(concat [(among "fF").exactly 4,
      (concat [lit ':', (lit '0').between 1 4]).optional, lit ':']).optional] ++ quad),
    concat [lit ':', choice [colonGroup.between 1 7, lit ':']]]

def ipv6 : Pattern where
  source := anchored ("(?:" ++ groupsSource ++ ")")
  body := whole [groups]

/-- An address of eight groups with the length of a routing part. -/
def cidrv6 : Pattern where
  source := anchored ("(?:" ++ groupsSource ++ ")/(?:12[0-8]|1[01]\\d|[1-9]?\\d)")
  body := whole [groups, lit '/', choice
    [concat (word "12" ++ [oneOf [('0', '8')]]),
      concat [lit '1', among "01", digit],
      concat [(oneOf [('1', '9')]).optional, digit]]]

def alnum : List SetItem := [.range 'A' 'Z', .range 'a' 'z', .range '0' '9']

/-- What may follow the first character of a label: letters, digits and inner hyphens. -/
def labelTail : Regex :=
  (concat [Regex.star (.set (.of (alnum ++ [.char '-']))), .set (.of alnum)]).optional

/-- Labels with points between them, the last of which starts with a letter; a point may follow. -/
def hostname : Pattern where
  source :=
    let inner : Text := "(?:[A-Za-z0-9-]*[A-Za-z0-9])?"
    anchored ("(?:[A-Za-z0-9]" ++ inner ++ "\\.)*[A-Za-z]" ++ inner ++ "\\.?")
  body := whole
    [Regex.star (concat [.set (.of alnum), labelTail, lit '.']),
      .set (.of [.range 'A' 'Z', .range 'a' 'z']), labelTail, (lit '.').optional]

/-! ## The expressions are what the texts denote -/

/-- Under these flags the full stop stands for every character. -/
def dotAll : Flags := ⟨false, false, true⟩

def plainPatterns : List Pattern :=
  [int, hex, oct, number, port, name, line, uri, path, ipv4, cidrv4, ipv6, cidrv6, hostname, vars]

/-- The patterns in whose texts a dot stands for any character. -/
def dotAllPatterns : List Pattern := [text, regexLiteral, quoted]

/-- The text of a pattern denotes the expression of the pattern. -/
theorem read_of_mem_plainPatterns :
    ∀ p ∈ plainPatterns, Regex.read Flags.none p.source = .ok p.body := by
  simp only [plainPatterns, List.forall_mem_cons]
  refine ⟨?_, ?_, ?_, ?_, ?_, ?_, ?_, ?_, ?_, ?_, ?_, ?_, ?_, ?_, ?_, by simp⟩
  all_goals exact ok_of_toOption (by decide +kernel)

/-- The text of a pattern denotes the expression of the pattern. -/
theorem read_of_mem_dotAllPatterns :
    ∀ p ∈ dotAllPatterns, Regex.read dotAll p.source = .ok p.body := by
  simp only [dotAllPatterns, List.forall_mem_cons]
  refine ⟨?_, ?_, ?_, by simp⟩
  all_goals exact ok_of_toOption (by decide +kernel)

end TreeSpec.Builtin
