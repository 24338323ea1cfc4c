import TreeSpec.Text.Quoted

/-!
# Failures

The causes for which an operation gives up, and the wording of each.
-/

namespace TreeSpec

set_option autoImplicit false

inductive TimePart where
  | year
  | month
  | day
  | hour
  | minute
  | second
  deriving DecidableEq, Repr

/-- What is said of a part that the calendar or the clock does not have. -/
def TimePart.fault : TimePart → Text
  | year => "year 0 is out of range"
  | month => "month must be in 1..12"
  | day => "day is out of range for month"
  | hour => "hour must be in 0..23"
  | minute => "minute must be in 0..59"
  | second => "second must be in 0..59"

/-- A length of time in whole days and seconds of a day, as it is written in a listing of values. -/
def shownSpan (seconds : Int) : Text :=
  let days := seconds.fdiv 86400
  let rest := seconds.fmod 86400
  let part (name : Text) (n : Int) : List Text := if n = 0 then [] else [name ++ "=" ++ toString n]
  let parts := part "days" days ++ part "seconds" rest
  "datetime.timedelta(" ++ (if parts.isEmpty then ("0" : Text) else Text.joined ", " parts) ++ ")"

def maxWord : Nat := 0x7FFFFFFF

/-- The most digits that an integer may have to be read from text or written as text. -/
def maxDigits : Nat := 4300

inductive Failure where
  /-- A value of the named type was registered as a matcher. -/
  | notAMatcher (typeName : Text)
  /-- A value of the named type was given as a schema. -/
  | schemaNotMapping (typeName : Text)
  /-- The text is no regular expression. -/
  | badPattern
  /-- The text has syntax that is not read here. -/
  | unreadSyntax
  /-- A matcher that does not say what it matches was asked. -/
  | notImplemented
  /-- An integer has too many digits to be written. -/
  | integerTooLong
  /-- A numeral of this many digits is too long to be read. -/
  | numeralTooLong (digits : Nat)
  /-- The text is no numeral in the base. -/
  | badNumeral (base : Nat) (text : Text)
  /-- No text has a character with so high a code point. -/
  | noCodePoint (n : Nat)
  /-- A bound of a repetition in a pattern is too large. -/
  | repetitionTooLarge
  /-- An integer is larger than all floating-point numbers. -/
  | integerTooLarge
  /-- There is no such date or time of day. -/
  | noSuchTime (part : TimePart)
  /-- Local time is off by a day or more. -/
  | offsetTooLarge (seconds : Int)
  /-- The text is no document. -/
  | malformedDocument
  /-- A name with a null character was looked up. -/
  | embeddedNull
  /-- There is no such kind of validation error. -/
  | unknownErrorKind (kind : Text)
  /-- A predicate or a probe gave up, with a kind and a text of its own. -/
  | raised (kind message : Text)
  deriving DecidableEq, Repr, Inhabited

namespace Failure

def message : Failure → Text
  | notAMatcher typeName =>
    "Cannot use " ++ typeName ++ " as a matcher. " ++
      "Expected a Matcher, a regular expression or a predicate callable."
  | schemaNotMapping typeName => "Schema must be a mapping, got " ++ typeName
  | badPattern | unreadSyntax | malformedDocument => ""
  | notImplemented => "Subclasses must implement matches()"
  | integerTooLong =>
    "Exceeds the limit (4300 digits) for integer string conversion; " ++
      "use sys.set_int_max_str_digits() to increase the limit"
  | numeralTooLong digits =>
    "Exceeds the limit (4300 digits) for integer string conversion: value has " ++
      toString digits ++ " digits; use sys.set_int_max_str_digits() to increase the limit"
  | badNumeral base text =>
    "invalid literal for int() with base " ++ toString base ++ ": " ++
      (Text.quoted text).take 200
  | noCodePoint n =>
    if n ≤ maxWord then "chr() arg not in range(0x110000)"
    else "Python int too large to convert to C int"
  | repetitionTooLarge => "the repetition number is too large"
  | integerTooLarge => "int too large to convert to float"
  | noSuchTime part => part.fault
  | offsetTooLarge seconds =>
    "offset must be a timedelta strictly between " ++
      "-timedelta(hours=24) and timedelta(hours=24), not " ++ shownSpan seconds ++ "."
  | embeddedNull => "embedded null byte"
  | unknownErrorKind kind => Text.quoted kind ++ " is not a valid ErrorKind"
  | raised _ message => message

/-- A number was too large for what it was to be used for. -/
def isOverflow : Failure → Bool
  | noCodePoint n => maxWord < n
  | repetitionTooLarge | integerTooLarge => true
  | _ => false

end Failure

section

variable {ε α β : Type} {x : Except ε α} {b : β}

theorem ok_of_bind {f : α → Except ε β} (h : x >>= f = .ok b) : ∃ a, x = .ok a ∧ f a = .ok b := by
  cases x with
  | error e => cases h
  | ok a => exact ⟨a, rfl, h⟩

theorem ok_of_map {f : α → β} (h : x.map f = .ok b) : ∃ a, x = .ok a ∧ f a = b := by
  cases x with
  | error e => cases h
  | ok a => exact ⟨a, rfl, Except.ok.inj h⟩

theorem ok_of_toOption {a : α} (h : x.toOption = some a) : x = .ok a := by
  cases x with
  | error e => cases h
  | ok a' => exact congrArg Except.ok (Option.some.inj h)

theorem error_of_map {f : α → β} {e : ε} (h : x.map f = .error e) : x = .error e := by
  cases x with
  | error e' =>
    cases h
    rfl
  | ok a => cases h

end

end TreeSpec
