import TreeSpec.Builtin.Patterns
import TreeSpec.Builtin.Probes
import TreeSpec.Dictionary

/-!
# Builtin types

The table of the builtin types. It is built over probes, which the predicates on hosts, paths and
accounts consult.
-/

namespace TreeSpec.Builtin

set_option autoImplicit false

/-- The value lies between the two arguments, all three being integers. The upper bound is read only
if the lower one holds. -/
def withinBounds (q : Question) : Except Failure Bool :=
  match q.parsedArgs with
  | [low, high] =>
    if int.search q.value && int.search low && int.search high then do
      let least ← Text.readInteger low
      let value ← Text.readInteger q.value
      if least ≤ value then
        let greatest ← Text.readInteger high
        return value ≤ greatest
      else return false
    else .ok false
  | _ => .ok false

def range : Predicate where
  name := "_range"
  doc := "Integer within the inclusive bounds given as range(min-max)."
  run q := Effect.ofExcept (withinBounds q)

/-- Asks a probe about the value and records that it was asked. -/
def consult (kind : Probe) (probe : Text → Effect TableLookup Bool) (value : Text) :
    Effect Lookup Bool := do
  Effect.emit [.probe kind value]
  (probe value).retrace fun l => [.table l]

/-- Only host names are looked up. -/
def resolvableHost (probes : Probes) : Predicate where
  name := "resolvablehost"
  doc := "Hostname that resolves via DNS."
  run q := if hostname.search q.value then consult .host probes.host q.value else pure false

def fileExists (probes : Probes) : Predicate where
  name := "fileexists"
  doc := "Path that exists on the filesystem."
  run q := consult .path probes.path q.value

/-- The empty text is no account and is not looked up. -/
def user (probes : Probes) : Predicate where
  name := "user"
  doc := "User name or uid known to the system."
  run q := if q.value.isEmpty then pure false else consult .user probes.user q.value

/-- The empty text is no account and is not looked up. -/
def accountGroup (probes : Probes) : Predicate where
  name := "group"
  doc := "Group name or gid known to the system."
  run q := if q.value.isEmpty then pure false else consult .group probes.group q.value

def types (probes : Probes) : Dictionary Matcher :=
  [("int", .pattern int "Integer, optionally negative"),
    ("range", .ofPredicate range ""),
    ("hex", .pattern hex "Hexadecimal number, optional 0x prefix"),
    ("oct", .pattern oct "Octal number"),
    ("number", .pattern number "Signed decimal number, '.' or ',' separator"),
    ("word", .pattern name "Letters, digits, '_' and '-'"),
    ("line", .pattern line "Any text without a newline"),
    ("text", .pattern text "Any text, newlines included"),
    ("regex", .pattern regexLiteral "Regex literal: qr/.../, qr(...) or qr\x7b...\x7d"),
    ("uri", .pattern uri "URI with scheme://"),
    ("ipv4", .pattern ipv4 "IPv4 address"),
    ("cidrv4", .pattern cidrv4 "IPv4 address with /netmask"),
    ("ipv6", .pattern ipv6 "IPv6 address"),
    ("cidrv6", .pattern cidrv6 "IPv6 address with /prefix"),
    ("quoted", .pattern quoted "Single-quoted text"),
    ("hostname", .pattern hostname "RFC 2396 hostname"),
    ("resolvablehost", .ofPredicate (resolvableHost probes) ""),
    ("path", .pattern path "Absolute path"),
    ("fileexists", .ofPredicate (fileExists probes) ""),
    ("user", .ofPredicate (user probes) ""),
    ("group", .ofPredicate (accountGroup probes) ""),
    ("port", .pattern port "TCP/UDP port, 0-65535"),
    ("vars", .pattern vars "Contains $name, $(name) or $\x7bname\x7d")]

end TreeSpec.Builtin
