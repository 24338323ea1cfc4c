import TreeSpec.Matcher
import TreeSpec.Text.Numeral

/-!
# Probes

The builtin predicates ask the outside world through four probes. The default probes consult tables
of hosts, paths and accounts, where a system may refuse to look up some accounts. An account is
known by its name or, if the text is all digits, by its number.
-/

namespace TreeSpec

set_option autoImplicit false

structure Probes where
  host : Text → Effect TableLookup Bool
  path : Text → Effect TableLookup Bool
  user : Text → Effect TableLookup Bool
  group : Text → Effect TableLookup Bool

structure World where
  /-- The names that are listed by the resolver, some of which make it fail. -/
  hosts : List (Text × Option Failure)
  paths : List Text
  /-- Names of users with their numbers. -/
  users : List (Text × Nat)
  /-- Names of groups with their numbers. -/
  groups : List (Text × Nat)

/-- A world behind a system that refuses some lookups of accounts, each with a failure of its
own. -/
structure System extends World where
  refuses : TableLookup → Option Failure

namespace World

def empty : World := ⟨[], [], [], []⟩

/-- The host is listed; looking it up may fail. -/
def resolve (w : World) (name : Text) : Effect TableLookup Bool := do
  Effect.emit [⟨"getaddrinfo", name⟩]
  match w.hosts.lookup name with
  | none => return false
  | some none => return true
  | some (some e) => Effect.fail e

end World

namespace System

/-- Looks an account up, unless that is refused. -/
def lookUp (s : System) (l : TableLookup) (listed : Bool) : Effect TableLookup Bool := do
  Effect.emit [l]
  match s.refuses l with
  | some e => Effect.fail e
  | none => return listed

/-- Looks an account up by number if the text is made of digits, and by name otherwise. -/
def findAccount (s : System) (accounts : List (Text × Nat)) (byName byNumber : Text) (text : Text) :
    Effect TableLookup Bool :=
  if !text.isEmpty && text.all Text.isDigitLike then do
    let number ← Effect.ofExcept (Text.readInteger text)
    s.lookUp ⟨byNumber, toString number⟩ (accounts.any fun a => (a.2 : Int) = number)
  else if text.contains '\x00' then do
    Effect.emit [⟨byName, text⟩]
    Effect.fail .embeddedNull
  else s.lookUp ⟨byName, text⟩ (accounts.any fun a => a.1 = text)

def probes (s : System) : Probes where
  host := s.resolve
  path name := do
    Effect.emit [⟨"stat", name⟩]
    return s.paths.contains name
  user := s.findAccount s.users "getpwnam" "getpwuid"
  group := s.findAccount s.groups "getgrnam" "getgrgid"

end System

namespace World

/-- The world behind a system that refuses nothing. -/
def system (w : World) : System := ⟨w, fun _ => none⟩

def probes (w : World) : Probes := w.system.probes

end World

end TreeSpec
