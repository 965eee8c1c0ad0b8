import Ferry.Text.Cut
import Ferry.Text.Utf8

/-! The character sets of consoles: how they are named, which one a locale asks for, and how text is
written in them. -/
namespace Ferry.Console

open Ferry.Text

/-- A character set. -/
inductive Charset
  | utf8
  | ascii
  | latin1
deriving DecidableEq, Repr

namespace Charset

/-- The names of a character set, in small letters and without hyphens and underscores. -/
def names : Charset → List String
  | .utf8 => ["utf8"]
  | .ascii => ["ascii", "usascii", "ansix3.41968", "646"]
  | .latin1 => ["latin1", "iso88591", "l1"]

/-- The character set of a name, in letters of either case, with hyphens and underscores
anywhere. -/
def named? (label : String) : Option Charset :=
  let plain := String.ofList
    ((label.toList.filter fun c => c ≠ '-' ∧ c ≠ '_').map Char.toLower)
  [Charset.utf8, .ascii, .latin1].find? fun c => c.names.contains plain

/-- The character set of a locale: what stands between its first point and an at sign. -/
def ofLocale? (locale : String) : Option Charset :=
  if locale = "C" ∨ locale = "POSIX" then some .ascii
  else
    (cutFirst '.' locale.toList).bind fun (_, codeset) =>
      let codeset := match cutFirst '@' codeset with
        | some (codeset, _) => codeset
        | none => codeset
      named? (String.ofList codeset)

/-- The variables that name the locale, the first that is set to something deciding. -/
def localeVariables : List String := ["LC_ALL", "LC_CTYPE", "LANG"]

/-- The character set that the environment asks for. -/
def ofEnvironment? (setting? : String → Option String) : Option Charset :=
  (localeVariables.findSome? fun name => (setting? name).filter (· ≠ "")).bind ofLocale?

/-- The character set of a console: terminals take UTF-8. -/
def ofConsole? (isTerminal : Bool) (setting? : String → Option String) : Option Charset :=
  if isTerminal then some .utf8 else ofEnvironment? setting?

/-- A character as the byte of its code, or a question mark where that is beyond `limit`. -/
def byteUpTo (limit : Nat) (c : Char) : UInt8 :=
  if c.toNat ≤ limit then UInt8.ofNat c.toNat else 63

/-- Text in a character set, with a question mark for each character that it lacks. A text all in
ASCII is the same in every set. -/
def encode (charset : Charset) (s : List Char) : List UInt8 :=
  match charset with
  | .utf8 => Utf8.encode s
  | .ascii => if s.all fun c => c.toNat ≤ 0x7F then Utf8.encode s else s.map (byteUpTo 0x7F)
  | .latin1 => s.map (byteUpTo 0xFF)

end Charset
end Ferry.Console
