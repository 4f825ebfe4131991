import MatrixAudit.Failure
import MatrixAudit.Json.Token

/-!
# Addresses

An address is a host and, behind its last colon, a port. The host is a numeric address of four or of
sixteen bytes, or a name that has to be looked up. On a machine without links every numeric address
of four bytes can be listened on and none can be reached; names are looked up in vain.
-/

namespace MatrixAudit

namespace Address

def split (address : String) : String × String :=
  let characters := address.toList.reverse
  (String.ofList ((characters.dropWhile (· ≠ ':')).drop 1).reverse,
    String.ofList (characters.takeWhile (· ≠ ':')).reverse)

/-- The number that some digits spell in the given base. -/
def inBase? (base : Nat) (digits : List Char) : Option Nat :=
  if digits.isEmpty then none
  else digits.foldlM (fun value c => do
    let digit ← Json.hexValue? c
    if digit < base then some (value * base + digit) else none) 0

/-- A number whose first characters tell its base: a zero eight, a zero and an x sixteen. -/
def number? : List Char → Option Nat
  | '0' :: 'x' :: digits => inBase? 16 digits
  | '0' :: 'X' :: digits => inBase? 16 digits
  | '0' :: digit :: digits => inBase? 8 (digit :: digits)
  | digits => inBase? 10 digits

/-- Whether a text is an address of four bytes. It has up to four parts with dots between them; all
but the last are bytes, and the last fills the bytes that are left. -/
def isFourBytes (host : String) : Bool :=
  match (host.splitOn ".").mapM fun part => number? part.toList with
  | none => false
  | some parts =>
    parts.length ≤ 4 && parts.dropLast.all (· < 256) &&
      parts.getLast?.any (· < Nat.pow 256 (5 - parts.length))

/-- The number of sixteen-bit groups that colons separate, if all of them are such groups. -/
def groupCount? (text : String) : Option Nat :=
  if text.isEmpty then some 0
  else
    let groups := text.splitOn ":"
    if groups.all fun group => group.length ≤ 4 && (inBase? 16 group.toList).isSome
    then some groups.length else none

/-- Whether a text is four decimal bytes with dots between them, none with a leading zero. -/
def isQuad (text : String) : Bool :=
  let parts := text.splitOn "."
  parts.length = 4 && parts.all fun part =>
    (part = "0" || !part.startsWith "0") && (inBase? 10 part.toList).any (· < 256)

/-- An address whose last two groups may have been four bytes, with two groups in their place. -/
def inGroups (host : String) : String :=
  let groups := host.splitOn ":"
  if groups.getLast?.any isQuad then ":".intercalate (groups.dropLast ++ ["0", "0"]) else host

/-- Whether a text is an address of eight groups, of which two colons may stand for some. -/
def isEightGroups (host : String) : Bool :=
  match ((inGroups host).splitOn "::").mapM groupCount? with
  | some [count] => count = 8
  | some [before, after] => before + after < 8
  | _ => false

/-- Whether an address of eight groups only wraps one of four bytes. -/
def isWrapped (host : String) : Bool :=
  let text := host.toLower
  text.startsWith "::ffff:" && isQuad (text.drop 7).toString

def isNameCharacter (c : Char) : Bool := c.isAlphanum || c = '-' || c = '_'

/-- The longest name, and the longest part of one between dots. -/
def longestHost : Nat := 253

def longestLabel : Nat := 63

/-- Whether name servers can be asked for a name. A dot may end it. -/
def isName (host : String) : Bool :=
  let labels := host.splitOn "."
  let labels := if labels.getLast? = some "" then labels.dropLast else labels
  host = "." || (!labels.isEmpty && host.length ≤ longestHost && !host.startsWith "-" &&
    labels.all fun label =>
      !label.isEmpty && label.length ≤ longestLabel && label.toList.all isNameCharacter)

/-- The one name that needs no name server. -/
def isLocal (host : String) : Bool := host.toLower = "localhost"

/-- A numeric address in the form that a host stands for. -/
inductive Numeric where
  | fourBytes
  | eightGroups (text : String)

/-- A host without the brackets that may stand around an address of eight groups. -/
def unbracketed (host : String) : String :=
  let inner := String.ofList host.toList.tail.dropLast
  if host.startsWith "[" && host.endsWith "]" && isEightGroups inner then inner else host

/-- The numeric address that a host stands for on a machine without links. -/
def lookUp (host : String) : Except Fault Numeric :=
  let text := unbracketed host
  if host.toList.contains '\x00' then .error .nulInName
  else if isFourBytes text || isLocal text || isWrapped text then .ok .fourBytes
  else if isEightGroups text then .ok (.eightGroups text)
  else if isName host then .error .lookupInterrupted
  else .error .lookupRefused

/-- What connecting comes to on a machine without links. -/
def connectAlone (address : String) : Except Fault Unit :=
  match lookUp (split address).1 with
  | .ok .fourBytes => .error .unreachable
  | .ok (.eightGroups _) => .error .addressUnavailable
  | .error fault => .error fault

/-- What listening comes to on a machine without links. -/
def listenAlone (address : String) : Except Fault String :=
  match lookUp (split address).1 with
  | .ok .fourBytes => .ok address
  | .ok (.eightGroups text) => if text = "::" then .ok address else .error .addressUnavailable
  | .error fault => .error fault

end Address

end MatrixAudit
