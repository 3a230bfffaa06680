import LanguageClient.Host
import LanguageClient.Path

namespace LanguageClient.FileUri

/-- Bytes of a file name that stand for themselves in a URI. -/
def isPlain (b : UInt8) : Bool :=
  0x20 < b && b < 0x7F && !(['"', '#', '%', '/', '<', '>', '?', '\\', '`', '{', '}'].any
    fun c => c.toNat == b.toNat)

def upperHex (n : Nat) : Char :=
  (Nat.digitChar (n % 16)).toUpper

def encodeByte (b : UInt8) : List Char :=
  if isPlain b then [Char.ofNat b.toNat]
  else ['%', upperHex (b.toNat / 16), upperHex b.toNat]

def encodeStep (s : Path.Step) : List Char :=
  '/' :: s.bytes.flatMap encodeByte

def scheme : List Char :=
  "file://".toList

/-- The URI of an absolute path. -/
def ofPath? (p : Path) : Option String :=
  match p.steps with
  | .root :: [] => some (String.ofList (scheme ++ ['/']))
  | .root :: steps => some (String.ofList (scheme ++ steps.flatMap encodeStep))
  | _ => none

def hexByte? (hi lo : UInt8) : Option UInt8 := do
  let h ← Text.hexValue? (Char.ofNat hi.toNat)
  let l ← Text.hexValue? (Char.ofNat lo.toNat)
  return (16 * h + l).toUInt8

def percent : UInt8 := 0x25

/-- A percent sign that two hexadecimal digits do not follow stands for itself. -/
def decode : Bytes → Bytes
  | [] => []
  | b :: hi :: lo :: rest =>
    match if b = percent then hexByte? hi lo else none with
    | some c => c :: decode rest
    | none => b :: decode (hi :: lo :: rest)
  | b :: rest => b :: decode rest

/-- White space and control characters around a URI are no part of it. -/
def trimmed (s : String) : List Char :=
  ((s.toList.dropWhile (· ≤ ' ')).reverse.dropWhile (· ≤ ' ')).reverse

/-- Tabs and line ends, which the reader skips wherever they stand. -/
def isBreak (c : Char) : Bool :=
  c == '\t' || c == '\n' || c == '\r'

def bare (cs : List Char) : List Char :=
  cs.filter (!isBreak ·)

/-- What follows the scheme, if the scheme is that of files. -/
def afterScheme? (cs : List Char) : Option (List Char) :=
  match cs.dropWhile (· != ':') with
  | _ :: rest =>
    if (bare (cs.takeWhile (· != ':'))).map Text.lowerChar = "file".toList then some rest else none
  | [] => none

def isSlash (c : Char) : Bool :=
  c == '/' || c == '\\'

/-- What follows a slash that comes first. -/
def behindSlash? (cs : List Char) : Option (List Char) :=
  match cs.dropWhile isBreak with
  | c :: rest => if isSlash c then some rest else none
  | [] => none

def endsHost (c : Char) : Bool :=
  isSlash c || c == '?' || c == '#'

/-- A letter and a colon or bar, as drives are named. -/
def isDrive : List Char → Bool
  | [c, d] => c.isAlpha && (d == ':' || d == '|')
  | _ => false

def isUpward (segment : List Char) : Bool :=
  ["..", "%2e%2e", "%2e.", ".%2e"].contains (Text.lower (String.ofList segment))

def isIdle (segment : List Char) : Bool :=
  [".", "%2e"].contains (Text.lower (String.ofList segment))

/-- The way along a path: the segments so far, latest first, and whether the host was dropped. -/
structure Walk where
  done : List (List Char) := []
  dropped : Bool := false

namespace Walk

def add (w : Walk) (s : List Char) : Walk :=
  { w with done := s :: w.done }

/-- Takes the last segment back, unless it names a drive. -/
def back (w : Walk) : Walk :=
  match w.done with
  | [] => w
  | d :: ds => if isDrive d then w else { w with done := ds }

/-- A dot segment leaves an empty one if it is the last. A drive that comes first is written with a
colon, and no host is kept before it. -/
def settle (w : Walk) (last : Bool) (s : List Char) : Walk :=
  if isUpward s then if last then w.back.add [] else w.back
  else if isIdle s then if last then w.add [] else w
  else if w.done.isEmpty && isDrive s then ⟨[s.take 1 ++ [':']], true⟩
  else w.add s

/-- The name of a drive before a break, and what follows in the same segment. -/
def splitDrive? (s : List Char) : Option (List Char × List Char) :=
  match bare (s.takeWhile (· != ':')), s.dropWhile (· != ':') with
  | [c], _ :: b :: rest =>
    if c.isAlpha && isBreak b && !(bare rest).isEmpty then some ([c, ':'], bare rest) else none
  | _, _ => none

/-- The reader looks for a drive at the front whenever it goes on behind a break, and then ends the
segment there. It settles neither of the two pieces. -/
def enter (w : Walk) (last : Bool) (s : List Char) : Walk :=
  match if w.done.isEmpty then splitDrive? s else none with
  | some (drive, more) => (w.add drive).add more
  | none => w.settle last (bare s)

def along (w : Walk) : List (List Char) → Walk
  | [] => w
  | s :: rest => (w.enter rest.isEmpty s).along rest

end Walk

/-- The segments between slashes, up to the query or fragment. -/
def segments (cs : List Char) : List (List Char) :=
  (cs.takeWhile fun c => c != '?' && c != '#').splitOnP isSlash

def walk (cs : List Char) : Walk :=
  Walk.along {} (segments cs)

def dropEmptyFront : List (List Char) → List (List Char)
  | [] :: s :: rest => dropEmptyFront (s :: rest)
  | ss => ss

/-- A path that ends in a drive's name gets a slash behind it. -/
def closeDrive (bs : Bytes) : Bytes :=
  match bs.reverse with
  | d :: c :: _ :: _ =>
    if isDrive [Char.ofNat c.toNat, Char.ofNat d.toNat] then bs ++ [Path.slash] else bs
  | _ => bs

def Walk.path (w : Walk) : Path :=
  ⟨closeDrive ((dropEmptyFront w.done.reverse).flatMap fun s =>
    Path.slash :: decode (Utf8.encode s))⟩

/-- The name of a host, where it is text. -/
def hostName? (host : List Char) : Option (List Char) :=
  Utf8.decode? (decode (Utf8.encode host))

/-- Only the machine itself may be named as host. -/
def isHere (host : List Char) : Bool :=
  host.isEmpty || (hostName? host).map (List.map Text.lowerChar) == some "localhost".toList

/-- A long address stands in brackets. -/
def isHost (host : List Char) : Bool :=
  match host with
  | '[' :: inner => inner.getLast? == some ']' && Host.isLongAddress inner.dropLast
  | _ => ((hostName? host).map Host.isName).getD false

/-- What stands behind two slashes. The slash that ends the host belongs to the path only if no host
is left: the path then begins with an empty segment, and a drive behind it does not come first.
Behind another host there is a path here only if that host is dropped. -/
def ofAuthority? (cs : List Char) : Option Path :=
  let host := bare (cs.takeWhile (!endsHost ·))
  let behind := cs.dropWhile (!endsHost ·)
  if isDrive host then some (walk cs).path
  else if isHere host then some (walk behind).path
  else
    let w := walk ((behindSlash? behind).getD behind)
    if isHost host && w.dropped then some w.path else none

/-- The path that a file URI names. -/
def toPath? (uri : String) : Option Path := do
  let cs ← afterScheme? (trimmed uri)
  match behindSlash? cs >>= behindSlash? with
  | some rest => ofAuthority? rest
  | none => some (walk ((behindSlash? cs).getD cs)).path

end LanguageClient.FileUri
