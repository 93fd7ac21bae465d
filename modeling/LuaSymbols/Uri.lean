import LuaSymbols.Path
import LuaSymbols.Uri.Percent

/-!
# File keys

A file is known by one key, whatever spelling a client uses: `normalize` decodes
the escapes, folds separators and drive letter (`fold`), and escapes again with a
fixed set of plain characters. `ofPath` and `toPath` go between keys and paths.
-/

namespace LuaSymbols.Uri

/-- The characters that a key writes as they are. -/
def isPlain (c : Char) : Bool :=
  c.isAlphanum || c ∈ ['/', ':', '@', '!', '$', '&', '\'', '(', ')', '*', '+', ',', ';', '=',
    '-', '.', '_', '~']

def fileScheme : List Char := ['f', 'i', 'l', 'e', ':']

/-- What may stand after a drive's colon: a slash, or the end of the text, before
which one line feed is allowed. -/
def endsDrive : List Char → Bool
  | [] => true
  | ['\n'] => true
  | c :: _ => c == '/'

/-- Lower-cases a drive letter that stands behind slashes only. -/
def foldDriveAfter (cs : List Char) : List Char :=
  match cs.dropWhile (· == '/') with
  | d :: ':' :: rest =>
    if d.isAlpha && endsDrive rest then cs.takeWhile (· == '/') ++ d.toLower :: ':' :: rest else cs
  | _ => cs

/-- Lower-cases the drive letter at the head of the text, with or without the
`file:` scheme before it. -/
def foldDrive (cs : List Char) : List Char :=
  match List.isPrefixOf? fileScheme cs with
  | some rest => fileScheme ++ foldDriveAfter rest
  | none => foldDriveAfter cs

def forwardSlash (c : Char) : Char := if c = '\\' then '/' else c

/-- The spelling that a decoded key has: forward slashes and a lower-case drive. -/
def fold (cs : List Char) : List Char := foldDrive (cs.map forwardSlash)

def normalizeChars (cs : List Char) : List Char := Percent.encode isPlain (fold (Percent.decode cs))

def normalize (raw : String) : String := String.ofList (normalizeChars raw.toList)

/-! ## Paths -/

def ofPathChars (cwd p : List Char) : List Char :=
  let absolute := (Path.absoluteChars cwd p).map forwardSlash
  let rooted := if Path.isAbsoluteChars absolute then absolute else '/' :: absolute
  normalizeChars (fileScheme ++ '/' :: '/' :: Percent.encode isPlain rooted)

/-- The key of the file at a path. A percent sign in the path is part of a name. -/
def ofPath (cwd p : String) : String := String.ofList (ofPathChars cwd.toList p.toList)

/-- Drops the scheme with an empty host. -/
def withoutScheme (cs : List Char) : List Char :=
  match List.isPrefixOf? fileScheme cs with
  | some ('/' :: '/' :: rest) => rest
  | some rest => rest
  | none => cs

/-- Drops the slash in front of a drive. -/
def withoutDriveSlash : List Char → List Char
  | '/' :: d :: ':' :: rest => if d.isAlpha then d :: ':' :: rest else '/' :: d :: ':' :: rest
  | cs => cs

def toPathChars (cs : List Char) : List Char :=
  Path.normalizeChars (withoutDriveSlash (withoutScheme (Percent.decode cs)))

/-- The path that a key, or a plain path, names. -/
def toPath (uri : String) : String := String.ofList (toPathChars uri.toList)

end LuaSymbols.Uri
