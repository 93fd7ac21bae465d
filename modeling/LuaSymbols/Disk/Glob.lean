import LuaSymbols.Disk
import LuaSymbols.Text.Basic

/-!
# File name patterns

`Disk.glob` lists the paths that a pattern matches, name by name: `*` stands for
any text, `?` for one character, and `[...]` for one character of a set, or not of
it behind `!`. A name that starts with a dot is matched only by a pattern that
does. The matches are spelled as the pattern spells its fixed parts.
-/

namespace LuaSymbols

namespace Glob

/-! ## Sets of characters -/

inductive SetItem where
  | single (c : Char)
  | range (lo hi : Char)
  deriving DecidableEq, Repr

def SetItem.has (c : Char) : SetItem → Bool
  | .single d => c == d
  | .range lo hi => lo ≤ c && c ≤ hi

/-- A character of a set, or a hyphen that joins its neighbours to a range. -/
inductive SetSign where
  | char (c : Char)
  | through
  deriving DecidableEq, Repr

/-- Cuts the text of a set at the hyphens that join: the first `skip` characters hold
none, and the two behind one hold none. -/
def chunksFrom : Nat → List Char → List (List Char)
  | _, [] => [[]]
  | skip + 1, c :: cs => consFirst c (chunksFrom skip cs)
  | 0, c :: cs => if c = '-' then [] :: chunksFrom 2 cs else consFirst c (chunksFrom 0 cs)

/-- A hyphen at the very end joins nothing and is a character. -/
def closeChunks : List (List Char) → List (List Char)
  | [a, []] => [a ++ ['-']]
  | a :: rest => a :: closeChunks rest
  | [] => []

/-- Puts a chunk in front of others. Where the range between them would be empty, both
its ends go and the chunks become one. -/
def joinChunk (a : List Char) : List (List Char) → List (List Char)
  | [] => [a]
  | b :: rest =>
    match a.getLast?, b with
    | some lo, hi :: b' => if hi < lo then (a.dropLast ++ b') :: rest else a :: b :: rest
    | _, _ => a :: b :: rest

def signsOf (chunks : List (List Char)) : List SetSign :=
  [SetSign.through].intercalate (chunks.map fun chunk => chunk.map .char)

def itemsOf : List SetSign → List SetItem
  | .char lo :: .through :: .char hi :: rest => .range lo hi :: itemsOf rest
  | .char c :: rest => .single c :: itemsOf rest
  | .through :: rest => .single '-' :: itemsOf rest
  | [] => []

/-! ## Patterns of one name -/

inductive Part where
  | any
  | one
  | set (negated : Bool) (items : List SetItem)
  | literal (c : Char)
  deriving DecidableEq, Repr

/-- The set that a text between brackets means. A `!` leads what the set excludes. It is
looked for once the empty ranges are gone, so it need not be the first character of the
text, and an excluded set without items has every character. -/
def setOf (body : List Char) : Part :=
  let fixed := if body.head? = some '!' then 2 else 1
  match signsOf ((closeChunks (chunksFrom fixed body)).foldr joinChunk []) with
  | .char '!' :: rest => .set true (itemsOf rest)
  | signs => .set false (itemsOf signs)

/-- The text of a set and what follows it. A bracket that closes at once is part
of the set; one that never closes makes no set. -/
def setBody? (cs : List Char) : Option (List Char × List Char) :=
  let head := match cs with
    | '!' :: ']' :: _ => ['!', ']']
    | '!' :: _ => ['!']
    | ']' :: _ => [']']
    | _ => []
  let tail := cs.drop head.length
  match tail.dropWhile (· != ']') with
  | _ :: rest => some (head ++ tail.takeWhile (· != ']'), rest)
  | [] => none

def partsFrom : Nat → List Char → List Part
  | 0, _ => []
  | _, [] => []
  | fuel + 1, c :: cs =>
    if c = '*' then .any :: partsFrom fuel cs
    else if c = '?' then .one :: partsFrom fuel cs
    else if c = '[' then
      match setBody? cs with
      | some (body, rest) => setOf body :: partsFrom fuel rest
      | none => .literal '[' :: partsFrom fuel cs
    else .literal c :: partsFrom fuel cs

def parts (pattern : List Char) : List Part := partsFrom pattern.length pattern

def Part.accepts (c : Char) : Part → Bool
  | .any => true
  | .one => true
  | .set negated items => items.any (SetItem.has c) != negated
  | .literal d => c == d

/-- For every item, whether it or one behind it is true. -/
def someFrom : List Bool → List Bool
  | [] => []
  | b :: bs =>
    let rest := someFrom bs
    (b || rest.headD false) :: rest

/-- For every suffix of a text, from the whole of it to the empty one, whether the parts
match it. Each part costs one pass over the answers of those behind it. -/
def suffixMatches (cs : List Char) : List Part → List Bool
  | [] => cs.map (fun _ => false) ++ [true]
  | .any :: ps => someFrom (suffixMatches cs ps)
  | p :: ps => List.zipWith (fun c b => p.accepts c && b) cs (suffixMatches cs ps).tail ++ [false]

def matchParts (ps : List Part) (cs : List Char) : Bool := (suffixMatches cs ps).headD false

def isHidden (name : List Char) : Bool := name.head? == some '.'

def matchName (pattern name : List Char) : Bool :=
  (isHidden pattern || !isHidden name) && matchParts (parts pattern) name

def isWild (c : Char) : Bool := c == '*' || c == '?' || c == '['

def isPattern (cs : List Char) : Bool := cs.any isWild

/-- The directory in which the first name with a wild character is looked up; none if
no name has one. -/
def fixedDirectory? (pattern : List Char) : Option (List Char) :=
  if isPattern pattern then some (Path.splitLast (pattern.takeWhile (!isWild ·))).1 else none

end Glob

namespace Disk

/-- The names in a directory. -/
def namesIn (d : Disk) (dir : List Char) : List (List Char) :=
  match d.locate (if dir = [] then ['.'] else dir) with
  | .error _ => []
  | .ok spot =>
    if d.entry? spot = some .directory then
      d.entries.filterMap fun (s, _) =>
        match s.getLast? with
        | some name => if s.dropLast = spot then some name else none
        | none => none
    else []

/-- The names in a directory that one component of a pattern selects. -/
def selectNames (d : Disk) (onlyDirectories : Bool) (dir pattern : List Char) :
    List (List Char) :=
  if Glob.isPattern pattern then
    (d.namesIn dir).filter fun name =>
      Glob.matchName pattern name &&
        (!onlyDirectories || d.isDirectory (Path.joinChars dir name))
  else if pattern = [] then if d.isDirectory dir then [[]] else []
  else if d.exists? (Path.joinChars dir pattern) then [pattern]
  else []

/-- `fuel` bounds the number of components. -/
def globFrom (d : Disk) : Nat → Bool → List Char → List (List Char)
  | 0, _, _ => []
  | fuel + 1, onlyDirectories, pattern =>
    let (dir, name) := Path.splitLast pattern
    if !Glob.isPattern pattern then
      if name = [] then if d.isDirectory dir then [pattern] else []
      else if d.exists? pattern then [pattern]
      else []
    else
      let dirs :=
        if dir ≠ pattern ∧ Glob.isPattern dir then d.globFrom fuel true dir else [dir]
      dirs.flatMap fun dir =>
        (d.selectNames onlyDirectories dir name).map (Path.joinChars dir)

/-- The matches of a pattern, in the order of their characters. A directory whose path
holds a NUL cannot be listed. -/
def glob (d : Disk) (pattern : String) : Except AccessError (List String) :=
  if (Glob.fixedDirectory? pattern.toList).any ('\x00' ∈ ·) then .error .embeddedNul
  else
    .ok (((d.globFrom (pattern.length + 1) false pattern.toList).map String.ofList).mergeSort
      (· ≤ ·))

end Disk

end LuaSymbols
