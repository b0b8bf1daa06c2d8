import CallScript.Text.Cluster.Role

/-!
# Clusters of characters

A text falls into extended grapheme clusters, by the rules of Unicode for their boundaries. Whether
a character joins the cluster before it depends on its role and on theirs. A line feed after a
carriage return is a cluster of its own here, as a line holds no line feed.

A backspace in a line takes back the cluster of characters before it; at the start of the line it
does nothing. Only the sizes of the clusters are remembered, in one byte each. So a cluster of 256
bytes or more loses only what its size exceeds a multiple of 256 by.
-/

namespace CallScript.Text

namespace Cluster

/-- Whether the role is that of a mark without a place of its own. -/
def Role.isMark : Role → Bool
  | .mark | .linker | .nonJoiner => true
  | _ => false

/-- Whether a consonant can stand between the role and an earlier consonant of one conjunct. -/
def Role.isInConjunct : Role → Bool
  | .mark | .linker | .joiner => true
  | _ => false

/-- The roles of the characters of a cluster, the last one first in both. -/
def roles (cluster : List Char) : List Role :=
  cluster.map Role.of

/-- Whether a cluster, last character first, ends in a consonant and marks that join it to the next
one. -/
def endsInConjunct (cluster : List Char) : Bool :=
  ((roles cluster).takeWhile Role.isInConjunct).contains .linker
    && ((roles cluster).dropWhile Role.isInConjunct).head? == some .consonant

/-- Whether a cluster, last character first, ends in a pictograph and its marks. -/
def endsInPictograph (cluster : List Char) : Bool :=
  ((roles cluster).dropWhile Role.isMark).head? == some .pictograph

/-- Whether a cluster, last character first, ends in half of a flag that lacks its other half. -/
def endsInHalfFlag (cluster : List Char) : Bool :=
  ((roles cluster).takeWhile (· == .regional)).length % 2 == 1

/-- Whether a character joins a cluster, which has its last character first. -/
def joins : List Char → Char → Bool
  | [], _ => false
  | last :: earlier, next =>
    match Role.of last, Role.of next with
    | .control, _ => false
    | _, .control => false
    | _, .mark => true
    | _, .linker => true
    | _, .nonJoiner => true
    | _, .joiner => true
    | _, .spacing => true
    | .prepended, _ => true
    | .leading, .leading => true
    | .leading, .vowel => true
    | .leading, .openSyllable => true
    | .leading, .closedSyllable => true
    | .openSyllable, .vowel => true
    | .openSyllable, .trailing => true
    | .vowel, .vowel => true
    | .vowel, .trailing => true
    | .closedSyllable, .trailing => true
    | .trailing, .trailing => true
    | .joiner, .pictograph => endsInPictograph earlier
    | .regional, .regional => endsInHalfFlag (last :: earlier)
    | _, .consonant => endsInConjunct (last :: earlier)
    | _, _ => false

/-- Adds a character to clusters. The last cluster comes first, and in each the last character. -/
def add : List (List Char) → Char → List (List Char)
  | [], c => [[c]]
  | cluster :: earlier, c =>
    if joins cluster c then (c :: cluster) :: earlier
    else [c] :: cluster :: earlier

def split (text : List Char) : List (List Char) :=
  ((text.foldl add []).map List.reverse).reverse

end Cluster

/-! ## Backspaces -/

structure Draft where
  -- The characters that stand, the last one first.
  chars : List Char := []
  -- The sizes of the clusters that can be taken back, the last one first.
  sizes : List UInt8 := []

/-- Adds a cluster, or does what a backspace asks for. -/
def Draft.add (draft : Draft) (cluster : List Char) : Draft :=
  if cluster = ['\x08'] then
    match draft.sizes with
    | [] => draft
    | size :: sizes => { chars := dropBytes size.toNat draft.chars, sizes := sizes }
  else
    { chars := cluster.reverse ++ draft.chars, sizes := (byteSize cluster).toUInt8 :: draft.sizes }

def applyBackspaces (line : List Char) : List Char :=
  if line.contains '\x08' then ((Cluster.split line).foldl Draft.add {}).chars.reverse
  else line

end CallScript.Text
