import RuleDepot.Artifact
/-!
Names of cached files.  A file is named `group.name-version` with its extension, and the digest of
its contents is added only when other bytes hold the plain name.  The plain form is kept for
coordinates that it tells apart: no classifier, no dash in front of a digit before the version, no
dot in the name, a version that begins with a digit and does not end like a digest.  All other
coordinates get a tilde and the digest of the coordinate, which no plain form holds, so two
coordinates share a stem only if the first eight digits of their digests collide.
-/

namespace RuleDepot.Naming

/-- The mark in front of a coordinate's digest. -/
def tag : Char := '~'

/-- Whether a dash stands in front of a digit. -/
def hasDashDigit : List Char → Bool
  | '-' :: d :: rest => Text.isDigit d || hasDashDigit (d :: rest)
  | _ :: rest => hasDashDigit rest
  | [] => false

/-- Whether a version ends in a dash and as many base-sixteen digits as a digest shows. -/
def endsLikeDigest (version : List Char) : Bool :=
  match Text.cutLast '-' version with
  | none => false
  | some (_, tail) => (tail.length == 8 || tail.length == 64) && tail.all Digest.isHex

/-- Whether the plain form tells a coordinate from all others. -/
def isPlain (key : ArtifactKey) : Bool :=
  key.classifier.isNone &&
    !([key.group, key.name, key.version].any fun s => s.toList.contains tag) &&
    !hasDashDigit key.group.toList && !hasDashDigit key.name.toList &&
    !key.name.toList.contains '.' &&
    (key.version.toList.head?.map Text.isDigit).getD false &&
    !endsLikeDigest key.version.toList

/-- The readable form of a coordinate in a file name. -/
def readable (key : ArtifactKey) : String :=
  match key.classifier with
  | some c => s!"{key.group}.{key.name}-{key.version}-{c}"
  | none => s!"{key.group}.{key.name}-{key.version}"

/-- What the names of all files of one coordinate begin with. -/
def stem (key : ArtifactKey) : String :=
  if isPlain key then readable key
  else readable key ++ String.singleton tag ++ (ContentHash.ofCoordinate key).short

/-- The names a file may get, in order of preference: plain, with the short digest, with the whole
digest. -/
def candidates (a : Artifact) : List String :=
  [s!"{stem a.key}.{a.extension}",
    s!"{stem a.key}-{a.hash.short}.{a.extension}",
    s!"{stem a.key}-{a.hash.digits}.{a.extension}"]

/-- The rule for a cached file is named like the file without its extension. -/
def ruleName (fileName : String) : String :=
  match Text.cutLast '.' fileName.toList with
  | some (stem, _) => if stem.isEmpty then fileName else String.ofList stem
  | none => fileName

end RuleDepot.Naming
