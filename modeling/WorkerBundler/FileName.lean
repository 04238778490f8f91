import WorkerBundler.Text.Lowercase
import WorkerBundler.Text.Scan
import WorkerBundler.Text.Split

/-!
# File names

A template with the marks `[name]` and `[hash]` gives the file name of a chunk. Names of one build
differ in more than letter case: `unique` puts the least free number from 2 in front of the
extension of a name that is taken.
-/

namespace WorkerBundler.FileName

/-- Fills a template. The name is filled in first, so a hash mark inside it is filled too. -/
def render (template : String) (name hash : Option String) : String :=
  let fill (mark : String) (value : Option String) (cs : List Char) : List Char :=
    match value with
    | none => cs
    | some v => Text.replaceAll mark.toList v.toList cs
  String.ofList (fill "[hash]" hash (fill "[name]" name template.toList))

/-- A file name cut in front of its extension: the last dot of the base name that is not the first
character there. -/
def splitExtension (name : List Char) : List Char × List Char :=
  let (dir, base) :=
    match Text.cutLast '/' name with
    | some (dir, base) => (dir ++ ['/'], base)
    | none => ([], name)
  match Text.cutLast '.' base with
  | some (c :: stem, ext) => (dir ++ c :: stem, '.' :: ext)
  | _ => (name, [])

/-- The file name with a number in front of its extension. -/
def numbered (name : String) (k : Nat) : String :=
  let (stem, ext) := splitExtension name.toList
  String.ofList (stem ++ (toString k).toList ++ ext)

/-- The least number from `k` on that is not taken; `fuel` bounds the search. -/
def leastFree (taken : Nat → Bool) : (fuel k : Nat) → Nat
  | 0, k => k
  | fuel + 1, k => if taken k then leastFree taken fuel (k + 1) else k

/-- A name that differs from all used ones in lower case. `used` holds lower-cased names; one of as
many numbers as there are used names, and one more, is free. The number has no bound here; with a
signed counter of 32 bits the name is the same for fewer than `2 ^ 31 - 1` used names. -/
def unique (used : List String) (name : String) : String :=
  if Text.lowercase name ∈ used then
    numbered name
      (leastFree (fun k => Text.lowercase (numbered name k) ∈ used) (used.length + 1) 2)
  else name

end WorkerBundler.FileName
