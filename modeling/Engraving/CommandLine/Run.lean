import Engraving.CommandLine.Execution
import Engraving.Image.Png
import Engraving.Image.Portable
import Engraving.Yaml.Reading

/-!
# Libraries to run with

Runs need libraries that read pictures and documents and make rings of points. Those given here are
small: pictures are decoded in the PNG format and in the portable formats only, and documents lie in
the YAML notation only so deep within each other as there is room for in a run that begins here.
Nothing that is said about runs in general depends on them.
-/

namespace Engraving

/-- The picture in a file that is recognised by its first bytes. -/
def Picture.decode? (bytes : List UInt8) : Except PictureError Picture :=
  if Png.signature.isPrefixOf bytes then Png.decode? ⟨bytes.toArray⟩ else Portable.decode? bytes

instance : PictureDecoder := ⟨Picture.decode?⟩

/-- How deep the nodes of a document may lie within each other. -/
def documentDepth : Nat := 485

instance : DocumentReader := ⟨fun bytes ↦ Document.ofYaml? documentDepth (.ofBytes bytes)⟩

/-- Whether two places are the same; a place that is no number is not even the same as itself. -/
def Point.isSame (p q : Point Float) : Bool := p.x == q.x && p.y == q.y

/-- A ring has to end where it begins. -/
def ringObjection? (points : List (Point Float)) : Option String :=
  match points.head?, points.getLast? with
  | some first, some last =>
    if first.isSame last then none
    else some "IllegalArgumentException: Points of LinearRing do not form a closed linestring"
  | _, _ => none

instance : RingMaker := ⟨ringObjection?⟩

end Engraving
