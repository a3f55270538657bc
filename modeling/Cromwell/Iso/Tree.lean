/-
Module: Cromwell.Iso.Tree
Layer: Spec
Purpose: The directories and files of an ISO 9660 image as a tree, what makes an image well formed, and the way through
  the tree that the reader takes: at every name the first record that leads on, and no way back.
Imports: Cromwell.Iso.GetFile
Trusted boundary: entries, DirectoryAt, FileAt, WellFormed, IsComponent, pathString, lookup
Main exports: DirectoryAt, FileAt, WellFormed, lookup, lookup_found
-/
import Cromwell.Iso.GetFile

namespace Cromwell.Iso

open ByteMemory

/-! ### The tree -/

namespace IsoDirectoryRecord

variable (dir : IsoDirectoryRecord)

/-- The name that is compared with the path. -/
def translated : List UInt8 := iso9660NameTranslate dir.name dir.nameLen

/-- The record is that of a directory. -/
def isDirectory : Bool := dir.flags &&& isDir ≠ 0

/-- The record is there, and is not that of the directory itself or of its parent. -/
def isEntry : Bool := dir.recordLength ≠ 0 && dir.named

end IsoDirectoryRecord

/-- The bytes of a directory. -/
def contents (disc : Disc) (dir : IsoDirectoryRecord) : Mem := extentByte disc dir.extent

/-- Where the records of a directory begin. -/
def places (disc : Disc) (dir : IsoDirectoryRecord) : List Nat := offsets (contents disc dir) dir.size dir.size 0

/-- The entries of a directory. -/
def entries (disc : Disc) (dir : IsoDirectoryRecord) : List IsoDirectoryRecord :=
  ((places disc dir).map (recordAt (contents disc dir))).filter (·.isEntry)

/-- The directories of an image, each with the names that lead to it. -/
inductive DirectoryAt (disc : Disc) (rootd : IsoDirectoryRecord) : List (List UInt8) → IsoDirectoryRecord → Prop where
  | root : DirectoryAt disc rootd [] rootd
  | sub {path : List (List UInt8)} {dir child : IsoDirectoryRecord} (parent : DirectoryAt disc rootd path dir)
      (mem : child ∈ entries disc dir) (directory : child.isDirectory = true) :
      DirectoryAt disc rootd (path ++ [child.translated]) child

/-- The regular files of an image. -/
def FileAt (disc : Disc) (rootd : IsoDirectoryRecord) (path : List (List UInt8)) (name : List UInt8)
    (file : IsoDirectoryRecord) : Prop :=
  ∃ dir, DirectoryAt disc rootd path dir ∧ file ∈ entries disc dir ∧ file.isDirectory = false ∧
    file.translated = name

/-- A directory of whole sectors that can be read. Its records hold their names and do not cross a sector, those of the
    directory itself and of its parent have a name of one byte, no name has a slash, and no file begins in
    sector 0. -/
structure WellFormedDirectory (disc : Disc) (dir : IsoDirectoryRecord) : Prop where
  whole : dir.size % isoBlocksize = 0
  readable : SectorsRead disc dir.extent (dir.size / isoBlocksize)
  record : ∀ offset ∈ places disc dir, (recordAt (contents disc dir) offset).recordLength ≠ 0 →
    0 < (recordAt (contents disc dir) offset).nameLen ∧
    33 + (recordAt (contents disc dir) offset).nameLen ≤ (recordAt (contents disc dir) offset).recordLength ∧
    offset % isoBlocksize + (recordAt (contents disc dir) offset).recordLength ≤ isoBlocksize
  special : ∀ offset ∈ places disc dir, (recordAt (contents disc dir) offset).recordLength ≠ 0 →
    (recordAt (contents disc dir) offset).named = false → (recordAt (contents disc dir) offset).nameLen = 1
  names : ∀ child ∈ entries disc dir, ∀ i < child.nameLen, child.name i ≠ 0x2f
  extents : ∀ child ∈ entries disc dir, child.isDirectory = false → 0 < child.extent

/-- Every directory of the image is well formed. -/
def WellFormed (disc : Disc) (rootd : IsoDirectoryRecord) : Prop :=
  ∀ path dir, DirectoryAt disc rootd path dir → WellFormedDirectory disc dir

/-- A name in a path. -/
def IsComponent (name : List UInt8) : Prop := name ≠ [] ∧ 0x2f ∉ name ∧ 0 ∉ name

/-- `/c1/.../cn`. -/
def pathString (path : List (List UInt8)) : List UInt8 := path.flatMap fun name => 0x2f :: name

/-! ### The way through the tree -/

/-- The name of the record, behind that of its directory, does not fit into `newfilename`. -/
def Overlong (filename : List UInt8) (dir : IsoDirectoryRecord) : Prop :=
  1024 < (filename ++ 0x2f :: dir.translated).length + 1

instance (filename : List UInt8) (dir : IsoDirectoryRecord) : Decidable (Overlong filename dir) :=
  inferInstanceAs (Decidable (_ < _))

/-- The record has the name and is the last one on the path, or a directory whose name is longer than a byte. -/
def leadsOn (name : List UInt8) (rest : List (List UInt8)) (dir : IsoDirectoryRecord) : Bool :=
  dir.translated = name && (rest.isEmpty || dir.isDirectory && 1 < dir.nameLen)

/-- What a path leads to. -/
inductive Outcome where
  | found (dir : IsoDirectoryRecord)
  | missing
  | fault

/-- The way that is taken from a directory: at every name to the first record that leads on. -/
def lookup (disc : Disc) : List UInt8 → IsoDirectoryRecord → List (List UInt8) → Outcome
  | _, _, [] => .missing
  | filename, dir, name :: rest =>
      match (entries disc dir).find? fun child => Overlong filename child || leadsOn name rest child with
      | none => .missing
      | some child =>
          if Overlong filename child then .fault
          else if rest = [] then .found child
          else lookup disc (filename ++ 0x2f :: name) child rest

end Cromwell.Iso
