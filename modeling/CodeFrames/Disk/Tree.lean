import CodeFrames.Disk
import CodeFrames.Path

/-!
Disks in memory.  A tree is the directory that names start from, with everything below it.  A name is
followed piece by piece; all that it finds outside the tree are the directories around it.  A name has
less than 4096 bytes, and each of its pieces at most 255.
-/

namespace CodeFrames

/-- What a place in a tree holds. -/
inductive Node where
  | file (bytes : ByteArray)
  | directory

structure Tree where
  /-- Places and what they hold.  A directory on the way to a place need not be listed. -/
  entries : List (List Text × Node)

namespace Tree

/-- The tree of some named nodes. -/
def ofNames (nodes : List (Text × Node)) : Tree :=
  ⟨nodes.map fun (name, node) => ((Path.pieces name).filter (!Path.stays ·), node)⟩

def node? (t : Tree) (place : List Text) : Option Node :=
  match t.entries.lookup place with
  | some node => some node
  | none => if t.entries.any fun (p, _) => place.isPrefixOf p then some .directory else none

/-- Follows pieces of a name from a directory; no place is a directory outside the tree. -/
def follow (t : Tree) (place : Option (List Text)) : List Text → Except ReadFault Text
  | [] => .error .isDirectory
  | piece :: rest =>
      if Path.stays piece then t.follow place rest
      else if Path.isUp piece then
        t.follow (place.bind fun p => if p.isEmpty then none else some p.dropLast) rest
      else if 255 < piece.byteSize then .error .nameTooLong
      else
        match place with
        | none => .error .missing
        | some p =>
            match t.node? (p ++ [piece]) with
            | none => .error .missing
            | some .directory => t.follow (some (p ++ [piece])) rest
            | some (.file bytes) => if rest.isEmpty then Disk.decode bytes else .error .notDirectory

def disk (t : Tree) (name : Text) : Except ReadFault Text :=
  if 4096 ≤ name.byteSize then .error .nameTooLong
  else t.follow (if name.head? = some '/' then none else some []) (Path.pieces name)

end Tree

end CodeFrames
