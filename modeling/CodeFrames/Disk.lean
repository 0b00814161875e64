import CodeFrames.Text.Basic

/-!
Reading files by name.  A disk answers every name with the text of a file or with the reason why there
is none.
-/

namespace CodeFrames

inductive ReadFault where
  | missing
  | notDirectory
  | isDirectory
  | nameTooLong
  | notText
  | other (message : String)
  deriving DecidableEq, Repr

namespace ReadFault

def message : ReadFault → String
  | .missing => "No such file or directory (os error 2)"
  | .notDirectory => "Not a directory (os error 20)"
  | .isDirectory => "Is a directory (os error 21)"
  | .nameTooLong => "File name too long (os error 36)"
  | .notText => "stream did not contain valid UTF-8"
  | .other message => message

end ReadFault

abbrev Disk := Text → Except ReadFault Text

namespace Disk

/-- The bytes of a file as text. -/
def decode (bytes : ByteArray) : Except ReadFault Text :=
  match String.fromUTF8? bytes with
  | some text => .ok text.toList
  | none => .error .notText

/-- There is a file of this name, whatever it holds. -/
def isFile (d : Disk) (name : Text) : Bool :=
  match d name with
  | .ok _ | .error .notText | .error (.other _) => true
  | _ => false

end Disk

end CodeFrames
