import CodeFrames.Token

/-!
The words of the source language.  A word that is not reserved is a name; `record` is a name although
it can also open a declaration.
-/

namespace CodeFrames

namespace Token

def keywords : List Text :=
  ["abstract", "assert", "boolean", "break", "byte", "case", "catch", "char", "class", "const",
    "continue", "default", "do", "double", "else", "enum", "extends", "final", "finally", "float",
    "for", "goto", "if", "implements", "import", "instanceof", "int", "interface", "long", "native",
    "new", "package", "private", "protected", "public", "return", "short", "static", "strictfp",
    "super", "switch", "synchronized", "this", "throw", "throws", "transient", "try", "void",
    "volatile", "while", "true", "false", "null"].map String.toList

def primitiveTypes : List Text :=
  ["boolean", "byte", "char", "short", "int", "long", "float", "double", "void"].map String.toList

def modifierWords : List Text :=
  ["public", "protected", "private", "static", "final", "abstract", "native", "synchronized",
    "transient", "volatile", "strictfp"].map String.toList

/-- The words that open the declaration of a type. -/
def typeWords : List Text := ["class", "interface", "enum", "record"].map String.toList

def isAnyWord (t : Token) : Bool := t.kind = .word

def isWordIn (t : Token) (words : List Text) : Bool := t.isAnyWord && words.contains t.text

def isName (t : Token) : Bool := t.isAnyWord && !keywords.contains t.text

def isPrimitive (t : Token) : Bool := t.isWordIn primitiveTypes

/-- A type starts with a primitive type or a name. -/
def opensType (t : Token) : Bool := t.isPrimitive || t.isName

end Token

end CodeFrames
