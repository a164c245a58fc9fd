import PropStyling.Styles
import PropStyling.Value.Reader

/-! # Style sheets

A sheet is a list of declarations read from a text, together with the path of the
file that held the text. What the file system answers for a path is an argument
here: no file, a directory, or the bytes of a file, which must be UTF-8.
-/
namespace PropStyling

structure Sheet where
  declarations : List Declaration
  source : Option String

inductive FileEntry where
  | missing
  | directory
  | bytes (content : ByteArray)

inductive ReadFailure where
  | notFound
  | isDirectory
  | notUtf8
deriving DecidableEq

/-- Why a configuration cannot be read. -/
inductive SheetError where
  | malformed
  | unreadable (path : String) (cause : ReadFailure)
deriving DecidableEq

/-- The message of an error; `detail` words the cause further. -/
def SheetError.message (detail : String) : SheetError → String
  | malformed => "Invalid style configuration: " ++ detail
  | unreadable path _ => "Failed to read style configuration '" ++ path ++ "': " ++ detail

def FileEntry.text : FileEntry → Except ReadFailure String
  | missing => .error .notFound
  | directory => .error .isDirectory
  | bytes content =>
    match String.fromUTF8? content with
    | some text => .ok text
    | none => .error .notUtf8

def Styles.ofText (text : String) : Except SheetError Styles :=
  match Value.ofText? Value.depthLimit text with
  | some v => .ok (ofValue v)
  | none => .error .malformed

namespace Sheet

def empty : Sheet :=
  ⟨[], none⟩

def ofText (text : String) : Except SheetError Sheet :=
  (Styles.ofText text).map fun styles => ⟨styles.declarations, none⟩

def ofFile (path : String) (entry : FileEntry) : Except SheetError Sheet :=
  match entry.text with
  | .error cause => .error (.unreadable path cause)
  | .ok text => (ofText text).map fun sheet => { sheet with source := some path }

def push (s : Sheet) (d : Declaration) : Sheet :=
  { s with declarations := s.declarations ++ [d] }

def styles (s : Sheet) : Styles :=
  .many s.declarations

end Sheet

end PropStyling
