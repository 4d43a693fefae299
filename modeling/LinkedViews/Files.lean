import LinkedViews.Text.Utf8

/-! Files as a command sees them: a name leads to bytes, or to the reason why it does not. -/
namespace LinkedViews

inductive FileFault
  | missing
  | directory
  | notText
  deriving DecidableEq, Repr

def FileFault.message : FileFault → String
  | missing => "No such file or directory (os error 2)"
  | directory => "Is a directory (os error 21)"
  | notText => "stream did not contain valid UTF-8"

abbrev Files := String → Except FileFault Bytes

namespace Files

def ofList (entries : List (String × Except FileFault Bytes)) : Files := fun name =>
  (entries.lookup name).getD (.error .missing)

def readText (files : Files) (name : String) : Except FileFault (List Char) := do
  match Utf8.decode? (← files name) with
  | some text => return text
  | none => .error .notText

end Files

end LinkedViews
