/-! A directory with files and without directories below it. Paths lead to its
files, through itself and the directories above it. -/
namespace ScalableCongestion

def pathNames (path : String) : List String :=
  (path.toList.foldr (fun c names =>
    if c = '/' then [] :: names else names.modifyHead (c :: ·)) [[]]).map String.ofList

def staysHere (name : String) : Bool := name == "" || name == "."

def leadsUp (name : String) : Bool := name == ".."

/-- A file is not named like a directory that is always there. Its name has no
null character and at most 255 bytes. -/
def isFileName (name : String) : Bool :=
  !staysHere name && !leadsUp name && !name.toList.contains '\x00' && name.utf8ByteSize ≤ 255

/-- The names that are needed to find the file at a path, if one can be there.
Longer paths than 4095 bytes lead nowhere. -/
def filePlace? (path : String) : Option (List String) :=
  let names := pathNames path
  if names.dropLast.all (fun name => staysHere name || leadsUp name) &&
      isFileName (names.getLastD "") && path.utf8ByteSize < 4096 then
    some (names.filter fun name => !staysHere name)
  else none

/-- The path with an extension behind the last name that is more than a stay. -/
def withExtension? (path extension : String) : Option String :=
  let names := ((pathNames path).reverse.dropWhile staysHere).reverse
  match names.getLast? with
  | none => none
  | some name => if leadsUp name then none else some ("/".intercalate names ++ "." ++ extension)

def hasExtension (path extension : String) : Bool :=
  let name := ((pathNames path).getLastD "").toList.reverse
  let ending := ('.' :: extension.toList).reverse
  ending.isPrefixOf name && ending.length < name.length

structure Directory where
  files : List (List String × String)

namespace Directory

def empty : Directory := ⟨[]⟩

def read? (d : Directory) (path : String) : Option String :=
  (filePlace? path).bind fun place => d.files.lookup place

def write? (d : Directory) (path text : String) : Option Directory :=
  (filePlace? path).map fun place => ⟨(place, text) :: d.files⟩

end Directory

end ScalableCongestion
