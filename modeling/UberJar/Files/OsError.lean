namespace UberJar

/-- Why a file operation was refused. -/
inductive OsError
  | notPermitted
  | notFound
  | permissionDenied
  | alreadyExists
  | notADirectory
  | isADirectory
  | nameTooLong
  | notEmpty
  | nulInName
  | other (text : String)
  deriving DecidableEq, Repr, Inhabited

namespace OsError

/-- The operating system's wording. -/
def message : OsError → String
  | notPermitted => "Operation not permitted (os error 1)"
  | notFound => "No such file or directory (os error 2)"
  | permissionDenied => "Permission denied (os error 13)"
  | alreadyExists => "File exists (os error 17)"
  | notADirectory => "Not a directory (os error 20)"
  | isADirectory => "Is a directory (os error 21)"
  | nameTooLong => "File name too long (os error 36)"
  | notEmpty => "Directory not empty (os error 39)"
  | nulInName => "file name contained an unexpected NUL byte"
  | other text => text

/-- The refusal that the operating system gives a number. -/
def ofNumber (number : Nat) (text : String) : OsError :=
  match number with
  | 1 => notPermitted
  | 2 => notFound
  | 13 => permissionDenied
  | 17 => alreadyExists
  | 20 => notADirectory
  | 21 => isADirectory
  | 36 => nameTooLong
  | 39 => notEmpty
  | _ => other text

end OsError
end UberJar
