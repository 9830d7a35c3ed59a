/-!
Why a file cannot be read, in the words and with the numbers that the system has for it.
-/

namespace AllPairs.CommandLine

/-- A file that cannot be read. -/
inductive FileFault where
  | missing
  | denied
  | notDirectory
  | isDirectory
  | nameTooLong
  | other (message : String)
deriving DecidableEq

/-- Why the file cannot be read. -/
def FileFault.message : FileFault → String
  | missing => "No such file or directory (os error 2)"
  | denied => "Permission denied (os error 13)"
  | notDirectory => "Not a directory (os error 20)"
  | isDirectory => "Is a directory (os error 21)"
  | nameTooLong => "File name too long (os error 36)"
  | other message => message

end AllPairs.CommandLine
