/-
# GuideRig.IoError -- why a file or a connection could not be used

One constructor per cause, in the domain of files and sockets. `message` is what a report shows;
a cause that the operating system names carries its number there.
-/

namespace GuideRig

/-- Why reading a file, or opening a socket or a connection, did not succeed. -/
inductive IoError where
  /-- There is no entry at the path. -/
  | notFound
  /-- Something on the way to the entry is a file. -/
  | notDirectory
  /-- The entry is a directory. -/
  | isDirectory
  /-- A component of the path, or the path, is too long. -/
  | nameTooLong
  /-- The path holds a NUL character. -/
  | nulInName
  /-- The file was to be read as text and is not UTF-8. -/
  | notText
  /-- The address is taken by another socket. -/
  | addressInUse
  /-- The address does not belong to this host. -/
  | addressNotAvailable
  /-- Nobody listens at the address. -/
  | connectionRefused
  /-- There is no way to the address. -/
  | networkUnreachable
  /-- Access is not allowed. -/
  | permissionDenied
  /-- Another cause, by the system's number for it and its words. -/
  | other (code : Nat) (words : String)
  deriving DecidableEq, Repr

namespace IoError

/-- The number and name by which the operating system knows the cause. -/
def system? : IoError → Option (Nat × String)
  | notFound => some (2, "NotFound")
  | permissionDenied => some (13, "PermissionDenied")
  | notDirectory => some (20, "NotADirectory")
  | isDirectory => some (21, "IsADirectory")
  | nameTooLong => some (36, "InvalidFilename")
  | addressInUse => some (98, "AddrInUse")
  | addressNotAvailable => some (99, "AddrNotAvailable")
  | networkUnreachable => some (101, "NetworkUnreachable")
  | connectionRefused => some (111, "ConnectionRefused")
  | other code _ => some (code, "Uncategorized")
  | nulInName | notText => none

/-- The cause in words. -/
def text : IoError → String
  | notFound => "No such file or directory"
  | notDirectory => "Not a directory"
  | isDirectory => "Is a directory"
  | nameTooLong => "File name too long"
  | nulInName => "file name contained an unexpected NUL byte"
  | notText => "stream did not contain valid UTF-8"
  | addressInUse => "Address already in use"
  | addressNotAvailable => "Cannot assign requested address"
  | connectionRefused => "Connection refused"
  | networkUnreachable => "Network is unreachable"
  | permissionDenied => "Permission denied"
  | other _ words => words

/-- The cause as a report shows it. -/
def message (e : IoError) : String :=
  match e.system? with
  | some (code, _) => e.text ++ " (os error " ++ toString code ++ ")"
  | none => e.text

/-- The causes that the system's number alone tells. -/
def numbered : List IoError :=
  [notFound, permissionDenied, notDirectory, isDirectory, nameTooLong, addressInUse,
   addressNotAvailable, networkUnreachable, connectionRefused]

/-- The cause that the operating system tells of by a number and in words. -/
def ofSystem (code : Nat) (words : String) : IoError :=
  (numbered.find? fun e => e.system?.any fun s => s.1 == code).getD (.other code words)

end IoError

end GuideRig
