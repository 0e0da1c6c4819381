import StackProfiler.Text.Quoted

/-!
# System errors

What the operating system answers when a file or a kernel resource cannot be had, with the number,
the class and the text of each error.
-/

namespace StackProfiler

/-- The numbered errors of the operating system that can arise here: those that are documented for
opening, reading and writing files, listing a directory, and sampling. -/
inductive Errno where
  | notPermitted
  | noSuchFile
  | noSuchProcess
  | interrupted
  | inputOutput
  | noSuchAddress
  | argumentsTooLong
  | badDescriptor
  | wouldBlock
  | outOfMemory
  | permissionDenied
  | badAddress
  | busy
  | noSuchDevice
  | notDirectory
  | isDirectory
  | invalidArgument
  | tooManyFilesInSystem
  | tooManyFiles
  | notControllable
  | textBusy
  | fileTooLarge
  | noSpace
  | readOnly
  | brokenPipe
  | nameTooLong
  | notImplemented
  | tooManyLinks
  | overflow
  | notSupported
  | quotaExceeded
deriving DecidableEq, Repr

namespace Errno

def all : List Errno :=
  [notPermitted, noSuchFile, noSuchProcess, interrupted, inputOutput, noSuchAddress,
   argumentsTooLong, badDescriptor, wouldBlock, outOfMemory, permissionDenied, badAddress, busy,
   noSuchDevice, notDirectory, isDirectory, invalidArgument, tooManyFilesInSystem, tooManyFiles,
   notControllable, textBusy, fileTooLarge, noSpace, readOnly, brokenPipe, nameTooLong,
   notImplemented, tooManyLinks, overflow, notSupported, quotaExceeded]

/-- The number of an error. -/
def code : Errno → Nat
  | notPermitted => 1
  | noSuchFile => 2
  | noSuchProcess => 3
  | interrupted => 4
  | inputOutput => 5
  | noSuchAddress => 6
  | argumentsTooLong => 7
  | badDescriptor => 9
  | wouldBlock => 11
  | outOfMemory => 12
  | permissionDenied => 13
  | badAddress => 14
  | busy => 16
  | noSuchDevice => 19
  | notDirectory => 20
  | isDirectory => 21
  | invalidArgument => 22
  | tooManyFilesInSystem => 23
  | tooManyFiles => 24
  | notControllable => 25
  | textBusy => 26
  | fileTooLarge => 27
  | noSpace => 28
  | readOnly => 30
  | brokenPipe => 32
  | nameTooLong => 36
  | notImplemented => 38
  | tooManyLinks => 40
  | overflow => 75
  | notSupported => 95
  | quotaExceeded => 122

def ofCode? (n : Nat) : Option Errno :=
  all.find? (·.code == n)

def text : Errno → String
  | notPermitted => "Operation not permitted"
  | noSuchFile => "No such file or directory"
  | noSuchProcess => "No such process"
  | interrupted => "Interrupted system call"
  | inputOutput => "Input/output error"
  | noSuchAddress => "No such device or address"
  | argumentsTooLong => "Argument list too long"
  | badDescriptor => "Bad file descriptor"
  | wouldBlock => "Resource temporarily unavailable"
  | outOfMemory => "Cannot allocate memory"
  | permissionDenied => "Permission denied"
  | badAddress => "Bad address"
  | busy => "Device or resource busy"
  | noSuchDevice => "No such device"
  | notDirectory => "Not a directory"
  | isDirectory => "Is a directory"
  | invalidArgument => "Invalid argument"
  | tooManyFilesInSystem => "Too many open files in system"
  | tooManyFiles => "Too many open files"
  | notControllable => "Inappropriate ioctl for device"
  | textBusy => "Text file busy"
  | fileTooLarge => "File too large"
  | noSpace => "No space left on device"
  | readOnly => "Read-only file system"
  | brokenPipe => "Broken pipe"
  | nameTooLong => "File name too long"
  | notImplemented => "Function not implemented"
  | tooManyLinks => "Too many levels of symbolic links"
  | overflow => "Value too large for defined data type"
  | notSupported => "Operation not supported"
  | quotaExceeded => "Disk quota exceeded"

/-- The class of the error, which several numbers may share. -/
def className : Errno → String
  | notPermitted | permissionDenied => "PermissionDenied"
  | noSuchFile => "NotFound"
  | interrupted => "Interrupted"
  | argumentsTooLong => "ArgumentListTooLong"
  | wouldBlock => "WouldBlock"
  | outOfMemory => "OutOfMemory"
  | busy => "ResourceBusy"
  | notDirectory => "NotADirectory"
  | isDirectory => "IsADirectory"
  | invalidArgument => "InvalidInput"
  | textBusy => "ExecutableFileBusy"
  | fileTooLarge => "FileTooLarge"
  | noSpace => "StorageFull"
  | readOnly => "ReadOnlyFilesystem"
  | brokenPipe => "BrokenPipe"
  | nameTooLong => "InvalidFilename"
  | notImplemented | notSupported => "Unsupported"
  | tooManyLinks => "FilesystemLoop"
  | quotaExceeded => "QuotaExceeded"
  | _ => "Uncategorized"

end Errno

/-- Why reading or writing failed. -/
inductive IoError where
  /-- The operating system refused. -/
  | system (errno : Errno)
  /-- Text was expected, and the bytes are not UTF-8. -/
  | invalidUtf8
  /-- Of the bytes to be written none was taken. -/
  | nothingTaken
  /-- Memory was mapped at the null address. -/
  | nullMapping
deriving DecidableEq, Repr

namespace IoError

def message : IoError → String
  | system errno => errno.text ++ " (os error " ++ toString errno.code ++ ")"
  | invalidUtf8 => "stream did not contain valid UTF-8"
  | nothingTaken => "failed to write whole buffer"
  | nullMapping => "mmap returned null"

def debugText : IoError → String
  | system errno =>
    "Os \x7b code: " ++ toString errno.code ++ ", kind: " ++ errno.className ++ ", message: "
      ++ Text.quoted errno.text ++ " \x7d"
  | invalidUtf8 =>
    "Error \x7b kind: InvalidData, message: " ++ Text.quoted (message invalidUtf8) ++ " \x7d"
  | nothingTaken =>
    "Error \x7b kind: WriteZero, message: " ++ Text.quoted (message nothingTaken) ++ " \x7d"
  | nullMapping =>
    "Custom \x7b kind: Other, error: " ++ Text.quoted (message nullMapping) ++ " \x7d"

/-- Whether access was denied, for whichever of the two reasons. -/
def isPermission : IoError → Bool
  | system .notPermitted => true
  | system .permissionDenied => true
  | _ => false

end IoError

end StackProfiler
