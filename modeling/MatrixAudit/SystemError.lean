import MatrixAudit.Failure

/-!
# Errors of the operating system

The names of the error numbers that opening files and talking to peers can bring.
-/

namespace MatrixAudit

def systemErrorNames : List (Nat × String) :=
  [(1, "Operation not permitted"), (2, "No such file or directory"), (4, "Interrupted system call"),
    (5, "Input/output error"), (6, "No such device or address"), (9, "Bad file descriptor"),
    (11, "Resource temporarily unavailable"), (12, "Cannot allocate memory"),
    (13, "Permission denied"), (17, "File exists"), (19, "No such device"), (20, "Not a directory"),
    (21, "Is a directory"), (22, "Invalid argument"), (23, "Too many open files in system"),
    (24, "Too many open files"), (26, "Text file busy"), (27, "File too large"),
    (28, "No space left on device"), (30, "Read-only file system"), (32, "Broken pipe"),
    (36, "File name too long"), (40, "Too many levels of symbolic links"),
    (97, "Address family not supported by protocol"), (98, "Address already in use"),
    (99, "Cannot assign requested address"), (100, "Network is down"),
    (101, "Network is unreachable"), (103, "Software caused connection abort"),
    (104, "Connection reset by peer"), (105, "No buffer space available"),
    (107, "Transport endpoint is not connected"), (110, "Connection timed out"),
    (111, "Connection refused"), (112, "Host is down"), (113, "No route to host")]

/-- The fault with the given number; `details` stands in for a name that is not known. -/
def Fault.ofSystem (number : Nat) (details : String) : Fault :=
  ⟨false, s!"{(systemErrorNames.lookup number).getD details} (os error {number})"⟩

example : Fault.ofSystem 2 "" = Fault.notFound := by decide +kernel

end MatrixAudit
