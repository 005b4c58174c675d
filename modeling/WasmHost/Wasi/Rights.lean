import Mathlib.Tactic.Common

/-!
# Rights and flags

The bit masks of the Preview 1 imports. Rights are the 64 bits the guest passes, flags the low
32 bits of an `i32`.

`allowsRights_iff` reads the test the host applies to a request as containment of masks;
`allowsRights_self` and `allowsRights_and_right` say that masked rights pass it.
-/

namespace WasmHost

/-- The rights of a descriptor, a `BigInt` of 64 bits. -/
abbrev Rights := BitVec 64

/-- Flags of an import. -/
abbrev Flags := BitVec 32

def oflagsCreat : Flags := 1

def oflagsDirectory : Flags := 2

def oflagsExcl : Flags := 4

def oflagsTrunc : Flags := 8

def lookupSymlinkFollow : Flags := 1

def fdflagsAppend : Flags := 1

def fdflagsExtCloexec : Flags := 1

def fdflagsExtMask : Flags := fdflagsExtCloexec

def rightFdDatasync : Rights := 1 <<< 0

def rightFdRead : Rights := 1 <<< 1

def rightFdSeek : Rights := 1 <<< 2

def rightFdFdstatSetFlags : Rights := 1 <<< 3

def rightFdSync : Rights := 1 <<< 4

def rightFdTell : Rights := 1 <<< 5

def rightFdWrite : Rights := 1 <<< 6

def rightFdAdvise : Rights := 1 <<< 7

def rightFdAllocate : Rights := 1 <<< 8

def rightPathCreateDirectory : Rights := 1 <<< 9

def rightPathCreateFile : Rights := 1 <<< 10

def rightPathOpen : Rights := 1 <<< 13

def rightFdReaddir : Rights := 1 <<< 14

def rightPathRenameSource : Rights := 1 <<< 16

def rightPathRenameTarget : Rights := 1 <<< 17

def rightPathFilestatGet : Rights := 1 <<< 18

def rightPathFilestatSetSize : Rights := 1 <<< 19

def rightPathFilestatSetTimes : Rights := 1 <<< 20

def rightFdFilestatGet : Rights := 1 <<< 21

def rightFdFilestatSetSize : Rights := 1 <<< 22

def rightFdFilestatSetTimes : Rights := 1 <<< 23

def rightPathRemoveDirectory : Rights := 1 <<< 25

def rightPathUnlinkFile : Rights := 1 <<< 26

def stdinRights : Rights := rightFdRead ||| rightFdFdstatSetFlags

def stdoutRights : Rights := rightFdWrite ||| rightFdFdstatSetFlags

def workspaceRights : Rights :=
  rightFdReaddir ||| rightPathOpen ||| rightPathFilestatGet ||| rightFdFilestatGet

/-- The rights of a scratch directory. -/
def tmpRights : Rights :=
  rightFdReaddir ||| rightPathOpen ||| rightPathFilestatGet ||| rightPathFilestatSetTimes |||
    rightPathCreateFile ||| rightPathCreateDirectory ||| rightPathUnlinkFile |||
    rightPathRemoveDirectory ||| rightPathRenameSource ||| rightPathRenameTarget |||
    rightFdFilestatGet

/-- The rights of a file that is read. -/
def regularFileRights : Rights :=
  rightFdRead ||| rightFdSeek ||| rightFdFdstatSetFlags ||| rightFdTell ||| rightFdAdvise |||
    rightFdFilestatGet

/-- The rights of a file that is written. -/
def scratchFileRights : Rights :=
  regularFileRights ||| rightFdWrite ||| rightFdDatasync ||| rightFdSync ||| rightFdAllocate |||
    rightFdFilestatSetSize ||| rightFdFilestatSetTimes

/-- The rights of a writable directory. -/
def writableWorkspaceRights : Rights :=
  workspaceRights ||| rightPathFilestatSetTimes ||| rightPathCreateFile |||
    rightPathCreateDirectory ||| rightPathUnlinkFile ||| rightPathRemoveDirectory |||
    rightPathRenameSource ||| rightPathRenameTarget

/-- The rights to change something. -/
def writeRights : Rights :=
  rightFdDatasync ||| rightFdSync ||| rightFdWrite ||| rightFdAllocate |||
    rightPathCreateDirectory ||| rightPathCreateFile ||| rightPathFilestatSetSize |||
    rightPathFilestatSetTimes ||| rightPathRenameSource ||| rightPathRenameTarget |||
    rightFdFilestatSetSize ||| rightFdFilestatSetTimes ||| rightPathRemoveDirectory |||
    rightPathUnlinkFile

def pipeBaseRights : Rights := rightFdFdstatSetFlags ||| rightFdFilestatGet

def pipeReadRights : Rights := pipeBaseRights ||| rightFdRead

def pipeWriteRights : Rights := pipeBaseRights ||| rightFdWrite

/-- Every requested bit is allowed. -/
def allowsRights (requested allowed : Rights) : Bool := requested &&& ~~~allowed == 0

def requestsWriteRights (rights : Rights) : Bool := rights &&& writeRights != 0

/-- Whether a mask has some bit of another one set. -/
def hasRight (rights right : Rights) : Bool := rights &&& right != 0

/-- Whether some of the given flags is set. -/
def hasFlag {w : ℕ} (flags flag : BitVec w) : Bool := flags &&& flag != 0

/-- The rights granted for a request: `0` asks for everything a mount can grant. -/
def grantRights (requested mask : Rights) : Rights :=
  if requested = 0 then mask else requested &&& mask

/-! ### Containment of rights -/

theorem allowsRights_iff (requested allowed : Rights) :
    allowsRights requested allowed = true ↔ requested &&& allowed = requested := by
  simp only [allowsRights, beq_iff_eq]
  constructor
  · intro h
    ext i hi
    have hbit := congrArg (fun v : Rights => v[i]) h
    simp only [BitVec.getElem_and, BitVec.getElem_not] at hbit ⊢
    cases hr : requested[i] <;> simp_all
  · intro h
    rw [← h, BitVec.and_assoc]
    simp

@[simp]
theorem allowsRights_self (rights : Rights) : allowsRights rights rights = true := by
  simp [allowsRights_iff]

/-- Masking a request leaves only rights of the mask. -/
@[simp]
theorem allowsRights_and_right (requested mask : Rights) :
    allowsRights (requested &&& mask) mask = true := by
  rw [allowsRights_iff, BitVec.and_assoc, BitVec.and_self]

/-- What is granted never exceeds what the mount can grant. -/
theorem allowsRights_grantRights (requested mask : Rights) :
    allowsRights (grantRights requested mask) mask = true := by
  unfold grantRights
  split <;> simp

end WasmHost
