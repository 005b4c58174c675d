import WasmHost.Lib.Except
import WasmHost.Text

/-!
# The memories a module imports

`importedMemoryImports`: the runner looks through the bytes of a module for the memories it imports,
before the module is compiled. It goes from section to section and reads the import section; numbers
are put together in 32-bit words, names are what a `TextDecoder` gives.

A byte behind the end of the data is a fault of its own, as is a loop that does not come to its end,
so that neither is mistaken for an answer. The places where a number was read are kept.
-/

namespace WasmHost

/-- The kinds of a `WasiModuleError`. -/
inductive WasiModuleErrorKind
  | invalidPackage
  | unsupported
  | runtime
  | invalidRequest
  deriving DecidableEq, Repr

/-- `BrowserWasiModuleError`. -/
structure WasiModuleError where
  kind : WasiModuleErrorKind
  message : String
  stage : String
  deriving DecidableEq, Repr

/-- How the scan can end without an answer. -/
inductive ScanFault
  | module (error : WasiModuleError)
  /-- `data[index]` is `undefined`. -/
  | outside (index : ℕ)
  | outOfFuel
  deriving DecidableEq, Repr

/-- A place where a number was read, and where its bytes had to end. -/
structure VarUint32Place where
  offset : ℕ
  sectionEnd : ℕ
  deriving DecidableEq, Repr

/-- A scan that notes where it reads LEB128 numbers. -/
abbrev ScanM := ExceptT ScanFault (StateM (List VarUint32Place))

namespace ScanM

def settle {α : Type} (result : Except ScanFault α) : ScanM α := ExceptT.mk (pure result)

/-- `data[index]`. -/
def byte (data : Bytes) (index : ℕ) : ScanM UInt8 :=
  settle (match data[index]? with
    | some byte => .ok byte
    | none => .error (.outside index))

end ScanM

/-- A value and the offset behind it. -/
structure ScannedValue (α : Type) where
  offset : ℕ
  value : α
  deriving DecidableEq, Repr

def wasmMagic : Bytes := [0x00, 0x61, 0x73, 0x6d]

def wasmImportSectionId : UInt8 := 2
def wasmImportKindFunction : UInt8 := 0
def wasmImportKindTable : UInt8 := 1
def wasmImportKindMemory : UInt8 := 2
def wasmImportKindGlobal : UInt8 := 3
def wasmImportKindTag : UInt8 := 4
def wasmLimitsHasMaximum : ℕ := 1
def wasmLimitsShared : ℕ := 2
def wasmLimitsMemory64 : ℕ := 4

/-- What `readWasmLimits` returns. -/
structure WasmLimits where
  flags : ℕ
  initial : ℕ
  maximum : Option ℕ
  offset : ℕ
  shared : Bool
  deriving DecidableEq, Repr

/-- A memory import. -/
structure MemoryImport where
  module : Text
  name : Text
  initial : ℕ
  maximum : Option ℕ
  shared : Bool
  deriving DecidableEq, Repr

def invalidVarUint32 : ScanFault :=
  .module ⟨.invalidPackage, "raw WASI module contains an invalid varuint32", "package_load"⟩

def truncatedImportSection : ScanFault :=
  .module ⟨.invalidPackage, "raw WASI module import section is truncated", "package_load"⟩

/-- The module opens with the magic bytes. -/
def validateWasmMagic (data : Bytes) : ScanM Unit :=
  if wasmMagic <+: data then pure ()
  else throw (.module
    ⟨.invalidPackage, "raw WASI module bytes must start with Wasm magic", "package_load"⟩)

/-- Offsets and lengths come from numbers that were read, which are not negative. -/
def requireWasmRange (data : Bytes) (offset length sectionEnd : ℕ) : ScanM Unit :=
  if sectionEnd < offset + length ∨ data.length < sectionEnd then throw truncatedImportSection
  else pure ()

/-- The loop of `readWasmVarUint32`. A shift takes the lowest five bits of its count. -/
def readWasmVarUint32From (data : Bytes) (sectionEnd : ℕ) :
    ℕ → ℕ → ℕ → BitVec 32 → Except ScanFault (ScannedValue ℕ)
  | 0, _, _, _ => .error .outOfFuel
  | fuel + 1, cursor, shift, result =>
    if cursor < sectionEnd then
      match data[cursor]? with
      | none => .error (.outside cursor)
      | some byte =>
        let result := result ||| (byte &&& 0x7f).toBitVec.setWidth 32 <<< (shift % 32)
        if byte &&& 0x80 = 0 then .ok ⟨cursor + 1, result.toNat⟩
        else if 35 ≤ shift + 7 then .error invalidVarUint32
        else readWasmVarUint32From data sectionEnd fuel (cursor + 1) (shift + 7) result
    else .error invalidVarUint32

/-- `readWasmVarUint32`, without a note of the place. -/
def varUint32At (data : Bytes) (offset sectionEnd : ℕ) : Except ScanFault (ScannedValue ℕ) :=
  readWasmVarUint32From data sectionEnd 5 offset 0 0

/-- Reads a number. -/
def readWasmVarUint32 (data : Bytes) (offset sectionEnd : ℕ) : ScanM (ScannedValue ℕ) := do
  modify (· ++ [⟨offset, sectionEnd⟩])
  ScanM.settle (varUint32At data offset sectionEnd)

/-- Reads a name. -/
def readWasmName (data : Bytes) (offset sectionEnd : ℕ) : ScanM (ScannedValue Text) := do
  let length ← readWasmVarUint32 data offset sectionEnd
  requireWasmRange data length.offset length.value sectionEnd
  let bytes := (data.drop length.offset).take length.value
  return ⟨length.offset + length.value, Utf8.textDecode bytes⟩

/-- Reads limits. -/
def readWasmLimits (data : Bytes) (offset sectionEnd : ℕ) : ScanM WasmLimits := do
  let flags ← readWasmVarUint32 data offset sectionEnd
  let initial ← readWasmVarUint32 data flags.offset sectionEnd
  let shared := flags.value &&& wasmLimitsShared ≠ 0
  if flags.value &&& wasmLimitsHasMaximum ≠ 0 then
    let maximum ← readWasmVarUint32 data initial.offset sectionEnd
    return ⟨flags.value, initial.value, some maximum.value, maximum.offset, shared⟩
  else
    return ⟨flags.value, initial.value, none, initial.offset, shared⟩

/-- Reads the type of a memory. -/
def readWasmMemoryType (data : Bytes) (offset sectionEnd : ℕ) : ScanM WasmLimits := do
  let limits ← readWasmLimits data offset sectionEnd
  if limits.flags &&& wasmLimitsMemory64 ≠ 0 then
    throw (.module ⟨.unsupported,
      "raw WASI memory64 imports are not supported in the browser runner", "package_load"⟩)
  else return limits

/-- The offset behind a descriptor that is no memory. -/
def skipWasmImportDescriptor (data : Bytes) (offset sectionEnd : ℕ) (kind : UInt8) : ScanM ℕ :=
  if kind = wasmImportKindFunction then do
    let index ← readWasmVarUint32 data offset sectionEnd
    return index.offset
  else if kind = wasmImportKindTag then do
    let tag ← readWasmVarUint32 data offset sectionEnd
    let index ← readWasmVarUint32 data tag.offset sectionEnd
    return index.offset
  else if kind = wasmImportKindTable then do
    requireWasmRange data offset 1 sectionEnd
    let limits ← readWasmLimits data (offset + 1) sectionEnd
    return limits.offset
  else if kind = wasmImportKindGlobal then do
    requireWasmRange data offset 2 sectionEnd
    return offset + 2
  else
    throw (.module ⟨.invalidPackage,
      "raw WASI module imports unsupported descriptor kind " ++ toString kind.toNat,
      "package_load"⟩)

/-- One round of the loop of `parseWasmImportSection`. -/
def parseWasmImport (data : Bytes) (sectionEnd cursor : ℕ) (imports : List MemoryImport) :
    ScanM (ℕ × List MemoryImport) := do
  let moduleName ← readWasmName data cursor sectionEnd
  let importName ← readWasmName data moduleName.offset sectionEnd
  requireWasmRange data importName.offset 1 sectionEnd
  let kind ← ScanM.byte data importName.offset
  if kind = wasmImportKindMemory then
    let memory ← readWasmMemoryType data (importName.offset + 1) sectionEnd
    return (memory.offset, imports ++
      [⟨moduleName.value, importName.value, memory.initial, memory.maximum, memory.shared⟩])
  else
    let next ← skipWasmImportDescriptor data (importName.offset + 1) sectionEnd kind
    return (next, imports)

/-- The rounds that are left. -/
def parseWasmImports (data : Bytes) (sectionEnd : ℕ) :
    ℕ → ℕ → List MemoryImport → ScanM (List MemoryImport)
  | 0, _, imports => pure imports
  | count + 1, cursor, imports => do
    let (next, imports) ← parseWasmImport data sectionEnd cursor imports
    parseWasmImports data sectionEnd count next imports

/-- The count may go on behind the section: its end is that of the data. -/
def parseWasmImportSection (data : Bytes) (offset sectionEnd : ℕ) (imports : List MemoryImport) :
    ScanM (List MemoryImport) := do
  let count ← readWasmVarUint32 data offset data.length
  parseWasmImports data sectionEnd count.value count.offset imports

/-- What a section adds to the imports. -/
def scanWasmSection (data : Bytes) (sectionId : UInt8) (offset sectionEnd : ℕ)
    (imports : List MemoryImport) : ScanM (List MemoryImport) :=
  if sectionId = wasmImportSectionId then parseWasmImportSection data offset sectionEnd imports
  else pure imports

/-- The loop of `importedMemoryImports`. -/
def importedMemoryImportsFrom (data : Bytes) :
    ℕ → ℕ → List MemoryImport → ScanM (List MemoryImport)
  | fuel, offset, imports =>
    if offset < data.length then
      match fuel with
      | 0 => throw .outOfFuel
      | fuel + 1 => do
        let sectionId ← ScanM.byte data offset
        let length ← readWasmVarUint32 data (offset + 1) data.length
        let sectionEnd := length.offset + length.value
        requireWasmRange data length.offset length.value data.length
        let imports ← scanWasmSection data sectionId length.offset sectionEnd imports
        importedMemoryImportsFrom data fuel sectionEnd imports
    else pure imports

/-- Every round of the loop takes a byte. -/
def importedMemoryImports (data : Bytes) : ScanM (List MemoryImport) := do
  validateWasmMagic data
  importedMemoryImportsFrom data data.length (wasmMagic.length + 4) []

/-- What the runner is told about the data. -/
def memoryImportsOf (data : Bytes) : Except ScanFault (List MemoryImport) :=
  (importedMemoryImports data []).1

/-- The places where the scan of the data reads a number. -/
def varUint32PlacesOf (data : Bytes) : List VarUint32Place := (importedMemoryImports data []).2

end WasmHost
