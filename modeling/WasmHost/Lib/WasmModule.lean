import WasmHost.Lib.Leb128
import WasmHost.Lib.Utf8

/-!
# Modules in the binary format of WebAssembly

The grammar of a module as far as its imports go: the sections in order, each under its length, and
what stands in the import section. The contents of the other sections are left open.
-/

namespace Wasm

open Leb128

/-- The limits of a table or a memory. -/
structure Limits where
  initial : ℕ
  maximum : Option ℕ
  shared : Bool

/-- What is imported. -/
inductive ImportType
  | function (typeIndex : ℕ)
  | table (limits : Limits)
  | memory (limits : Limits)
  | global (valueType mutability : UInt8)

/-- An import of a module. -/
structure Import where
  module : List Char
  name : List Char
  type : ImportType

/-- A text in UTF-8 under its length. -/
inductive IsName : List UInt8 → List Char → Prop
  | intro {size : List UInt8} {text : List Char}
      (hsize : Unsigned 32 size (Utf8.encode text).length) : IsName (size ++ Utf8.encode text) text

/-- The encodings of limits. -/
inductive IsLimits : List UInt8 → Limits → Prop
  | least {low : List UInt8} {initial : ℕ} (hlow : Unsigned 32 low initial) :
      IsLimits (0x00 :: low) ⟨initial, none, false⟩
  | range {low high : List UInt8} {initial maximum : ℕ} (hlow : Unsigned 32 low initial)
      (hhigh : Unsigned 32 high maximum) :
      IsLimits (0x01 :: (low ++ high)) ⟨initial, some maximum, false⟩
  | shared {low high : List UInt8} {initial maximum : ℕ} (hlow : Unsigned 32 low initial)
      (hhigh : Unsigned 32 high maximum) :
      IsLimits (0x03 :: (low ++ high)) ⟨initial, some maximum, true⟩

/-- The types of values: `i32`, `i64`, `f32` and `f64`. -/
def IsValueType (b : UInt8) : Prop := b ∈ [0x7f, 0x7e, 0x7d, 0x7c]

/-- The encodings of what is imported. -/
inductive IsImportType : List UInt8 → ImportType → Prop
  | function {index : List UInt8} {n : ℕ} (hindex : Unsigned 32 index n) :
      IsImportType (0x00 :: index) (.function n)
  | table {bytes : List UInt8} {limits : Limits} (hlimits : IsLimits bytes limits)
      (hshared : limits.shared = false) : IsImportType (0x01 :: 0x70 :: bytes) (.table limits)
  | memory {bytes : List UInt8} {limits : Limits} (hlimits : IsLimits bytes limits) :
      IsImportType (0x02 :: bytes) (.memory limits)
  | global {valueType mutability : UInt8} (htype : IsValueType valueType)
      (hmut : mutability ∈ [0x00, 0x01]) :
      IsImportType [0x03, valueType, mutability] (.global valueType mutability)

/-- The encodings of an import. -/
inductive IsImport : List UInt8 → Import → Prop
  | intro {a b c : List UInt8} {module name : List Char} {type : ImportType}
      (hmodule : IsName a module) (hname : IsName b name) (htype : IsImportType c type) :
      IsImport (a ++ (b ++ c)) ⟨module, name, type⟩

/-- One thing after the other. -/
inductive Repeated {α : Type} (G : List UInt8 → α → Prop) : List UInt8 → List α → Prop
  | nil : Repeated G [] []
  | cons {b bytes : List UInt8} {a : α} {as : List α} (h : G b a) (hrest : Repeated G bytes as) :
      Repeated G (b ++ bytes) (a :: as)

/-- Things behind their number. -/
inductive IsVector {α : Type} (G : List UInt8 → α → Prop) : List UInt8 → List α → Prop
  | intro {count bytes : List UInt8} {as : List α} (hcount : Unsigned 32 count as.length)
      (h : Repeated G bytes as) : IsVector G (count ++ bytes) as

/-- The sections behind the one with the number `last`, and the imports in them. Custom sections
stand anywhere, the others at most once and in the order of their numbers. -/
inductive Sections : ℕ → List UInt8 → List Import → Prop
  | nil {last : ℕ} : Sections last [] []
  | custom {last : ℕ} {size contents rest : List UInt8} {imports : List Import}
      (hsize : Unsigned 32 size contents.length) (hrest : Sections last rest imports) :
      Sections last (0 :: (size ++ (contents ++ rest))) imports
  | imports {last : ℕ} {size contents rest : List UInt8} {imports : List Import} (hlast : last < 2)
      (hsize : Unsigned 32 size contents.length) (hcontents : IsVector IsImport contents imports)
      (hrest : Sections 2 rest []) : Sections last (2 :: (size ++ (contents ++ rest))) imports
  | other {last : ℕ} {id : UInt8} {size contents rest : List UInt8} {imports : List Import}
      (hlast : last < id.toNat) (hid : id.toNat ≤ 11) (hne : id ≠ 2)
      (hsize : Unsigned 32 size contents.length) (hrest : Sections id.toNat rest imports) :
      Sections last (id :: (size ++ (contents ++ rest))) imports

def magic : List UInt8 := [0x00, 0x61, 0x73, 0x6d]

def version : List UInt8 := [0x01, 0x00, 0x00, 0x00]

/-- The bytes are framed as a module is, and import this. -/
def IsModule (bytes : List UInt8) (imports : List Import) : Prop :=
  ∃ sections, bytes = magic ++ (version ++ sections) ∧ Sections 0 sections imports

end Wasm
