import Dicon.Framework.LittleEndian

/-!
# Reading packed structs

A `FieldReader` takes integers and byte strings out of a byte string, and records
the offset and width of each place it looks at, in order. Fields may depend on
each other: a length that is read first says how far a later one reaches.
-/

namespace Dicon.Framework

universe u v

structure FieldReader (α : Type u) where
  run : List UInt8 → α × List (ℕ × ℕ)

namespace FieldReader

variable {α : Type u} {β : Type v}

def value (r : FieldReader α) (b : List UInt8) : α := (r.run b).1

/-- The offsets and widths that are read. -/
def reads (r : FieldReader α) (b : List UInt8) : List (ℕ × ℕ) := (r.run b).2

protected def pure (a : α) : FieldReader α := ⟨fun _ => (a, [])⟩

protected def bind (r : FieldReader α) (f : α → FieldReader β) : FieldReader β :=
  ⟨fun b => ((f (r.value b)).value b, r.reads b ++ (f (r.value b)).reads b)⟩

instance : Monad FieldReader.{u} where
  pure := FieldReader.pure
  bind := FieldReader.bind

def u32 (off : ℕ) : FieldReader UInt32 := ⟨fun b => (rd32At b off, [(off, 4)])⟩

def u64 (off : ℕ) : FieldReader UInt64 := ⟨fun b => (rd64At b off, [(off, 8)])⟩

/-- A signed byte. -/
def i8 (off : ℕ) : FieldReader ℤ := ⟨fun b => ((b.getD off 0).toInt8.toInt, [(off, 1)])⟩

def bytes (off n : ℕ) : FieldReader (List UInt8) := ⟨fun b => ((b.drop off).take n, [(off, n)])⟩

@[simp] theorem value_pure (a : α) (b : List UInt8) :
    (pure a : FieldReader α).value b = a := rfl

@[simp] theorem reads_pure (a : α) (b : List UInt8) :
    (pure a : FieldReader α).reads b = [] := rfl

@[simp] theorem value_bind {α β : Type u} (r : FieldReader α) (f : α → FieldReader β)
    (b : List UInt8) : (r >>= f).value b = (f (r.value b)).value b := rfl

@[simp] theorem reads_bind {α β : Type u} (r : FieldReader α) (f : α → FieldReader β)
    (b : List UInt8) : (r >>= f).reads b = r.reads b ++ (f (r.value b)).reads b := rfl

@[simp] theorem value_u32 (off : ℕ) (b : List UInt8) : (u32 off).value b = rd32At b off := rfl
@[simp] theorem reads_u32 (off : ℕ) (b : List UInt8) : (u32 off).reads b = [(off, 4)] := rfl
@[simp] theorem value_u64 (off : ℕ) (b : List UInt8) : (u64 off).value b = rd64At b off := rfl
@[simp] theorem reads_u64 (off : ℕ) (b : List UInt8) : (u64 off).reads b = [(off, 8)] := rfl
@[simp] theorem reads_i8 (off : ℕ) (b : List UInt8) : (i8 off).reads b = [(off, 1)] := rfl

@[simp] theorem value_bytes (off n : ℕ) (b : List UInt8) :
    (bytes off n).value b = (b.drop off).take n := rfl

@[simp] theorem reads_bytes (off n : ℕ) (b : List UInt8) :
    (bytes off n).reads b = [(off, n)] := rfl

end FieldReader

end Dicon.Framework
