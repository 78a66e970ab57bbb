import Lmnet.Lib.Tables

set_option autoImplicit false

namespace Lmnet

abbrev Fd := Int

def invalidSocket : Fd := -1

/-- A `std::shared_ptr<DataBuffer>`: its address, which is what `==` compares,
and the bytes it points to. Buffers are not written after they are queued. -/
structure DataBuffer where
  ptr : Nat
  bytes : List UInt8
  deriving DecidableEq, Repr

def DataBuffer.size (b : DataBuffer) : Nat := b.bytes.length

def bytesOf (q : List DataBuffer) : List UInt8 := q.flatMap DataBuffer.bytes

@[simp] theorem bytesOf_nil : bytesOf [] = [] := rfl

@[simp] theorem bytesOf_cons (b : DataBuffer) (q : List DataBuffer) :
    bytesOf (b :: q) = b.bytes ++ bytesOf q := rfl

@[simp] theorem bytesOf_append (q r : List DataBuffer) :
    bytesOf (q ++ r) = bytesOf q ++ bytesOf r := List.flatMap_append

/-- A `std::unordered_map` keyed by socket number. -/
abbrev FdMap (α : Type) := AList fun _ : Fd => α

def ENOENT : Int := 2
def EBADF : Int := 9
def EAGAIN : Int := 11
def ENOMEM : Int := 12
def EBUSY : Int := 16
def ESHUTDOWN : Int := 108
def ECANCELED : Int := 125

end Lmnet
