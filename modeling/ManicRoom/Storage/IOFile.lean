/-
# Files

`IOFile` wraps a file of the C library: its contents, the position in it, and whether every
operation so far went well. `CryptoIOFile` keeps the contents encrypted in counter mode and
hands them out in the clear. It owns two ciphers, one for each direction, each with a position
of its own in the key stream, and moves them along with the position of the file.

The C library buffers what is written, and wants a `fseek` between a read and a write of one
file; `pread` goes past its buffer. What a read or a write does that follows one of the other kind
without it is left open here, also where the read met the end of the file: there is no result.
The ciphers are those of a library and modelled by what they do: masking with a key stream from
their position on, and `Seek`. Of a write that the file system does not take whole it is open
how much it takes.

Source: `src/common/file_util.cpp`, without the branches for Windows and `HAVE_LIBRETRO_VFS`.
-/

import ManicRoom.Foundation.Keystream
import Mathlib.Data.Int.Notation

namespace ManicRoom.Storage

open ManicRoom.Foundation

/-! ## Plain files -/

/-- What a file has been used for. -/
inductive Direction
  | reading
  | writing
  deriving DecidableEq

/-- `m_file`: an open file. -/
structure OpenFile where
  bytes : List UInt8
  position : ℕ
  /-- What it has been used for since it was opened or positioned. Unless that is writing,
  nothing is left in the buffer that is not in the file. -/
  last : Option Direction := none
  deriving DecidableEq

/-- `IOFile` -/
structure IOFile where
  file : Option OpenFile
  good : Bool
  deriving DecidableEq

/-- The last argument of `fseek`. -/
inductive SeekOrigin
  | set
  | current
  | fileEnd
  deriving DecidableEq

/-- The bytes from a place on, as many as there are. -/
def OpenFile.bytesAt (file : OpenFile) (place count : ℕ) : List UInt8 :=
  (file.bytes.drop place).take count

/-- The contents after bytes were written at a place. A gap before them is filled with zeros. -/
def overwrite (bytes : List UInt8) (place : ℕ) (data : List UInt8) : List UInt8 :=
  if data = [] then bytes
  else (bytes ++ List.replicate (place - bytes.length) 0).take place ++ data ++
    bytes.drop (place + data.length)

/-- Where `fseek` goes, if that is a place. -/
def OpenFile.seekTarget (file : OpenFile) (off : ℤ) : SeekOrigin → Option ℕ
  | .set => if 0 ≤ off then some off.toNat else none
  | .current => if 0 ≤ file.position + off then some (file.position + off).toNat else none
  | .fileEnd => if 0 ≤ file.bytes.length + off then some (file.bytes.length + off).toNat else none

/-- `IOFile::ReadImpl`: the result, where `none` is the largest `size_t`, and the bytes that are
in the buffer then. -/
def IOFile.readImpl (f : IOFile) (length dataSize : ℕ) :
    Option (IOFile × Option ℕ × List UInt8) :=
  match f.file with
  | none => some ({ f with good := false }, none, [])
  | some file =>
      if length = 0 then some (f, some 0, [])
      else if file.last = some .writing then none
      else
        let read := file.bytesAt file.position (length * dataSize)
        some
          ({ f with
              file := some
                { file with position := file.position + read.length, last := some .reading } },
            some (read.length / dataSize), read)

/-- `IOFile::ReadAtImpl` -/
def IOFile.readAtImpl (f : IOFile) (byteCount offset : ℕ) :
    Option (IOFile × Option ℕ × List UInt8) :=
  match f.file with
  | none => some ({ f with good := false }, none, [])
  | some file =>
      if byteCount = 0 then some (f, some 0, [])
      else if file.last = some .writing then none
      else
        let read := file.bytesAt offset byteCount
        some (f, some read.length, read)

/-- `IOFile::WriteImpl`, of which the file system takes so many bytes. -/
def IOFile.writeImpl (f : IOFile) (length dataSize : ℕ) (data : List UInt8) (taken : ℕ) :
    Option (IOFile × Option ℕ) :=
  match f.file with
  | none => some ({ f with good := false }, none)
  | some file =>
      if length = 0 then some (f, some 0)
      else if file.last = some .reading then none
      else
        let written := data.take taken
        some
          ({ f with
              file := some
                { bytes := overwrite file.bytes file.position written
                  position := file.position + written.length
                  last := some .writing } },
            some (written.length / dataSize))

/-- `IOFile::SeekImpl`; `fseek` writes out what is in the buffer. -/
def IOFile.seekImpl (f : IOFile) (off : ℤ) (origin : SeekOrigin) : IOFile × Bool :=
  match f.file with
  | none => ({ f with good := false }, false)
  | some file =>
      match file.seekTarget off origin with
      | none => ({ f with good := false }, false)
      | some position => ({ f with file := some { file with position, last := none } }, f.good)

/-- `IOFile::TellImpl` -/
def IOFile.tellImpl (f : IOFile) : ℕ :=
  match f.file with
  | none => UInt64.size - 1
  | some file => file.position

/-! ## Encrypted files -/

/-- `CryptoIOFile` with its `CryptoIOFileImpl`: the file with the encrypted contents, and the
positions of the ciphers `d` and `e`. -/
structure CryptoIOFile where
  file : IOFile
  d : ℕ
  e : ℕ
  deriving DecidableEq

variable (stream : ℕ → UInt8)

/-- `CryptoIOFileImpl::ReadImpl` -/
def CryptoIOFile.readImpl (f : CryptoIOFile) (length dataSize : ℕ) :
    Option (CryptoIOFile × Option ℕ × List UInt8) :=
  (f.file.readImpl length dataSize).map fun (file, res, data) =>
    match res with
    | none => ({ f with file }, res, data)
    | some count =>
        if count = 0 then ({ f with file }, res, data)
        else
          -- only the elements that were read whole are decrypted
          let size := count * dataSize
          ({ file
             d := f.d + size
             e := file.tellImpl },
            res, mask stream f.d (data.take size) ++ data.drop size)

/-- `CryptoIOFileImpl::ReadAtImpl` -/
def CryptoIOFile.readAtImpl (f : CryptoIOFile) (byteCount offset : ℕ) :
    Option (CryptoIOFile × Option ℕ × List UInt8) :=
  (f.file.readAtImpl byteCount offset).map fun (file, res, data) =>
    match res with
    | none => ({ f with file }, res, data)
    | some count =>
        if count = 0 then ({ f with file }, res, data)
        else
          ({ file
             d := offset + count
             e := file.tellImpl },
            res, mask stream offset data)

/-- `CryptoIOFileImpl::WriteImpl`, where the data is `length * dataSize` bytes. -/
def CryptoIOFile.writeImpl (f : CryptoIOFile) (length dataSize : ℕ) (data : List UInt8)
    (taken : ℕ) : Option (CryptoIOFile × Option ℕ) :=
  (f.file.writeImpl length dataSize (mask stream f.e data) taken).map fun (file, res) =>
    let e := f.e + length * dataSize
    match res with
    | none => ({ file, d := f.d, e }, res)
    | some count =>
        if count = 0 then ({ file, d := f.d, e }, res)
        else ({ file, d := file.tellImpl, e }, res)

/-- `CryptoIOFileImpl::SeekImpl` -/
def CryptoIOFile.seekImpl (f : CryptoIOFile) (off : ℤ) (origin : SeekOrigin) :
    CryptoIOFile × Bool :=
  let (file, res) := f.file.seekImpl off origin
  if res then ({ file, d := file.tellImpl, e := file.tellImpl }, res)
  else ({ f with file }, res)

end ManicRoom.Storage
