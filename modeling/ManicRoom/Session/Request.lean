/-
# What join and host accept

`retro_azahar_room_join` and `retro_azahar_room_host` copy and check their
arguments before they take any lock. A C string is modelled by the memory at the
pointer up to some bound, so its value ends at the first NUL or with the list.
-/

import Mathlib.Data.Nat.Notation

namespace ManicRoom.Session

/-- A `const char*`: null, or the bytes found there. -/
abbrev CString := Option (List UInt8)

/-- A `std::string`. -/
abbrev Bytes := List UInt8

/-- The bytes of an ASCII literal. -/
def ascii (text : String) : Bytes := text.toList.map fun char => char.toNat.toUInt8

/-- `while (length <= limit && value[length]) ++length`. -/
def scanLength (limit : ℕ) : Bytes → ℕ → ℕ
  | [], length => length
  | byte :: rest, length =>
      if length ≤ limit ∧ byte ≠ 0 then scanLength limit rest (length + 1) else length

/-- `Bounded(value, limit, copy)`: the copy, unless it returns false. -/
def bounded (value : CString) (limit : ℕ) : Option Bytes :=
  match value with
  | none => none
  | some bytes =>
      let length := scanLength limit bytes 0
      if length > limit then none else some (bytes.take length)

/-- `ip[pos] >= '0' && ip[pos] <= '9'`. -/
def isDigit (byte : UInt8) : Bool := 48 ≤ byte && byte ≤ 57

/-- The inner loop of `IPv4`: the number of digits and what follows them, or `none`
where it returns false. -/
def octet (digits value : ℕ) : Bytes → Option (ℕ × Bytes)
  | [] => some (digits, [])
  | byte :: rest =>
      if isDigit byte then
        let value := value * 10 + (byte.toNat - 48)
        if digits + 1 > 3 ∨ value > 255 then none else octet (digits + 1) value rest
      else some (digits, byte :: rest)

/-- The outer loop of `IPv4`, with this many parts to go: what follows the last. -/
def octets : ℕ → Bytes → Option Bytes
  | 0, ip => some ip
  | parts + 1, ip =>
      match octet 0 0 ip with
      | none => none
      | some (digits, rest) =>
          if digits = 0 ∨ (digits > 1 ∧ ip.head? = some 48) then none
          else if parts = 0 then some rest
          else
            match rest with
            | 46 :: rest => octets parts rest
            | _ => none

/-- `IPv4(ip)`. -/
def ipv4 (ip : Bytes) : Bool :=
  octets 4 ip = some [] && ip != ascii "0.0.0.0" && ip != ascii "255.255.255.255"

/-- The argument of `find_first_not_of`. -/
def nicknameCharacters : Bytes :=
  ascii "ABCDEFGHIJKLMNOPQRSTUVWXYZabcdefghijklmnopqrstuvwxyz0123456789._ -"

/-- A copied nickname that passes the checks. -/
def checkNickname (nickname : CString) : Option Bytes :=
  match bounded nickname 20 with
  | none => none
  | some nick =>
      if nick.length < 4 ∨ ¬ nick.all (nicknameCharacters.contains ·) then none else some nick

/-- `port < 1 || port > 65535`. -/
def checkPort (port : UInt32) : Option UInt16 :=
  if port < 1 ∨ port > 65535 then none else some port.toUInt16

/-- The arguments of a call to `join` or `host`. -/
inductive Request
  | join (address : CString) (port : UInt32) (nickname secret : CString)
  | host (port : UInt32) (nickname secret : CString)
  deriving DecidableEq, Repr

/-- What the worker is started with, apart from the console's identity. -/
structure Accepted where
  ip : Bytes
  port : UInt16
  nick : Bytes
  password : Bytes
  host : Bool
  deriving DecidableEq, Repr

/-- The checks of `join` and `host`, in their order; `none` where they return 1. -/
def Request.check : Request → Option Accepted
  | .join address port nickname secret => do
      let ip ← bounded address 15
      if ipv4 ip then
        let port ← checkPort port
        let nick ← checkNickname nickname
        let password ← bounded secret 128
        some ⟨ip, port, nick, password, false⟩
      else none
  | .host port nickname secret => do
      let port ← checkPort port
      let nick ← checkNickname nickname
      let password ← bounded secret 128
      some ⟨ascii "127.0.0.1", port, nick, password, true⟩

/-- A well-formed join request. -/
example : (Request.join (some (ascii "10.0.0.7")) 24872 (some (ascii "iPhoneTest"))
    (some [])).check.isSome = true := by decide

end ManicRoom.Session
