import GameAccelerator.CString

namespace GameAccelerator.NetUtils

open CString

/-- A `sockaddr_in` of the one family in use. -/
structure Endpoint where
  ip : UInt32
  port : UInt16
  deriving DecidableEq

def sameAddr (a b : Endpoint) : Bool := a.ip == b.ip && a.port == b.port

theorem sameAddr_iff {a b : Endpoint} : sameAddr a b = true ↔ a = b := by
  obtain ⟨i, p⟩ := a
  obtain ⟨j, q⟩ := b
  simp [sameAddr]

def isspace (c : UInt8) : Bool := c == 32 || (9 ≤ c && c ≤ 13)

def isdigit (c : UInt8) : Bool := 48 ≤ c && c ≤ 57

/-- `strtoul(s, nullptr, 10)` with a 64-bit `unsigned long`. -/
def strtoul (s : Bytes) : UInt64 :=
  let s := s.dropWhile isspace
  let (negative, s) := match s with
    | 43 :: t => (false, t)
    | 45 :: t => (true, t)
    | t => (false, t)
  let value := (s.takeWhile isdigit).foldl (fun n c => n * 10 + (c.toNat - 48)) 0
  if value ≥ UInt64.size then .ofNat (UInt64.size - 1) else if negative then 0 - .ofNat value else .ofNat value

/-- Everything up to the last colon and everything behind it. -/
def splitLastColon (node : Bytes) : Option (Bytes × Bytes) :=
  if 58 ∈ node then
    some (((node.reverse.dropWhile (· != 58)).drop 1).reverse, (node.reverse.takeWhile (· != 58)).reverse)
  else none

/-- The address written to `out`; `inetPton` is the C library's parser. -/
def nodeToAddr (inetPton : CStr → Option UInt32) (node : Bytes) : Option Endpoint :=
  match splitLastColon node with
  | none => none
  | some (ip, port) =>
      match inetPton (cstrAt ip 0) with
      | none => none
      | some addr => some ⟨addr, (strtoul port).toUInt16⟩

end GameAccelerator.NetUtils
