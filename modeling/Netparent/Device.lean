/-
  `struct dev` of leases.c, the three device events, and the JSON objects built of them
  (`dev_to_json`, `emit_event`, `publish_snapshot`).

  `blocked` is the C flag: every assignment stores 0 or 1. Numbers go through a double on
  their way into a cJSON item; `toDouble` is that conversion of a `long`.
-/
import Netparent.Mac
import Netparent.Lib.Json
import Netparent.Lib.SortedDiff

namespace Netparent

def maxDevices : Nat := 256
def hostnameLen : Nat := 64
def ipLen : Nat := 46

structure Dev where
  mac : Str
  ip : Str := []
  hostname : Str := []
  blocked : Bool := false
  leaseExpires : Int := 0
  lastSeen : Int := 0
  deriving DecidableEq, Repr

/-- The object of an `emit_event` call. -/
inductive Event where
  | added (d : Dev)
  | changed (d : Dev)
  | removed (mac : Str)
  deriving DecidableEq, Repr

/-- The address an event is about: `device.mac`, or `mac` of a removal. -/
def Event.mac : Event → Str
  | .added d => d.mac
  | .changed d => d.mac
  | .removed m => m

/-! ## Numbers -/

/-- A 53-bit significand, rounded to nearest, ties to even. -/
def roundMantissa (m : Nat) : Nat :=
  let unit := 2 ^ (Nat.log2 m - 52)
  let q := m / unit
  let r := m % unit
  (if unit < 2 * r ∨ (2 * r = unit ∧ q % 2 = 1) then q + 1 else q) * unit

/-- `(double)n` of a 64-bit `long`. -/
def toDouble (n : Int) : Int := n.sign * roundMantissa n.natAbs

theorem roundMantissa_small {m : Nat} (h : m < 2 ^ 53) : roundMantissa m = m := by
  have hlog : Nat.log2 m - 52 = 0 := by
    by_cases h0 : m = 0
    · subst h0; rfl
    · have := (Nat.log2_lt h0).mpr h
      omega
  simp [roundMantissa, hlog, Nat.mod_one]

/-- Below 2^53 a double carries a `long` exactly. -/
theorem toDouble_small {n : Int} (h : n.natAbs < 2 ^ 53) : toDouble n = n := by
  rw [toDouble, roundMantissa_small h]
  exact Int.sign_mul_natAbs n

/-! ## JSON -/

def devToJson (d : Dev) : Json := .obj
  [("mac".toList, .str d.mac), ("ip".toList, .str d.ip), ("hostname".toList, .str d.hostname),
   ("blocked".toList, .bool d.blocked), ("lease_expires".toList, .int (toDouble d.leaseExpires)),
   ("last_seen".toList, .int (toDouble d.lastSeen))]

/-- `emit_event`'s object. -/
def eventJson : Event → Json
  | .added d => .obj [("event".toList, .str "added".toList), ("device".toList, devToJson d)]
  | .changed d => .obj [("event".toList, .str "changed".toList), ("device".toList, devToJson d)]
  | .removed m => .obj [("event".toList, .str "removed".toList), ("mac".toList, .str m)]

/-- `publish_snapshot`'s object. -/
def snapshotJson (deviceId : Str) (updatedAt : Int) (list : List Dev) : Json := .obj
  [("device_id".toList, .str deviceId), ("updated_at".toList, .int (toDouble updatedAt)),
   ("devices".toList, .arr (list.map devToJson))]

example : toDouble 9223372036854775807 = 9223372036854775808 := by decide

end Netparent
