/-
  leases.c: the lease watcher. It re-reads the dnsmasq lease file, merges in the blocked
  MACs, and publishes the difference to the last list as events and the list itself as the
  devices snapshot.
-/
import Netparent.Nft

namespace Netparent

/-- `struct np_leases`; `count` and `prev_count` are the lists' lengths. -/
structure NpLeases where
  path : Str
  list : List Dev := []
  prev : List Dev := []
  lastMtime : Int := 0
  lastSize : Int := 0
  firstRun : Bool := true

def npLeasesCreate (path : Option Str) : NpLeases :=
  { path := path.getD "/tmp/dhcp.leases".toList }

/-! ## Reading the lease file -/

/-- The range of a 64-bit `long`; out-of-range digits saturate, as in `strtol`. -/
def clampLong (n : Int) : Int := max (-2 ^ 63) (min n (2 ^ 63 - 1))

def digitsValue (ds : Str) : Int := ds.foldl (fun n c => n * 10 + (c.toNat - '0'.toNat : Nat)) 0

/-- `%ld`: leading space, a sign, at least one digit. -/
def scanLong (s : Str) : Option (Int × Str) :=
  let s := s.dropWhile isspace
  let sign : Int := if s.head? = some '-' then -1 else 1
  let s := if s.head? = some '-' ∨ s.head? = some '+' then s.tail else s
  let ds := s.takeWhile isdigit
  if ds = [] then none else some (clampLong (sign * digitsValue ds), s.drop ds.length)

/-- `%<width>s`: leading space, then up to `width` bytes that are not space, at least one. -/
def scanWord (width : Nat) (s : Str) : Option (Str × Str) :=
  let s := s.dropWhile isspace
  let t := (s.takeWhile fun c => !isspace c).take width
  if t = [] then none else some (t, s.drop t.length)

/-- What `sscanf(line, "%ld %63s %45s %63s", …)` assigned when it made at least the first
    three conversions; `host` is the fourth. -/
structure LeaseFields where
  expiry : Int
  mac : Str
  ip : Str
  host : Option Str

def sscanfLease (line : Str) : Option LeaseFields :=
  (scanLong line).bind fun e =>
    (scanWord 63 e.2).bind fun m =>
      (scanWord 45 m.2).bind fun i =>
        some { expiry := e.1, mac := m.1, ip := i.1, host := (scanWord 63 i.2).map Prod.fst }

/-- The record a line's fields make; `none` when the MAC is not accepted. -/
def leaseRecord (f : LeaseFields) (now : Int) : Option Dev :=
  (npMacNormalize f.mac).map fun norm =>
    { mac := norm
      ip := f.ip.take (ipLen - 1)
      hostname := match f.host with
        | some host => if host ≠ "*".toList then host.take (hostnameLen - 1) else []
        | none => []
      leaseExpires := f.expiry
      lastSeen := now }

/-- Reading a file with `fgets` into `size` bytes. `fuel` bounds the reads. -/
def fgetsLoop (size : Nat) : (fuel : Nat) → Str → List Str
  | 0, _ => []
  | fuel + 1, s => match fgets size s with
      | none => []
      | some (piece, rest) => piece :: fgetsLoop size fuel rest

def fgetsLines (size : Nat) (s : Str) : List Str := fgetsLoop size s.length s

section Host

variable {κ : Type} (h : Host κ)

/-- `parse_lease_line`: the clock is read last, once the line is known to be good. -/
def parseLeaseLine (line : Str) (w : World κ) : Option Dev × World κ :=
  match sscanfLease line with
  | none => (none, w)
  | some f => match npMacNormalize f.mac with
      | none => (none, w)
      | some _ => (leaseRecord f (w.time h).1, (w.time h).2)

/-! ## The device table -/

/-- Prefer the entry that has more information. -/
def mergeDev (e d : Dev) : Dev :=
  { mac := e.mac
    ip := if d.ip ≠ [] then d.ip else e.ip
    hostname := if d.hostname ≠ [] then d.hostname else e.hostname
    blocked := if d.blocked then true else e.blocked
    leaseExpires := if d.leaseExpires ≠ 0 then d.leaseExpires else e.leaseExpires
    lastSeen := if d.lastSeen ≠ 0 then d.lastSeen else e.lastSeen }

/-- The search loop of `add_or_merge`: merge into the first entry with the same MAC. -/
def mergeFirst (d : Dev) : List Dev → Option (List Dev)
  | [] => none
  | e :: es =>
      if strcmp e.mac d.mac = 0 then some (mergeDev e d :: es) else (mergeFirst d es).map (e :: ·)

def addOrMerge (list : List Dev) (d : Dev) : List Dev :=
  match mergeFirst d list with
  | some list' => list'
  | none => if list.length ≥ maxDevices then list else list ++ [d]

/-- The record `add_blocked_cb` merges. -/
def blockedDev (mac : Str) : Dev := { mac := (mac.take 17).map tolower, blocked := true }

def addBlockedCb (list : List Dev) (mac : Str) : List Dev := addOrMerge list (blockedDev mac)

/-! ## rebuild -/

/-- The read loop: parse each line, merge each good one. -/
def leaseLoop : List Str → List Dev → World κ → List Dev × World κ
  | [], list, w => (list, w)
  | line :: lines, list, w =>
      match (parseLeaseLine h (cstr line) w).1 with
      | some d => leaseLoop lines (addOrMerge list d) (parseLeaseLine h (cstr line) w).2
      | none => leaseLoop lines list (parseLeaseLine h (cstr line) w).2

/-- Step 3: ask nft about each entry that is not marked yet. -/
def markBlocked (cfg : Config) : List Dev → World κ → List Dev × World κ
  | [], w => ([], w)
  | d :: ds, w =>
      if d.blocked then
        let r := markBlocked cfg ds w
        (d :: r.1, r.2)
      else
        let q := npNftIsBlocked h cfg d.mac w
        let r := markBlocked cfg ds q.2
        ({ d with blocked := decide (q.1 > 0) } :: r.1, r.2)

/-- `qsort` by `devcmp`. The order of entries with equal MACs is not specified in C; the
    lists sorted here have none (`rebuild_sorted`). -/
def sortDevs (list : List Dev) : List Dev :=
  list.insertionSort fun a b => strcmp a.mac b.mac ≤ 0

/-- Step 1 of `rebuild`: the table the lease file gives. -/
def readLeases (path : Str) (w : World κ) : List Dev × World κ :=
  let r := w.fopen h path
  match r.1 with
  | some content => leaseLoop h (fgetsLines 512 content) [] r.2
  | none => ([], r.2)

def rebuild (cfg : Config) (l : NpLeases) (w : World κ) : NpLeases × World κ :=
  let leases := readLeases h l.path w
  let reported := npNftList h cfg leases.2
  let merged := (reported.1.getD []).foldl addBlockedCb leases.1
  let marked := markBlocked h cfg merged reported.2
  ({ l with list := sortDevs marked.1 }, marked.2)

/-! ## Publishing -/

def devsDiffer (a b : Dev) : Bool :=
  if strcmp a.mac b.mac ≠ 0 then true
  else if strcmp a.ip b.ip ≠ 0 then true
  else if strcmp a.hostname b.hostname ≠ 0 then true
  else if a.blocked ≠ b.blocked then true
  else if a.leaseExpires ≠ b.leaseExpires then true
  else false

def emitEvent (cfg : Config) (w : World κ) (e : Event) : World κ :=
  (w.publish h cfg (.event e)).2

/-- The events of `diff_and_emit`'s three loops, in order. -/
def diffEvents : List Dev → List Dev → List Event
  | [], ns => ns.map .added
  | p :: ps, [] => (p :: ps).map fun q => .removed q.mac
  | p :: ps, n :: ns =>
      let c := strcmp p.mac n.mac
      if c = 0 then (if devsDiffer p n then [.changed n] else []) ++ diffEvents ps ns
      else if c < 0 then .removed p.mac :: diffEvents ps (n :: ns)
      else .added n :: diffEvents (p :: ps) ns
termination_by ps ns => ps.length + ns.length

/-- The first run only saves the list. -/
def diffAndEmit (cfg : Config) (l : NpLeases) (w : World κ) : NpLeases × World κ :=
  if l.firstRun then ({ l with firstRun := false, prev := l.list }, w)
  else ({ l with prev := l.list }, (diffEvents l.prev l.list).foldl (emitEvent h cfg) w)

/-- The result of `np_mqtt_publish_devices` is not looked at. -/
def publishSnapshot (cfg : Config) (l : NpLeases) (w : World κ) : World κ :=
  ((w.time h).2.publish h cfg (.devices (w.time h).1 l.list)).2

def npLeasesRepublish (cfg : Config) (l : NpLeases) (w : World κ) : NpLeases × World κ :=
  let r := rebuild h cfg l w
  let d := diffAndEmit h cfg r.1 r.2
  (d.1, publishSnapshot h cfg d.1 d.2)

/-- `np_leases_poll` found the file's mtime or size changed. -/
def fileChanged (l : NpLeases) (st : Option Stat) : Bool :=
  match st with
  | some st => st.mtime ≠ l.lastMtime || st.size ≠ l.lastSize
  | none => false

def recordStat (l : NpLeases) (st : Option Stat) : NpLeases :=
  match st with
  | some st => { l with lastMtime := st.mtime, lastSize := st.size }
  | none => l

def npLeasesPoll (cfg : Config) (l : NpLeases) (w : World κ) : NpLeases × World κ :=
  let st := h.stat l.path w.host
  let l' := if fileChanged l st then recordStat l st else l
  if fileChanged l st || l.firstRun then npLeasesRepublish h cfg l' w else (l', w)

end Host

end Netparent
