/-
  nft.c: the commands that add, delete, look up and list the MACs of the blocked set.

  Each wrapper builds the command string as the C code does, buffer sizes included, and hands
  it to the host. `npNftList` gathers nft's output into a 4096-byte buffer with `fgets` and
  scans the gathered bytes for address patterns; it returns the addresses in the order its
  callback receives them.
-/
import Netparent.World

namespace Netparent

variable {κ : Type} (h : Host κ)

/-! ## run_nft -/

/-- The shell command for nft with these arguments. -/
def nftCmd (args : Str) : Str := snprintf 1024 ("nft ".toList ++ args ++ " 2>&1".toList)

/-- Run `nft <args> 2>&1` and return its exit status; -1 when the command is too long or
    `popen` fails. The output is only logged. -/
def runNft (args : Str) (w : World κ) : Int × World κ :=
  if args.length ≥ 768 then (-1, w)
  else
    let r := w.popen h (nftCmd args)
    match r.1 with
    | none => (-1, r.2)
    | some p => (p.status, r.2)

def addElementArgs (cfg : Config) (norm : Str) : Str :=
  "add element ".toList ++ cfg.nftTable ++ " ".toList ++ cfg.nftSet ++ " \x7b ".toList ++ norm ++
    " \x7d".toList

def deleteElementArgs (cfg : Config) (norm : Str) : Str :=
  "delete element ".toList ++ cfg.nftTable ++ " ".toList ++ cfg.nftSet ++ " \x7b ".toList ++ norm ++
    " \x7d".toList

theorem addElementArgs_eq (cfg : Config) (norm : Str) : addElementArgs cfg norm =
    "add element ".toList ++ cfg.nftTable ++ " ".toList ++ cfg.nftSet ++ " \x7b ".toList ++ norm ++
      " \x7d".toList := rfl

theorem deleteElementArgs_eq (cfg : Config) (norm : Str) : deleteElementArgs cfg norm =
    "delete element ".toList ++ cfg.nftTable ++ " ".toList ++ cfg.nftSet ++ " \x7b ".toList ++ norm ++
      " \x7d".toList := rfl

def getElementCmd (cfg : Config) (norm : Str) : Str :=
  snprintf 256 ("nft get element ".toList ++ cfg.nftTable ++ " ".toList ++ cfg.nftSet ++
    " \x7b ".toList ++ norm ++ " \x7d >/dev/null 2>&1".toList)

def listSetCmd (cfg : Config) : Str :=
  snprintf 256 ("nft -j list set ".toList ++ cfg.nftTable ++ " ".toList ++ cfg.nftSet ++
    " 2>/dev/null".toList)

/-! ## Block, unblock, look up -/

def npNftBlock (cfg : Config) (mac : Str) (w : World κ) : Int × World κ :=
  match npMacNormalize mac with
  | none => (-1, w)
  | some norm => runNft h (addElementArgs cfg norm) w

/-- The exit status of `delete element` is logged and dropped. -/
def npNftUnblock (cfg : Config) (mac : Str) (w : World κ) : Int × World κ :=
  match npMacNormalize mac with
  | none => (-1, w)
  | some norm => (0, (runNft h (deleteElementArgs cfg norm) w).2)

def npNftIsBlocked (cfg : Config) (mac : Str) (w : World κ) : Int × World κ :=
  match npMacNormalize mac with
  | none => (-1, w)
  | some norm =>
      let r := w.system h (getElementCmd cfg norm)
      if r.1 = -1 then (-1, r.2) else if r.1 = 0 then (1, r.2) else (0, r.2)

/-! ## List -/

/-- The gathering loop of `np_nft_list`: `fgets` at the end of what has been gathered, until
    end of file or a full buffer. `fuel` bounds the reads; each takes at least one byte. -/
def gatherLoop (size : Nat) : (fuel : Nat) → (buf stream : Str) → Str
  | 0, buf, _ => buf
  | fuel + 1, buf, stream =>
      match fgets (size - buf.length) stream with
      | none => buf
      | some (piece, rest) =>
          if buf.length < size - 1 then gatherLoop size fuel (buf ++ cstr piece) rest else buf

def gather (size : Nat) (stream : Str) : Str := gatherLoop size (stream.length + 1) [] stream

/-- The 17-byte window at the front of `p` is `HH:HH:HH:HH:HH:HH`. -/
def macAt (p : Str) : Bool := groups isxdigit isColon 5 (p.take 17)

/-- The scan: at a match, report it in lower case and skip past it. -/
def scanLoop : (skip : Nat) → Str → List Str
  | _, [] => []
  | skip + 1, _ :: cs => scanLoop skip cs
  | 0, c :: cs =>
      if macAt (c :: cs) then ((c :: cs).take 17).map tolower :: scanLoop 16 cs else scanLoop 0 cs

/-- The addresses passed to the callback, in order; `none` when `popen` fails. -/
def npNftList (cfg : Config) (w : World κ) : Option (List Str) × World κ :=
  let r := w.popen h (listSetCmd cfg)
  match r.1 with
  | none => (none, r.2)
  | some p => (some (scanLoop 0 (gather 4096 p.out)), r.2)

example : scanLoop 0 "[\"AA:bb:0c:11:22:33\", \"00:11:22:33:44:5\"]".toList =
    ["aa:bb:0c:11:22:33".toList] := by decide

end Netparent
