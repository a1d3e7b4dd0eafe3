/-
  What is asked of nft, and machines that have it.

  `NftLaw` is the weak law: every invocation applies its change and exits 0, or changes nothing
  and exits nonzero, for whatever reason; a lookup exits 0 only for a member. `NftWorks` is the strong
  one: the commands do what they say. Each wrapper of nft.c gets one lemma under each law.
  `Sim` is a machine with a blocked set and a lease file on which nft works, and `broken` one
  on which it never does.
-/
import Netparent.Frame
import Netparent.MacGrammar

namespace Netparent

variable {κ : Type}

/-- The process ran and exited 0. -/
def succeeded : Option Proc → Bool
  | some p => p.status == 0
  | none => false

/-- nft applies its change and exits 0, or changes nothing and exits nonzero. -/
structure NftLaw (h : Host κ) (cfg : Config) (set : κ → Finset Mac) : Prop where
  quiet : Quiet h cfg set
  add : ∀ (m : Mac) k, set (h.popen (nftCmd (addElementArgs cfg m.text)) k).2 =
    if succeeded (h.popen (nftCmd (addElementArgs cfg m.text)) k).1 then insert m (set k) else set k
  delete : ∀ (m : Mac) k, set (h.popen (nftCmd (deleteElementArgs cfg m.text)) k).2 =
    if succeeded (h.popen (nftCmd (deleteElementArgs cfg m.text)) k).1 then (set k).erase m
    else set k
  get : ∀ (m : Mac) k, (h.system (getElementCmd cfg m.text) k).1 = 0 → m ∈ set k

/-- nft does what it is told: `add` inserts, `delete` removes if present, `get` looks up. -/
structure NftWorks (h : Host κ) (cfg : Config) (set : κ → Finset Mac) : Prop where
  quiet : Quiet h cfg set
  fits : ∀ m : Mac, (addElementArgs cfg m.text).length < 768 ∧
    (deleteElementArgs cfg m.text).length < 768
  add : ∀ (m : Mac) k, succeeded (h.popen (nftCmd (addElementArgs cfg m.text)) k).1 = true ∧
    set (h.popen (nftCmd (addElementArgs cfg m.text)) k).2 = insert m (set k)
  delete : ∀ (m : Mac) k,
    set (h.popen (nftCmd (deleteElementArgs cfg m.text)) k).2 = (set k).erase m
  get : ∀ (m : Mac) k, (h.system (getElementCmd cfg m.text) k).1 ≠ -1 ∧
    ((h.system (getElementCmd cfg m.text) k).1 = 0 ↔ m ∈ set k)

variable {h : Host κ} {cfg : Config} {set : κ → Finset Mac}

/-! ## The wrappers -/

/-- `run_nft` returns 0 exactly when the command was short enough and its process exited 0. -/
theorem runNft_eq_zero {args : Str} {w : World κ} : (runNft h args w).1 = 0 ↔
    args.length < 768 ∧ succeeded (h.popen (nftCmd args) w.host).1 = true := by
  unfold runNft World.popen
  by_cases hlen : args.length ≥ 768
  · rw [if_pos hlen]
    simp only [show ¬ args.length < 768 by omega, false_and, iff_false]
    decide
  · rw [if_neg hlen]
    dsimp only
    cases (h.popen (nftCmd args) w.host).1 with
    | none => simp [succeeded]
    | some p => simp [succeeded, show args.length < 768 by omega]

theorem runNft_host (args : Str) (w : World κ) : (runNft h args w).2.host =
    if args.length < 768 then (h.popen (nftCmd args) w.host).2 else w.host := by
  unfold runNft World.popen
  by_cases hlen : args.length ≥ 768
  · rw [if_pos hlen, if_neg (by omega)]
  · rw [if_neg hlen, if_pos (by omega)]
    dsimp only
    split <;> rfl

theorem runNft_sent (args : Str) (w : World κ) :
    sentOf (runNft h args w).2.trace = sentOf w.trace := by
  unfold runNft World.popen
  split
  · rfl
  · dsimp only
    split <;> simp

/-- What `np_nft_block` returned, and what became of the set. -/
theorem npNftBlock_law (hlaw : NftLaw h cfg set) (mac : Str) (w : World κ) :
    match normMac mac with
    | none => (npNftBlock h cfg mac w).1 ≠ 0 ∧ set (npNftBlock h cfg mac w).2.host = set w.host
    | some m => set (npNftBlock h cfg mac w).2.host =
        if (npNftBlock h cfg mac w).1 = 0 then insert m (set w.host) else set w.host := by
  cases hm : normMac mac with
  | none =>
    rw [npNftBlock, normMac_eq_none.mp hm]
    exact ⟨show (-1 : Int) ≠ 0 by decide, rfl⟩
  | some m =>
    rw [npNftBlock, normMac_eq_some.mp hm]
    dsimp only
    have hadd := hlaw.add m w.host
    rw [runNft_host]
    by_cases hlen : (addElementArgs cfg m.text).length < 768
    · by_cases hok : succeeded (h.popen (nftCmd (addElementArgs cfg m.text)) w.host).1 = true
      · rw [if_pos hlen, if_pos (runNft_eq_zero.mpr ⟨hlen, hok⟩), hadd, if_pos hok]
      · rw [if_pos hlen, if_neg (mt runNft_eq_zero.mp fun hz => hok hz.2), hadd, if_neg hok]
    · rw [if_neg hlen, if_neg (mt runNft_eq_zero.mp fun hz => hlen hz.1)]

/-- `np_nft_unblock` returns 0 whenever the address is accepted. -/
theorem npNftUnblock_law (hlaw : NftLaw h cfg set) (mac : Str) (w : World κ) :
    match normMac mac with
    | none => (npNftUnblock h cfg mac w).1 ≠ 0 ∧ set (npNftUnblock h cfg mac w).2.host = set w.host
    | some m => (npNftUnblock h cfg mac w).1 = 0 ∧ set (npNftUnblock h cfg mac w).2.host =
        if (deleteElementArgs cfg m.text).length < 768 ∧
          succeeded (h.popen (nftCmd (deleteElementArgs cfg m.text)) w.host).1 = true
        then (set w.host).erase m else set w.host := by
  cases hm : normMac mac with
  | none =>
    rw [npNftUnblock, normMac_eq_none.mp hm]
    exact ⟨show (-1 : Int) ≠ 0 by decide, rfl⟩
  | some m =>
    rw [npNftUnblock, normMac_eq_some.mp hm]
    refine ⟨rfl, ?_⟩
    dsimp only
    have hdelete := hlaw.delete m w.host
    rw [runNft_host]
    by_cases hlen : (deleteElementArgs cfg m.text).length < 768
    · rw [if_pos hlen, hdelete]
      simp only [hlen, true_and]
    · rw [if_neg hlen, if_neg fun hz => hlen hz.1]

/-- The tri-state answer of `np_nft_is_blocked`. -/
theorem npNftIsBlocked_fst (mac : Str) (w : World κ) : (npNftIsBlocked h cfg mac w).1 =
    match normMac mac with
    | none => -1
    | some m =>
        if (h.system (getElementCmd cfg m.text) w.host).1 = -1 then -1
        else if (h.system (getElementCmd cfg m.text) w.host).1 = 0 then 1 else 0 := by
  cases hm : normMac mac with
  | none => rw [npNftIsBlocked, normMac_eq_none.mp hm]
  | some m =>
    rw [npNftIsBlocked, normMac_eq_some.mp hm]
    dsimp only [World.system]
    split
    · rfl
    · split <;> rfl

namespace NftWorks

variable (hw : NftWorks h cfg set)
include hw

theorem npNftBlock (mac : Str) (w : World κ) :
    match normMac mac with
    | none => (npNftBlock h cfg mac w).1 ≠ 0 ∧ set (npNftBlock h cfg mac w).2.host = set w.host
    | some m => (npNftBlock h cfg mac w).1 = 0 ∧
        set (npNftBlock h cfg mac w).2.host = insert m (set w.host) := by
  cases hm : normMac mac with
  | none =>
    rw [Netparent.npNftBlock, normMac_eq_none.mp hm]
    exact ⟨show (-1 : Int) ≠ 0 by decide, rfl⟩
  | some m =>
    rw [Netparent.npNftBlock, normMac_eq_some.mp hm]
    have hlen := (hw.fits m).1
    refine ⟨runNft_eq_zero.mpr ⟨hlen, (hw.add m w.host).1⟩, ?_⟩
    dsimp only
    rw [runNft_host, if_pos hlen, (hw.add m w.host).2]

theorem npNftUnblock (mac : Str) (w : World κ) :
    match normMac mac with
    | none => (npNftUnblock h cfg mac w).1 ≠ 0 ∧ set (npNftUnblock h cfg mac w).2.host = set w.host
    | some m => (npNftUnblock h cfg mac w).1 = 0 ∧
        set (npNftUnblock h cfg mac w).2.host = (set w.host).erase m := by
  cases hm : normMac mac with
  | none =>
    rw [Netparent.npNftUnblock, normMac_eq_none.mp hm]
    exact ⟨show (-1 : Int) ≠ 0 by decide, rfl⟩
  | some m =>
    rw [Netparent.npNftUnblock, normMac_eq_some.mp hm]
    refine ⟨rfl, ?_⟩
    dsimp only
    rw [runNft_host, if_pos (hw.fits m).2, hw.delete m w.host]

/-- A lookup that works answers with membership. -/
theorem npNftIsBlocked (mac : Str) (w : World κ) : (npNftIsBlocked h cfg mac w).1 =
    match normMac mac with
    | none => -1
    | some m => if m ∈ set w.host then 1 else 0 := by
  rw [npNftIsBlocked_fst]
  cases normMac mac with
  | none => rfl
  | some m =>
    dsimp only
    rw [if_neg (hw.get m w.host).1]
    simp only [(hw.get m w.host).2]

end NftWorks

/-! ## A machine on which nft works -/

/-- The address a command built by `build` is about, at byte `off` of the command. -/
def operandOf (off : Nat) (build : Mac → Str) (cmd : Str) : Option Mac :=
  (normMac ((cmd.drop off).take 17)).filter fun m => build m = cmd

theorem operandOf_build (build : Mac → Str) {off : Nat} {m : Mac}
    (hoff : ((build m).drop off).take 17 = m.text) : operandOf off build (build m) = some m := by
  rw [operandOf, hoff, normMac_text]
  simp

theorem build_operandOf {off : Nat} {build : Mac → Str} {cmd : Str} {m : Mac}
    (h : operandOf off build cmd = some m) : build m = cmd := by
  simpa using (Option.filter_eq_some_iff.mp h).2

/-- A blocked set, a lease file and a clock. -/
structure Sim where
  blocked : List Mac
  nodup : blocked.Nodup
  file : Option Str
  stat : Option Stat
  clock : Int

namespace Sim

def blockedSet (b : Sim) : Finset Mac := b.blocked.toFinset

def add (b : Sim) (m : Mac) : Sim :=
  { b with blocked := b.blocked.insert m, nodup := b.nodup.insert }

def erase (b : Sim) (m : Mac) : Sim :=
  { b with blocked := b.blocked.erase m, nodup := b.nodup.erase m }

theorem blockedSet_add (b : Sim) (m : Mac) : (b.add m).blockedSet = insert m b.blockedSet := by
  ext x
  simp [blockedSet, add]

theorem blockedSet_erase (b : Sim) (m : Mac) : (b.erase m).blockedSet = b.blockedSet.erase m := by
  ext x
  simp [blockedSet, erase, b.nodup.mem_erase_iff]

/-- The bytes before the address in `nft add element <table> <set> { … }`. -/
def addOffset (cfg : Config) : Nat := 20 + cfg.nftTable.length + cfg.nftSet.length

def popen (cfg : Config) (cmd : Str) (b : Sim) : Option Proc × Sim :=
  if cmd = listSetCmd cfg then (some ⟨nftListing (b.blocked.map Mac.text), 0⟩, b)
  else match operandOf (addOffset cfg) (fun m => nftCmd (addElementArgs cfg m.text)) cmd with
    | some m => (some ⟨[], 0⟩, b.add m)
    | none =>
        match operandOf (addOffset cfg + 3) (fun m => nftCmd (deleteElementArgs cfg m.text)) cmd with
        | some m => (some ⟨[], if m ∈ b.blocked then 0 else 256⟩, b.erase m)
        | none => (some ⟨[], 256⟩, b)

def system (cfg : Config) (cmd : Str) (b : Sim) : Int × Sim :=
  match operandOf (addOffset cfg) (fun m => getElementCmd cfg m.text) cmd with
  | some m => (if m ∈ b.blocked then 0 else 256, b)
  | none => (32512, b)

/-- The machine; the broker is connected. -/
def host (cfg : Config) : Host Sim where
  popen := popen cfg
  system := system cfg
  fopen := fun _ b => b.file
  stat := fun _ b => b.stat
  time := fun b => (b.clock, b)
  publish := fun _ _ _ b => (true, b)

variable {cfg : Config}

/-- Table and set names short enough for the command buffers. -/
def NamesFit (cfg : Config) : Prop := cfg.nftTable.length + cfg.nftSet.length ≤ 200

theorem text_length (m : Mac) : m.text.length = 17 := groups_length m.canonical

theorem drop_take_text {head tail : Str} {m : Mac} {n : Nat} (hn : n = head.length) :
    ((head ++ (m.text ++ tail)).drop n).take 17 = m.text := by
  rw [hn, List.drop_left, ← text_length m, List.take_left]

theorem addElementArgs_length (m : Mac) : (addElementArgs cfg m.text).length =
    35 + cfg.nftTable.length + cfg.nftSet.length := by
  have hlit : ("add element ".toList).length = 12 ∧ (" ".toList).length = 1 ∧
      (" \x7b ".toList).length = 3 ∧ (" \x7d".toList).length = 2 := by decide
  rw [addElementArgs_eq]
  simp only [List.length_append, hlit, text_length]
  omega

theorem deleteElementArgs_length (m : Mac) : (deleteElementArgs cfg m.text).length =
    38 + cfg.nftTable.length + cfg.nftSet.length := by
  have hlit : ("delete element ".toList).length = 15 ∧ (" ".toList).length = 1 ∧
      (" \x7b ".toList).length = 3 ∧ (" \x7d".toList).length = 2 := by decide
  rw [deleteElementArgs_eq]
  simp only [List.length_append, hlit, text_length]
  omega

/-- Arguments that pass the length check are not truncated in the command. -/
theorem nftCmd_eq {args : Str} (hlen : args.length < 768) :
    nftCmd args = "nft ".toList ++ args ++ " 2>&1".toList := by
  have hlit : ("nft ".toList).length = 4 ∧ (" 2>&1".toList).length = 5 := by decide
  refine List.take_of_length_le ?_
  simp only [List.length_append, hlit]
  omega

theorem addCmd_eq (hfit : NamesFit cfg) (m : Mac) : nftCmd (addElementArgs cfg m.text) =
    ("nft ".toList ++ "add element ".toList ++ cfg.nftTable ++ " ".toList ++ cfg.nftSet ++
      " \x7b ".toList) ++ (m.text ++ (" \x7d".toList ++ " 2>&1".toList)) := by
  unfold NamesFit at hfit
  rw [nftCmd_eq (by rw [addElementArgs_length]; omega), addElementArgs_eq]
  simp only [List.append_assoc]

theorem deleteCmd_eq (hfit : NamesFit cfg) (m : Mac) : nftCmd (deleteElementArgs cfg m.text) =
    ("nft ".toList ++ "delete element ".toList ++ cfg.nftTable ++ " ".toList ++ cfg.nftSet ++
      " \x7b ".toList) ++ (m.text ++ (" \x7d".toList ++ " 2>&1".toList)) := by
  unfold NamesFit at hfit
  rw [nftCmd_eq (by rw [deleteElementArgs_length]; omega), deleteElementArgs_eq]
  simp only [List.append_assoc]

theorem getCmd_eq (hfit : NamesFit cfg) (m : Mac) : getElementCmd cfg m.text =
    ("nft get element ".toList ++ cfg.nftTable ++ " ".toList ++ cfg.nftSet ++ " \x7b ".toList) ++
      (m.text ++ " \x7d >/dev/null 2>&1".toList) := by
  unfold NamesFit at hfit
  have hlit : ("nft get element ".toList).length = 16 ∧ (" ".toList).length = 1 ∧
      (" \x7b ".toList).length = 3 ∧ (" \x7d >/dev/null 2>&1".toList).length = 18 := by decide
  rw [getElementCmd, snprintf, List.take_of_length_le]
  · simp only [List.append_assoc]
  · simp only [List.length_append, hlit, text_length]
    omega

theorem operandOf_add (hfit : NamesFit cfg) (m : Mac) :
    operandOf (addOffset cfg) (fun m => nftCmd (addElementArgs cfg m.text))
      (nftCmd (addElementArgs cfg m.text)) = some m := by
  refine operandOf_build (fun m => nftCmd (addElementArgs cfg m.text)) ?_
  rw [addCmd_eq hfit]
  refine drop_take_text ?_
  have hlit : ("nft ".toList).length = 4 ∧ ("add element ".toList).length = 12 ∧
      (" ".toList).length = 1 ∧ (" \x7b ".toList).length = 3 := by decide
  simp only [addOffset, List.length_append, hlit]
  omega

theorem operandOf_delete (hfit : NamesFit cfg) (m : Mac) :
    operandOf (addOffset cfg + 3) (fun m => nftCmd (deleteElementArgs cfg m.text))
      (nftCmd (deleteElementArgs cfg m.text)) = some m := by
  refine operandOf_build (fun m => nftCmd (deleteElementArgs cfg m.text)) ?_
  rw [deleteCmd_eq hfit]
  refine drop_take_text ?_
  have hlit : ("nft ".toList).length = 4 ∧ ("delete element ".toList).length = 15 ∧
      (" ".toList).length = 1 ∧ (" \x7b ".toList).length = 3 := by decide
  simp only [addOffset, List.length_append, hlit]
  omega

theorem operandOf_get (hfit : NamesFit cfg) (m : Mac) :
    operandOf (addOffset cfg) (fun m => getElementCmd cfg m.text) (getElementCmd cfg m.text) =
      some m := by
  refine operandOf_build (fun m => getElementCmd cfg m.text) ?_
  rw [getCmd_eq hfit]
  refine drop_take_text ?_
  have hlit : ("nft get element ".toList).length = 16 ∧ (" ".toList).length = 1 ∧
      (" \x7b ".toList).length = 3 := by decide
  simp only [addOffset, List.length_append, hlit]
  omega

theorem addCmd_take (m : Mac) : (nftCmd (addElementArgs cfg m.text)).take 5 = "nft a".toList := rfl
theorem deleteCmd_take (m : Mac) : (nftCmd (deleteElementArgs cfg m.text)).take 5 = "nft d".toList := rfl
theorem listCmd_take : (listSetCmd cfg).take 5 = "nft -".toList := rfl

theorem popen_list (b : Sim) :
    popen cfg (listSetCmd cfg) b = (some ⟨nftListing (b.blocked.map Mac.text), 0⟩, b) :=
  if_pos rfl

theorem popen_add (hfit : NamesFit cfg) (m : Mac) (b : Sim) :
    popen cfg (nftCmd (addElementArgs cfg m.text)) b = (some ⟨[], 0⟩, b.add m) := by
  have hne : nftCmd (addElementArgs cfg m.text) ≠ listSetCmd cfg := fun he => by
    have := congrArg (List.take 5) he
    rw [addCmd_take, listCmd_take] at this
    exact absurd this (by decide)
  rw [popen, if_neg hne, operandOf_add hfit]

theorem popen_delete (hfit : NamesFit cfg) (m : Mac) (b : Sim) :
    popen cfg (nftCmd (deleteElementArgs cfg m.text)) b =
      (some ⟨[], if m ∈ b.blocked then 0 else 256⟩, b.erase m) := by
  have hne : nftCmd (deleteElementArgs cfg m.text) ≠ listSetCmd cfg := fun he => by
    have := congrArg (List.take 5) he
    rw [deleteCmd_take, listCmd_take] at this
    exact absurd this (by decide)
  have hadd : operandOf (addOffset cfg) (fun m => nftCmd (addElementArgs cfg m.text))
      (nftCmd (deleteElementArgs cfg m.text)) = none := by
    cases ho : operandOf (addOffset cfg) (fun m => nftCmd (addElementArgs cfg m.text))
        (nftCmd (deleteElementArgs cfg m.text)) with
    | none => rfl
    | some m' =>
      have := congrArg (List.take 5) (build_operandOf ho)
      rw [addCmd_take, deleteCmd_take] at this
      exact absurd this (by decide)
  rw [popen, if_neg hne, hadd, operandOf_delete hfit]

theorem system_get (hfit : NamesFit cfg) (m : Mac) (b : Sim) :
    system cfg (getElementCmd cfg m.text) b = (if m ∈ b.blocked then 0 else 256, b) := by
  rw [system, operandOf_get hfit]

theorem host_quiet {α : Type} (hfit : NamesFit cfg) (view : Sim → α) : Quiet (host cfg) cfg view where
  list b := congrArg (fun r : Option Proc × Sim => view r.2) (popen_list b)
  get m b := congrArg (fun r : Int × Sim => view r.2) (system_get hfit m b)
  time _ := rfl
  publish _ _ _ _ := rfl

theorem host_works (hfit : NamesFit cfg) : NftWorks (host cfg) cfg blockedSet where
  quiet := host_quiet hfit blockedSet
  fits m := by
    unfold NamesFit at hfit
    rw [addElementArgs_length, deleteElementArgs_length]
    omega
  add m b := by
    rw [show (host cfg).popen = popen cfg from rfl, popen_add hfit]
    exact ⟨rfl, blockedSet_add b m⟩
  delete m b := by
    rw [show (host cfg).popen = popen cfg from rfl, popen_delete hfit]
    exact blockedSet_erase b m
  get m b := by
    rw [show (host cfg).system = system cfg from rfl, system_get hfit]
    by_cases hm : m ∈ b.blocked <;> simp [hm, blockedSet]

theorem host_law (hfit : NamesFit cfg) : NftLaw (host cfg) cfg blockedSet where
  quiet := host_quiet hfit blockedSet
  add m b := by
    rw [show (host cfg).popen = popen cfg from rfl, popen_add hfit]
    exact blockedSet_add b m
  delete m b := by
    rw [show (host cfg).popen = popen cfg from rfl, popen_delete hfit]
    by_cases hm : m ∈ b.blocked
    · rw [if_pos hm]
      exact blockedSet_erase b m
    · have hout : m ∉ b.blockedSet := fun hin => hm (List.mem_toFinset.mp hin)
      rw [if_neg hm, if_neg (show ¬ succeeded (some ⟨[], 256⟩) = true by decide),
        ← Finset.erase_eq_of_notMem hout]
      exact blockedSet_erase b m
  get m b h0 := ((host_works hfit).get m b).2.mp h0

/-- Two addresses are blocked. -/
def twoBlocked : Sim where
  blocked := [oneMac, twoMac]
  nodup := by decide +kernel
  file := none
  stat := none
  clock := 0

end Sim

/-- A machine without nft: the shell exits 127. -/
def broken : Host (Finset Mac) where
  popen := fun _ k => (some ⟨"sh: nft: not found\n".toList, 32512⟩, k)
  system := fun _ k => (32512, k)
  fopen := fun _ _ => none
  stat := fun _ _ => none
  time := fun k => (0, k)
  publish := fun _ _ _ k => (true, k)

theorem broken_law (cfg : Config) : NftLaw broken cfg id where
  quiet := ⟨fun _ => rfl, fun _ _ => rfl, fun _ => rfl, fun _ _ _ _ => rfl⟩
  add _ _ := rfl
  delete _ _ := rfl
  get _ _ h := absurd (show (32512 : Int) = 0 from h) (by decide)

end Netparent
