/-
  `np_nft_ensure` (nft.c): the four nft invocations of a start, and what they leave of the chain.

  `Ruleset` is what nft has of the daemon's table, and `SetupLaw` says that each invocation applies
  its effect and exits 0, or changes nothing and exits nonzero. Which of them are applied is the
  `Pattern` of a call; `npNftEnsure_spec` gives the return value and the chain from it. The chain is flushed
  and filled again in three separate steps, so a call that fails halfway leaves fewer rules than
  it found, and one whose flush failed adds the rules a second time (`ensure_safe_iff`).
-/
import Netparent.Command

namespace Netparent

/-! ## The rules -/

/-- A rule of the chain: one of the daemon's two, which drop what comes from or goes to an address
    of the set, or any other. -/
inductive Rule where
  | saddrDrop
  | daddrDrop
  | other (text : Str)
  deriving DecidableEq

/-- A table, with the daemon's set and chain if it has them. -/
structure Table where
  set : Option (Finset Mac)
  chain : Option (List Rule)

abbrev Ruleset := Option Table

namespace Ruleset

/-- The rules of the chain; none when there is no chain. -/
def rules (r : Ruleset) : List Rule := (r.bind Table.chain).getD []

/-- The elements of the set; none when there is no set. -/
def elements (r : Ruleset) : Finset Mac := (r.bind Table.set).getD ∅

/-- `add table`, `add set` and `add chain` create what is missing. -/
def ensured (r : Ruleset) : Ruleset := some { set := some r.elements, chain := some r.rules }

/-- `flush chain` needs the chain. -/
def flushed : Ruleset → Option Ruleset
  | some { set := set, chain := some _ } => some (some { set := set, chain := some [] })
  | _ => none

/-- `add rule` needs the chain, and the set the rule names. -/
def withRule (rule : Rule) : Ruleset → Option Ruleset
  | some { set := some set, chain := some chain } =>
      some (some { set := some set, chain := some (chain ++ [rule]) })
  | _ => none

/-- `add element` needs the set. -/
def withElement (m : Mac) : Ruleset → Option Ruleset
  | some { set := some set, chain := chain } => some (some { set := some (insert m set), chain := chain })
  | _ => none

theorem ensured_rules (r : Ruleset) : r.ensured.rules = r.rules := rfl

theorem ensured_elements (r : Ruleset) : r.ensured.elements = r.elements := rfl

theorem flushed_spec {r r' : Ruleset} (h : r.flushed = some r') :
    r'.rules = [] ∧ r'.elements = r.elements := by
  unfold flushed at h
  split at h
  · cases h
    exact ⟨rfl, rfl⟩
  · cases h

theorem withRule_spec {rule : Rule} {r r' : Ruleset} (h : r.withRule rule = some r') :
    r'.rules = r.rules ++ [rule] ∧ r'.elements = r.elements := by
  unfold withRule at h
  split at h
  · cases h
    exact ⟨rfl, rfl⟩
  · cases h

theorem withElement_rules {m : Mac} {r r' : Ruleset} (h : r.withElement m = some r') :
    r'.rules = r.rules := by
  unfold withElement at h
  split at h
  · cases h
    rfl
  · cases h

end Ruleset

/-! ## np_nft_ensure -/

/-- The machine, with `popen(cmd, "w")`: the command is fed a text, and `pclose` gives its status. -/
structure SetupHost (κ : Type) extends Host κ where
  popenWrite : Str → Str → κ → Option Int × κ

def ensureScript (cfg : Config) : Str := snprintf 1024
  ("add table ".toList ++ cfg.nftTable ++ "\nadd set ".toList ++ cfg.nftTable ++ " ".toList ++
    cfg.nftSet ++ " \x7b type ether_addr; flags interval; \x7d\nadd chain ".toList ++ cfg.nftTable ++
    " netparent_fwd \x7b type filter hook forward priority filter; policy accept; \x7d\n".toList)

def scriptCmd : Str := "nft -f - 2>&1".toList

def flushChainArgs (cfg : Config) : Str :=
  "flush chain ".toList ++ cfg.nftTable ++ " netparent_fwd".toList

def addRuleArgs (cfg : Config) (side : Str) : Str :=
  "add rule ".toList ++ cfg.nftTable ++ " netparent_fwd ether ".toList ++ side ++ " @".toList ++
    cfg.nftSet ++ " counter drop".toList

def saddrRuleArgs (cfg : Config) : Str := addRuleArgs cfg "saddr".toList

def daddrRuleArgs (cfg : Config) : Str := addRuleArgs cfg "daddr".toList

section Host

variable {κ : Type} (h : SetupHost κ)

def World.popenWrite (cmd text : Str) (w : World κ) : Option Int × World κ :=
  ((h.popenWrite cmd text w.host).1, ⟨(h.popenWrite cmd text w.host).2, w.trace ++ [.exec cmd]⟩)

/-- The status of the script and of the flush are logged and dropped. -/
def npNftEnsure (cfg : Config) (w : World κ) : Int × World κ :=
  let script := w.popenWrite h scriptCmd (ensureScript cfg)
  match script.1 with
  | none => (-1, script.2)
  | some _ =>
      let flush := runNft h.toHost (flushChainArgs cfg) script.2
      let saddr := runNft h.toHost (saddrRuleArgs cfg) flush.2
      if saddr.1 ≠ 0 then (-1, saddr.2)
      else
        let daddr := runNft h.toHost (daddrRuleArgs cfg) saddr.2
        if daddr.1 ≠ 0 then (-1, daddr.2) else (0, daddr.2)

/-- Successive calls, as at successive starts. -/
def ensureRun (cfg : Config) : Nat → World κ → World κ
  | 0, w => w
  | n + 1, w => (npNftEnsure h cfg (ensureRun cfg n w)).2

/-! ## Patterns -/

/-- Which invocations of a call are applied. -/
structure Pattern where
  started : Bool
  flush : Bool
  saddr : Bool
  daddr : Bool

namespace Pattern

/-- What the call returns. -/
def status (p : Pattern) : Int := if p.started ∧ p.saddr ∧ p.daddr then 0 else -1

/-- What the call makes of the chain: a rule is added only when all before it in the call went well. -/
def chain (p : Pattern) (old : List Rule) : List Rule :=
  if p.started then
    (if p.flush then [] else old) ++
      if p.saddr then .saddrDrop :: (if p.daddr then [.daddrDrop] else []) else []
  else old

/-- The call fails without a change to the rules, or succeeds on a chain free of the daemon's rules. -/
def Harmless (p : Pattern) (old : List Rule) : Prop :=
  p.started = false ∨
  (p.saddr = false ∧ (p.flush = false ∨ old = [])) ∨
  (p.saddr = true ∧ p.daddr = false ∧ p.flush = true ∧ old = [.saddrDrop]) ∨
  (p.saddr = true ∧ p.daddr = true ∧
    (p.flush = true ∨ (.saddrDrop ∉ old ∧ .daddrDrop ∉ old)))

end Pattern

instance (args : Str) (k : κ) : Decidable (Exits0 h.toHost args k) :=
  inferInstanceAs (Decidable (_ ∧ _))

/-- The machine after the script. -/
def scriptState (cfg : Config) (k : κ) : κ := (h.popenWrite scriptCmd (ensureScript cfg) k).2

/-- The machine after the flush. -/
def flushState (cfg : Config) (k : κ) : κ :=
  (runNft h.toHost (flushChainArgs cfg) { host := scriptState h cfg k }).2.host

/-- The machine after the first rule. -/
def saddrState (cfg : Config) (k : κ) : κ :=
  (runNft h.toHost (saddrRuleArgs cfg) { host := flushState h cfg k }).2.host

/-- The pattern of a call made in state `k`. -/
def patternOf (cfg : Config) (k : κ) : Pattern where
  started := (h.popenWrite scriptCmd (ensureScript cfg) k).1.isSome
  flush := Exits0 h.toHost (flushChainArgs cfg) (scriptState h cfg k)
  saddr := Exits0 h.toHost (saddrRuleArgs cfg) (flushState h cfg k)
  daddr := Exits0 h.toHost (daddrRuleArgs cfg) (saddrState h cfg k)

/-! ## The law -/

/-- A command applies its effect and exits 0, or changes nothing and exits nonzero. -/
def Applies (ruleset : κ → Ruleset) (args : Str) (effect : Ruleset → Option Ruleset) : Prop :=
  ∀ k, if succeeded (h.popen (nftCmd args) k).1 then
      effect (ruleset k) = some (ruleset (h.popen (nftCmd args) k).2)
    else ruleset (h.popen (nftCmd args) k).2 = ruleset k

/-- Each of the four invocations is applied completely or not at all. -/
structure SetupLaw (h : SetupHost κ) (cfg : Config) (ruleset : κ → Ruleset) : Prop where
  script : ∀ k, ruleset (h.popenWrite scriptCmd (ensureScript cfg) k).2 =
    if (h.popenWrite scriptCmd (ensureScript cfg) k).1 = some 0 then (ruleset k).ensured
    else ruleset k
  flush : Applies h ruleset (flushChainArgs cfg) Ruleset.flushed
  saddr : Applies h ruleset (saddrRuleArgs cfg) (Ruleset.withRule .saddrDrop)
  daddr : Applies h ruleset (daddrRuleArgs cfg) (Ruleset.withRule .daddrDrop)

variable {h} {cfg : Config} {ruleset : κ → Ruleset}

/-- What one command does. -/
theorem Applies.runNft {args : Str} {effect : Ruleset → Option Ruleset}
    (ha : Applies h ruleset args effect) (w : World κ) :
    ((runNft h.toHost args w).1 = 0 ↔ Exits0 h.toHost args w.host) ∧
      if Exits0 h.toHost args w.host then
        effect (ruleset w.host) = some (ruleset (runNft h.toHost args w).2.host)
      else ruleset (runNft h.toHost args w).2.host = ruleset w.host := by
  refine ⟨runNft_eq_zero, ?_⟩
  have hk := ha w.host
  rw [runNft_host]
  by_cases hlen : args.length < 768
  · rw [if_pos hlen]
    by_cases hok : succeeded (h.popen (nftCmd args) w.host).1 = true
    · rw [if_pos hok] at hk
      rwa [if_pos (show Exits0 h.toHost args w.host from ⟨hlen, hok⟩)]
    · rw [if_neg hok] at hk
      rwa [if_neg fun he : Exits0 h.toHost args w.host => hok he.2]
  · rw [if_neg hlen, if_neg fun he : Exits0 h.toHost args w.host => hlen he.1]

/-- A flush empties the chain or leaves it. -/
theorem flush_spec (hlaw : SetupLaw h cfg ruleset) (w : World κ) :
    (ruleset (runNft h.toHost (flushChainArgs cfg) w).2.host).rules =
        (if Exits0 h.toHost (flushChainArgs cfg) w.host then [] else (ruleset w.host).rules) ∧
      (ruleset (runNft h.toHost (flushChainArgs cfg) w).2.host).elements =
        (ruleset w.host).elements := by
  have hrun := (hlaw.flush.runNft w).2
  by_cases he : Exits0 h.toHost (flushChainArgs cfg) w.host
  · rw [if_pos he] at hrun ⊢
    exact Ruleset.flushed_spec hrun
  · rw [if_neg he] at hrun ⊢
    rw [hrun]
    exact ⟨rfl, rfl⟩

/-- An addition puts the rule at the end of the chain or leaves it. -/
theorem addRule_spec {args : Str} {rule : Rule}
    (ha : Applies h ruleset args (Ruleset.withRule rule)) (w : World κ) :
    (ruleset (runNft h.toHost args w).2.host).rules =
        (ruleset w.host).rules ++ (if Exits0 h.toHost args w.host then [rule] else []) ∧
      (ruleset (runNft h.toHost args w).2.host).elements = (ruleset w.host).elements := by
  have hrun := (ha.runNft w).2
  by_cases he : Exits0 h.toHost args w.host
  · rw [if_pos he] at hrun ⊢
    exact Ruleset.withRule_spec hrun
  · rw [if_neg he] at hrun ⊢
    rw [hrun, List.append_nil]
    exact ⟨rfl, rfl⟩

theorem script_spec (hlaw : SetupLaw h cfg ruleset) (k : κ) :
    (ruleset (scriptState h cfg k)).rules = (ruleset k).rules ∧
      (ruleset (scriptState h cfg k)).elements = (ruleset k).elements := by
  rw [scriptState, hlaw.script]
  split
  · exact ⟨Ruleset.ensured_rules _, Ruleset.ensured_elements _⟩
  · exact ⟨rfl, rfl⟩

/-- `run_nft` looks at the machine only. -/
theorem runNft_state (args : Str) {w w' : World κ} (hw : w.host = w'.host) :
    (runNft h.toHost args w).2.host = (runNft h.toHost args w').2.host := by
  rw [runNft_host, runNft_host, hw]

/-- **The call.** Its pattern gives the return value and the chain; the elements stay. -/
theorem npNftEnsure_spec (hlaw : SetupLaw h cfg ruleset) (w : World κ) :
    (npNftEnsure h cfg w).1 = (patternOf h cfg w.host).status ∧
      (ruleset (npNftEnsure h cfg w).2.host).rules =
        (patternOf h cfg w.host).chain (ruleset w.host).rules ∧
      (ruleset (npNftEnsure h cfg w).2.host).elements = (ruleset w.host).elements := by
  have hscript := script_spec hlaw w.host
  unfold npNftEnsure Pattern.status Pattern.chain patternOf
  dsimp only [World.popenWrite]
  cases hstart : (h.popenWrite scriptCmd (ensureScript cfg) w.host).1 with
  | none => exact ⟨rfl, hscript⟩
  | some rc =>
    -- the world after each step, and its machine
    generalize hw1 : (⟨(h.popenWrite scriptCmd (ensureScript cfg) w.host).2,
      w.trace ++ [.exec scriptCmd]⟩ : World κ) = w1
    have hk1 : w1.host = scriptState h cfg w.host := by rw [← hw1]; rfl
    have hflush := flush_spec hlaw w1
    have hk2 : (runNft h.toHost (flushChainArgs cfg) w1).2.host = flushState h cfg w.host :=
      runNft_state _ hk1
    generalize (runNft h.toHost (flushChainArgs cfg) w1).2 = w2 at hflush hk2 ⊢
    have hsaddr := addRule_spec hlaw.saddr w2
    have hs := (hlaw.saddr.runNft w2).1
    have hk3 : (runNft h.toHost (saddrRuleArgs cfg) w2).2.host = saddrState h cfg w.host :=
      runNft_state _ hk2
    generalize runNft h.toHost (saddrRuleArgs cfg) w2 = r3 at hsaddr hs hk3 ⊢
    have hdaddr := addRule_spec hlaw.daddr r3.2
    have hd := (hlaw.daddr.runNft r3.2).1
    generalize runNft h.toHost (daddrRuleArgs cfg) r3.2 = r4 at hdaddr hd ⊢
    rw [hk1, hscript.1, hscript.2] at hflush
    rw [hflush.1, hflush.2, hk2] at hsaddr
    rw [hk2] at hs
    rw [hsaddr.1, hsaddr.2, hk3] at hdaddr
    rw [hk3] at hd
    dsimp only
    by_cases hsa : Exits0 h.toHost (saddrRuleArgs cfg) (flushState h cfg w.host)
    · by_cases hda : Exits0 h.toHost (daddrRuleArgs cfg) (saddrState h cfg w.host)
      · simp [hs.mpr hsa, hd.mpr hda, hsa, hda, hdaddr]
      · simp [hs.mpr hsa, mt hd.mp hda, hsa, hda, hdaddr]
    · simp [mt hs.mp hsa, hsa, hsaddr]

/-! ## When a call is safe -/

/-- After a call that returns 0 the chain has each of the two rules once and the elements are as
    before; after one that returns -1 the chain has the rules it had. -/
def NeverWeakens (rc : Int) (before after : Ruleset) : Prop :=
  (rc = 0 → after.rules.count .saddrDrop = 1 ∧ after.rules.count .daddrDrop = 1 ∧
    after.elements = before.elements) ∧
  (rc = -1 → after.rules = before.rules)

/-- The rules a pattern leaves are the right ones exactly when it is harmless. -/
theorem Pattern.harmless_iff (p : Pattern) (old : List Rule) :
    ((p.status = 0 → (p.chain old).count .saddrDrop = 1 ∧ (p.chain old).count .daddrDrop = 1) ∧
      (p.status = -1 → p.chain old = old)) ↔ p.Harmless old := by
  obtain ⟨started, flush, saddr, daddr⟩ := p
  cases started with
  | false => simp [status, chain, Harmless]
  | true =>
    cases saddr with
    | false => cases flush <;> simp [status, chain, Harmless, eq_comm]
    | true =>
      cases daddr with
      | false => cases flush <;> simp [status, chain, Harmless, eq_comm]
      | true => cases flush <;> simp [status, chain, Harmless, List.count_eq_zero]

/-- **Setup.** In a run of calls, a call keeps what it has to keep exactly when the pattern of its
    failures is harmless for the chain it finds. -/
theorem ensure_safe_iff (hlaw : SetupLaw h cfg ruleset) (w : World κ) (n : Nat) :
    NeverWeakens (npNftEnsure h cfg (ensureRun h cfg n w)).1
        (ruleset (ensureRun h cfg n w).host) (ruleset (ensureRun h cfg (n + 1) w).host) ↔
      (patternOf h cfg (ensureRun h cfg n w).host).Harmless
        (ruleset (ensureRun h cfg n w).host).rules := by
  obtain ⟨hrc, hrules, helems⟩ := npNftEnsure_spec hlaw (ensureRun h cfg n w)
  rw [← Pattern.harmless_iff, NeverWeakens, ensureRun, hrc, hrules, helems]
  simp only [and_true]

end Host

/-! ## Two machines -/

/-- The effect of a command when it is applied. -/
def commandEffect (cfg : Config) (cmd : Str) : Ruleset → Option Ruleset :=
  if cmd = nftCmd (flushChainArgs cfg) then Ruleset.flushed
  else if cmd = nftCmd (saddrRuleArgs cfg) then Ruleset.withRule .saddrDrop
  else if cmd = nftCmd (daddrRuleArgs cfg) then Ruleset.withRule .daddrDrop
  else fun _ => none

/-- A machine on which the commands of `applied` are applied, and nothing else. -/
def setupHost (cfg : Config) (applied : Str → Bool) : SetupHost Ruleset where
  popen := fun cmd r => match commandEffect cfg cmd r with
    | some r' => if applied cmd then (some ⟨[], 0⟩, r') else (some ⟨[], 256⟩, r)
    | none => (some ⟨[], 256⟩, r)
  system := fun _ r => (256, r)
  fopen := fun _ _ => none
  stat := fun _ _ => none
  time := fun r => (0, r)
  publish := fun _ _ _ r => (true, r)
  popenWrite := fun cmd _ r => if applied cmd then (some 0, r.ensured) else (some 256, r)

theorem setupHost_applies {cfg : Config} (applied : Str → Bool) {args : Str}
    {effect : Ruleset → Option Ruleset} (he : commandEffect cfg (nftCmd args) = effect) :
    Applies (setupHost cfg applied) id args effect := by
  subst he
  intro r
  have hpopen : (setupHost cfg applied).popen (nftCmd args) r =
      match commandEffect cfg (nftCmd args) r with
      | some r' => if applied (nftCmd args) then (some ⟨[], 0⟩, r') else (some ⟨[], 256⟩, r)
      | none => (some ⟨[], 256⟩, r) := rfl
  rw [hpopen]
  dsimp only [id]
  cases commandEffect cfg (nftCmd args) r with
  | none => exact rfl
  | some r' => cases applied (nftCmd args) <;> exact rfl

theorem setupHost_law (applied : Str → Bool) :
    SetupLaw (setupHost defaultConfig applied) defaultConfig id where
  script r := by
    cases happ : applied scriptCmd <;> simp [setupHost, happ]
  flush := setupHost_applies applied (if_pos rfl)
  saddr := setupHost_applies applied ((if_neg (by decide)).trans (if_pos rfl))
  daddr := setupHost_applies applied
    ((if_neg (by decide)).trans ((if_neg (by decide)).trans (if_pos rfl)))

/-- The chain as a first start leaves it. -/
def enforced : Ruleset :=
  some { set := some [oneMac].toFinset, chain := some [.saddrDrop, .daddrDrop] }

/-- The second of two starts with nothing failing, on a machine without the table. -/
theorem ensure_safe_second : NeverWeakens
    (npNftEnsure (setupHost defaultConfig fun _ => true) defaultConfig
      (ensureRun (setupHost defaultConfig fun _ => true) defaultConfig 1 { host := none })).1
    (ensureRun (setupHost defaultConfig fun _ => true) defaultConfig 1 { host := none }).host
    (ensureRun (setupHost defaultConfig fun _ => true) defaultConfig 2 { host := none }).host :=
  (ensure_safe_iff (setupHost_law _) { host := none } 1).mpr
    (Or.inr (Or.inr (Or.inr ⟨by decide +kernel, by decide +kernel, Or.inl (by decide +kernel)⟩)))

/-- All but the first rule is applied: the call returns -1, and the two drop rules are gone. -/
theorem setup_loses_rules :
    SetupLaw (setupHost defaultConfig fun cmd => cmd != nftCmd (saddrRuleArgs defaultConfig))
      defaultConfig id ∧
    ¬ NeverWeakens
      (npNftEnsure (setupHost defaultConfig fun cmd => cmd != nftCmd (saddrRuleArgs defaultConfig))
        defaultConfig { host := enforced }).1 enforced
      (npNftEnsure (setupHost defaultConfig fun cmd => cmd != nftCmd (saddrRuleArgs defaultConfig))
        defaultConfig { host := enforced }).2.host := by
  refine ⟨setupHost_law _, fun hsafe => ?_⟩
  have hrules := hsafe.2 (by decide +kernel)
  exact absurd hrules (by decide +kernel)

end Netparent
