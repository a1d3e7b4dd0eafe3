/-
  The drop rules are in the chain whenever the daemon runs.

  The client is only reached by a start whose `np_nft_ensure` returned 0, and then both rules are there.
  Nothing the daemon does from then on takes them away (`LibSteady`), so they are there at all
  times (`started_enforced`).
-/
import Netparent.Announce

namespace Netparent

/-! ## What is left alone -/

section Enforced

variable {κ α : Type} {h : LibHost κ} {parse : Str → Option Json} {cfg : Config} {view : κ → α}

/-- A view of the machine that neither the daemon's commands nor libmosquitto change. -/
structure LibSteady (h : LibHost κ) (cfg : Config) (view : κ → α) : Prop
    extends Steady h.toHost cfg view where
  lib : ∀ call k, view (h.lib call k).2 = view k

theorem Steady.serve {h : Host κ} (hs : Steady h cfg view) (s : Option NpLeases × World κ)
    (input : Input) : view (Netparent.serve h parse cfg s input).2.host = view s.2.host := by
  have hk := hs.toQuiet.keepsAll
  cases input with
  | message topic payload =>
    unfold Netparent.serve
    dsimp only
    rw [npHandleMessage_eq]
    split
    · rfl
    · exact hk.perform (fun mac w => hs.toggleNft true mac w) (fun mac w => hs.toggleNft false mac w)
        _ _ _
  | poll =>
    unfold Netparent.serve
    dsimp only
    split
    · rfl
    · exact hk.npLeasesPoll _ _

namespace LibSteady

variable (hs : LibSteady h cfg view)
include hs

theorem serve (input : Input) (p : Process κ) :
    view (p.serve h parse cfg input).host = view p.host :=
  hs.toSteady.serve (p.leases, { host := p.host }) input

theorem announce (m : Msg) (p : Process κ) : view (p.publish h cfg m).host = view p.host :=
  hs.toQuiet.publish _ _ _ _

theorem onConnect (rc : Int) (p : Process κ) : view (onConnect h cfg rc p).host = view p.host := by
  unfold Netparent.onConnect
  split
  · rfl
  · dsimp only
    split
    · exact hs.lib _ _
    · exact (hs.announce _ _).trans (hs.lib _ _)

theorem mosquittoLoop (callbacks : List Callback) (p : Process κ) :
    view (mosquittoLoop h parse cfg callbacks p).host = view p.host := by
  induction callbacks generalizing p with
  | nil => rfl
  | cons c cs ih =>
    refine (ih _).trans ?_
    cases c with
    | connect rc => exact hs.onConnect rc p
    | message topic payload => exact hs.serve _ p
    | disconnect rc => rfl

theorem turn (r : Round) (p : Process κ) : view (turn h parse cfg r p).host = view p.host := by
  unfold Netparent.turn tick
  refine (hs.serve _ _).trans ?_
  dsimp only
  split
  · exact (hs.lib _ _).trans (hs.mosquittoLoop _ _)
  · exact hs.mosquittoLoop _ _

theorem mainLoop (stop : Bool) (rounds : List Round) (p : Process κ) :
    view (mainLoop h parse cfg stop rounds p).2.host = view p.host := by
  induction rounds generalizing stop p with
  | nil => cases stop <;> rfl
  | cons r rs ih =>
    cases stop with
    | true => rfl
    | false => exact (ih _ _).trans (hs.turn r p)

theorem shutdown (drain : Fin 10 → List Callback) (p : Process κ) :
    view (shutdown h parse cfg drain p).host = view p.host := by
  have hdrain : ∀ (is : List (Fin 10)) (q : Process κ), view
      (is.foldl (fun p i => Netparent.mosquittoLoop h parse cfg (drain i) p) q).host = view q.host := by
    intro is
    induction is with
    | nil => exact fun q => rfl
    | cons i is ih => exact fun q => (ih _).trans (hs.mosquittoLoop (drain i) q)
  exact (hdrain _ _).trans ((hs.lib _ _).trans (hs.announce _ _))

theorem npMqttRun (np : NpConfig) (sched : Schedule) (p : Process κ) :
    view (npMqttRun h parse np cfg sched p).2.host = view p.host := by
  unfold Netparent.npMqttRun
  dsimp only
  split
  · exact hs.lib _ _
  · split
    · exact (hs.shutdown _ _).trans ((hs.mainLoop _ _ _).trans (hs.lib _ _))
    · exact (hs.mainLoop _ _ _).trans (hs.lib _ _)

theorem npMqttCreate (np : NpConfig) (p : Process κ) :
    view (npMqttCreate h np cfg p).2.host = view p.host := by
  have hlib : ∀ call (p : Process κ), view (p.lib h call).2.host = view p.host :=
    fun call p => hs.lib call p.host
  have huser : ∀ q : Process κ, view (setUser h np q).2.host = view q.host := by
    intro q
    unfold setUser
    split
    · rfl
    · exact hlib _ q
  have htls : ∀ q : Process κ, view (setTls h np q).2.host = view q.host := by
    intro q
    unfold setTls
    split
    · dsimp only
      split
      · exact (hlib _ _).trans (hlib _ q)
      · exact hlib _ q
    · rfl
  unfold Netparent.npMqttCreate
  dsimp only
  split
  · exact hlib _ p
  split
  · exact (huser _).trans (hlib _ p)
  split
  · exact (htls _).trans ((huser _).trans (hlib _ p))
  · exact (hlib _ _).trans ((hlib _ _).trans ((htls _).trans ((huser _).trans (hlib _ p))))

variable (parse) in
theorem runClient (np : NpConfig) (sched : Schedule) (p : Process κ) :
    view (runClient h parse np cfg sched p).2.host = view p.host := by
  unfold Netparent.runClient
  dsimp only
  split
  · exact hs.npMqttCreate np p
  · exact (hs.npMqttRun np sched _).trans (hs.npMqttCreate np p)

end LibSteady

/-- The two drop rules are in the chain. -/
def Enforced (r : Ruleset) : Prop := .saddrDrop ∈ r.rules ∧ .daddrDrop ∈ r.rules

instance (r : Ruleset) : Decidable (Enforced r) := inferInstanceAs (Decidable (_ ∧ _))

/-- A call that returns 0 has added both rules. -/
theorem npNftEnsure_enforced {h : SetupHost κ} {ruleset : κ → Ruleset} (hlaw : SetupLaw h cfg ruleset)
    (w : World κ) (h0 : (npNftEnsure h cfg w).1 = 0) :
    Enforced (ruleset (npNftEnsure h cfg w).2.host) := by
  obtain ⟨hrc, hrules, _⟩ := npNftEnsure_spec hlaw w
  rw [hrc] at h0
  obtain ⟨hstarted, hsaddr, hdaddr⟩ : (patternOf h cfg w.host).started = true ∧
      (patternOf h cfg w.host).saddr = true ∧ (patternOf h cfg w.host).daddr = true := by
    unfold Pattern.status at h0
    split at h0
    · assumption
    · cases h0
  unfold Enforced
  rw [hrules, Pattern.chain, if_pos hstarted, if_pos hsaddr, if_pos hdaddr]
  exact ⟨List.mem_append_right _ List.mem_cons_self,
    List.mem_append_right _ (List.mem_cons_of_mem _ List.mem_cons_self)⟩

/-- The daemon has done nothing, or run the set-up and nothing else. -/
def NotStarted (h : SetupHost κ) (cfg : Config) (k : κ) (p : Process κ) : Prop :=
  p.log = [] ∨ p.log = (npNftEnsure h cfg { host := k }).2.trace.map .act

/-- **No daemon without its rules.** At every time the process has not started, or its configuration was
    loaded, the set-up returned 0, and both drop rules are in the chain. -/
theorem started_enforced (h : LibHost κ) (parse : Str → Option Json) {uci : Uci}
    (hcfg : (npConfigLoad uci).1 = 0 → (npConfigLoad uci).2.toConfig = some cfg)
    {ruleset : κ → Ruleset} (hlaw : SetupLaw h.toSetupHost cfg ruleset)
    (hs : LibSteady h cfg fun k => (ruleset k).rules) (opts : List Opt) (sched : Schedule) (k : κ) :
    NotStarted h.toSetupHost cfg k (npMain h parse opts uci sched k).2 ∨
      (npConfigLoad uci).1 = 0 ∧ (npNftEnsure h.toSetupHost cfg { host := k }).1 = 0 ∧
        Enforced (ruleset (npMain h parse opts uci sched k).2.host) := by
  unfold npMain
  split
  · exact Or.inl (Or.inl rfl)
  · split
    · next h0 =>
      dsimp only
      rw [loadedConfig_eq hcfg h0]
      split
      · exact Or.inl (Or.inr rfl)
      · next hrc =>
        have hset := npNftEnsure_enforced hlaw { host := k } (not_not.mp hrc)
        have hkept := hs.runClient parse (npConfigLoad uci).2 sched
          { host := (npNftEnsure h.toSetupHost cfg { host := k }).2.host
            log := (npNftEnsure h.toSetupHost cfg { host := k }).2.trace.map .act }
        refine Or.inr ⟨h0, not_not.mp hrc, ?_⟩
        unfold Enforced at hset ⊢
        rwa [hkept]
    · exact Or.inl (Or.inl rfl)

end Enforced

/-! ## A start -/

theorem startHost_other {cmd : Str} (hflush : cmd ≠ nftCmd (flushChainArgs defaultConfig))
    (hsaddr : cmd ≠ nftCmd (saddrRuleArgs defaultConfig))
    (hdaddr : cmd ≠ nftCmd (daddrRuleArgs defaultConfig)) (r : Ruleset) :
    (startHost.popen cmd r).2.rules = r.rules := by
  have hnone : commandEffect defaultConfig cmd r = none := by
    unfold commandEffect
    rw [if_neg hflush, if_neg hsaddr, if_neg hdaddr]
  have hpopen : startHost.popen = startPopen := rfl
  rw [hpopen, startPopen]
  split
  · split
    · next hr' => exact Ruleset.withElement_rules hr'
    · rfl
  · unfold setupHost
    dsimp only
    rw [hnone]

theorem startHost_steady : LibSteady startHost defaultConfig fun r => (id r).rules where
  list r := startHost_other (by decide) (by decide) (by decide) r
  get _ _ := rfl
  time _ := rfl
  publish _ _ _ _ := rfl
  add m r := by
    have htake : (nftCmd (addElementArgs defaultConfig m.text)).take 10 = "nft add el".toList := rfl
    refine startHost_other (fun he => ?_) (fun he => ?_) (fun he => ?_) r <;>
      · rw [he] at htake
        exact absurd htake (by decide)
  delete m r := by
    have htake : (nftCmd (deleteElementArgs defaultConfig m.text)).take 10 = "nft delete".toList := rfl
    refine startHost_other (fun he => ?_) (fun he => ?_) (fun he => ?_) r <;>
      · rw [he] at htake
        exact absurd htake (by decide)
  lib _ _ := rfl

/-- The rules of a daemon that has connected and blocked an address, on a machine that had no table. -/
theorem started_enforced_connected :
    Enforced (npMain startHost Json.read [.f] startUci connectedSchedule none).2.host ∧
    oneMac ∈ (npMain startHost Json.read [.f] startUci connectedSchedule none).2.host.elements := by
  have hlog : NotStarted startHost.toSetupHost defaultConfig none
      (npMain startHost Json.read [.f] startUci connectedSchedule none).2 →
      (npMain startHost Json.read [.f] startUci connectedSchedule none).2.log.length ≤ 4 := by
    rintro (hempty | hsetup)
    · rw [hempty]
      exact Nat.zero_le 4
    · rw [hsetup]
      decide +kernel
  refine ⟨((started_enforced startHost Json.read (fun _ => startUci_toConfig) startHost_law startHost_steady
    [.f] connectedSchedule none).resolve_left fun hno => absurd (hlog hno) ?_).2.2, ?_⟩
  · decide +kernel
  · decide +kernel

end Netparent
