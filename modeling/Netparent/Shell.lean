/-
  The commands that reach a shell.

  `Template` lists them: four fixed texts, filled with the configured table and set and at most one
  canonical address. `outside` gives the commands of a trace that are not among known ones. Reading,
  publishing and the wrappers add none outside the templates (`template_keeps`), whatever a message,
  the lease file or nft's output says, so a run of messages and polls has none (`serveAll_templates`).
  The command for an address depends on its octets alone, and an address that is not accepted gets
  no command (`only_templates`).
-/
import Netparent.Command
import Netparent.MacGrammar

namespace Netparent

open Sim (NamesFit)

/-! ## Templates -/

/-- The commands the daemon may run. -/
inductive Template (cfg : Config) : Str → Prop
  | list : Template cfg
      ("nft -j list set ".toList ++ cfg.nftTable ++ " ".toList ++ cfg.nftSet ++ " 2>/dev/null".toList)
  | add (m : Mac) : Template cfg
      ("nft add element ".toList ++ cfg.nftTable ++ " ".toList ++ cfg.nftSet ++ " \x7b ".toList ++
        m.text ++ " \x7d 2>&1".toList)
  | delete (m : Mac) : Template cfg
      ("nft delete element ".toList ++ cfg.nftTable ++ " ".toList ++ cfg.nftSet ++ " \x7b ".toList ++
        m.text ++ " \x7d 2>&1".toList)
  | get (m : Mac) : Template cfg
      ("nft get element ".toList ++ cfg.nftTable ++ " ".toList ++ cfg.nftSet ++ " \x7b ".toList ++
        m.text ++ " \x7d >/dev/null 2>&1".toList)

variable {cfg : Config}

theorem listSetCmd_template (hfit : NamesFit cfg) : Template cfg (listSetCmd cfg) := by
  have hlit : ("nft -j list set ".toList).length = 16 ∧ (" ".toList).length = 1 ∧
      (" 2>/dev/null".toList).length = 12 := by decide
  have hlen : ("nft -j list set ".toList ++ cfg.nftTable ++ " ".toList ++ cfg.nftSet ++
      " 2>/dev/null".toList).length ≤ 255 := by
    unfold NamesFit at hfit
    simp only [List.length_append, hlit]
    omega
  rw [listSetCmd, snprintf, List.take_of_length_le hlen]
  exact Template.list

theorem addCmd_template (hfit : NamesFit cfg) (m : Mac) :
    Template cfg (nftCmd (addElementArgs cfg m.text)) := by
  have hhead : "nft ".toList ++ "add element ".toList = "nft add element ".toList := by decide
  have htail : " \x7d".toList ++ " 2>&1".toList = " \x7d 2>&1".toList := by decide
  rw [Sim.addCmd_eq hfit, hhead, htail, ← List.append_assoc]
  exact Template.add m

theorem deleteCmd_template (hfit : NamesFit cfg) (m : Mac) :
    Template cfg (nftCmd (deleteElementArgs cfg m.text)) := by
  have hhead : "nft ".toList ++ "delete element ".toList = "nft delete element ".toList := by decide
  have htail : " \x7d".toList ++ " 2>&1".toList = " \x7d 2>&1".toList := by decide
  rw [Sim.deleteCmd_eq hfit, hhead, htail, ← List.append_assoc]
  exact Template.delete m

theorem getCmd_template (hfit : NamesFit cfg) (m : Mac) :
    Template cfg (getElementCmd cfg m.text) := by
  rw [Sim.getCmd_eq hfit, ← List.append_assoc]
  exact Template.get m

/-! ## Nothing else is run -/

open scoped Classical in
/-- The commands of a trace that are not among the known ones. -/
noncomputable def outside (known : Str → Prop) (trace : List Act) : List Str :=
  (issuedOf trace).filter fun cmd => ¬ known cmd

variable {known : Str → Prop}

theorem outside_append (a b : List Act) : outside known (a ++ b) = outside known a ++ outside known b := by
  rw [outside, issuedOf_append, List.filter_append]
  rfl

theorem outside_exec {cmd : Str} (hc : known cmd) (trace : List Act) :
    outside known (trace ++ [.exec cmd]) = outside known trace := by
  have hnone : outside known [.exec cmd] = [] := by
    rw [outside]
    exact List.filter_cons_of_neg (by simpa using hc)
  rw [outside_append, hnone, List.append_nil]

theorem outside_exec_new {cmd : Str} (hc : ¬ known cmd) (trace : List Act) :
    outside known (trace ++ [.exec cmd]) = outside known trace ++ [cmd] := by
  have hone : outside known [.exec cmd] = [cmd] := by
    rw [outside]
    exact List.filter_cons_of_pos (by simpa using hc)
  rw [outside_append, hone]

theorem mem_outside {trace : List Act} {cmd : Str} :
    cmd ∈ outside known trace ↔ cmd ∈ issuedOf trace ∧ ¬ known cmd := by
  classical
  simp [outside, List.mem_filter]

variable {κ : Type} {h : Host κ} {parse : Str → Option Json}

/-- Reading and publishing run the listing and lookups only. -/
theorem outside_keeps (hlist : known (listSetCmd cfg))
    (hget : ∀ m : Mac, known (getElementCmd cfg m.text)) :
    KeepsAll h cfg fun w => outside known w.trace where
  listed w := outside_exec hlist w.trace
  asked m w := outside_exec (hget m) w.trace
  opened path w := by
    dsimp only [World.fopen]
    rw [outside_append]
    exact List.append_nil _
  timed _ := rfl
  published m w := by
    dsimp only [World.publish]
    rw [outside_append]
    exact List.append_nil _

theorem template_keeps (hfit : NamesFit cfg) :
    KeepsAll h cfg fun w => outside (Template cfg) w.trace :=
  outside_keeps (listSetCmd_template hfit) (getCmd_template hfit)

/-- What `run_nft` adds to the trace. -/
theorem runNft_trace (args : Str) (w : World κ) : (runNft h args w).2.trace =
    w.trace ++ if args.length < 768 then [.exec (nftCmd args)] else [] := by
  unfold runNft World.popen
  by_cases hlen : args.length ≥ 768
  · rw [if_pos hlen, if_neg (by omega)]
    exact (List.append_nil _).symm
  · rw [if_neg hlen, if_pos (by omega)]
    dsimp only
    split <;> rfl

theorem runNft_outside {args : Str} (hc : known (nftCmd args)) (w : World κ) :
    outside known (runNft h args w).2.trace = outside known w.trace := by
  rw [runNft_trace]
  split
  · exact outside_exec hc w.trace
  · rw [List.append_nil]

theorem npNftBlock_templates (hfit : NamesFit cfg) (mac : Str) (w : World κ) :
    outside (Template cfg) (npNftBlock h cfg mac w).2.trace = outside (Template cfg) w.trace := by
  unfold npNftBlock
  split
  · rfl
  · next norm hn => exact runNft_outside (addCmd_template hfit ⟨norm, npMacNormalize_canonical hn⟩) w

theorem npNftUnblock_templates (hfit : NamesFit cfg) (mac : Str) (w : World κ) :
    outside (Template cfg) (npNftUnblock h cfg mac w).2.trace = outside (Template cfg) w.trace := by
  unfold npNftUnblock
  split
  · rfl
  · next norm hn =>
    exact runNft_outside (deleteCmd_template hfit ⟨norm, npMacNormalize_canonical hn⟩) w

/-! ## Runs -/

section Keeps

variable {α : Type} {obs : World κ → α} (hk : KeepsAll h cfg obs)
include hk

/-- Past the wrapper, a toggle only reads and publishes. -/
theorem KeepsAll.toggle_wrapper {nft : Config → Str → World κ → Int × World κ} (failed : Str)
    (leases : Option NpLeases) (action mac : Str) (reqId : Option Str) (w : World κ) :
    obs (toggleCommand h nft failed cfg leases action (some mac) reqId w).2 =
      obs (nft cfg mac w).2 := by
  unfold Netparent.toggleCommand
  dsimp only
  split
  · exact hk.reply _ _ _ _ _ _
  · exact (hk.republishLeases _ _).trans (hk.reply _ _ _ _ _ _)

theorem KeepsAll.toggleCommand {nft : Config → Str → World κ → Int × World κ}
    (hnft : ∀ mac w, obs (nft cfg mac w).2 = obs w) (failed : Str) (leases : Option NpLeases)
    (action : Str) (mac reqId : Option Str) (w : World κ) :
    obs (toggleCommand h nft failed cfg leases action mac reqId w).2 = obs w := by
  cases mac with
  | none => exact hk.reply _ _ _ _ _ w
  | some mac => exact (hk.toggle_wrapper _ _ _ _ _ _).trans (hnft mac w)

/-- A command leaves alone what the two changing wrappers leave alone. -/
theorem KeepsAll.perform (hblock : ∀ mac w, obs (npNftBlock h cfg mac w).2 = obs w)
    (hunblock : ∀ mac w, obs (npNftUnblock h cfg mac w).2 = obs w) (leases : Option NpLeases)
    (r : Request) (w : World κ) : obs (perform h cfg leases r w).2 = obs w := by
  unfold Netparent.perform
  split
  · exact hk.toggleCommand hblock _ _ _ _ _ w
  split
  · exact hk.toggleCommand hunblock _ _ _ _ _ w
  split
  · unfold statusCommand
    split
    · exact hk.reply _ _ _ _ _ w
    · dsimp only
      split
      · exact (hk.reply _ _ _ _ _ _).trans (hk.npNftIsBlocked _ w)
      · exact (hk.reply _ _ _ _ _ _).trans (hk.npNftIsBlocked _ w)
  split
  · unfold listCommand
    split
    · exact hk.npNftList w
    · exact (hk.published _ _).trans (hk.npNftList w)
  split
  · exact hk.reply _ _ _ _ _ w
  · exact hk.reply _ _ _ _ _ w

theorem KeepsAll.npLeasesPoll (l : NpLeases) (w : World κ) :
    obs (npLeasesPoll h cfg l w).2 = obs w := by
  unfold Netparent.npLeasesPoll
  dsimp only
  split
  · exact hk.npLeasesRepublish _ w
  · rfl

end Keeps

/-- What the daemon reacts to: a message from the broker, or the tick. -/
inductive Input where
  | message (topic payload : Str)
  | poll

def serve (h : Host κ) (parse : Str → Option Json) (cfg : Config) (s : Option NpLeases × World κ) :
    Input → Option NpLeases × World κ
  | .message topic payload => npHandleMessage h parse cfg s.1 topic payload s.2
  | .poll => match s.1 with
      | none => s
      | some l => (some (npLeasesPoll h cfg l s.2).1, (npLeasesPoll h cfg l s.2).2)

/-- Inputs served one after the other. -/
def serveAll (h : Host κ) (parse : Str → Option Json) (cfg : Config) (s : Option NpLeases × World κ)
    (inputs : List Input) : Option NpLeases × World κ := inputs.foldl (serve h parse cfg) s

/-- The step lemma. -/
theorem serve_templates (hfit : NamesFit cfg) (s : Option NpLeases × World κ) (input : Input) :
    outside (Template cfg) (serve h parse cfg s input).2.trace =
      outside (Template cfg) s.2.trace := by
  have hk : KeepsAll h cfg fun w => outside (Template cfg) w.trace := template_keeps hfit
  cases input with
  | message topic payload =>
    unfold serve
    dsimp only
    rw [npHandleMessage_eq]
    split
    · rfl
    · exact hk.perform (npNftBlock_templates hfit) (npNftUnblock_templates hfit) _ _ _
  | poll =>
    unfold serve
    dsimp only
    split
    · rfl
    · exact hk.npLeasesPoll _ _

/-- The run lemma. -/
theorem serveAll_templates (hfit : NamesFit cfg) (s : Option NpLeases × World κ)
    (inputs : List Input) : outside (Template cfg) (serveAll h parse cfg s inputs).2.trace =
      outside (Template cfg) s.2.trace := by
  induction inputs generalizing s with
  | nil => rfl
  | cons input inputs ih => exact (ih _).trans (serve_templates hfit s input)

/-! ## The command for an address -/

/-- The commands that only look. -/
inductive Looking (cfg : Config) : Str → Prop
  | list : Looking cfg (listSetCmd cfg)
  | get (m : Mac) : Looking cfg (getElementCmd cfg m.text)

/-- What a request about an address runs: a block or an unblock changes the set with one command
    and only looks besides, a status request runs one lookup. -/
structure RunsFor (cfg : Config) (action : Str) (m : Mac) (before after : List Act) : Prop where
  block : action = "block".toList → outside (Looking cfg) after =
    outside (Looking cfg) before ++ [nftCmd (addElementArgs cfg m.text)]
  unblock : action = "unblock".toList → outside (Looking cfg) after =
    outside (Looking cfg) before ++ [nftCmd (deleteElementArgs cfg m.text)]
  status : action = "status".toList →
    issuedOf after = issuedOf before ++ [getElementCmd cfg m.text]

/-- Every command of the trace is a template. -/
def OnlyTemplates (cfg : Config) (trace : List Act) : Prop := ∀ cmd ∈ issuedOf trace, Template cfg cmd

/-- The actions that name an address. -/
def AboutMac (action : Str) : Prop :=
  action = "block".toList ∨ action = "unblock".toList ∨ action = "status".toList

theorem looking_take {cmd : Str} (hc : Looking cfg cmd) :
    cmd.take 5 = "nft -".toList ∨ cmd.take 5 = "nft g".toList := by
  cases hc with
  | list => exact Or.inl rfl
  | get m => exact Or.inr rfl

theorem addCmd_not_looking (m : Mac) : ¬ Looking cfg (nftCmd (addElementArgs cfg m.text)) := by
  intro hc
  have hne : "nft a".toList ≠ "nft -".toList ∧ "nft a".toList ≠ "nft g".toList := by decide
  exact (looking_take hc).elim hne.1 hne.2

theorem deleteCmd_not_looking (m : Mac) : ¬ Looking cfg (nftCmd (deleteElementArgs cfg m.text)) := by
  intro hc
  have hne : "nft d".toList ≠ "nft -".toList ∧ "nft d".toList ≠ "nft g".toList := by decide
  exact (looking_take hc).elim hne.1 hne.2

theorem reply_issued (reqId : Option Str) (ok : Bool) (action key val : Str) (w : World κ) :
    issuedOf (reply h cfg reqId ok action key val w).trace = issuedOf w.trace := by
  unfold reply
  split
  · rfl
  · split
    · rfl
    · rw [World.publish, issuedOf_append]
      exact List.append_nil _

theorem statusCommand_issued (action mac : Str) (reqId : Option Str) (w : World κ) :
    issuedOf (statusCommand h cfg action (some mac) reqId w).trace =
      issuedOf (npNftIsBlocked h cfg mac w).2.trace := by
  unfold statusCommand
  dsimp only
  split <;> exact reply_issued _ _ _ _ _ _

/-- One request about an address that is accepted. -/
theorem perform_runs (hfit : NamesFit cfg) {r : Request} {s : Str} {m : Mac} (hs : r.mac = some s)
    (hm : npMacNormalize s = some m.text) (leases : Option NpLeases) (w : World κ) :
    RunsFor cfg r.action m w.trace (perform h cfg leases r w).2.trace := by
  have hk : KeepsAll h cfg fun w => outside (Looking cfg) w.trace :=
    outside_keeps Looking.list Looking.get
  have hlen : (addElementArgs cfg m.text).length < 768 ∧
      (deleteElementArgs cfg m.text).length < 768 := (Sim.host_works hfit).fits m
  constructor
  · intro ha
    rw [perform_block ha, hs, hk.toggle_wrapper, npNftBlock, hm]
    dsimp only
    rw [runNft_trace, if_pos hlen.1, outside_exec_new (addCmd_not_looking m)]
  · intro ha
    rw [perform_unblock ha, hs, hk.toggle_wrapper, npNftUnblock, hm]
    dsimp only
    rw [runNft_trace, if_pos hlen.2, outside_exec_new (deleteCmd_not_looking m)]
  · intro ha
    have hissued : issuedOf (npNftIsBlocked h cfg s w).2.trace =
        issuedOf w.trace ++ [getElementCmd cfg m.text] := by
      rw [npNftIsBlocked, hm]
      dsimp only
      split
      · exact issuedOf_append _ _
      · split <;> exact issuedOf_append _ _
    rw [perform_status ha, hs]
    exact (statusCommand_issued _ _ _ _).trans hissued

/-- One request about an address that is not accepted. -/
theorem perform_rejected {r : Request} (ha : AboutMac r.action) {s : Str} (hs : r.mac = some s)
    (hm : npMacNormalize s = none) (leases : Option NpLeases) (w : World κ) :
    issuedOf (perform h cfg leases r w).2.trace = issuedOf w.trace := by
  rcases ha with ha | ha | ha
  · rw [perform_block ha, hs, toggleCommand, npNftBlock, hm]
    exact reply_issued _ _ _ _ _ _
  · rw [perform_unblock ha, hs, toggleCommand, npNftUnblock, hm]
    exact reply_issued _ _ _ _ _ _
  · rw [perform_status ha, hs]
    refine (statusCommand_issued _ _ _ _).trans ?_
    rw [npNftIsBlocked, hm]

/-- **No shell injection.** Every command of a run of messages and polls is one of the four
    templates. Requests with one action whose addresses denote the same octets run the same command
    for them, and a request whose address is not accepted runs none. -/
theorem only_templates (hfit : NamesFit cfg) (parse : Str → Option Json) (leases : Option NpLeases)
    (k : κ) (inputs : List Input) :
    OnlyTemplates cfg (serveAll h parse cfg (leases, { host := k }) inputs).2.trace ∧
    (∀ topic payload topic' payload' r r' s s' gs gs',
      requestOf parse cfg topic payload = some r → r.mac = some s →
      requestOf parse cfg topic' payload' = some r' → r'.mac = some s' →
      r.action = r'.action → Spells gs (despace s) → gs.length = 6 →
      Spells gs' (despace s') → gs'.length = 6 → gs.map octet = gs'.map octet →
      ∃ m : Mac, m.text = canonText gs ∧ ∀ (l l' : Option NpLeases) (w w' : World κ),
        RunsFor cfg r.action m w.trace (npHandleMessage h parse cfg l topic payload w).2.trace ∧
        RunsFor cfg r.action m w'.trace
          (npHandleMessage h parse cfg l' topic' payload' w').2.trace) ∧
    ∀ topic payload r s, requestOf parse cfg topic payload = some r → r.mac = some s →
      AboutMac r.action → (¬ ∃ gs, Spells gs (despace s) ∧ gs.length = 6) →
      ∀ (l : Option NpLeases) (w : World κ),
        issuedOf (npHandleMessage h parse cfg l topic payload w).2.trace = issuedOf w.trace := by
  refine ⟨fun cmd hcmd => ?_, fun topic payload topic' payload' r r' s s' gs gs' hr hs hr' hs' ha hgs
    hlen hgs' hlen' hoct => ?_, fun topic payload r s hr hs ha hno l w => ?_⟩
  · by_contra ht
    have hout := mem_outside.mpr ⟨hcmd, ht⟩
    rw [serveAll_templates hfit] at hout
    exact List.not_mem_nil hout
  · have hm := npMacNormalize_eq_some.mpr ⟨gs, hgs, hlen, rfl⟩
    have hsame : canonText gs = canonText gs' :=
      (canonText_eq_iff hgs.groups hgs'.groups (hlen.trans hlen'.symm)).mpr hoct
    have hm' := npMacNormalize_eq_some.mpr ⟨gs', hgs', hlen', hsame⟩
    refine ⟨⟨canonText gs, npMacNormalize_canonical hm⟩, rfl, fun l l' w w' => ⟨?_, ?_⟩⟩
    · rw [npHandleMessage_eq, hr]
      exact perform_runs hfit hs hm l w
    · rw [npHandleMessage_eq, hr', ha]
      exact perform_runs hfit hs' hm' l' w'
  · have hm : npMacNormalize s = none := by
      rw [Option.eq_none_iff_forall_not_mem]
      intro t ht
      obtain ⟨gs, hgs, hlen, _⟩ := npMacNormalize_eq_some.mp ht
      exact hno ⟨gs, hgs, hlen⟩
    rw [npHandleMessage_eq, hr]
    exact perform_rejected ha hs hm l w

/-- Two commands with a poll between them. -/
theorem only_templates_served : OnlyTemplates defaultConfig
    (serveAll (Sim.host defaultConfig) Json.read defaultConfig
      (some (npLeasesCreate none), { host := Sim.twoBlocked })
      [.message "netparent/router-1/cmd/unblock".toList numberedPayload, .poll,
        .message "netparent/router-1/cmd/block".toList numberedPayload]).2.trace :=
  (only_templates (by unfold NamesFit; decide) _ _ _ _).1

end Netparent
