/-
  One toggle, from the request to the web app to what its store shows then.

  The request's address is lowered and put on the topic of the router's commands, which the daemon with
  that device id takes and no other (`parseAction_other`). The daemon changes the set and
  republishes (`toggle_republishes`), and the store ends with the snapshot of the new set
  (`relayed_store`). A snapshot is a function of the file and the set (`Shown`), so the
  device is shown as asked and the others as before (`toggle_end_to_end`).

  The numbers of a message go through a double and cJSON's printing. A number of 10^15 or more may be
  printed with an exponent, which the web app does not read into an `int64`: it then drops
  the snapshot (`huge_expiry_unshown`).
-/
import Netparent.Command
import Netparent.Diff
import Netparent.Shown
import Netparent.Web.Mirror
import Netparent.Web.Server
import Netparent.Web.Topics

namespace Netparent

/-! ## Numbers -/

/-- A number cJSON prints without fraction or exponent. -/
def PlainNumber (n : Int) : Prop := n.natAbs < 10 ^ 15

instance (n : Int) : Decidable (PlainNumber n) := inferInstanceAs (Decidable (_ < _))

def Dev.Plain (d : Dev) : Prop := PlainNumber d.leaseExpires ∧ PlainNumber d.lastSeen

/-- All numbers of a message are plain. -/
def Msg.Plain : Msg → Prop
  | .devices updatedAt list => PlainNumber updatedAt ∧ ∀ d ∈ list, d.Plain
  | .event (.added d) => d.Plain
  | .event (.changed d) => d.Plain
  | .event (.removed _) => True
  | .status _ => True
  | .response .. => True

instance (m : Msg) : Decidable m.Plain := match m with
  | .devices _ _ => inferInstanceAs (Decidable (_ ∧ ∀ d ∈ _, _ ∧ _))
  | .event (.added _) => inferInstanceAs (Decidable (_ ∧ _))
  | .event (.changed _) => inferInstanceAs (Decidable (_ ∧ _))
  | .event (.removed _) => inferInstanceAs (Decidable True)
  | .status _ => inferInstanceAs (Decidable True)
  | .response _ _ => inferInstanceAs (Decidable True)

theorem PlainNumber.fits {n : Int} (h : PlainNumber n) : Json.FitsInt64 (toDouble n) := by
  unfold PlainNumber at h
  rw [toDouble_small (by omega)]
  unfold Json.FitsInt64
  omega

theorem Dev.Plain.fits {d : Dev} (h : d.Plain) : d.Fits := ⟨h.1.fits, h.2.fits⟩

theorem Msg.Plain.fits {m : Msg} (h : m.Plain) : m.Fits := by
  cases m with
  | status online => trivial
  | devices updatedAt list => exact ⟨h.1.fits, fun d hd => (h.2 d hd).fits⟩
  | event e =>
    cases e with
    | added d => exact Dev.Plain.fits h
    | changed d => exact Dev.Plain.fits h
    | removed mac => trivial
  | response suffix body => trivial

/-- The events of a republish show devices of the new list only. -/
theorem diffEvents_plain {old new : List Dev} (hplain : ∀ d ∈ new, d.Plain) :
    ∀ e ∈ diffEvents old new, (Msg.event e).Plain := by
  induction old, new using diffEvents.induct with
  | case1 ns =>
    intro e he
    rw [diffEvents] at he
    obtain ⟨d, hd, rfl⟩ := List.mem_map.mp he
    exact hplain d hd
  | case2 p ps =>
    intro e he
    rw [diffEvents] at he
    obtain ⟨d, _, rfl⟩ := List.mem_map.mp he
    trivial
  | case3 p ps n ns c hc ih =>
    intro e he
    rw [diffEvents, if_pos hc] at he
    rcases List.mem_append.mp he with he | he
    · split at he
      · obtain rfl := List.mem_singleton.mp he
        exact hplain n List.mem_cons_self
      · cases he
    · exact ih (fun d hd => hplain d (List.mem_cons_of_mem _ hd)) e he
  | case4 p ps n ns c hc hlt ih =>
    rw [diffEvents, if_neg hc, if_pos hlt]
    exact List.forall_mem_cons.mpr ⟨trivial, ih hplain⟩
  | case5 p ps n ns c hc hlt ih =>
    rw [diffEvents, if_neg hc, if_neg hlt]
    exact List.forall_mem_cons.mpr ⟨hplain n List.mem_cons_self,
      ih fun d hd => hplain d (List.mem_cons_of_mem _ hd)⟩

section Rebuild

variable {κ : Type} {h : Host κ} {cfg : Config}

theorem mergeDev_plain {e d : Dev} (he : e.Plain) (hd : d.Plain) : (mergeDev e d).Plain := by
  unfold Dev.Plain mergeDev
  dsimp only
  constructor
  · split
    · exact hd.1
    · exact he.1
  · split
    · exact hd.2
    · exact he.2

theorem parsedLines_lastSeen (hclock : ∀ k, PlainNumber (h.time k).1) {lines : List Str}
    {w : World κ} : ∀ d ∈ (parsedLines h lines w).1, PlainNumber d.lastSeen := by
  induction lines generalizing w with
  | nil => exact fun d hd => absurd hd List.not_mem_nil
  | cons line lines ih =>
    intro d hd
    rcases List.mem_append.mp hd with hd | hd
    · rw [parseLeaseLine_lastSeen h (Option.mem_toList.mp hd)]
      exact hclock w.host
    · exact ih d hd

theorem fileRecords_plain (hclock : ∀ k, PlainNumber (h.time k).1) {path : Str} {w : World κ}
    (hexp : ∀ r ∈ leaseRecords (h.fopen path w.host), PlainNumber r.leaseExpires) :
    ∀ d ∈ (fileRecords h path w).1, d.Plain := by
  intro d hd
  constructor
  · have hmem : d.unseen ∈ leaseRecords (h.fopen path w.host) := by
      rw [← fileRecords_unseen]
      exact List.mem_map_of_mem hd
    exact hexp d.unseen hmem
  · unfold fileRecords at hd
    dsimp only at hd
    split at hd
    · exact parsedLines_lastSeen hclock d hd
    · cases hd

/-- A rebuild from plain leases at plain times. -/
theorem rebuild_plain (hclock : ∀ k, PlainNumber (h.time k).1) {l : NpLeases} {w : World κ}
    (hexp : ∀ r ∈ leaseRecords (h.fopen l.path w.host), PlainNumber r.leaseExpires) :
    ∀ d ∈ (rebuild h cfg l w).1.list, d.Plain := by
  have hrecords : ∀ d ∈ mergedRecords h cfg l.path w, d.Plain := by
    intro d hd
    rcases List.mem_append.mp hd with hd | hd
    · exact fileRecords_plain hclock hexp d hd
    · obtain ⟨t, _, rfl⟩ := List.mem_map.mp hd
      exact ⟨show PlainNumber 0 by decide, show PlainNumber 0 by decide⟩
  have hmerged : ∀ d ∈ merge (mergedRecords h cfg l.path w), d.Plain := by
    rw [merge, addOrMerge_eq]
    exact Keyed.forall_foldl (fun _ _ _ => mergeDev_plain)
      (fun _ hd => absurd hd List.not_mem_nil) hrecords
  intro d hd
  obtain ⟨e, he, hu⟩ := mem_rebuild h hd
  have hexpires : e.leaseExpires = d.leaseExpires :=
    show e.unmarked.leaseExpires = d.unmarked.leaseExpires from congrArg Dev.leaseExpires hu
  have hseen : e.lastSeen = d.lastSeen :=
    show e.unmarked.lastSeen = d.unmarked.lastSeen from congrArg Dev.lastSeen hu
  unfold Dev.Plain
  rw [← hexpires, ← hseen]
  exact hmerged e he

end Rebuild

/-! ## The daemon's part -/

/-- The action a toggle asks for. -/
def actionOf (block : Bool) : Str := if block then "block".toList else "unblock".toList

section Daemon

variable {κ α : Type} {h : Host κ} {cfg : Config} {view : κ → α} {set : κ → Finset Mac}

/-- A view of the host's state that nothing the daemon does changes. -/
structure Steady (h : Host κ) (cfg : Config) (view : κ → α) : Prop extends Quiet h cfg view where
  add : ∀ (m : Mac) k, view (h.popen (nftCmd (addElementArgs cfg m.text)) k).2 = view k
  delete : ∀ (m : Mac) k, view (h.popen (nftCmd (deleteElementArgs cfg m.text)) k).2 = view k

/-- The wrapper a toggle calls. -/
def toggleNft (h : Host κ) (block : Bool) : Config → Str → World κ → Int × World κ :=
  if block then npNftBlock h else npNftUnblock h

theorem perform_toggle {r : Request} {block : Bool} (ha : r.action = actionOf block)
    (leases : Option NpLeases) (w : World κ) : ∃ failed, perform h cfg leases r w =
      toggleCommand h (toggleNft h block) failed cfg leases r.action r.mac r.reqId w := by
  cases block with
  | true => exact ⟨_, perform_block ha leases w⟩
  | false => exact ⟨_, perform_unblock ha leases w⟩

theorem toggleNft_works (hw : NftWorks h cfg set) {t : Str} {m : Mac} (hm : normMac t = some m)
    (block : Bool) (w : World κ) : (toggleNft h block cfg t w).1 = 0 ∧
      set (toggleNft h block cfg t w).2.host = toggled (set w.host) m block := by
  cases block with
  | true =>
    have hblock := hw.npNftBlock t w
    rw [hm] at hblock
    exact hblock
  | false =>
    have hunblock := hw.npNftUnblock t w
    rw [hm] at hunblock
    exact hunblock

theorem toggleNft_sent (block : Bool) (t : Str) (w : World κ) :
    sentOf (toggleNft h block cfg t w).2.trace = sentOf w.trace := by
  cases block with
  | true => exact npNftBlock_sent cfg t w
  | false => exact npNftUnblock_sent cfg t w

theorem Steady.toggleNft (hs : Steady h cfg view) (block : Bool) (t : Str) (w : World κ) :
    view (toggleNft h block cfg t w).2.host = view w.host := by
  cases block with
  | true =>
    change view (npNftBlock h cfg t w).2.host = _
    unfold npNftBlock
    split
    · rfl
    · next norm hn =>
      rw [runNft_host]
      split
      · exact hs.add ⟨norm, npMacNormalize_canonical hn⟩ w.host
      · rfl
  | false =>
    change view (npNftUnblock h cfg t w).2.host = _
    unfold npNftUnblock
    split
    · rfl
    · next norm hn =>
      rw [runNft_host]
      split
      · exact hs.delete ⟨norm, npMacNormalize_canonical hn⟩ w.host
      · rfl

theorem reply_messages (h : Host κ) (cfg : Config) (reqId : Option Str) (ok : Bool)
    (action key val : Str) (w : World κ) :
    ∃ answers : List (Str × Json), messagesOf (reply h cfg reqId ok action key val w).trace =
      messagesOf w.trace ++ answers.map fun a => Msg.response a.1 a.2 := by
  unfold reply
  split
  · exact ⟨[], (List.append_nil _).symm⟩
  · next q =>
    split
    · exact ⟨[], (List.append_nil _).symm⟩
    · exact ⟨[(q, replyBody ok action key val)], publish_messages h cfg _ w⟩

/-- With an nft that works, a toggle changes the set, answers, and republishes. -/
theorem toggle_republishes (hw : NftWorks h cfg set) (hs : Steady h cfg view) {r : Request}
    {block : Bool} (ha : r.action = actionOf block) {t : Str} (ht : r.mac = some t) {m : Mac}
    (hm : normMac t = some m) (l : NpLeases) (w : World κ) :
    ∃ w', perform h cfg (some l) r w =
        (some (npLeasesRepublish h cfg l w').1, (npLeasesRepublish h cfg l w').2) ∧
      set w'.host = toggled (set w.host) m block ∧ view w'.host = view w.host ∧
      ∃ answers : List (Str × Json), messagesOf w'.trace =
        messagesOf w.trace ++ answers.map fun a => Msg.response a.1 a.2 := by
  obtain ⟨hzero, hset⟩ := toggleNft_works hw hm block w
  obtain ⟨failed, hperform⟩ : ∃ failed, perform h cfg (some l) r w = _ := perform_toggle ha _ w
  obtain ⟨answers, hanswers⟩ := reply_messages h cfg r.reqId true r.action "mac".toList t
    (toggleNft h block cfg t w).2
  refine ⟨reply h cfg r.reqId true r.action "mac".toList t (toggleNft h block cfg t w).2, ?_,
    ?_, ?_, answers, ?_⟩
  · rw [hperform, ht, toggleCommand]
    rw [if_neg (not_not.mpr hzero)]
    rfl
  · rw [hw.quiet.keepsAll.reply, hset]
  · rw [hs.toQuiet.keepsAll.reply]
    exact hs.toggleNft block t w
  · rw [hanswers, messagesOf, messagesOf, toggleNft_sent]

end Daemon

namespace Web

/-! ## The wire -/

/-- ASCII text is left as it is. -/
def KeepsAscii (fix : Str → Str) : Prop := ∀ t : Str, (∀ c ∈ t, c.toNat < 128) → fix t = t

/-- A device as the web app reads it back: `fix` is what encoding/json makes of a string, in which bytes
    that are not UTF-8 are replaced. -/
def rereadDev (fix : Str → Str) (d : Dev) : Dev :=
  { d with mac := fix d.mac, ip := fix d.ip, hostname := fix d.hostname }

def rereadEvent (fix : Str → Str) : Event → Event
  | .added d => .added (rereadDev fix d)
  | .changed d => .changed (rereadDev fix d)
  | .removed mac => .removed (fix mac)

def rereadMsg (fix : Str → Str) : Msg → Msg
  | .devices updatedAt list => .devices updatedAt (list.map (rereadDev fix))
  | .event e => .event (rereadEvent fix e)
  | m => m

def rereadConfig (fix : Str → Str) (cfg : Config) : Config :=
  { cfg with deviceId := fix cfg.deviceId }

/-- A published message arrives: on its topic, at the handler of its subscription, with a payload that
    parses to what was published when its numbers are plain. -/
structure Relays (parse : Str → Option Json) (fix : Str → Str) (cfg : Config) (m : Msg)
    (x : Message) : Prop where
  sub : subOf m = some x.sub
  topic : x.topic = m.topic cfg
  wire : m.Plain → parse x.payload = some ((rereadMsg fix m).payload (rereadConfig fix cfg))

variable {parse : Str → Option Json} {fix : Str → Str} {cfg : Config}

theorem rereadMsg_sub (m : Msg) : subOf (rereadMsg fix m) = subOf m := by
  cases m <;> rfl

theorem rereadMsg_plain {m : Msg} (h : m.Plain) : (rereadMsg fix m).Plain := by
  cases m with
  | devices updatedAt list =>
    refine ⟨h.1, fun d hd => ?_⟩
    obtain ⟨e, he, rfl⟩ := List.mem_map.mp hd
    exact h.2 e he
  | event e => cases e <;> exact h
  | status online => trivial
  | response suffix body => trivial

theorem rereadMsg_id (m : Msg) : rereadMsg id m = m := by
  cases m with
  | devices updatedAt list => exact congrArg (Msg.devices updatedAt) (List.map_id list)
  | event e => cases e <;> rfl
  | status online => rfl
  | response suffix body => rfl

/-- A message whose payload is the text printed of it arrives, with a reader of JSON at the other end. -/
theorem relays_printed {m : Msg} {x : Message} (hsub : subOf m = some x.sub) (htopic : x.topic = m.topic cfg)
    (htext : Json.print (m.payload cfg) = x.payload) : Relays Json.read id cfg m x where
  sub := hsub
  topic := htopic
  wire := fun _ => by
    rw [rereadMsg_id]
    exact Json.read_of_print (payload_whole hsub) htext

theorem canonical_ascii {t : Str} (h : isCanonical t = true) : ∀ c ∈ t, c.toNat < 128 :=
  spelling_forall (by simp [hexDigits, lowerHexDigits]) (canonical_groups h)

theorem rereadDev_mac (hfix : KeepsAscii fix) {d : Dev} (h : isCanonical d.mac = true) :
    (rereadDev fix d).mac = d.mac :=
  hfix d.mac (canonical_ascii h)

/-- Messages that arrive, as deliveries of what is read back. -/
theorem relays_carry (hr : cfg.Routable) {ms : List Msg} {xs : List Message}
    (hx : List.Forall₂ (Relays parse fix cfg) ms xs) (hplain : ∀ m ∈ ms, m.Plain) :
    ∃ ds : List Delivery, ds.map Delivery.message = xs ∧
      ds.map Delivery.published = ms.map (rereadMsg fix) ∧
      ∀ d ∈ ds, Carries parse (rereadConfig fix cfg) cfg.deviceId d ∧ accepted parse d = true := by
  induction hx with
  | nil => exact ⟨[], rfl, rfl, fun d hd => absurd hd List.not_mem_nil⟩
  | @cons m x ms xs hmx _ ih =>
    obtain ⟨hm, hms⟩ := List.forall_mem_cons.mp hplain
    obtain ⟨ds, rfl, hpublished, hds⟩ := ih hms
    have hroute : routerIDFromTopic x.topic = cfg.deviceId := by
      rw [hmx.topic]
      exact topic_routes hr m
    have hsub : subOf (rereadMsg fix m) = some x.sub := (rereadMsg_sub m).trans hmx.sub
    have hdec : decodes parse x.payload x.sub = true :=
      decodes_of_fits hsub (hmx.wire hm) (rereadMsg_plain hm).fits
    refine ⟨⟨rereadMsg fix m, x⟩ :: ds, rfl, ?_, List.forall_mem_cons.mpr ⟨⟨?_, ?_⟩, hds⟩⟩
    · rw [List.map_cons, hpublished, List.map_cons]
    · exact ⟨hsub, hroute, fun _ => hmx.wire hm⟩
    · simp [accepted, hroute, hr.nonempty, hdec]

/-- Handled in the order of publishing, a republish leaves its snapshot in the store. -/
theorem relayed_store (hr : cfg.Routable) {events : List Event} {t : Int} {list : List Dev}
    {xs : List Message}
    (hx : List.Forall₂ (Relays parse fix cfg) (events.map Msg.event ++ [.devices t list]) xs)
    (hplain : ∀ m ∈ events.map Msg.event ++ [.devices t list], m.Plain) (s : Store) :
    ∃ s', deliverAll parse xs s = .ok s' ∧
      s'.devicesOf cfg.deviceId = snapshotMap (list.map (rereadDev fix)) := by
  obtain ⟨ds, rfl, hpublished, hds⟩ := relays_carry hr hx hplain
  rw [List.map_append] at hpublished
  obtain ⟨before, last, rfl, _, hlast⟩ := List.map_eq_append_iff.mp hpublished
  obtain ⟨d, rfl, hd⟩ := List.map_eq_singleton_iff.mp hlast
  exact mirrors_in_order (fun x hx => (hds x hx).1) hd
    (hds d (List.mem_append_right _ (List.mem_singleton_self d))).2 s

/-- What a store with a snapshot in it shows under an address, up to `last_seen`. -/
theorem lookup_reread (hfix : KeepsAscii fix) {list : List Dev}
    (hcanon : ∀ d ∈ list, isCanonical d.mac = true) (hn : (list.map Dev.mac).Nodup) (k : Str) :
    ((snapshotMap (list.map (rereadDev fix))).lookup k).map (Option.map Device.seenless) =
      ((Keyed.find? Dev.mac k list).map Dev.unseen).map fun d =>
        some (deviceOf (rereadDev fix d)).seenless := by
  have hmacs : (list.map (rereadDev fix)).map Dev.mac = list.map Dev.mac := by
    rw [List.map_map]
    exact List.map_congr_left fun d hd => rereadDev_mac hfix (hcanon d hd)
  have hfind : Keyed.find? Dev.mac k (list.map (rereadDev fix)) =
      (Keyed.find? Dev.mac k list).map (rereadDev fix) := by
    rw [Keyed.find?, Keyed.find?, List.find?_map]
    congr 1
    refine List.find?_congr fun d hd => ?_
    rw [Function.comp_apply, rereadDev_mac hfix (hcanon d hd)]
  rw [lookup_snapshotMap (by rw [hmacs]; exact hn), hfind]
  cases Keyed.find? Dev.mac k list <;> rfl

/-! ## The round trip -/

/-- The web app's request, with a broker that takes the command. -/
theorem doBlockUnblock_sends {broker : Command → Option Str} (hbroker : ∀ cmd, broker cmd = none)
    {id m : Str} (hid : id ≠ []) (hm : macRegexp (m.map tolower) = true) (stamp : Str)
    (block : Bool) : ∃ body, doBlockUnblock broker stamp id m block = (⟨200, body⟩, some
      { topic := "netparent/".toList ++ id ++ "/cmd/".toList ++ actionOf block
        body := .obj [("mac".toList, .str (m.map tolower)),
          ("req_id".toList, .str ("web-".toList ++ stamp))] }) := by
  have hsend : ∀ action, action ≠ [] → publishCmd broker stamp id action (m.map tolower) =
      (none, some
        { topic := "netparent/".toList ++ id ++ "/cmd/".toList ++ action
          body := .obj [("mac".toList, .str (m.map tolower)),
            ("req_id".toList, .str ("web-".toList ++ stamp))] }) := by
    intro action ha
    rw [publishCmd, if_neg (not_or.mpr ⟨hid, ha⟩)]
    exact Prod.ext (hbroker _) rfl
  unfold doBlockUnblock sendBlock sendUnblock
  dsimp only
  rw [if_neg (by rw [hm]; decide)]
  cases block with
  | true =>
    rw [if_pos rfl, hsend _ (by decide)]
    exact ⟨_, rfl⟩
  | false =>
    rw [if_neg (by decide), hsend _ (by decide)]
    exact ⟨_, rfl⟩

/-- Lowering a spelling keeps it one, of the same address. -/
theorem lowered_spelling {m : Str} (hm : macRegexp m = true) :
    macRegexp (m.map tolower) = true ∧ (m.map tolower).map canonChar = m.map canonChar := by
  have hdigit : ∀ {c : Char}, isxdigit c = true → isxdigit (tolower c) = true := fun hc =>
    isxdigit_of_isLowerHex (isLowerHex_tolower hc)
  have hsep : ∀ {c : Char}, isSep c = true → tolower c = c := fun {c} hc => by
    have hcases : c = ':' ∨ c = '-' := by simpa [isSep] using hc
    rcases hcases with rfl | rfl <;> decide
  constructor
  · unfold macRegexp at hm ⊢
    generalize 5 = n at hm ⊢
    induction n, m using groups.induct with
    | case1 a b =>
      simp only [groups, Bool.and_eq_true] at hm
      simp [groups, hdigit hm.1, hdigit hm.2]
    | case2 n a b c rest ih =>
      simp only [groups, Bool.and_eq_true] at hm
      obtain ⟨⟨⟨ha, hb⟩, hc⟩, hrest⟩ := hm
      simp [groups, hdigit ha, hdigit hb, hsep hc, hc, ih hrest]
    | case3 n s h0 h1 => rw [groups] at hm <;> simp_all
  · rw [List.map_map]
    refine List.map_congr_left fun c hc => ?_
    rw [Function.comp_apply]
    rcases groups_mem hm c hc with hd | hs
    · rw [canonChar_digit hd, canonChar_digit (hdigit hd),
        tolower_of_isLowerHex (isLowerHex_tolower hd)]
    · rw [hsep hs]

/-- The payload is the text of the command's body. -/
def Marshals (parse : Str → Option Json) (payload : Str) (body : Json) : Prop :=
  payload ≠ [] ∧ parse (cstr payload) = some body

/-- What the daemon asks for when it takes the command. -/
theorem requestOf_command (hr : cfg.Routable) {m : Str} (hm : macRegexp m = true) {stamp : Str}
    (block : Bool) {payload : Str}
    (hp : Marshals parse payload (.obj [("mac".toList, .str m),
      ("req_id".toList, .str ("web-".toList ++ stamp))])) :
    ∃ reqId, requestOf parse cfg (commandTopic cfg (actionOf block)) payload =
      some { action := actionOf block, mac := some m, reqId := reqId } := by
  have haction : parseAction (commandTopic cfg (actionOf block)) cfg.deviceId =
      some (actionOf block) :=
    (parseAction_eq_some hr.prefixFits).mpr ⟨rfl, by cases block <;> decide⟩
  have hnul : Json.cText m = m := List.takeWhile_eq_self_iff.mpr
    (spelling_forall (by simp [hexDigits, lowerHexDigits]) hm)
  have hmac : ∀ rest, Json.valuestring ((Json.obj (("mac".toList, .str m) :: rest)
      ).getObjectItemCaseSensitive "mac".toList) = some (Json.cText m) := fun _ => rfl
  refine ⟨some (Json.cText ("web-".toList ++ stamp)), ?_⟩
  rw [requestOf, haction, Option.bind_some, commandJson, if_pos (List.length_pos_of_ne_nil hp.1),
    hp.2, Option.map_some, hmac, hnul]
  rfl

/-- The daemon's part, with the command's payload. -/
theorem command_handled {κ α : Type} {h : Host κ} {set : κ → Finset Mac} {view : κ → α}
    (hr : cfg.Routable) (hw : NftWorks h cfg set) (hs : Steady h cfg view) {m : Str}
    (hm : macRegexp m = true) {mac : Mac} (hnorm : normMac m = some mac) (block : Bool)
    {stamp payload : Str} (hp : Marshals parse payload (.obj [("mac".toList, .str m),
      ("req_id".toList, .str ("web-".toList ++ stamp))])) (l : NpLeases) (w : World κ) :
    ∃ w', npHandleMessage h parse cfg (some l) (commandTopic cfg (actionOf block)) payload w =
        (some (npLeasesRepublish h cfg l w').1, (npLeasesRepublish h cfg l w').2) ∧
      set w'.host = toggled (set w.host) mac block ∧ view w'.host = view w.host ∧
      ∃ answers : List (Str × Json), messagesOf w'.trace =
        messagesOf w.trace ++ answers.map fun a => Msg.response a.1 a.2 := by
  obtain ⟨reqId, hreq⟩ := requestOf_command hr hm block hp
  rw [npHandleMessage_eq, hreq]
  exact toggle_republishes hw hs (r := { action := actionOf block, mac := some m, reqId := reqId })
    rfl rfl hnorm l w

/-- What was published between two points, for the subscriptions of the web app. -/
def newsFrom (before after : List Act) : List Msg :=
  ((messagesOf after).drop (messagesOf before).length).filter fun m => (subOf m).isSome

theorem newsFrom_eq {before after : List Act} (answers : List (Str × Json)) {events : List Event}
    {t : Int} {list : List Dev} (h : messagesOf after = messagesOf before ++
      (answers.map fun a => Msg.response a.1 a.2) ++ (events.map Msg.event ++ [.devices t list])) :
    newsFrom before after = events.map Msg.event ++ [.devices t list] := by
  have hanswers : (answers.map fun a => Msg.response a.1 a.2).filter (fun m => (subOf m).isSome) = [] :=
    List.filter_eq_nil_iff.mpr fun m hm => by
      obtain ⟨a, _, rfl⟩ := List.mem_map.mp hm
      exact Bool.false_ne_true
  have hnews : ∀ m ∈ events.map Msg.event ++ [.devices t list], (subOf m).isSome = true := by
    intro m hm
    rcases List.mem_append.mp hm with hm | hm
    · obtain ⟨e, _, rfl⟩ := List.mem_map.mp hm
      rfl
    · obtain rfl := List.mem_singleton.mp hm
      rfl
  rw [newsFrom, h, List.append_assoc, List.drop_left, List.filter_append, hanswers,
    List.filter_eq_self.mpr hnews, List.nil_append]

section RoundTrip

variable {κ : Type} {h : Host κ} {set : κ → Finset Mac}

/-- What the store of the web app shows of `shown`'s entries. -/
def ShowsEntries (fix : Str → Str) (id : Str) (records : List Dev) (S : Finset Mac) (s : Store) : Prop :=
  ∀ k, ((s.devicesOf id).lookup k).map (Option.map Device.seenless) =
    (shown records S k).map fun d => some (deviceOf (rereadDev fix d)).seenless

/-- A republish, and the store after its messages. -/
theorem republish_relayed (hr : cfg.Routable) (hlook : LooksUp h cfg set)
    (hclock : ∀ k, PlainNumber (h.time k).1) (l : NpLeases) {w : World κ}
    (hexp : ∀ r ∈ leaseRecords (h.fopen l.path w.host), PlainNumber r.leaseExpires)
    (hroom : HasRoom (leaseRecords (h.fopen l.path w.host)) (set w.host))
    (hlisted : CompleteListing h cfg set (set w.host)) :
    ∃ (events : List Event) (t : Int),
      messagesOf (npLeasesRepublish h cfg l w).2.trace = messagesOf w.trace ++
        (events.map Msg.event ++ [.devices t (rebuild h cfg l w).1.list]) ∧
      ∀ parse fix, KeepsAscii fix → ∀ xs, List.Forall₂ (Relays parse fix cfg)
          (events.map Msg.event ++ [.devices t (rebuild h cfg l w).1.list]) xs →
        ∀ s, ∃ s', deliverAll parse xs s = .ok s' ∧ ShowsEntries fix cfg.deviceId
          (leaseRecords (h.fopen l.path w.host)) (set w.host) s' := by
  obtain ⟨k, hk⟩ := npLeasesRepublish_sends h cfg l w
  have hdevs : ∀ d ∈ (rebuild h cfg l w).1.list, d.Plain := rebuild_plain hclock hexp
  let events := if l.firstRun then [] else diffEvents l.prev (rebuild h cfg l w).1.list
  have hevents : (if l.firstRun then [] else
      (diffEvents l.prev (rebuild h cfg l w).1.list).map Msg.event) = events.map Msg.event := by
    dsimp only [events]
    split <;> rfl
  have hplain : ∀ m ∈ events.map Msg.event ++ [.devices (h.time k).1 (rebuild h cfg l w).1.list],
      m.Plain := by
    intro m hm
    rcases List.mem_append.mp hm with hm | hm
    · obtain ⟨e, he, rfl⟩ := List.mem_map.mp hm
      dsimp only [events] at he
      split at he
      · cases he
      · exact diffEvents_plain hdevs e he
    · obtain rfl := List.mem_singleton.mp hm
      exact ⟨hclock k, hdevs⟩
  refine ⟨events, (h.time k).1, ?_, fun parse fix hfix xs hx s => ?_⟩
  · rw [hk, hevents, List.append_assoc]
  · obtain ⟨s', hs', hdevices⟩ := relayed_store hr hx hplain s
    refine ⟨s', hs', fun key => ?_⟩
    rw [hdevices, lookup_reread hfix (fun d hd => rebuild_canonical h hd)
      (rebuild_sorted h cfg l w).nodup, rebuild_shown hlook hlisted hroom]

theorem lookup_of_seenless {o : Option (Option Device)} {x : Device}
    (h : o.map (Option.map Device.seenless) = some (some x)) :
    ∃ dev, o = some (some dev) ∧ dev.seenless = x := by
  obtain ⟨p, rfl, hp⟩ := Option.map_eq_some_iff.mp h
  obtain ⟨dev, rfl, hdev⟩ := Option.map_eq_some_iff.mp hp
  exact ⟨dev, rfl, hdev⟩

/-- `dev` is `d` as the web app reads it back, `blocked` or not; nothing is said of `last_seen`. -/
structure IsShown (fix : Str → Str) (d : Dev) (blocked : Bool) (dev : Device) : Prop where
  mac : dev.mac = d.mac
  ip : dev.ip = fix d.ip
  hostname : dev.hostname = fix d.hostname
  blocked_eq : dev.blocked = blocked
  leaseExpires : dev.leaseExpires = d.leaseExpires

/-- The store before and after a toggle of `d`, an entry of the snapshot published before. -/
structure ShowsToggled (fix : Str → Str) (id : Str) (snapshot : List Dev) (d : Dev) (leased : Prop)
    (block : Bool) (before after : Store) : Prop where
  marked : block = true ∨ leased → ∃ dev, (after.devicesOf id).lookup d.mac = some (some dev) ∧
    IsShown fix d block dev
  absent : block = false → ¬ leased → (after.devicesOf id).lookup d.mac = none
  present : ∀ e ∈ snapshot, ∃ dev, (before.devicesOf id).lookup e.mac = some (some dev) ∧
    IsShown fix e e.blocked dev
  others : ∀ k, k ≠ d.mac → ((after.devicesOf id).lookup k).map (Option.map Device.seenless) =
    ((before.devicesOf id).lookup k).map (Option.map Device.seenless)

/-- What is shown for an entry with plain numbers. -/
theorem isShown_of_lookup {fix : Str → Str} (hfix : KeepsAscii fix) {d : Dev} {blocked : Bool}
    (hcanon : isCanonical d.mac = true) (hplain : d.Plain) {shownAt : Option (Option Device)}
    (h : shownAt.map (Option.map Device.seenless) =
      some (some (deviceOf (rereadDev fix { d.unseen with blocked := blocked })).seenless)) :
    ∃ dev, shownAt = some (some dev) ∧ IsShown fix d blocked dev := by
  obtain ⟨dev, hdev, hseen⟩ := lookup_of_seenless h
  have hexp := hplain.1
  unfold PlainNumber at hexp
  have hdouble : toDouble d.leaseExpires = d.leaseExpires := toDouble_small (by omega)
  refine ⟨dev, hdev, ?_, ?_, ?_, ?_, ?_⟩
  · change dev.seenless.mac = d.mac
    rw [hseen]
    exact rereadDev_mac hfix (d := d.unseen) hcanon
  · change dev.seenless.ip = _
    rw [hseen]
    rfl
  · change dev.seenless.hostname = _
    rw [hseen]
    rfl
  · change dev.seenless.blocked = _
    rw [hseen]
    rfl
  · change dev.seenless.leaseExpires = d.leaseExpires
    rw [hseen]
    exact hdouble

theorem shows_toggled {fix : Str → Str} (hfix : KeepsAscii fix) {id : Str} {records : List Dev}
    {S : Finset Mac} {snapshot : List Dev}
    (hshown : ∀ e ∈ snapshot, shown records S e.mac = some e.unseen)
    (hcanon : ∀ e ∈ snapshot, isCanonical e.mac = true) (hplain : ∀ e ∈ snapshot, e.Plain) {d : Dev}
    (hd : d ∈ snapshot) {mac : Mac} (hmac : mac.text = d.mac) {block : Bool} {before after : Store}
    (hbefore : ShowsEntries fix id records S before)
    (hafter : ShowsEntries fix id records (toggled S mac block) after) :
    ShowsToggled fix id snapshot d (d.mac ∈ records.map Dev.mac) block before after := by
  have hentry : shown records S mac.text = some d.unseen := by
    rw [hmac]
    exact hshown d hd
  have htarget := hafter mac.text
  rw [shown_toggled hentry, hmac] at htarget
  constructor
  · intro hin
    rw [if_pos hin] at htarget
    exact isShown_of_lookup hfix (hcanon d hd) (hplain d hd) htarget
  · intro hblock hleased
    rw [if_neg (not_or.mpr ⟨by rw [hblock]; decide, hleased⟩)] at htarget
    exact Option.map_eq_none_iff.mp htarget
  · intro e he
    have hlook := hbefore e.mac
    rw [hshown e he] at hlook
    exact isShown_of_lookup hfix (hcanon e he) (hplain e he) hlook
  · intro k hk
    rw [hafter, hbefore, shown_toggled_of_ne (by rwa [hmac])]

/-- What the round trip is about: a device id that can be routed, an nft that works, a lease file that
    nothing changes, and a clock whose readings are plain. -/
structure Setting (h : Host κ) (cfg : Config) (set : κ → Finset Mac) (path : Str) : Prop where
  routable : cfg.Routable
  works : NftWorks h cfg set
  file : Steady h cfg fun k => h.fopen path k
  clock : ∀ k, PlainNumber (h.time k).1

/-- A command for the device `d` with the address `mac`, handled after the republish of `l` in `w`: the
    daemon of the router takes it and no other, the set changes as asked, and once the web app has handled
    what was published, its store shows it. -/
structure Toggles (h : Host κ) (cfg : Config) (set : κ → Finset Mac) (l : NpLeases) (w : World κ)
    (d : Dev) (mac : Mac) (block : Bool) (cmd : Command) : Prop where
  taken : parseAction cmd.topic cfg.deviceId = some (actionOf block)
  untaken : ∀ id, id ≠ cfg.deviceId → parseAction cmd.topic id = none
  set_eq : ∀ parse payload, Marshals parse payload cmd.body →
    set (npHandleMessage h parse cfg (some (npLeasesRepublish h cfg l w).1) cmd.topic payload
      (npLeasesRepublish h cfg l w).2).2.host = toggled (set w.host) mac block
  store : ∀ parse payload, Marshals parse payload cmd.body →
    ∀ webParse fix, KeepsAscii fix → ∀ xs ys,
      List.Forall₂ (Relays webParse fix cfg)
        (newsFrom w.trace (npLeasesRepublish h cfg l w).2.trace) xs →
      List.Forall₂ (Relays webParse fix cfg)
        (newsFrom (npLeasesRepublish h cfg l w).2.trace
          (npHandleMessage h parse cfg (some (npLeasesRepublish h cfg l w).1) cmd.topic payload
            (npLeasesRepublish h cfg l w).2).2.trace) ys →
      ∀ s, ∃ before after, deliverAll webParse xs s = .ok before ∧
        deliverAll webParse ys before = .ok after ∧
        ShowsToggled fix cfg.deviceId (npLeasesRepublish h cfg l w).1.list d
          (d.mac ∈ (leaseRecords (h.fopen l.path w.host)).map Dev.mac) block before after

/-- **The round trip of a toggle.** nft works and lists the set completely before and after, the table has
    room, the broker takes the command, and the numbers of the leases and the clock are plain
    (`PlainNumber`). What is said of the store rests on `Marshals` and `Relays`: that the daemon reads the
    command, and the web app the messages, as they were written. Of `last_seen` nothing is claimed. -/
theorem toggle_end_to_end {l : NpLeases} (hsetting : Setting h cfg set l.path) {w : World κ}
    (hexp : ∀ r ∈ leaseRecords (h.fopen l.path w.host), PlainNumber r.leaseExpires)
    (hroom : HasRoom (leaseRecords (h.fopen l.path w.host)) (set w.host)) {d : Dev}
    (hd : d ∈ (npLeasesRepublish h cfg l w).1.list) {mac : Mac} (hmac : mac.text = d.mac)
    {block : Bool} (hlisted : CompleteListing h cfg set (set w.host))
    (hlisted' : CompleteListing h cfg set (toggled (set w.host) mac block)) {m : Str}
    (hm : macRegexp m = true) (hspell : m.map canonChar = d.mac) {broker : Command → Option Str}
    (hbroker : ∀ cmd, broker cmd = none) (stamp : Str) :
    ∃ cmd, (doBlockUnblock broker stamp cfg.deviceId m block).1.status = 200 ∧
      (doBlockUnblock broker stamp cfg.deviceId m block).2 = some cmd ∧
      Toggles h cfg set l w d mac block cmd := by
  obtain ⟨hr, hw, hfile, hclock⟩ := hsetting
  have hlook : LooksUp h cfg set := ⟨hw.quiet.keepsAll.toKeepsAsking, hw.get⟩
  -- the request
  obtain ⟨hlow, hcanonical⟩ := lowered_spelling hm
  obtain ⟨body, hsend⟩ := doBlockUnblock_sends hbroker hr.nonempty hlow stamp block
  have hnorm : normMac (m.map tolower) = some mac := by
    rw [normMac_eq_some, npMacNormalize_groups hlow, hcanonical, hspell, hmac]
  rw [hsend]
  refine ⟨_, rfl, rfl, ?_⟩
  -- the republish before
  have hlist : (npLeasesRepublish h cfg l w).1.list = (rebuild h cfg l w).1.list := by
    rw [npLeasesRepublish_watcher]
  have hpath : (npLeasesRepublish h cfg l w).1.path = l.path := by
    rw [npLeasesRepublish_watcher]
  rw [hlist] at hd
  have hset₁ : set (npLeasesRepublish h cfg l w).2.host = set w.host :=
    hw.quiet.keepsAll.npLeasesRepublish l w
  have hfile₁ : h.fopen l.path (npLeasesRepublish h cfg l w).2.host = h.fopen l.path w.host :=
    hfile.toQuiet.keepsAll.npLeasesRepublish l w
  have hshown : ∀ e ∈ (rebuild h cfg l w).1.list,
      shown (leaseRecords (h.fopen l.path w.host)) (set w.host) e.mac = some e.unseen :=
    fun e he => rebuild_entry hlook hlisted hroom he
  have hroom' : HasRoom (leaseRecords (h.fopen l.path w.host)) (toggled (set w.host) mac block) :=
    toggled_room hroom (by rw [hmac, hshown d hd]; exact Option.some_ne_none _)
  have haction : actionOf block ≠ [] ∧ '/' ∉ actionOf block := by cases block <;> decide
  refine ⟨(parseAction_eq_some hr.prefixFits).mpr ⟨rfl, haction.1⟩,
    fun id hid => parseAction_other hr.oneLevel haction.2 hid, ?_, ?_⟩
  · intro parse payload hp
    obtain ⟨w', hrun, hset', _⟩ := command_handled hr hw hfile hlow hnorm block hp
      (npLeasesRepublish h cfg l w).1 (npLeasesRepublish h cfg l w).2
    change set (npHandleMessage h parse cfg _ (commandTopic cfg (actionOf block)) payload _).2.host = _
    rw [hrun, ← hset₁, ← hset']
    exact hw.quiet.keepsAll.npLeasesRepublish _ w'
  · intro parse payload hp webParse fix hfix xs ys hxs hys s
    obtain ⟨w', hrun, hset', hfile', answers, hanswers⟩ := command_handled hr hw hfile hlow hnorm
      block hp (npLeasesRepublish h cfg l w).1 (npLeasesRepublish h cfg l w).2
    rw [hset₁] at hset'
    rw [hfile₁] at hfile'
    change List.Forall₂ _ (newsFrom _ (npHandleMessage h parse cfg _ (commandTopic cfg (actionOf block))
      payload _).2.trace) ys at hys
    rw [hrun] at hys
    obtain ⟨events, t, hmsgs, hstore⟩ := republish_relayed hr hlook hclock l hexp hroom hlisted
    obtain ⟨events', t', hmsgs', hstore'⟩ := republish_relayed hr hlook hclock
      (npLeasesRepublish h cfg l w).1 (w := w') (by rwa [hpath, hfile'])
      (by rwa [hpath, hfile', hset']) (by rwa [hset'])
    rw [newsFrom_eq [] (by rw [hmsgs, List.map_nil, List.append_nil])] at hxs
    rw [newsFrom_eq answers (by rw [hmsgs', hanswers])] at hys
    obtain ⟨before, hbefore, hshowsBefore⟩ := hstore webParse fix hfix xs hxs s
    obtain ⟨after, hafter, hshowsAfter⟩ := hstore' webParse fix hfix ys hys before
    rw [hpath, hfile', hset'] at hshowsAfter
    refine ⟨before, after, hbefore, hafter, ?_⟩
    rw [hlist]
    exact shows_toggled hfix hshown (fun e he => rebuild_canonical h he)
      (rebuild_plain hclock hexp) hd hmac hshowsBefore hshowsAfter

end RoundTrip

/-! ## A router -/

/-- The machine of `Sim` at a fixed time. -/
def simAt (cfg : Config) (now : Int) : Host Sim := { Sim.host cfg with time := fun b => (now, b) }

theorem simAt_works (hfit : Sim.NamesFit cfg) (now : Int) :
    NftWorks (simAt cfg now) cfg Sim.blockedSet := by
  have hw := Sim.host_works hfit
  exact ⟨⟨hw.quiet.list, hw.quiet.get, fun _ => rfl, fun _ _ _ _ => rfl⟩, hw.fits, hw.add,
    hw.delete, hw.get⟩

theorem simAt_file (hfit : Sim.NamesFit cfg) (now : Int) (path : Str) :
    Steady (simAt cfg now) cfg fun k => (simAt cfg now).fopen path k where
  list := (Sim.host_quiet hfit Sim.file).list
  get := (Sim.host_quiet hfit Sim.file).get
  time _ := rfl
  publish _ _ _ _ := rfl
  add m b := congrArg (fun r : Option Proc × Sim => r.2.file) (Sim.popen_add hfit m b)
  delete m b := congrArg (fun r : Option Proc × Sim => r.2.file) (Sim.popen_delete hfit m b)

/-- A small set is listed completely. -/
theorem simAt_lists {now : Int} {S : Finset Mac} (hsmall : S.card ≤ 100) :
    CompleteListing (simAt cfg now) cfg Sim.blockedSet S := by
  rintro k rfl t
  have hheader := nftHeader_length (k.blocked.map Mac.text)
  have hcard : k.blocked.length ≤ 100 := by
    rwa [Sim.blockedSet, List.toFinset_card_of_nodup k.nodup] at hsmall
  have hcomplete : (npNftList (simAt cfg now) cfg { host := k }).1 = _ := npNftList_complete _ cfg
    (congrArg Prod.fst (Sim.popen_list k)) (nftListing_isListing text_groups)
    (Or.inr (by rw [List.length_map]; omega))
  rw [reportedMacs, hcomplete]
  exact (enumerates_texts k.nodup).mem_iff t

/-- A house with two leases. The second device is blocked. -/
def house : World Sim where
  host :=
    { blocked := [twoMac], nodup := List.nodup_singleton _, stat := none, clock := 0
      file := some ("100 02:00:00:00:00:01 10.0.0.2 tv *\n".toList ++
        "0 02:00:00:00:00:02 10.0.0.3 nas *\n".toList) }

def nas : Dev where
  mac := twoMac.text
  ip := "10.0.0.3".toList
  hostname := "nas".toList
  blocked := true
  leaseExpires := 0
  lastSeen := 60

/-- What is published around a block command, before it and after. -/
def houseNews : List (Int × List Dev ⊕ Event) := [.inl (60, [tvUntil 100 60, nas])]

def houseNews' : List (Int × List Dev ⊕ Event) :=
  [.inr (.changed { tvUntil 100 60 with blocked := true }),
    .inl (60, [{ tvUntil 100 60 with blocked := true }, nas])]

/-- A device of address, IP address and name as printed. -/
def deviceText (mac ip hostname blocked expires : Str) : Str :=
  "\x7b\"mac\":\"".toList ++ mac ++ "\",\"ip\":\"".toList ++ ip ++ "\",\"hostname\":\"".toList ++
    hostname ++ "\",\"blocked\":".toList ++ blocked ++ ",\"lease_expires\":".toList ++ expires ++
    ",\"last_seen\":60\x7d".toList

def tvText (blocked expires : Str) : Str :=
  deviceText "02:00:00:00:00:01".toList "10.0.0.2".toList "tv".toList blocked expires

def nasText : Str :=
  deviceText "02:00:00:00:00:02".toList "10.0.0.3".toList "nas".toList "true".toList ['0']

def devicesText (devices : Str) : Str :=
  "\x7b\"device_id\":\"router-1\",\"updated_at\":60,\"devices\":[".toList ++ devices ++ "]\x7d".toList

def changedEventText (device : Str) : Str :=
  "\x7b\"event\":\"changed\",\"device\":".toList ++ device ++ "\x7d".toList

def devicesMessage (devices : Str) (now : Int) : Message :=
  ⟨.devices, "netparent/router-1/devices".toList, devicesText devices, now⟩

def changedMessage (device : Str) (now : Int) : Message :=
  ⟨.event, "netparent/router-1/event/device".toList, changedEventText device, now⟩

/-- The messages that arrive. -/
def houseMessages : List Message :=
  [devicesMessage (tvText "false".toList "100".toList ++ ',' :: nasText) 61]

def houseMessages' : List Message :=
  [changedMessage (tvText "true".toList "100".toList) 62,
    devicesMessage (tvText "true".toList "100".toList ++ ',' :: nasText) 62]

def houseCommand : Command where
  topic := "netparent/router-1/cmd/block".toList
  body := .obj [("mac".toList, .str "02-00:00-00:00:01".toList), ("req_id".toList, .str "web-1".toList)]

def houseRepublished : NpLeases × World Sim :=
  npLeasesRepublish (simAt defaultConfig 60) defaultConfig (npLeasesCreate none) house

/-- The daemon with the command. -/
def houseHandled : Option NpLeases × World Sim :=
  npHandleMessage (simAt defaultConfig 60) Json.read defaultConfig (some houseRepublished.1)
    houseCommand.topic (macPayload "02-00:00-00:00:01".toList "web-1".toList) houseRepublished.2

theorem house_relays : List.Forall₂ (Relays Json.read id defaultConfig)
    (newsFrom house.trace houseRepublished.2.trace) houseMessages := by
  have hnews : newsFrom house.trace houseRepublished.2.trace = houseNews.map ofNews :=
    eq_of_news (by decide +kernel)
  rw [hnews]
  exact .cons (relays_printed rfl rfl (by decide +kernel)) .nil

theorem house_relays' : List.Forall₂ (Relays Json.read id defaultConfig)
    (newsFrom houseRepublished.2.trace houseHandled.2.trace) houseMessages' := by
  have hnews : newsFrom houseRepublished.2.trace houseHandled.2.trace = houseNews'.map ofNews :=
    eq_of_news (by decide +kernel)
  rw [hnews]
  exact .cons (relays_printed rfl rfl (by decide +kernel))
    (.cons (relays_printed rfl rfl (by decide +kernel)) .nil)

/-- The first device is blocked under another spelling of its address; the texts go through `Json.read` at
    both ends. -/
theorem toggle_end_to_end_house :
    (doBlockUnblock (fun _ => none) ['1'] defaultConfig.deviceId "02-00:00-00:00:01".toList true).1.status =
      200 ∧
    (doBlockUnblock (fun _ => none) ['1'] defaultConfig.deviceId "02-00:00-00:00:01".toList true).2 =
      some houseCommand ∧
    houseRepublished.1.list = [tvUntil 100 60, nas] ∧
    houseHandled.2.host.blockedSet = {oneMac, twoMac} ∧
    ∃ before after, deliverAll Json.read houseMessages ∅ = .ok before ∧
      deliverAll Json.read houseMessages' before = .ok after ∧
      ShowsToggled id defaultConfig.deviceId houseRepublished.1.list (tvUntil 100 60)
        ((tvUntil 100 60).mac ∈ (leaseRecords house.host.file).map Dev.mac) true before after := by
  have hfit : Sim.NamesFit defaultConfig := by unfold Sim.NamesFit; decide
  have hround : ∃ cmd, (doBlockUnblock (fun _ => none) ['1'] defaultConfig.deviceId
        "02-00:00-00:00:01".toList true).1.status = 200 ∧
      (doBlockUnblock (fun _ => none) ['1'] defaultConfig.deviceId "02-00:00-00:00:01".toList true).2 =
        some cmd ∧
      Toggles (simAt defaultConfig 60) defaultConfig Sim.blockedSet (npLeasesCreate none) house
        (tvUntil 100 60) oneMac true cmd :=
    toggle_end_to_end
      ⟨⟨by decide, by decide, by decide⟩, simAt_works hfit 60, simAt_file hfit 60 _,
        fun _ => show PlainNumber 60 by decide⟩
      (by decide +kernel) (by unfold HasRoom; decide +kernel) (by decide +kernel) rfl
      (simAt_lists (by decide)) (simAt_lists (by decide)) (by decide) (by decide) (fun _ => rfl) ['1']
  obtain ⟨cmd, hstatus, hcmd, htoggles⟩ := hround
  obtain rfl : houseCommand = cmd := Option.some.inj hcmd
  have hread : Marshals Json.read (macPayload "02-00:00-00:00:01".toList "web-1".toList)
      houseCommand.body := ⟨by decide, Json.read_of_print rfl (by decide +kernel)⟩
  refine ⟨hstatus, hcmd, by decide +kernel, (htoggles.set_eq _ _ hread).trans (by decide +kernel), ?_⟩
  exact htoggles.store _ _ hread _ id (fun _ _ => rfl) _ _ house_relays house_relays' ∅

/-! ## A number too large -/

theorem deliverAll_dropped {xs : List Message}
    (hdrop : ∀ x ∈ xs, decodes parse x.payload x.sub = false) (s : Store) :
    deliverAll parse xs s = .ok s := by
  induction xs with
  | nil => rfl
  | cons x xs ih =>
    obtain ⟨hx, hxs⟩ := List.forall_mem_cons.mp hdrop
    rw [deliverAll_cons_ok (handle_dropped x.now s (Or.inr hx)), ih hxs]

/-- A house with one lease, whose expiry is the largest `long`. -/
def hugeLease : World Sim where
  host :=
    { blocked := [], nodup := List.nodup_nil, stat := none, clock := 0
      file := some "9223372036854775807 02:00:00:00:00:01 10.0.0.2 tv *\n".toList }

def hugeDev (blocked : Bool) : Dev := { tvUntil 9223372036854775807 60 with blocked := blocked }

/-- What is published around a block command, before it and after. -/
def hugeNews : List (Int × List Dev ⊕ Event) := [.inl (60, [hugeDev false])]

def hugeNews' : List (Int × List Dev ⊕ Event) :=
  [.inr (.changed (hugeDev true)), .inl (60, [hugeDev true])]

/-- The three messages, in the order of publishing. -/
def hugeMessages (expires : Str) : List Message :=
  [devicesMessage (tvText "false".toList expires) 61, changedMessage (tvText "true".toList expires) 62,
    devicesMessage (tvText "true".toList expires) 62]

/-- Printed as `expires`, the expiry keeps the device out of the store. -/
def Unshown (expires : Str) : Prop := ∃ after,
  deliverAll Json.read (hugeMessages expires) ∅ = .ok after ∧
    (after.devicesOf defaultConfig.deviceId).lookup oneMac.text = none

/-- With the largest expiry a device is blocked and not shown, whether cJSON prints the number with
    an exponent or not. -/
theorem huge_expiry_unshown :
    Setting (simAt defaultConfig 60) defaultConfig Sim.blockedSet (npLeasesCreate none).path ∧
    HasRoom (leaseRecords hugeLease.host.file) hugeLease.host.blockedSet ∧
    CompleteListing (simAt defaultConfig 60) defaultConfig Sim.blockedSet hugeLease.host.blockedSet ∧
    CompleteListing (simAt defaultConfig 60) defaultConfig Sim.blockedSet
      (toggled hugeLease.host.blockedSet oneMac true) ∧
    newsFrom hugeLease.trace
      (npLeasesRepublish (simAt defaultConfig 60) defaultConfig (npLeasesCreate none)
        hugeLease).2.trace = hugeNews.map ofNews ∧
    newsFrom (npLeasesRepublish (simAt defaultConfig 60) defaultConfig (npLeasesCreate none)
        hugeLease).2.trace
      (npHandleMessage (simAt defaultConfig 60) Json.read defaultConfig
        (some (npLeasesRepublish (simAt defaultConfig 60) defaultConfig (npLeasesCreate none)
          hugeLease).1) houseCommand.topic (macPayload oneMac.text "web-1".toList)
        (npLeasesRepublish (simAt defaultConfig 60) defaultConfig (npLeasesCreate none)
          hugeLease).2).2.trace = hugeNews'.map ofNews ∧
    Unshown "9.2233720368547758e+18".toList ∧ Unshown "9223372036854775808".toList := by
  have hfit : Sim.NamesFit defaultConfig := by unfold Sim.NamesFit; decide
  refine ⟨⟨⟨by decide, by decide, by decide⟩, simAt_works hfit 60, simAt_file hfit 60 _,
    fun _ => show PlainNumber 60 by decide⟩, by unfold HasRoom; decide +kernel,
    simAt_lists (by decide), simAt_lists (by decide), eq_of_news (by decide +kernel),
    eq_of_news (by decide +kernel), ?_, ?_⟩
  · exact ⟨∅, deliverAll_dropped (by decide +kernel) ∅, rfl⟩
  · exact ⟨∅, deliverAll_dropped (by decide +kernel) ∅, rfl⟩

end Web

end Netparent
