/-
  The messages of one command or one tick.

  Each comes as a batch: answers, and then either nothing or the events and the snapshot of one
  republish. So no command makes the daemon say anything about its status, and behind every event comes the
  snapshot it belongs to.
-/
import Netparent.Shell
import Netparent.Web.Toggle

namespace Netparent

/-- Answers, and then either nothing or the events and the snapshot of a republish. -/
def Batch (ms : List Msg) : Prop :=
  ∃ (answers : List (Str × Json)) (news : List Msg),
    ms = (answers.map fun a => Msg.response a.1 a.2) ++ news ∧
    (news = [] ∨ ∃ (events : List Event) (t : Int) (list : List Dev),
      news = events.map Msg.event ++ [.devices t list])

section Batch

variable {κ : Type} {h : Host κ} {cfg : Config}

theorem Batch.nil : Batch [] := ⟨[], [], rfl, Or.inl rfl⟩

theorem Batch.not_status {ms : List Msg} (hb : Batch ms) (online : Bool) : Msg.status online ∉ ms := by
  obtain ⟨answers, news, rfl, hnews⟩ := hb
  intro hm
  rcases List.mem_append.mp hm with hm | hm
  · obtain ⟨a, _, ha⟩ := List.mem_map.mp hm
    cases ha
  · rcases hnews with rfl | ⟨events, t, list, rfl⟩
    · cases hm
    · rcases List.mem_append.mp hm with hm | hm
      · obtain ⟨e, _, he⟩ := List.mem_map.mp hm
        cases he
      · cases List.mem_singleton.mp hm

/-- The world `w'` follows `w` with a batch of messages. -/
def Follows (w w' : World κ) : Prop :=
  ∃ ms, messagesOf w'.trace = messagesOf w.trace ++ ms ∧ Batch ms

theorem Follows.of_eq {w w' : World κ} (hm : messagesOf w'.trace = messagesOf w.trace) :
    Follows w w' := ⟨[], by rw [hm, List.append_nil], Batch.nil⟩

theorem reply_follows {w w' : World κ} (hm : messagesOf w'.trace = messagesOf w.trace)
    (reqId : Option Str) (ok : Bool) (action key val : Str) :
    Follows w (reply h cfg reqId ok action key val w') := by
  obtain ⟨answers, ha⟩ := reply_messages h cfg reqId ok action key val w'
  exact ⟨_, by rw [ha, hm], answers, [], (List.append_nil _).symm, Or.inl rfl⟩

variable (h cfg) in
theorem npLeasesRepublish_news (l : NpLeases) (w : World κ) :
    ∃ (events : List Event) (t : Int) (list : List Dev),
      messagesOf (npLeasesRepublish h cfg l w).2.trace =
        messagesOf w.trace ++ (events.map Msg.event ++ [.devices t list]) := by
  obtain ⟨t, ht⟩ := npLeasesRepublish_messages h cfg l w
  rw [List.append_assoc] at ht
  refine ⟨if l.firstRun then [] else diffEvents l.prev (rebuild h cfg l w).1.list, t,
    (rebuild h cfg l w).1.list, ?_⟩
  rw [ht]
  split <;> rfl

/-- A toggle answers, and republishes when the wrapper returned 0. -/
theorem toggleCommand_follows {nft : Config → Str → World κ → Int × World κ}
    (hnft : ∀ mac w, sentOf (nft cfg mac w).2.trace = sentOf w.trace) (failed : Str)
    (leases : Option NpLeases) (action : Str) (mac reqId : Option Str) (w : World κ) :
    Follows w (toggleCommand h nft failed cfg leases action mac reqId w).2 := by
  have hsame : ∀ mac, messagesOf (nft cfg mac w).2.trace = messagesOf w.trace := fun mac =>
    congrArg (List.map Prod.fst) (hnft mac w)
  unfold toggleCommand
  cases mac with
  | none => exact reply_follows rfl _ _ _ _ _
  | some mac =>
    dsimp only
    split
    · exact reply_follows (hsame mac) _ _ _ _ _
    · obtain ⟨answers, ha⟩ := reply_messages h cfg reqId true action "mac".toList mac (nft cfg mac w).2
      rw [hsame mac] at ha
      cases leases with
      | none => exact ⟨_, ha, answers, [], (List.append_nil _).symm, Or.inl rfl⟩
      | some l =>
        obtain ⟨events, t, list, hnews⟩ := npLeasesRepublish_news h cfg l
          (reply h cfg reqId true action "mac".toList mac (nft cfg mac w).2)
        rw [ha, List.append_assoc] at hnews
        exact ⟨_, hnews, answers, _, rfl, Or.inr ⟨events, t, list, rfl⟩⟩

theorem perform_follows (leases : Option NpLeases) (r : Request) (w : World κ) :
    Follows w (perform h cfg leases r w).2 := by
  have hk : Keeps h cfg fun w => messagesOf w.trace := messages_keeps
  unfold perform
  split
  · exact toggleCommand_follows (npNftBlock_sent cfg) _ _ _ _ _ w
  split
  · exact toggleCommand_follows (npNftUnblock_sent cfg) _ _ _ _ _ w
  split
  · unfold statusCommand
    split
    · exact reply_follows rfl _ _ _ _ _
    · dsimp only
      split
      · exact reply_follows (hk.npNftIsBlocked _ w) _ _ _ _ _
      · exact reply_follows (hk.npNftIsBlocked _ w) _ _ _ _ _
  split
  · unfold listCommand
    split
    · exact Follows.of_eq (hk.npNftList w)
    · next q _ =>
      refine ⟨_, (publish_messages h cfg _ _).trans (congrArg (· ++ _) (hk.npNftList w)),
        [(q, listBody r.action ((npNftList h cfg w).1.getD []))], [], rfl, Or.inl rfl⟩
  split
  · exact reply_follows rfl _ _ _ _ _
  · exact reply_follows rfl _ _ _ _ _

variable (h cfg) in
/-- Whatever the daemon reacts to, it publishes a batch. -/
theorem serve_follows (parse : Str → Option Json) (s : Option NpLeases × World κ) (input : Input) :
    Follows s.2 (serve h parse cfg s input).2 := by
  cases input with
  | message topic payload =>
    unfold serve
    dsimp only
    rw [npHandleMessage_eq]
    split
    · exact Follows.of_eq rfl
    · exact perform_follows _ _ _
  | poll =>
    unfold serve
    dsimp only
    split
    · exact Follows.of_eq rfl
    · next l _ =>
      rcases npLeasesPoll_cases h cfg l s.2 with ⟨_, l', _, _, heq⟩ | ⟨_, heq⟩
      · obtain ⟨events, t, list, hnews⟩ := npLeasesRepublish_news h cfg l' s.2
        rw [heq]
        exact ⟨_, hnews, [], _, rfl, Or.inr ⟨events, t, list, rfl⟩⟩
      · rw [heq]
        exact Follows.of_eq rfl

end Batch

end Netparent
