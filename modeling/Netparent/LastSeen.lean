/-
  `last_seen` over a run of rebuilds: when it goes backwards.

  A line of the lease file stamps its record with the clock, a reported address brings no time,
  and nothing of the list before is kept. So an entry's `last_seen` is the last reading for its
  address in this very rebuild (`rebuild_field`), and 0 for an address that is only reported.
  Readings grow from rebuild to rebuild. What is left to lose is the lease: the field goes back
  exactly at an address that is listed twice in a row, first with a lease and then without
  (`lastSeen_forward_iff`).
-/
import Netparent.Marking

namespace Netparent

/-! ## Readings of the clock -/

section Host

variable {κ : Type} (h : Host κ)

/-- What the clock shows while the lines are read, at each line that is taken. -/
def clockReadings : List Str → World κ → List Int
  | [], _ => []
  | line :: lines, w =>
      let p := parseLeaseLine h (cstr line) w
      (if p.1.isSome then [(w.time h).1] else []) ++ clockReadings lines p.2

theorem parsedLines_stamps (lines : List Str) (w : World κ) :
    (parsedLines h lines w).1.map Dev.lastSeen = clockReadings h lines w := by
  induction lines generalizing w with
  | nil => rfl
  | cons line lines ih =>
    rw [parsedLines, clockReadings]
    dsimp only
    rw [List.map_append, ih]
    cases hp : (parseLeaseLine h (cstr line) w).1 with
    | none => rfl
    | some d =>
      rw [← parseLeaseLine_lastSeen h hp]
      rfl

end Host

/-! ## Runs -/

/-- A rebuild's circumstances: the machine, and the state it is in. -/
structure Moment (κ : Type) where
  host : Host κ
  world : World κ

variable {κ : Type}

/-- The lists a run of rebuilds leaves, each rebuild on the watcher the one before left. -/
def rebuilds (cfg : Config) (l : NpLeases) : List (Moment κ) → List (List Dev)
  | [] => []
  | m :: ms =>
      let r := (rebuild m.host cfg l m.world).1
      r.list :: rebuilds cfg r ms

/-- What the clock shows during a rebuild. -/
def Moment.readings (path : Str) (m : Moment κ) : List Int :=
  let r := m.world.fopen m.host path
  match r.1 with
  | some content => clockReadings m.host (fgetsLines 512 content) r.2
  | none => []

/-- The clock never goes back. -/
def ClockForward (path : Str) (ms : List (Moment κ)) : Prop :=
  (ms.flatMap (Moment.readings path)).Pairwise (· ≤ ·)

/-- No address that is in both lists was seen later in the old one. -/
def SeenForward (old new : List Dev) : Prop :=
  ∀ d ∈ old, ∀ e ∈ new, d.mac = e.mac → d.lastSeen ≤ e.lastSeen

/-- The addresses the table has room for, of the file's and then the reported ones. -/
def Moment.macs (cfg : Config) (path : Str) (m : Moment κ) : List Str :=
  firstMacs (mergedRecords m.host cfg path m.world)

/-- The file holds a lease of `mac`, read when the clock showed `t`. -/
def Moment.LeasedAt (path : Str) (m : Moment κ) (mac : Str) (t : Int) : Prop :=
  ∃ d ∈ (fileRecords m.host path m.world).1, d.mac = mac ∧ d.lastSeen = t

def Moment.Leased (path : Str) (m : Moment κ) (mac : Str) : Prop := ∃ t, m.LeasedAt path mac t

/-- An address that stays listed does not lose a lease that was read after 1970; and, times before
    that being negative, it does not gain one that was read then. -/
def LeaseStays (cfg : Config) (path : Str) (m m' : Moment κ) : Prop :=
  ∀ mac ∈ m.macs cfg path, mac ∈ m'.macs cfg path →
    ((∃ t, m.LeasedAt path mac t ∧ 0 < t) → m'.Leased path mac) ∧
    ((∃ t, m'.LeasedAt path mac t ∧ t < 0) → (∀ t, m'.LeasedAt path mac t → t ≤ 0) →
      m.Leased path mac)

/-! ## One rebuild -/

theorem Moment.readings_eq (path : Str) (m : Moment κ) :
    m.readings path = (fileRecords m.host path m.world).1.map Dev.lastSeen := by
  unfold Moment.readings fileRecords
  cases hf : (m.world.fopen m.host path).1 with
  | none => simp only [hf, List.map_nil]
  | some content => simp only [hf, parsedLines_stamps]

theorem Moment.mem_macs {cfg : Config} {l : NpLeases} {m : Moment κ} {mac : Str} :
    mac ∈ (rebuild m.host cfg l m.world).1.list.map Dev.mac ↔ mac ∈ m.macs cfg l.path := by
  rw [(rebuild_macs_perm m.host cfg l m.world).mem_iff, merge_macs]
  rfl

/-- The clock at the last lease of `mac`, 0 without one. -/
def Moment.lastReading (path : Str) (m : Moment κ) (mac : Str) : Int :=
  lastOf Dev.lastSeen 0 mac (fileRecords m.host path m.world).1

/-- An entry's `last_seen` is the last reading for its address in this rebuild. -/
theorem rebuild_lastSeen {cfg : Config} {l : NpLeases} {m : Moment κ} {d : Dev}
    (hd : d ∈ (rebuild m.host cfg l m.world).1.list) :
    d.lastSeen = m.lastReading l.path d.mac :=
  rebuild_field m.host prefers_lastSeen (fun _ => rfl) (fun _ => rfl) hd

/-- An address without records has no value. -/
theorem lastOf_of_not_mem {β : Type} [DecidableEq β] {sel : Dev → β} {zero : β} {mac : Str}
    {records : List Dev} (hm : mac ∉ records.map Dev.mac) : lastOf sel zero mac records = zero := by
  refine Register.final_of_untouched (fun r hr => ?_) _
  have hne : r.mac ≠ mac := fun he => hm (he ▸ List.mem_map_of_mem hr)
  simp [hne]

theorem lastOf_concat {β : Type} [DecidableEq β] (sel : Dev → β) (zero : β) (mac : Str)
    (records : List Dev) (d : Dev) : lastOf sel zero mac (records ++ [d]) =
      if d.mac = mac ∧ sel d ≠ zero then sel d else lastOf sel zero mac records := by
  rw [lastOf, Register.final_append, Register.final_cons, Register.final_nil]
  split <;> rfl

/-- An address with records has the field of one of them. -/
theorem lastOf_mem {β : Type} [DecidableEq β] {sel : Dev → β} {zero : β} {mac : Str}
    {records : List Dev} (hm : mac ∈ records.map Dev.mac) :
    ∃ d ∈ records, d.mac = mac ∧ sel d = lastOf sel zero mac records := by
  induction records using List.reverseRecOn with
  | nil => cases hm
  | append_singleton records d ih =>
    rw [lastOf_concat]
    by_cases hd : d.mac = mac ∧ sel d ≠ zero
    · exact ⟨d, by simp, hd.1, (if_pos hd).symm⟩
    · rw [if_neg hd]
      by_cases hrec : mac ∈ records.map Dev.mac
      · obtain ⟨e, he, hmac, hsel⟩ := ih hrec
        exact ⟨e, List.mem_append_left _ he, hmac, hsel⟩
      · -- the only record, and it has no value
        have hmac : d.mac = mac := by
          rw [List.map_append, List.mem_append] at hm
          exact (List.mem_singleton.mp (hm.resolve_left hrec)).symm
        have hzero : sel d = zero := by
          by_contra hne
          exact hd ⟨hmac, hne⟩
        exact ⟨d, by simp, hmac, hzero.trans (lastOf_of_not_mem hrec).symm⟩

/-- A value of a record is not lost, and in records with ascending values it is at most the last. -/
theorem le_lastOf {mac : Str} {records : List Dev} (hp : (records.map Dev.lastSeen).Pairwise (· ≤ ·))
    {d : Dev} (hd : d ∈ records) (hmac : d.mac = mac) (hne : d.lastSeen ≠ 0) :
    d.lastSeen ≤ lastOf Dev.lastSeen 0 mac records ∧ lastOf Dev.lastSeen 0 mac records ≠ 0 := by
  induction records using List.reverseRecOn with
  | nil => cases hd
  | append_singleton records e ih =>
    rw [List.map_append, List.pairwise_append] at hp
    rw [lastOf_concat]
    rcases List.mem_append.mp hd with hd | hd
    · split
      · next he => exact ⟨hp.2.2 _ (List.mem_map_of_mem hd) _ List.mem_cons_self, he.2⟩
      · exact ih hp.1 hd
    · obtain rfl := List.mem_singleton.mp hd
      rw [if_pos ⟨hmac, hne⟩]
      exact ⟨le_refl _, hne⟩

section Reading

variable {path : Str} {m : Moment κ} {mac : Str}

theorem Moment.leased_iff :
    m.Leased path mac ↔ mac ∈ (fileRecords m.host path m.world).1.map Dev.mac := by
  rw [List.mem_map]
  constructor
  · rintro ⟨t, d, hd, hmac, -⟩
    exact ⟨d, hd, hmac⟩
  · rintro ⟨d, hd, hmac⟩
    exact ⟨d.lastSeen, d, hd, hmac, rfl⟩

theorem Moment.LeasedAt.mem_readings {t : Int} (h : m.LeasedAt path mac t) : t ∈ m.readings path := by
  obtain ⟨d, hd, -, rfl⟩ := h
  rw [Moment.readings_eq]
  exact List.mem_map_of_mem hd

theorem Moment.leasedAt_lastReading (h : m.Leased path mac) :
    m.LeasedAt path mac (m.lastReading path mac) :=
  lastOf_mem (Moment.leased_iff.mp h)

theorem Moment.lastReading_of_not_leased (h : ¬ m.Leased path mac) : m.lastReading path mac = 0 :=
  lastOf_of_not_mem (mt Moment.leased_iff.mpr h)

theorem Moment.le_lastReading (hp : (m.readings path).Pairwise (· ≤ ·)) {t : Int}
    (h : m.LeasedAt path mac t) (hne : t ≠ 0) :
    t ≤ m.lastReading path mac ∧ m.lastReading path mac ≠ 0 := by
  obtain ⟨d, hd, hmac, rfl⟩ := h
  rw [Moment.readings_eq] at hp
  exact le_lastOf hp hd hmac hne

theorem Moment.lastReading_pos (hp : (m.readings path).Pairwise (· ≤ ·)) :
    0 < m.lastReading path mac ↔ ∃ t, m.LeasedAt path mac t ∧ 0 < t := by
  constructor
  · intro hpos
    refine ⟨m.lastReading path mac, Moment.leasedAt_lastReading ?_, hpos⟩
    by_contra hno
    rw [Moment.lastReading_of_not_leased hno] at hpos
    omega
  · rintro ⟨t, ht, hpos⟩
    have hle := (Moment.le_lastReading hp ht (by omega)).1
    omega

theorem Moment.lastReading_neg (hp : (m.readings path).Pairwise (· ≤ ·)) :
    m.lastReading path mac < 0 ↔
      (∃ t, m.LeasedAt path mac t ∧ t < 0) ∧ ∀ t, m.LeasedAt path mac t → t ≤ 0 := by
  constructor
  · intro hneg
    refine ⟨⟨m.lastReading path mac, Moment.leasedAt_lastReading ?_, hneg⟩, fun t ht => ?_⟩
    · by_contra hno
      rw [Moment.lastReading_of_not_leased hno] at hneg
      omega
    · by_contra hpos
      have := (Moment.lastReading_pos hp).mpr ⟨t, ht, by omega⟩
      omega
  · rintro ⟨⟨t, ht, hneg⟩, hall⟩
    have hne := (Moment.le_lastReading hp ht (by omega)).2
    have hle := hall _ (Moment.leasedAt_lastReading ⟨t, ht⟩)
    omega

end Reading

/-! ## Two rebuilds in a row -/

/-- The step lemma. -/
theorem seenForward_iff {cfg : Config} {l l' : NpLeases} (hl : l'.path = l.path) {m m' : Moment κ}
    (hclock : ClockForward l.path [m, m']) :
    SeenForward (rebuild m.host cfg l m.world).1.list (rebuild m'.host cfg l' m'.world).1.list ↔
      LeaseStays cfg l.path m m' := by
  have hmacs : SeenForward (rebuild m.host cfg l m.world).1.list
        (rebuild m'.host cfg l' m'.world).1.list ↔
      ∀ mac ∈ m.macs cfg l.path, mac ∈ m'.macs cfg l.path →
        m.lastReading l.path mac ≤ m'.lastReading l.path mac := by
    constructor
    · intro hs mac hm hm'
      rw [← hl] at hm'
      obtain ⟨d, hd, rfl⟩ := List.mem_map.mp (Moment.mem_macs.mpr hm)
      obtain ⟨e, he, hmac⟩ := List.mem_map.mp (Moment.mem_macs.mpr hm')
      have hle := hs d hd e he hmac.symm
      rwa [rebuild_lastSeen hd, rebuild_lastSeen he, hmac, hl] at hle
    · intro hs d hd e he hmac
      have hm := Moment.mem_macs.mp (List.mem_map_of_mem hd)
      have hm' := Moment.mem_macs.mp (List.mem_map_of_mem he)
      rw [hl, ← hmac] at hm'
      rw [rebuild_lastSeen hd, rebuild_lastSeen he, hl, ← hmac]
      exact hs d.mac hm hm'
  obtain ⟨hp, hp', hle⟩ : (m.readings l.path).Pairwise (· ≤ ·) ∧
      (m'.readings l.path).Pairwise (· ≤ ·) ∧
        ∀ a ∈ m.readings l.path, ∀ b ∈ m'.readings l.path, a ≤ b := by
    simpa [ClockForward, List.pairwise_append] using hclock
  rw [hmacs]
  refine forall_congr' fun mac => imp_congr_right fun _ => imp_congr_right fun _ => ?_
  rw [← Moment.lastReading_pos hp, ← and_imp, ← Moment.lastReading_neg hp']
  by_cases hm : m.Leased l.path mac
  · by_cases hm' : m'.Leased l.path mac
    · have hseen := hle _ (Moment.leasedAt_lastReading hm).mem_readings _
        (Moment.leasedAt_lastReading hm').mem_readings
      exact iff_of_true hseen ⟨fun _ => hm', fun _ => hm⟩
    · -- the lease is gone, and with it the time
      rw [Moment.lastReading_of_not_leased hm']
      exact ⟨fun hseen => ⟨fun hpos => by omega, fun _ => hm⟩,
        fun hstays => not_lt.mp fun hpos => hm' (hstays.1 hpos)⟩
  · rw [Moment.lastReading_of_not_leased hm]
    exact ⟨fun hseen => ⟨fun hpos => by omega, fun hneg => by omega⟩,
      fun hstays => not_lt.mp fun hneg => hm (hstays.2 hneg)⟩

/-! ## A run of rebuilds -/

theorem rebuilds_eq_map (cfg : Config) (l : NpLeases) (ms : List (Moment κ)) :
    rebuilds cfg l ms = ms.map fun m => (rebuild m.host cfg l m.world).1.list := by
  induction ms generalizing l with
  | nil => rfl
  | cons m ms ih =>
    rw [rebuilds, ih, List.map_cons]
    -- a rebuild takes nothing but the path from the watcher
    rfl

/-- **`last_seen` over a run.** With a clock that never goes back, no list of the run has an address
    with an earlier `last_seen` than the list before, exactly when no address stays listed while
    it loses its lease. -/
theorem lastSeen_forward_iff (cfg : Config) (l : NpLeases) (ms : List (Moment κ))
    (hclock : ClockForward l.path ms) :
    (rebuilds cfg l ms).IsChain SeenForward ↔ ms.IsChain (LeaseStays cfg l.path) := by
  rw [rebuilds_eq_map, List.isChain_map]
  induction ms with
  | nil => exact iff_of_true .nil .nil
  | cons m ms ih =>
    have hrest : ClockForward l.path ms := (List.pairwise_append.mp hclock).2.1
    rw [List.isChain_cons, List.isChain_cons]
    refine and_congr (forall_congr' fun m' => imp_congr_right fun hm' => ?_) (ih hrest)
    have hnext : [m, m'].Sublist (m :: ms) :=
      (List.singleton_sublist.mpr (List.mem_of_mem_head? hm')).cons_cons m
    exact seenForward_iff rfl (hclock.sublist (hnext.flatMap _))

/-- A blocked device, with this lease file, at this time. -/
def blockedAt (file : Str) (now : Int) : Moment Unit where
  host := { listingHost ["11:22:33:44:55:66".toList] (some file) with time := fun k => (now, k) }
  world := { host := () }

/-- One lease, of that device. -/
def itsLease : Str := "1716480000 11:22:33:44:55:66 192.168.1.43 tv *\n".toList

/-- The lease is there both times. -/
theorem lastSeen_forward_renewed : (rebuilds defaultConfig (npLeasesCreate none)
    [blockedAt itsLease 1716470000, blockedAt itsLease 1716480000]).IsChain SeenForward := by
  refine (lastSeen_forward_iff defaultConfig (npLeasesCreate none)
    [blockedAt itsLease 1716470000, blockedAt itsLease 1716480000]
    (by unfold ClockForward; decide +kernel)).mpr (List.isChain_pair.mpr fun mac hm _ => ?_)
  have hmac : mac = "11:22:33:44:55:66".toList := by
    have hmacs : (blockedAt itsLease 1716470000).macs defaultConfig (npLeasesCreate none).path =
        ["11:22:33:44:55:66".toList] := by decide +kernel
    rw [hmacs] at hm
    exact List.mem_singleton.mp hm
  subst hmac
  exact ⟨fun _ => Moment.leased_iff.mpr (by decide +kernel),
    fun _ _ => Moment.leased_iff.mpr (by decide +kernel)⟩

/-- The lease expires, the device stays blocked, and when it was last seen is forgotten. -/
theorem expired_lease_forgotten :
    ClockForward (npLeasesCreate none).path [blockedAt itsLease 1716470000, blockedAt [] 1716480000] ∧
    ¬ (rebuilds defaultConfig (npLeasesCreate none)
      [blockedAt itsLease 1716470000, blockedAt [] 1716480000]).IsChain SeenForward := by
  have hlists : rebuilds defaultConfig (npLeasesCreate none)
      [blockedAt itsLease 1716470000, blockedAt [] 1716480000] =
      [[{ mac := "11:22:33:44:55:66".toList, ip := "192.168.1.43".toList, hostname := "tv".toList,
          blocked := true, leaseExpires := 1716480000, lastSeen := 1716470000 }],
        [{ mac := "11:22:33:44:55:66".toList, blocked := true }]] := by
    decide +kernel
  refine ⟨by unfold ClockForward; decide +kernel, fun hchain => ?_⟩
  rw [hlists, List.isChain_pair] at hchain
  have hle : (1716470000 : Int) ≤ 0 := hchain _ List.mem_cons_self _ List.mem_cons_self rfl
  omega

end Netparent
