/-
  `DevicesList` (store.go): the devices of a router in the order the dashboard shows them.

  Go visits a map in any order and `sort.Slice` is not stable, so the list is given as a relation:
  `DevicesList m out` says that `out` can be the result for the map `m`. `StoreCall` and `runCalls` are
  the histories of a store. After any of them each device is stored under its own MAC
  (`runCalls_latest`), the comparison tells the devices of a router apart, and there is one list
  (`devicesList_determined`). `documented_iff` is about the order itself: the comment on the
  comparison promises one that ignores case, and the comparison is by bytes.
-/
import Netparent.Lib.Register
import Netparent.Lib.SliceSort
import Netparent.Web.Safety

namespace Netparent.Web

open Register (final)
open SliceSort (IsSort)

/-! ## The comparison -/

/-- The comparison given to `sort.Slice`. -/
def less (a b : Device) : Bool :=
  if (a.hostname == []) != (b.hostname == []) then a.hostname != []
  else if a.hostname != b.hostname then a.hostname < b.hostname
  else a.mac < b.mac

theorem less_iff {a b : Device} : less a b = true ↔
    (a.hostname ≠ [] ∧ b.hostname = []) ∨
      (a.hostname ≠ [] ∧ b.hostname ≠ [] ∧ a.hostname < b.hostname) ∨
        (a.hostname = b.hostname ∧ a.mac < b.mac) := by
  unfold less
  by_cases ha : a.hostname = []
  · by_cases hb : b.hostname = []
    · simp [ha, hb]
    · have hb' : [] ≠ b.hostname := Ne.symm hb
      simp [ha, hb, hb']
  · by_cases hb : b.hostname = []
    · simp [ha, hb]
    · have hsame : ((a.hostname == []) != (b.hostname == [])) = false := by
        rw [beq_eq_false_iff_ne.mpr ha, beq_eq_false_iff_ne.mpr hb]
        rfl
      rw [hsame, if_neg Bool.false_ne_true]
      by_cases heq : a.hostname = b.hostname
      · simp [hb, heq]
      · simp [ha, hb, heq]

/-- What the comparison looks at, most significant first. -/
def sortKey (d : Device) : Bool ×ₗ Str ×ₗ Str :=
  toLex (decide (d.hostname = []), toLex (d.hostname, d.mac))

theorem less_iff_key {a b : Device} : less a b = true ↔ sortKey a < sortKey b := by
  rw [less_iff, sortKey, sortKey, Prod.Lex.toLex_lt_toLex, Prod.Lex.toLex_lt_toLex]
  by_cases ha : a.hostname = []
  · by_cases hb : b.hostname = []
    · simp [ha, hb]
    · have hb' : [] ≠ b.hostname := Ne.symm hb
      simp [ha, hb, hb']
  · by_cases hb : b.hostname = []
    · simp [ha, hb]
    · simp [ha, hb]

theorem less_eq_false_iff {a b : Device} : less a b = false ↔ sortKey b ≤ sortKey a := by
  rw [← not_lt, ← less_iff_key, Bool.not_eq_true]

theorem less_irrefl (a : Device) : less a a = false := less_eq_false_iff.mpr (le_refl _)

theorem less_asymm (a b : Device) (h : less a b = true) : less b a = false :=
  less_eq_false_iff.mpr (less_iff_key.mp h).le

theorem less_negtrans (a b c : Device) (hab : less b a = false) (hbc : less c b = false) :
    less c a = false :=
  less_eq_false_iff.mpr ((less_eq_false_iff.mp hab).trans (less_eq_false_iff.mp hbc))

/-- Devices the comparison does not order have the same hostname and MAC. -/
theorem eq_of_tie {a b : Device} (hab : less a b = false) (hba : less b a = false) :
    a.hostname = b.hostname ∧ a.mac = b.mac := by
  have hkey : sortKey a = sortKey b :=
    le_antisymm (less_eq_false_iff.mp hba) (less_eq_false_iff.mp hab)
  have hpair := Prod.ext_iff.mp (toLex.injective (Prod.ext_iff.mp (toLex.injective hkey)).2)
  exact hpair

/-! ## DevicesList -/

/-- `visit` is the devices of the map in an order in which `range` can visit them. -/
def Visits (m : Devices) (visit : List Device) : Prop :=
  ((visit.map some : List (Option Device)) : Multiset (Option Device)) = m.entries.map Sigma.snd

/-- `out` can be the result of `DevicesList`: the devices as `range` visits them, sorted. -/
def DevicesList (m : Devices) (out : List Device) : Prop :=
  ∃ visit, Visits m visit ∧ IsSort less visit out

theorem Visits.mem_iff {m : Devices} {visit : List Device} (h : Visits m visit) {d : Device} :
    d ∈ visit ↔ ∃ k, m.lookup k = some (some d) := by
  have hmem : some d ∈ ((visit.map some : List (Option Device)) : Multiset (Option Device)) ↔
      d ∈ visit := by simp
  rw [← hmem, h, Multiset.mem_map]
  constructor
  · rintro ⟨e, he, hd⟩
    exact ⟨e.1, Finmap.lookup_eq_some_iff.mpr (hd ▸ he)⟩
  · rintro ⟨k, hk⟩
    exact ⟨⟨k, some d⟩, Finmap.lookup_eq_some_iff.mp hk, rfl⟩

/-- Any two visits are of the same devices. -/
theorem Visits.perm {m : Devices} {xs ys : List Device} (hx : Visits m xs) (hy : Visits m ys) :
    xs.Perm ys :=
  (List.map_perm_map_iff (Option.some_injective _)).mp (Multiset.coe_eq_coe.mp (hx.trans hy.symm))

/-- A map without nil devices can be visited. -/
theorem exists_visits {m : Devices} (hm : ¬ HasNil m) : ∃ visit, Visits m visit := by
  have hsome : ∀ v ∈ m.entries.map Sigma.snd, ∃ d : Device, some d = v := by
    intro v hv
    obtain ⟨e, he, rfl⟩ := Multiset.mem_map.mp hv
    cases hd : e.2 with
    | some d => exact ⟨d, rfl⟩
    | none =>
      have hl : m.lookup e.1 = some none := Finmap.lookup_eq_some_iff.mpr (hd ▸ he)
      exact absurd (hasNil_iff.mpr ⟨e.1, hl⟩) hm
  obtain ⟨visit, hvisit⟩ : (m.entries.map Sigma.snd).toList ∈ Set.range (List.map some) := by
    rw [Set.range_list_map]
    exact fun v hv => hsome v (Multiset.mem_toList.mp hv)
  exact ⟨visit, by rw [Visits, hvisit, Multiset.coe_toList]⟩

theorem exists_devicesList {m : Devices} (hm : ¬ HasNil m) : ∃ out, DevicesList m out := by
  obtain ⟨visit, hv⟩ := exists_visits hm
  obtain ⟨out, ho⟩ := SliceSort.exists_isSort less_asymm less_negtrans visit
  exact ⟨out, visit, hv, ho⟩

/-! ## Histories of a store -/

/-- A call of one of the methods that change the store. No device is null. -/
inductive StoreCall where
  | setOnline (id : Str) (online : Bool) (now : Int)
  | replaceDevices (id : Str) (updatedAt : Int) (devices : List Device) (now : Int)
  | upsertDevice (id : Str) (device : Device) (now : Int)
  | removeDevice (id mac : Str) (now : Int)

def StoreCall.run : StoreCall → Store → Except Fault Store
  | .setOnline id online now, s => .ok (s.setOnline id online now)
  | .replaceDevices id updatedAt devices now, s =>
      s.replaceDevices id updatedAt (devices.map some) now
  | .upsertDevice id device now, s => s.upsertDevice id (some device) now
  | .removeDevice id mac now, s => .ok (s.removeDevice id mac now)

def runCalls : List StoreCall → Store → Except Fault Store
  | [], s => .ok s
  | c :: cs, s => match c.run s with
      | .error e => .error e
      | .ok s' => runCalls cs s'

/-- What storing a device sets under `mac`. -/
def stores (mac : Str) (d : Device) : Option (Option Device) :=
  if d.mac = mac then some (some d) else none

/-- What a call sets under `mac` in router `id`: a device, or `some none` for nothing. A list with
    several devices of one MAC leaves the last of them. -/
def StoreCall.sets (id mac : Str) : StoreCall → Option (Option Device)
  | .setOnline _ _ _ => none
  | .replaceDevices id' _ devices _ =>
      if id' = id then some (final (stores mac) none devices) else none
  | .upsertDevice id' device _ => if id' = id then stores mac device else none
  | .removeDevice id' mac' _ => if id' = id ∧ mac' = mac then some none else none

/-- The device stored last under `mac` in router `id`, unless it was removed since. -/
def latest (calls : List StoreCall) (id mac : Str) : Option Device :=
  final (StoreCall.sets id mac) none calls

theorem devicesOf_insert (s : Store) (id : Str) (r : Router) (id' : Str) :
    Store.devicesOf (s.insert id r) id' = if id' = id then r.devices else s.devicesOf id' := by
  unfold Store.devicesOf Store.getOrCreate
  by_cases heq : id' = id
  · rw [if_pos heq, heq, Finmap.lookup_insert]
    rfl
  · rw [if_neg heq, Finmap.lookup_insert_of_ne _ heq]

theorem lookup_setDevice (m : Devices) (d : Device) (k : Str) {v : Option Device}
    (hv : m.lookup k = v.map some) :
    (m.insert d.mac (some d)).lookup k = ((stores k d).getD v).map some := by
  unfold stores
  by_cases heq : d.mac = k
  · rw [if_pos heq, ← heq, Finmap.lookup_insert]
    rfl
  · rw [if_neg heq, Finmap.lookup_insert_of_ne _ (Ne.symm heq), hv]
    rfl

/-- The loop of `ReplaceDevices` leaves the last device of each MAC. -/
theorem setDevices_latest (ds : List Device) (m : Devices) :
    ∃ m', setDevices (ds.map some) m = .ok m' ∧ ∀ k (v : Option Device),
      m.lookup k = v.map some → m'.lookup k = (final (stores k) v ds).map some := by
  induction ds generalizing m with
  | nil => exact ⟨m, rfl, fun k v hv => hv⟩
  | cons d ds ih =>
    obtain ⟨m', hm', hlook⟩ := ih (m.insert d.mac (some d))
    refine ⟨m', hm', fun k v hv => ?_⟩
    rw [Register.final_cons]
    exact hlook k _ (lookup_setDevice m d k hv)

theorem lookup_removeDevice (s : Store) (id mac : Str) (now : Int) (id' k : Str) :
    (Store.devicesOf (s.removeDevice id mac now) id').lookup k =
      if id = id' ∧ mac = k then none else (s.devicesOf id').lookup k := by
  cases hr : s.lookup id with
  | none =>
    -- no router, so nothing to remove
    rw [Store.removeDevice_none hr]
    by_cases heq : id = id' ∧ mac = k
    · rw [if_pos heq, ← heq.1, Store.devicesOf_none hr, Finmap.lookup_empty]
    · rw [if_neg heq]
  | some r =>
    rw [Store.removeDevice_some hr, devicesOf_insert]
    by_cases hid : id' = id
    · rw [if_pos hid, hid, Store.devicesOf_some hr]
      by_cases hk : mac = k
      · rw [if_pos ⟨rfl, hk⟩, hk, Finmap.lookup_erase]
      · rw [if_neg fun h => hk h.2, Finmap.lookup_erase_ne (Ne.symm hk)]
    · rw [if_neg hid, if_neg fun h => hid h.1.symm]

/-- The step lemma: a call succeeds, overwrites what it sets and leaves the rest alone. -/
theorem StoreCall.run_ok (c : StoreCall) (s : Store) : ∃ s', c.run s = .ok s' ∧
    ∀ id k (v : Option Device), (s.devicesOf id).lookup k = v.map some →
      (s'.devicesOf id).lookup k = ((c.sets id k).getD v).map some := by
  cases c with
  | setOnline id online now =>
    refine ⟨_, rfl, fun id' k v hv => ?_⟩
    rw [Store.setOnline, devicesOf_insert]
    split
    · next heq => rwa [heq] at hv
    · exact hv
  | replaceDevices id updatedAt devices now =>
    obtain ⟨m', hm', hlook⟩ := setDevices_latest devices ∅
    refine ⟨_, by rw [StoreCall.run, Store.replaceDevices, hm'], fun id' k v hv => ?_⟩
    rw [devicesOf_insert]
    by_cases heq : id' = id
    · rw [if_pos heq, StoreCall.sets, if_pos heq.symm]
      exact hlook k none (Finmap.lookup_empty k)
    · rw [if_neg heq, StoreCall.sets, if_neg (Ne.symm heq)]
      exact hv
  | upsertDevice id device now =>
    refine ⟨_, rfl, fun id' k v hv => ?_⟩
    rw [devicesOf_insert]
    by_cases heq : id' = id
    · rw [if_pos heq, StoreCall.sets, if_pos heq.symm]
      exact lookup_setDevice _ device k (heq ▸ hv)
    · rw [if_neg heq, StoreCall.sets, if_neg (Ne.symm heq)]
      exact hv
  | removeDevice id mac now =>
    refine ⟨_, rfl, fun id' k v hv => ?_⟩
    rw [lookup_removeDevice, StoreCall.sets]
    split
    · rfl
    · exact hv

/-- The run lemma: under each MAC of each router there is the device stored last. -/
theorem runCalls_ok (calls : List StoreCall) (s : Store) : ∃ s', runCalls calls s = .ok s' ∧
    ∀ id k (v : Option Device), (s.devicesOf id).lookup k = v.map some →
      (s'.devicesOf id).lookup k = (final (StoreCall.sets id k) v calls).map some := by
  induction calls generalizing s with
  | nil => exact ⟨s, rfl, fun id k v hv => hv⟩
  | cons c cs ih =>
    obtain ⟨s₁, hs₁, hstep⟩ := c.run_ok s
    obtain ⟨s', hs', hrun⟩ := ih s₁
    refine ⟨s', by rw [runCalls, hs₁]; exact hs', fun id k v hv => ?_⟩
    rw [Register.final_cons]
    exact hrun id k _ (hstep id k v hv)

theorem runCalls_latest (calls : List StoreCall) : ∃ s, runCalls calls ∅ = .ok s ∧
    ∀ id k, (s.devicesOf id).lookup k = (latest calls id k).map some := by
  obtain ⟨s, hs, hrun⟩ := runCalls_ok calls ∅
  exact ⟨s, hs, fun id k => hrun id k none rfl⟩

/-- A device is stored under its own MAC. -/
theorem stores_mac {k : Str} {d : Device} {v : Option Device} (h : stores k d = some v) :
    ∀ e, v = some e → e.mac = k := by
  unfold stores at h
  split at h
  · next heq =>
    rintro e rfl
    exact Option.some.inj (Option.some.inj h) ▸ heq
  · cases h

theorem sets_mac {id k : Str} {c : StoreCall} {v : Option Device} (h : c.sets id k = some v) :
    ∀ e, v = some e → e.mac = k := by
  cases c with
  | setOnline id' online now => cases h
  | replaceDevices id' updatedAt devices now =>
    rw [StoreCall.sets] at h
    split at h
    · obtain rfl := Option.some.inj h
      exact Register.final_forall (P := fun v : Option Device => ∀ e, v = some e → e.mac = k)
        (by rintro e ⟨⟩) fun _ _ _ hv => stores_mac hv
    · cases h
  | upsertDevice id' device now =>
    rw [StoreCall.sets] at h
    split at h
    · exact stores_mac h
    · cases h
  | removeDevice id' mac now =>
    rw [StoreCall.sets] at h
    split at h
    · obtain rfl := Option.some.inj h
      intro e he
      cases he
    · cases h

theorem latest_mac {calls : List StoreCall} {id k : Str} {d : Device} (h : latest calls id k = some d) :
    d.mac = k :=
  Register.final_forall (P := fun v : Option Device => ∀ e, v = some e → e.mac = k)
    (by rintro e ⟨⟩) (fun _ _ _ hv => sets_mac hv) d h

/-! ## One list for a map keyed by MAC -/

/-- Every device of the map is stored under its own MAC. -/
def KeyedByMac (m : Devices) : Prop := ∀ k v, m.lookup k = some v → ∃ d, v = some d ∧ d.mac = k

theorem KeyedByMac.not_hasNil {m : Devices} (hm : KeyedByMac m) : ¬ HasNil m := by
  rw [hasNil_iff]
  rintro ⟨k, hk⟩
  obtain ⟨d, hd, _⟩ := hm k none hk
  cases hd

theorem KeyedByMac.mem_visit {m : Devices} (hm : KeyedByMac m) {visit : List Device}
    (h : Visits m visit) {d : Device} : d ∈ visit ↔ m.lookup d.mac = some (some d) := by
  rw [h.mem_iff]
  constructor
  · rintro ⟨k, hk⟩
    obtain ⟨e, he, hmac⟩ := hm k _ hk
    obtain rfl := Option.some.inj he
    rwa [hmac]
  · intro hk
    exact ⟨d.mac, hk⟩

/-- A visit meets each MAC of the map once. -/
theorem KeyedByMac.macs {m : Devices} (hm : KeyedByMac m) {visit : List Device}
    (h : Visits m visit) : ((visit.map Device.mac : List Str) : Multiset Str) = m.entries.keys := by
  have hkey : ∀ e ∈ m.entries, e.2.elim [] Device.mac = e.1 := by
    intro e he
    obtain ⟨d, hd, hmac⟩ := hm e.1 e.2 (Finmap.lookup_eq_some_iff.mpr he)
    rw [hd]
    exact hmac
  calc ((visit.map Device.mac : List Str) : Multiset Str)
      = ((visit.map some : List (Option Device)) : Multiset (Option Device)).map
          fun v => v.elim [] Device.mac := by
        simp [Function.comp_def]
    _ = m.entries.map fun e => e.2.elim [] Device.mac := by rw [h, Multiset.map_map]; rfl
    _ = m.entries.keys := Multiset.map_congr rfl hkey

theorem KeyedByMac.nodup {m : Devices} (hm : KeyedByMac m) {visit : List Device}
    (h : Visits m visit) : (visit.map Device.mac).Nodup := by
  rw [← Multiset.coe_nodup, hm.macs h]
  exact m.nodupKeys.nodup_keys

/-- Two devices of one MAC are one device. -/
theorem KeyedByMac.eq_of_mac {m : Devices} (hm : KeyedByMac m) {visit : List Device}
    (h : Visits m visit) {a b : Device} (ha : a ∈ visit) (hb : b ∈ visit) (hab : a.mac = b.mac) :
    a = b := by
  have hla := (hm.mem_visit h).mp ha
  have hlb := (hm.mem_visit h).mp hb
  rw [hab, hlb] at hla
  exact (Option.some.inj (Option.some.inj hla)).symm

/-- Whatever the order of the visits and the sort, the list is the same. -/
theorem KeyedByMac.unique {m : Devices} (hm : KeyedByMac m) {out out' : List Device}
    (h : DevicesList m out) (h' : DevicesList m out') : out = out' := by
  obtain ⟨visit, hv, ho⟩ := h
  obtain ⟨visit', hv', ho'⟩ := h'
  refine ho.unique (fun a ha b hb hab hba => ?_) (ho'.of_perm (hv'.perm hv))
  exact hm.eq_of_mac hv ha hb (eq_of_tie hab hba).2

/-- Devices with a hostname come first in every list. -/
theorem named_first {m : Devices} {out : List Device} (h : DevicesList m out) :
    out.Pairwise fun a b => b.hostname ≠ [] → a.hostname ≠ [] := by
  obtain ⟨visit, _, ho⟩ := h
  refine ho.ordered.imp fun {a b} hba hb ha => ?_
  have hlt : less b a = true := less_iff.mpr (Or.inl ⟨hb, ha⟩)
  rw [hba] at hlt
  cases hlt

/-- A way to ignore letter case: hostnames it makes equal are the same apart from case. -/
structure CaseFold where
  fold : Str → Str
  fold_eq_nil : ∀ s, fold s = [] ↔ s = []

/-- The case of ASCII letters. -/
def asciiFold : CaseFold := ⟨List.map tolower, fun _ => List.map_eq_nil_iff⟩

/-- What the comment says of a device and one after it: hostnames first, alphabetical and
    case-insensitive, then by MAC. -/
structure InOrder (c : CaseFold) (a b : Device) : Prop where
  named : b.hostname ≠ [] → a.hostname ≠ []
  alphabetical : a.hostname ≠ [] → b.hostname ≠ [] → c.fold a.hostname ≠ c.fold b.hostname →
    c.fold a.hostname < c.fold b.hostname
  byMac : c.fold a.hostname = c.fold b.hostname → a.mac ≤ b.mac

/-- Two hostnames in the order of their bytes are in alphabetical order as well, or differ in case
    only and the MACs are in order. -/
def CaseAgrees (c : CaseFold) (a b : Device) : Prop :=
  a.hostname ≠ [] → a.hostname < b.hostname →
    c.fold a.hostname < c.fold b.hostname ∨
      (c.fold a.hostname = c.fold b.hostname ∧ a.mac ≤ b.mac)

theorem InOrder.of_tie (c : CaseFold) {a b : Device} (hab : less a b = false)
    (hba : less b a = false) : InOrder c a b := by
  obtain ⟨hname, hmac⟩ := eq_of_tie hab hba
  exact ⟨fun hb => hname ▸ hb, fun _ _ hne => absurd (hname ▸ rfl) hne, fun _ => hmac.le⟩

/-- Of the pairs the comparison orders, those of two hostnames can be in another order. -/
theorem inOrder_iff (c : CaseFold) {a b : Device} (h : less a b = true) :
    InOrder c a b ↔ CaseAgrees c a b := by
  constructor
  · intro ho ha hlt
    have hb : b.hostname ≠ [] := fun hb => absurd (hb ▸ hlt) (List.not_lt_nil _)
    by_cases heq : c.fold a.hostname = c.fold b.hostname
    · exact Or.inr ⟨heq, ho.byMac heq⟩
    · exact Or.inl (ho.alphabetical ha hb heq)
  · intro hagree
    rcases less_iff.mp h with ⟨ha, hb⟩ | ⟨ha, hb, hlt⟩ | ⟨hname, hmac⟩
    · -- only `a` has a hostname
      have hne : c.fold a.hostname ≠ c.fold b.hostname := by
        rw [hb, (c.fold_eq_nil []).mpr rfl]
        exact fun h => ha ((c.fold_eq_nil _).mp h)
      exact ⟨fun _ => ha, fun _ hb' _ => absurd hb hb', fun heq => absurd heq hne⟩
    · refine ⟨fun _ => ha, fun _ _ hne => ?_, fun heq => ?_⟩
      · exact (hagree ha hlt).resolve_right fun h => hne h.1
      · rcases hagree ha hlt with hfold | ⟨_, hmac⟩
        · exact absurd heq hfold.ne
        · exact hmac
    · exact ⟨fun hb => hname ▸ hb, fun _ _ hne => absurd (hname ▸ rfl) hne, fun _ => hmac.le⟩

/-- A device of the map, under whatever key. -/
def InMap (m : Devices) (d : Device) : Prop := ∃ k, m.lookup k = some (some d)

/-- No two hostnames of the map are ordered by their bytes against the alphabet. -/
def BytesAgree (c : CaseFold) (m : Devices) : Prop :=
  ∀ a b, InMap m a → InMap m b → CaseAgrees c a b

/-- **The order of the list.** For every device map, a list `DevicesList` returns is in the order
    of the comment exactly when the bytes of the hostnames in the map agree with it. -/
theorem documented_iff (c : CaseFold) (m : Devices) (out : List Device) (h : DevicesList m out) :
    out.Pairwise (InOrder c) ↔ BytesAgree c m := by
  obtain ⟨visit, hv, ho⟩ := h
  rw [ho.pairwise_iff less_irrefl fun a b => InOrder.of_tie c]
  constructor
  · intro hall a b ha hb hname hlt
    have hb' : b.hostname ≠ [] := fun hnil => List.not_lt_nil _ (hnil ▸ hlt)
    have hless : less a b = true := less_iff.mpr (Or.inr (Or.inl ⟨hname, hb', hlt⟩))
    have hord := hall a (hv.mem_iff.mpr ha) b (hv.mem_iff.mpr hb) hless
    exact (inOrder_iff c hless).mp hord hname hlt
  · intro hall a ha b hb hless
    exact (inOrder_iff c hless).mpr (hall a b (hv.mem_iff.mp ha) (hv.mem_iff.mp hb))

def abcDevice : Device := { mac := "1".toList, hostname := "abc".toList }

def zedDevice : Device := { mac := "2".toList, hostname := "Zed".toList }

/-- Two devices, one with a capital in its hostname. -/
def mixedCase : Devices := (Finmap.insert "1".toList (some abcDevice) ∅).insert "2".toList zedDevice

theorem mixedCase_list : DevicesList mixedCase [zedDevice, abcDevice] :=
  ⟨[zedDevice, abcDevice], rfl, List.Perm.refl _, by decide⟩

theorem documented_iff_mixedCase :
    [zedDevice, abcDevice].Pairwise (InOrder asciiFold) ↔ BytesAgree asciiFold mixedCase :=
  documented_iff asciiFold mixedCase [zedDevice, abcDevice] mixedCase_list

/-- The list has `Zed` before `abc`. -/
theorem capitals_first :
    DevicesList mixedCase [zedDevice, abcDevice] ∧
      ¬ [zedDevice, abcDevice].Pairwise (InOrder asciiFold) := by
  refine ⟨mixedCase_list, fun h => ?_⟩
  have hord := (List.pairwise_cons.mp h).1 abcDevice (by simp)
  exact absurd (hord.alphabetical (by decide) (by decide) (by decide)) (by decide)

end Netparent.Web
