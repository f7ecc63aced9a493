import GossipRl.Gossip.PeerSelection
import GossipRl.Gossip.SuspectEntry
import Mathlib.Data.List.Perm.Basic
import Mathlib.Data.Set.Card

/-!
# What `_select_gossip_peers` returns

Each of the three samples adds distinct peers to those selected so far (`Chosen.append`), and a
number of local peers and of others that is known. No sample is larger than its population. How many
there are to select from is counted in the membership table and the backoff map (`candidates`).
-/

namespace GossipRl
open Support

namespace Sampler
variable {α : Type*}

theorem sample_min (s : Sampler α) (population : List α) {n : Int} (hn : 0 ≤ n) :
    ∃ picks, s.sample population (min n population.length) = some picks ∧
      picks.Subperm population ∧ (picks.length : Int) = min n population.length := by
  have hle : (min n population.length).toNat ≤ population.length := by omega
  refine ⟨s.draw population (min n population.length).toNat, ?_, s.subperm _ _ hle, ?_⟩
  · rw [sample, if_neg (by omega)]
  · rw [s.length_eq _ _ hle]
    omega

theorem nodup_of_subperm {l l' : List α} (h : l'.Nodup) (hsub : l.Subperm l') : l.Nodup := by
  obtain ⟨l₁, hperm, hsub⟩ := hsub
  exact hperm.nodup_iff.1 (hsub.nodup h)

end Sampler

namespace GossipPeers
open Sampler
variable {p : GossipPeers} {now : ℚ} {selected picks : List Ref} {r r' : Ref} {l o l' o' : Int}

/-- The numbers of peers that may be selected, in the local datacenter and elsewhere. -/
def localSize (now : ℚ) (p : GossipPeers) : Int := (p.sameDc now).length

def otherSize (now : ℚ) (p : GossipPeers) : Int := (p.otherDc now).length

theorem mem_available : r ∈ p.available now ↔
    (r ∈ p.membership.peers.values ∧ (p.membership.heap r).state = .ALIVE) ∧
      p.eligible now (p.idOf r) := by
  rw [available, MembershipManager.getAlivePeers, List.mem_filter, List.mem_filter]
  simp [Peer.isAlive]

theorem mem_sameDc : r ∈ p.sameDc now ↔ r ∈ p.available now ∧ p.isLocal r := List.mem_filter

theorem mem_otherDc : r ∈ p.otherDc now ↔ r ∈ p.available now ∧ ¬ p.isLocal r := by
  simp [otherDc]

theorem length_available (p : GossipPeers) (now : ℚ) :
    ((p.available now).length : Int) = p.localSize now + p.otherSize now := by
  rw [localSize, otherSize, sameDc, otherDc,
    List.length_eq_length_filter_add (l := p.available now) fun r => p.isLocal r]
  push_cast
  rfl

theorem idOf_inj (hkeyed : p.membership.Keyed) (hr : r ∈ p.available now)
    (hr' : r' ∈ p.available now) (h : p.idOf r = p.idOf r') : r = r' := by
  obtain ⟨id, hid⟩ := Dict.mem_values_iff.1 (mem_available.1 hr).1.1
  obtain ⟨id', hid'⟩ := Dict.mem_values_iff.1 (mem_available.1 hr').1.1
  obtain rfl : id = id' := (hkeyed _ _ hid).symm.trans (h.trans (hkeyed _ _ hid'))
  exact Option.some.inj (hid.symm.trans hid')

theorem nodup_available (hkeyed : p.membership.Keyed) : (p.available now).Nodup := by
  have hvalues : p.membership.peers.values.Nodup := Dict.nodup_values fun id id' r hid hid' =>
    (hkeyed _ _ hid).symm.trans (hkeyed _ _ hid')
  exact (hvalues.filter _).filter _

/-- Distinct peers that may be selected: `l` in the local datacenter, and `o` elsewhere. -/
structure Chosen (p : GossipPeers) (now : ℚ) (selected : List Ref) (l o : Int) : Prop where
  nodup : selected.Nodup
  available : ∀ r ∈ selected, r ∈ p.available now
  locals : ((selected.filter fun r => p.isLocal r).length : Int) = l
  others : ((selected.filter fun r => !p.isLocal r).length : Int) = o

namespace Chosen

theorem nil : p.Chosen now [] 0 0 := ⟨.nil, by simp, rfl, rfl⟩

theorem length_eq (h : p.Chosen now selected l o) : (selected.length : Int) = l + o := by
  rw [List.length_eq_length_filter_add (l := selected) fun r => p.isLocal r, ← h.locals, ← h.others]
  push_cast
  rfl

theorem append (h : p.Chosen now selected l o) (h' : p.Chosen now picks l' o')
    (hne : ∀ r ∈ picks, r ∉ selected) : p.Chosen now (selected ++ picks) (l + l') (o + o') := by
  constructor
  · exact h.nodup.append h'.nodup fun r hr hr' => hne r hr' hr
  · intro r hr
    rcases List.mem_append.1 hr with hr | hr
    · exact h.available r hr
    · exact h'.available r hr
  · rw [List.filter_append, List.length_append, ← h.locals, ← h'.locals]
    push_cast
    rfl
  · rw [List.filter_append, List.length_append, ← h.others, ← h'.others]
    push_cast
    rfl

theorem of_local (hkeyed : p.membership.Keyed) (h : picks.Subperm (p.sameDc now)) :
    p.Chosen now picks picks.length 0 := by
  have hlocal : ∀ r ∈ picks, r ∈ p.available now ∧ p.isLocal r := fun r hr =>
    mem_sameDc.1 (h.subset hr)
  constructor
  · exact nodup_of_subperm ((nodup_available hkeyed).filter _) h
  · exact fun r hr => (hlocal r hr).1
  · rw [List.filter_eq_self.2 fun r hr => (hlocal r hr).2]
  · rw [List.filter_eq_nil_iff.2 fun r hr => by simp [(hlocal r hr).2]]
    rfl

theorem of_other (hkeyed : p.membership.Keyed) (h : picks.Subperm (p.otherDc now)) :
    p.Chosen now picks 0 picks.length := by
  have hother : ∀ r ∈ picks, r ∈ p.available now ∧ ¬ p.isLocal r := fun r hr =>
    mem_otherDc.1 (h.subset hr)
  constructor
  · exact nodup_of_subperm ((nodup_available hkeyed).filter _) h
  · exact fun r hr => (hother r hr).1
  · rw [List.filter_eq_nil_iff.2 fun r hr => (hother r hr).2]
    rfl
  · rw [List.filter_eq_self.2 fun r hr => by simp [(hother r hr).2]]

theorem contains_iff (hkeyed : p.membership.Keyed) (h : p.Chosen now selected l o)
    (hr : r ∈ p.available now) : p.contains selected r ↔ r ∈ selected := by
  simp only [contains, List.any_eq_true, beq_iff_eq]
  constructor
  · rintro ⟨r', hr', heq⟩
    obtain rfl := idOf_inj hkeyed (h.available r' hr') hr heq
    exact hr'
  · exact fun hr => ⟨r, hr, rfl⟩

theorem length_remaining (hkeyed : p.membership.Keyed) (h : p.Chosen now selected l o) :
    (((p.sameDc now).filter fun r => !p.contains selected r).length : Int) =
      p.localSize now - l := by
  have hperm : ((p.sameDc now).filter fun r => p.contains selected r).Perm
      (selected.filter fun r => p.isLocal r) := by
    refine (List.perm_ext_iff_of_nodup (((nodup_available hkeyed).filter _).filter _)
      (h.nodup.filter _)).2 fun r => ?_
    constructor
    · intro hmem
      obtain ⟨hsame, hcontains⟩ := List.mem_filter.1 hmem
      obtain ⟨hr, hlocal⟩ := mem_sameDc.1 hsame
      exact List.mem_filter.2 ⟨(h.contains_iff hkeyed hr).1 hcontains, hlocal⟩
    · intro hmem
      obtain ⟨hselected, hlocal⟩ := List.mem_filter.1 hmem
      have hr := h.available r hselected
      exact List.mem_filter.2 ⟨mem_sameDc.2 ⟨hr, hlocal⟩, (h.contains_iff hkeyed hr).2 hselected⟩
  have hlength := List.length_eq_length_filter_add (l := p.sameDc now) fun r =>
    p.contains selected r
  rw [localSize, hlength, hperm.length_eq, ← h.locals]
  push_cast
  ring

end Chosen

theorem selectLocal_spec (first : Sampler Ref) (now : ℚ) (hkeyed : p.membership.Keyed)
    (hfanout : 0 ≤ p.fanout) : ∃ selected, p.selectLocal first now = some selected ∧
      p.Chosen now selected (min (p.localSize now) (p.fanout * 2 / 3)) 0 := by
  rw [selectLocal, localSize, min_comm]
  split_ifs with hpos
  · obtain ⟨picks, hpicks, hsub, hlength⟩ := first.sample_min (p.sameDc now)
      (n := p.fanout * 2 / 3) (by omega)
    exact ⟨picks, hpicks, hlength ▸ .of_local hkeyed hsub⟩
  · have hzero : min (p.fanout * 2 / 3) ((p.sameDc now).length : Int) = 0 := by omega
    exact ⟨[], rfl, by rw [hzero]; exact .nil⟩

theorem fillFromOthers_spec (second : Sampler Ref) (hkeyed : p.membership.Keyed)
    (h : p.Chosen now selected l 0) (hl : l ≤ p.fanout) :
    ∃ selected', p.fillFromOthers second now selected = some selected' ∧
      p.Chosen now selected' l (min (p.fanout - l) (p.otherSize now)) := by
  have hlength := h.length_eq
  rw [fillFromOthers, otherSize]
  split_ifs with hfill
  · obtain ⟨picks, hpicks, hsub, hpicksLength⟩ := second.sample_min (p.otherDc now) hfill.1.le
    refine ⟨selected ++ picks, by rw [hpicks, Option.map_some], ?_⟩
    have hlocal : ∀ r ∈ selected, p.isLocal r := by
      have hnone := List.length_eq_zero_iff.1 (Int.ofNat_eq_zero.1 h.others)
      simpa using List.filter_eq_nil_iff.1 hnone
    have happend := h.append (.of_other hkeyed hsub) fun r hr hselected =>
      (mem_otherDc.1 (hsub.subset hr)).2 (hlocal r hselected)
    rwa [add_zero, zero_add, hpicksLength, hlength, add_zero] at happend
  · have hzero : min (p.fanout - l) ((p.otherDc now).length : Int) = 0 := by
      rcases not_and_or.1 hfill with hfull | hnone
      · omega
      · rw [not_not.1 hnone, List.length_nil]
        omega
    exact ⟨selected, rfl, hzero ▸ h⟩

theorem fillFromLocal_spec (third : Sampler Ref) (hkeyed : p.membership.Keyed)
    (h : p.Chosen now selected l o) (hle : l + o ≤ p.fanout) :
    ∃ selected', p.fillFromLocal third now selected = some selected' ∧
      p.Chosen now selected' (l + min (p.fanout - (l + o)) (p.localSize now - l)) o := by
  have hlength := h.length_eq
  have hremaining := h.length_remaining hkeyed
  rw [fillFromLocal]
  split_ifs with hfill
  · obtain ⟨picks, hpicks, hsub, hpicksLength⟩ := third.sample_min
      ((p.sameDc now).filter fun r => !p.contains selected r) hfill.le
    refine ⟨selected ++ picks, by simp only [hpicks, Option.map_some], ?_⟩
    have hsame : picks.Subperm (p.sameDc now) := hsub.trans List.filter_sublist.subperm
    have happend := h.append (.of_local hkeyed hsame) fun r hr hselected => by
      obtain ⟨hr, hnot⟩ := List.mem_filter.1 (hsub.subset hr)
      rw [(h.contains_iff hkeyed (mem_sameDc.1 hr).1).2 hselected] at hnot
      cases hnot
    rwa [add_zero, hpicksLength, hremaining, hlength] at happend
  · have hzero : l + min (p.fanout - (l + o)) (p.localSize now - l) = l := by omega
    exact ⟨selected, rfl, hzero.symm ▸ h⟩

theorem selectGossipPeers_spec (first second third : Sampler Ref) (now : ℚ)
    (hkeyed : p.membership.Keyed) (hfanout : 0 ≤ p.fanout) :
    ∃ selected l o, p.selectGossipPeers first second third now = some selected ∧
      p.Chosen now selected l o ∧ l + o = min p.fanout (p.available now).length ∧
      l = min (p.localSize now) (max (p.fanout * 2 / 3) (p.fanout - p.otherSize now)) := by
  have hsizes := length_available p now
  have hlocalSize : 0 ≤ p.localSize now := Int.natCast_nonneg _
  have hotherSize : 0 ≤ p.otherSize now := Int.natCast_nonneg _
  rw [selectGossipPeers]
  split_ifs with hnone
  · rw [hnone, List.length_nil] at hsizes
    refine ⟨[], 0, 0, rfl, .nil, ?_, by omega⟩
    rw [hnone, List.length_nil]
    omega
  · obtain ⟨locals, hlocals, hfirst⟩ := selectLocal_spec first now hkeyed hfanout
    obtain ⟨others, hothers, hsecond⟩ := fillFromOthers_spec second hkeyed hfirst (by omega)
    obtain ⟨selected, hselected, hthird⟩ := fillFromLocal_spec third hkeyed hsecond (by omega)
    refine ⟨selected, _, _, ?_, hthird, by omega, by omega⟩
    rw [hlocals, Option.bind_some, hothers, Option.bind_some, hselected]

/-- The peer object has a datacenter, and it is that of the local peer. -/
def InLocalDc (p : GossipPeers) (r : Ref) : Prop :=
  p.localDatacenter ≠ none ∧ p.datacenter r = p.localDatacenter

instance (p : GossipPeers) (r : Ref) : Decidable (p.InLocalDc r) :=
  inferInstanceAs (Decidable (_ ∧ _))

theorem isLocal_iff : p.isLocal r ↔ p.InLocalDc r := by
  rw [isLocal, InLocalDc]
  cases p.datacenter r <;> cases p.localDatacenter <;> simp

/-- The ids in the membership table whose peer is alive, as `P` asks, and not in backoff. -/
def candidates (p : GossipPeers) (now : ℚ) (P : Ref → Prop) : Set String :=
  {id | ∃ r, p.membership.peers.get? id = some r ∧ (p.membership.heap r).state = .ALIVE ∧ P r ∧
    ∀ deadline, p.backoff.get? id = some deadline → deadline ≤ now}

theorem eligible_iff {peerId : String} : p.eligible now peerId ↔
    ∀ deadline, p.backoff.get? peerId = some deadline → deadline ≤ now := by
  rw [eligible]
  cases p.backoff.get? peerId <;> simp

theorem mem_candidates_iff (hkeyed : p.membership.Keyed) {P : Ref → Prop} {id : String} :
    id ∈ p.candidates now P ↔ ∃ r ∈ p.available now, P r ∧ p.idOf r = id := by
  constructor
  · rintro ⟨r, hget, halive, hP, hbackoff⟩
    have hid : p.idOf r = id := hkeyed _ _ hget
    have hstored : r ∈ p.membership.peers.values := Dict.mem_values_iff.2 ⟨id, hget⟩
    refine ⟨r, mem_available.2 ⟨⟨hstored, halive⟩, ?_⟩, hP, hid⟩
    rwa [hid, eligible_iff]
  · rintro ⟨r, hr, hP, rfl⟩
    obtain ⟨⟨hstored, halive⟩, heligible⟩ := mem_available.1 hr
    obtain ⟨id, hget⟩ := Dict.mem_values_iff.1 hstored
    have hid : p.idOf r = id := hkeyed _ _ hget
    exact ⟨r, hid ▸ hget, halive, hP, eligible_iff.1 heligible⟩

theorem ncard_candidates (hkeyed : p.membership.Keyed) {P : Ref → Prop} {test : Ref → Bool}
    (htest : ∀ r, test r ↔ P r) :
    (p.candidates now P).ncard = ((p.available now).filter test).length := by
  have hnodup : (((p.available now).filter test).map p.idOf).Nodup :=
    ((nodup_available hkeyed).filter _).map_on fun r hr r' hr' =>
      idOf_inj hkeyed (List.mem_filter.1 hr).1 (List.mem_filter.1 hr').1
  have hset : p.candidates now P = (((p.available now).filter test).map p.idOf).toFinset := by
    ext id
    simp [mem_candidates_iff hkeyed, htest, and_assoc]
  rw [hset, Set.ncard_coe_finset, List.toFinset_card_of_nodup hnodup, List.length_map]

/-- Distinct peers that are alive and not in backoff, as many as there are up to `fanout`, and
2/3 of them local as far as possible. -/
structure Selection (p : GossipPeers) (now : ℚ) (selected : List Ref) : Prop where
  distinct : (selected.map p.idOf).Nodup
  stored : ∀ r ∈ selected, r ∈ p.membership.peers.values
  alive : ∀ r ∈ selected, (p.membership.heap r).state = .ALIVE
  past : ∀ r ∈ selected, ∀ deadline, p.backoff.get? (p.idOf r) = some deadline → deadline ≤ now
  number : (selected.length : Int) = min p.fanout (p.candidates now fun _ => True).ncard
  quota : ((selected.filter fun r => p.InLocalDc r).length : Int) =
    min ((p.candidates now fun r => p.InLocalDc r).ncard : Int)
      (max (p.fanout * 2 / 3) (p.fanout - (p.candidates now fun r => ¬ p.InLocalDc r).ncard))

theorem Chosen.selection (hkeyed : p.membership.Keyed) (h : p.Chosen now selected l o)
    (hnumber : l + o = min p.fanout (p.available now).length)
    (hquota : l = min (p.localSize now) (max (p.fanout * 2 / 3) (p.fanout - p.otherSize now))) :
    p.Selection now selected where
  distinct := h.nodup.map_on fun r hr r' hr' =>
    idOf_inj hkeyed (h.available r hr) (h.available r' hr')
  stored r hr := (mem_available.1 (h.available r hr)).1.1
  alive r hr := (mem_available.1 (h.available r hr)).1.2
  past r hr := eligible_iff.1 (mem_available.1 (h.available r hr)).2
  number := by
    have hcount : (p.candidates now fun _ => True).ncard = (p.available now).length := by
      rw [ncard_candidates hkeyed (fun _ => by simp : ∀ r, (fun _ : Ref => true) r ↔ True), List.filter_true]
    rw [h.length_eq, hnumber, hcount]
  quota := by
    have hlocal : (p.candidates now fun r => p.InLocalDc r).ncard = (p.sameDc now).length :=
      ncard_candidates hkeyed fun _ => isLocal_iff
    have hother : (p.candidates now fun r => ¬ p.InLocalDc r).ncard = (p.otherDc now).length :=
      ncard_candidates hkeyed fun r => by simp [← isLocal_iff]
    have hfilter : (selected.filter fun r => p.InLocalDc r) =
        selected.filter fun r => p.isLocal r :=
      List.filter_congr fun r _ => by rw [Bool.eq_iff_iff, isLocal_iff, decide_eq_true_iff]
    rw [hfilter, hlocal, hother, h.locals]
    exact hquota

end GossipPeers

open GossipPeers

/-- Whatever the samples are, the selection is made. The table is `Keyed` in every run
(`keyed_step`). -/
theorem select_gossip_peers_selection {p : GossipPeers} (first second third : Sampler Ref) (now : ℚ)
    (hkeyed : p.membership.Keyed) (hfanout : 0 ≤ p.fanout) :
    ∃ selected, p.selectGossipPeers first second third now = some selected ∧
      p.Selection now selected := by
  obtain ⟨selected, l, o, hselected, hchosen, hnumber, hquota⟩ :=
    selectGossipPeers_spec first second third now hkeyed hfanout
  exact ⟨selected, hselected, hchosen.selection hkeyed hnumber hquota⟩

section Example

/-- The first peers of the population are drawn. -/
def firstOnes : Sampler Ref where
  draw population k := population.take k
  subperm population k _ := (List.take_sublist k population).subperm
  length_eq population k hk := by rw [List.length_take, min_eq_left hk]

/-- A local peer, and one in another datacenter. -/
def twoDatacenters : GossipPeers where
  membership :=
    { config := {}
      localPeer := 0
      heap := fun r => { id := if r = 0 then "a" else if r = 1 then "b" else "c" }
      peers := (Dict.empty.set "b" 1).set "c" 2 }
  datacenter := fun r => some (if r = 2 then "west" else "east")
  localDatacenter := some "east"

theorem two_datacenters_selection : ∃ selected,
    twoDatacenters.selectGossipPeers firstOnes firstOnes firstOnes 0 = some selected ∧
      twoDatacenters.Selection 0 selected := by
  refine select_gossip_peers_selection firstOnes firstOnes firstOnes 0 ?_ (by decide)
  intro id r hr
  rcases Dict.get?_set_eq_some_iff.1 hr with ⟨rfl, rfl⟩ | ⟨-, hr⟩
  · rfl
  · rcases Dict.get?_set_eq_some_iff.1 hr with ⟨rfl, rfl⟩ | ⟨-, hr⟩
    · rfl
    · cases hr

end Example

end GossipRl
