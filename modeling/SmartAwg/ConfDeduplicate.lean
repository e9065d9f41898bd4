import SmartAwg.ConfTypes
import SmartAwg.GoCompact

/-! The lists of a profile without the entries that are written as an earlier one. -/

namespace SmartAwg.Conf

open Go

/-- The allowed IPs of one peer; there is no error to report. -/
def Peer.deduplicate (p : Peer) : Outcome Empty Peer := do
  let allowedIPs ← compactInPlace IPCidr.string p.allowedIPs
  .ok { p with allowedIPs }

def deduplicateNetworkEntries (c : Config) : Outcome Empty Config := do
  let addresses ← compactInPlace IPCidr.string c.interface.addresses
  let dns ← compactInPlace ipString c.interface.dns
  let peers ← c.peers.mapM Peer.deduplicate
  .ok { c with interface := { c.interface with addresses, dns }, peers }

section first

def Peer.firstEntries (p : Peer) : Peer :=
  { p with allowedIPs := firstOccurrences IPCidr.string p.allowedIPs }

/-- The profile with the first one of the entries that are written alike, and all else as it was. -/
def Config.firstEntries (c : Config) : Config where
  name := c.name
  interface := { c.interface with
    addresses := firstOccurrences IPCidr.string c.interface.addresses
    dns := firstOccurrences ipString c.interface.dns }
  peers := c.peers.map Peer.firstEntries

/-- The texts of the entries of each list. -/
def Config.entries (c : Config) : List (List Str) :=
  c.interface.addresses.map IPCidr.string :: c.interface.dns.map ipString ::
    c.peers.map fun p => p.allowedIPs.map IPCidr.string

/-- Two lists of lists whose lists have the same elements. -/
def SameEntries (as bs : List (List Str)) : Prop := List.Forall₂ (fun a b => ∀ t, t ∈ a ↔ t ∈ b) as bs

theorem Peer.deduplicate_eq (p : Peer) : p.deduplicate = .ok p.firstEntries := by
  rw [Peer.deduplicate, compactInPlace_eq]
  rfl

theorem deduplicateNetworkEntries_eq (c : Config) :
    deduplicateNetworkEntries c = .ok c.firstEntries := by
  have hpeers : c.peers.mapM Peer.deduplicate = .ok (c.peers.map Peer.firstEntries) := by
    rw [funext Peer.deduplicate_eq]
    exact List.mapM_pure
  rw [deduplicateNetworkEntries, compactInPlace_eq, compactInPlace_eq, hpeers]
  rfl

theorem Peer.firstEntries_again (p : Peer) : p.firstEntries.firstEntries = p.firstEntries := by
  unfold Peer.firstEntries
  rw [firstOccurrences_again]

theorem Config.firstEntries_again (c : Config) : c.firstEntries.firstEntries = c.firstEntries := by
  unfold Config.firstEntries
  simp only [firstOccurrences_again, List.map_map]
  rw [show Peer.firstEntries ∘ Peer.firstEntries = Peer.firstEntries from
    funext Peer.firstEntries_again]

theorem firstEntries_sameEntries (c : Config) : SameEntries c.firstEntries.entries c.entries := by
  refine List.Forall₂.cons ?_ (List.Forall₂.cons ?_ ?_)
  · exact mem_keys_firstOccurrences _ _
  · exact mem_keys_firstOccurrences _ _
  · simp only [Config.firstEntries, List.map_map]
    rw [List.forall₂_map_left_iff, List.forall₂_map_right_iff, List.forall₂_same]
    intro p _
    exact mem_keys_firstOccurrences _ _

/-- Each list keeps the first one of the entries that are written alike and nothing else changes, so
that a second run changes nothing and no entry is lost. -/
theorem deduplicateNetworkEntries_keeps_first (c : Config) :
    deduplicateNetworkEntries c = .ok c.firstEntries ∧
      deduplicateNetworkEntries c.firstEntries = .ok c.firstEntries ∧
      SameEntries c.firstEntries.entries c.entries := by
  refine ⟨deduplicateNetworkEntries_eq c, ?_, firstEntries_sameEntries c⟩
  rw [deduplicateNetworkEntries_eq, Config.firstEntries_again]

end first

end SmartAwg.Conf
