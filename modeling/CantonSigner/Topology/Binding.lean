import Mathlib.Data.List.Perm.Basic
import CantonSigner.Lib.HashTree
import CantonSigner.Lib.PrefixCode
import CantonSigner.Topology.MultiHash

/-!
# What the multi-hash fixes

The multi-hash of a topology flow is the hash of the sorted hashes of its messages. Two finished
flows with one multi-hash have received the same messages, up to their order, or two of the byte
strings that were hashed for them collide (`multi_hash_binding`).
-/

namespace CantonSigner

open ByteCodec

/-- What is hashed under a purpose. -/
def purposeText (purpose : UInt8) (data : Bytes) : Bytes := [0, 0, 0, purpose] ++ data

/-- An entry of the multi-hash: a hash and its length. -/
def hashEntry (h : Bytes) : Bytes := beBytes 4 34 ++ h

/-- What is hashed for the multi-hash itself. -/
def multiHashText (d : Device) (msgs : List Bytes) : Bytes :=
  purposeText 55 (beBytes 4 msgs.length ++ (ascendingHashes d msgs).flatMap hashEntry)

/-- What is hashed for a flow: the messages, and their hashes together. -/
def topologyTexts (d : Device) (msgs : List Bytes) : List Bytes :=
  multiHashText d msgs :: msgs.map (purposeText 11)

variable {d : Device} {msgs msgs' : List Bytes}

theorem multiHash_text (d : Device) (msgs : List Bytes) :
    multiHash d (msgs.map (cantonHash d 11)) = [0x12, 0x20] ++ d.sha (multiHashText d msgs) := by
  rw [multiHash_eq]
  rfl

/-- The hashes under the multi-hash are 34 bytes long. -/
theorem length_ascendingHashes : ∀ h ∈ ascendingHashes d msgs, h.length = 34 := fun _ hmem =>
  length_of_hashed ((List.perm_insertionSort _ _).mem_iff.mp hmem)

/-- The text of the multi-hash can be read. -/
theorem multiHashText_inj (h : multiHashText d msgs = multiHashText d msgs') :
    ascendingHashes d msgs = ascendingHashes d msgs' := by
  have hcode : PrefixCode (fun h : Bytes => h.length = 34) hashEntry :=
    .of_length 38 (fun h hlen => by simp [hashEntry, hlen])
      fun {a b} _ _ heq => List.append_cancel_left heq
  have hentries := (List.append_inj (List.append_cancel_left h) (by simp)).2
  have hne (a : Bytes) : hashEntry a ≠ [] := fun hnil => by
    have hlen := congrArg List.length hnil
    simp [hashEntry] at hlen
  exact hcode.flatMap_inj (fun a _ => hne a) length_ascendingHashes length_ascendingHashes hentries

/-- Messages with one multi-hash. -/
theorem perm_of_multiHash
    (h : multiHash d (msgs.map (cantonHash d 11)) = multiHash d (msgs'.map (cantonHash d 11))) :
    msgs.Perm msgs' ∨ Collision d.sha (topologyTexts d msgs) (topologyTexts d msgs') := by
  rw [multiHash_text, multiHash_text] at h
  have hsha := List.append_cancel_left h
  rcases eq_or_collision List.mem_cons_self List.mem_cons_self hsha with htext | hcoll
  · have hperm : (msgs.map (cantonHash d 11)).Perm (msgs'.map (cantonHash d 11)) := by
      refine (List.perm_insertionSort (· ≤ ·) _).symm.trans ?_
      have hsorted : (msgs.map (cantonHash d 11)).insertionSort (· ≤ ·) =
          (msgs'.map (cantonHash d 11)).insertionSort (· ≤ ·) := multiHashText_inj htext
      rw [hsorted]
      exact List.perm_insertionSort _ _
    have htexts : (msgs.map (purposeText 11)).Perm (msgs'.map (purposeText 11)) ∨
        Collision d.sha (msgs.map (purposeText 11)) (msgs'.map (purposeText 11)) := by
      refine perm_or_collision ?_
      have hprefix : Function.Injective fun h : Bytes => ([0x12, 0x20] : Bytes) ++ h :=
        fun a b heq => List.append_cancel_left heq
      rw [← List.map_perm_map_iff hprefix, List.map_map, List.map_map, List.map_map, List.map_map]
      exact hperm
    rcases htexts with htexts | hcoll
    · have hpurpose : Function.Injective (purposeText 11) :=
        fun a b heq => List.append_cancel_left heq
      exact .inl ((List.map_perm_map_iff hpurpose).mp htexts)
    · exact .inr (hcoll.mono (List.subset_cons_self _ _) (List.subset_cons_self _ _))
  · exact .inr hcoll

variable {a a' : App} {log log' : List PartEvent}

/-- **The multi-hash fixes the messages**, up to their order: two topology flows that were
accepted to the end with one hash, in any two runs. -/
theorem multi_hash_binding {es es' : List Event}
    (h : (loggedApp d).Reach anyEvent es (a, log)) (hr : a.ReceivingTopology) (hfin : Finished log)
    (h' : (loggedApp d).Reach anyEvent es' (a', log')) (hr' : a'.ReceivingTopology)
    (hfin' : Finished log') (hhash : a.tx.mHash = a'.tx.mHash) :
    (partBuffers log).Perm (partBuffers log') ∨
      Collision d.sha (topologyTexts d (partBuffers log)) (topologyTexts d (partBuffers log')) := by
  refine perm_of_multiHash ?_
  rw [← (multiHash_of_reach h hr hfin).1, hhash, (multiHash_of_reach h' hr' hfin').1]

/-- The onboarding of the development network with its first two messages the other way. -/
def devnetSwapped (key : Bytes) : List (Bool × Bytes) :=
  ((devnetOnboarding key).take 2).reverse ++ (devnetOnboarding key).drop 2

/-- The hash that a flow of these messages ends with. -/
def finishedHash (ms : List (Bool × Bytes)) : Option Bytes :=
  ((loggedApp testDevice).run (fun _ _ => true) (App.powerUp true, []) (topologyFlow ms)).map
    fun s => s.1.tx.mHash

theorem multi_hash_binding_devnet : ∃ a log a' log',
    (loggedApp testDevice).Reach anyEvent (topologyFlow (devnetOnboarding testKey)) (a, log) ∧
      (loggedApp testDevice).Reach anyEvent (topologyFlow (devnetSwapped testKey)) (a', log') ∧
      partBuffers log = (devnetOnboarding testKey).map Prod.snd ∧
      partBuffers log' = (devnetSwapped testKey).map Prod.snd ∧
      ((partBuffers log).Perm (partBuffers log') ∨ Collision testDevice.sha
        (topologyTexts testDevice (partBuffers log))
        (topologyTexts testDevice (partBuffers log'))) := by
  have hrun : ∀ ms ∈ [devnetOnboarding testKey, devnetSwapped testKey],
      ((loggedApp testDevice).run (fun _ _ => true) (App.powerUp true, []) (topologyFlow ms)).any
        (fun s => decide s.1.ReceivingTopology && decide (Finished s.2) &&
          decide (partBuffers s.2 = ms.map Prod.snd) &&
          decide (some s.1.tx.mHash = finishedHash (devnetOnboarding testKey))) = true := by
    decide +kernel
  obtain ⟨a, log, hreach, hp⟩ := exists_reach_loggedApp testDevice _ _
    (hrun (devnetOnboarding testKey) (by simp))
  obtain ⟨a', log', hreach', hp'⟩ := exists_reach_loggedApp testDevice _ _
    (hrun (devnetSwapped testKey) (by simp))
  simp only [Bool.and_eq_true, decide_eq_true_eq] at hp hp'
  obtain ⟨⟨⟨hr, hfin⟩, hbufs⟩, hhash⟩ := hp
  obtain ⟨⟨⟨hr', hfin'⟩, hbufs'⟩, hhash'⟩ := hp'
  exact ⟨a, log, a', log', hreach, hreach', hbufs, hbufs',
    multi_hash_binding hreach hr hfin hreach' hr' hfin' (Option.some.inj (hhash.trans hhash'.symm))⟩

end CantonSigner
