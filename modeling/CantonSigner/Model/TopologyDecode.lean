import CantonSigner.Model.Decode

/-!
# Decoding topology messages

The fields of a topology message that the onboarding checks read
(`topology.pb.h`, `crypto.pb.h`, `untyped_versioned_message.pb.h`), for messages
with one occurrence of each field. The model of the device takes the decoder as a
parameter; the concrete device of the development uses this one.
-/

namespace CantonSigner

open ByteCodec Wire

/-- `SigningPublicKey`. -/
def decodeSigningPublicKey : Bytes → Option SigningPublicKey :=
  decodeInto (fun k f =>
    match f.tag with
    | 2 => f.payload.uint32.map fun v => { k with format := v }
    | 3 => f.payload.content.map fun b => { k with publicKey := b }
    | _ => some k) ⟨0, []⟩

/-- `NamespaceDelegation`. -/
def decodeNamespaceDelegation : Bytes → Option NamespaceDelegation :=
  decodeInto (fun m f =>
    match f.tag with
    | 2 => (f.payload.content.bind decodeSigningPublicKey).map
        fun k => { m with targetKey := some k }
    | _ => some m) ⟨none⟩

/-- `PartyToKeyMapping`. -/
def decodePartyToKeyMapping : Bytes → Option PartyToKeyMapping :=
  decodeInto (fun m f =>
    match f.tag with
    | 1 => f.payload.string.map fun s => { m with party := some s }
    | 3 => f.payload.uint32.map fun v => { m with threshold := v }
    | 4 => (f.payload.content.bind decodeSigningPublicKey).map fun k =>
        { m with signingKeys := m.signingKeys ++ [k] }
    | _ => some m) ⟨none, 0, []⟩

/-- `PartyToParticipant.HostingParticipant`: its `participant_uid`. -/
def decodeHostingParticipant : Bytes → Option (Option Bytes) :=
  decodeInto (fun uid f =>
    match f.tag with
    | 1 => f.payload.string.map some
    | _ => some uid) none

/-- `PartyToParticipant`. -/
def decodePartyToParticipant : Bytes → Option PartyToParticipant :=
  decodeInto (fun m f =>
    match f.tag with
    | 1 => f.payload.string.map fun s => { m with party := some s }
    | 2 => f.payload.uint32.map fun v => { m with threshold := v }
    | 3 => (f.payload.content.bind decodeHostingParticipant).map fun uid =>
        { m with participants := m.participants ++ [uid] }
    | 6 => f.payload.content.map fun _ => { m with hasPartySigningKeys := true }
    | _ => some m) ⟨none, 0, [], false⟩

/-- `TopologyMapping`. -/
def decodeTopologyMapping : Bytes → Option TopologyMapping :=
  decodeInto (fun _ f =>
    match f.tag with
    | 1 => (f.payload.content.bind decodeNamespaceDelegation).map .namespaceDelegation
    | 9 => (f.payload.content.bind decodePartyToParticipant).map .partyToParticipant
    | 16 => (f.payload.content.bind decodePartyToKeyMapping).map .partyToKeyMapping
    | _ => some .other) .other

/-- `TopologyTransaction`. -/
def decodeTopologyTransaction : Bytes → Option TopologyTransaction :=
  decodeInto (fun t f =>
    match f.tag with
    | 1 => f.payload.uint32.map fun v => { t with operation := v }
    | 3 => (f.payload.content.bind decodeTopologyMapping).map fun m => { t with mapping := some m }
    | _ => some t) ⟨0, none⟩

/-- `proto_deserialize_topology_transaction` (pb_parser.c:64–120): the wrapped bytes
must be there. -/
def decodeTopologyMessage (b : Bytes) : Option TopologyTransaction := do
  let data ← decodeInto (fun data f =>
    match f.tag with
    | 1 => f.payload.content
    | _ => some data) [] b
  if data.isEmpty then none else decodeTopologyTransaction data

end CantonSigner
