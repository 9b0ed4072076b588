import LightApr.Core.RegistryEffect

/-! Roles aside, every string that the registry stores is valid UTF-8. -/
namespace LightApr.Core

theorem ascii_decimal (n : Nat) : ∀ b ∈ decimal n, b ≤ 0x7F := by
  intro b hb
  obtain ⟨c, hc, rfl⟩ := List.mem_map.mp hb
  have hd := Nat.isDigit_of_mem_toDigits (by decide) (by decide) hc
  simp only [Char.isDigit, Bool.and_eq_true, decide_eq_true_eq] at hd
  have hle : c.toNat ≤ 57 := hd.2
  rw [UInt8.le_iff_toNat_le, Nat.toUInt8, UInt8.toNat_ofNat']
  have : (0x7F : UInt8).toNat = 127 := rfl
  omega

theorem ascii_decimalInt (n : Int) : ∀ b ∈ decimalInt n, b ≤ 0x7F := by
  cases n with
  | ofNat n => exact ascii_decimal n
  | negSucc n =>
    intro b hb
    rcases List.mem_append.mp hb with hb | hb
    · have hdash : ∀ b ∈ ascii "-", b ≤ 0x7F := by decide +kernel
      exact hdash b hb
    · exact ascii_decimal (n + 1) b hb

namespace Registry
open Lib

theorem generateNodeId_utf8 (now : Int) (counter : Nat) : Utf8.Valid (generateNodeId now counter) := by
  have hnode : Utf8.Valid (ascii "node-") := by decide
  have hdash : Utf8.Valid (ascii "-") := by decide
  exact ((hnode.append (Utf8.valid_ascii (ascii_decimalInt now))).append hdash).append
    (Utf8.valid_ascii (ascii_decimal counter))

theorem generateNodeId_ne_nil (now : Int) (counter : Nat) : generateNodeId now counter ≠ [] := nofun

/-- A sound node with a name, of which only the role may be something else than text. -/
structure IntactNode (cfg : RegistryConfig) (k : Bytes) (node : NodeInfo) : Prop where
  sound : SoundNode cfg k node
  key : k ≠ []
  utf8 : node.Utf8ButRole

def Intact (cfg : RegistryConfig) (r : Registry) : Prop :=
  ∀ k node, r.nodes.lookup k = some node → IntactNode cfg k node

/-- What a registration passes on is text, roles aside. -/
structure TextInput (workers : List Bytes) (ep : Option EndpointInfo) (peerIp existingId : Bytes)
    (extra : Json) : Prop where
  workers : ∀ w ∈ workers, Utf8.Valid w
  endpoint : ∀ e ∈ ep, e.Utf8
  peerIp : Utf8.Valid peerIp
  existingId : Utf8.Valid existingId
  extra : extra.utf8 = true

variable {cfg : RegistryConfig} {now : Int} {role peerIp existingId nodeId worker : Bytes} {workers : List Bytes}
  {ep : Option EndpointInfo} {extra : Json} {r r' : Registry} {out : Outcome} {node : NodeInfo}

theorem Intact.sound (hr : Intact cfg r) : Sound cfg r := fun k node h => (hr k node h).sound

private theorem utf8_members {j : Json} (h : j.utf8 = true) {f : Bytes × Json} (hf : f ∈ j.members) :
    Utf8.Valid f.1 ∧ f.2.utf8 = true := by
  cases j with
  | obj fields => exact (Json.utf8_obj fields).mp h f hf
  | _ => exact nomatch hf

private theorem utf8_of_members {j : Json} (ho : j.isObject = true)
    (h : ∀ f ∈ j.members, Utf8.Valid f.1 ∧ f.2.utf8 = true) : j.utf8 = true := by
  cases j with
  | obj fields => exact (Json.utf8_obj fields).mpr h
  | _ => exact nomatch ho

theorem targetId_ne_nil (now : Int) (existingId : Bytes) (r : Registry) : targetId now existingId r ≠ [] := by
  unfold targetId
  split
  · exact generateNodeId_ne_nil _ _
  · assumption

private theorem utf8_targetId (h : Utf8.Valid existingId) (now : Int) (r : Registry) :
    Utf8.Valid (targetId now existingId r) := by
  unfold targetId
  split
  · exact generateNodeId_utf8 _ _
  · exact h

private theorem utf8_finalEndpoint (hp : Utf8.Valid peerIp) (he : ∀ e ∈ ep, e.Utf8) :
    ∀ e ∈ finalEndpoint peerIp ep, e.Utf8 := by
  intro e hm
  obtain ⟨e', he', rfl⟩ := Option.map_eq_some_iff.mp hm
  have hu := he e' he'
  split
  · exact ⟨hp, hu.2⟩
  · exact hu

/-- A registration fails where it meets an extra that is no object, and in announcing a role that is no text. -/
theorem Intact.registerOrUpdateNode (hr : Intact cfg r) (hin : TextInput workers ep peerIp existingId extra)
    (h : registerOrUpdateNode cfg now role workers ep peerIp existingId extra r = (r', out)) :
    Intact cfg r' ∧ ∃ node, r'.nodes = r.nodes.insert (targetId now existingId r) node ∧
      (Unobstructed cfg (r.nodes.lookup (targetId now existingId r)) workers extra → out = .event node) ∧
      (¬ Unobstructed cfg (r.nodes.lookup (targetId now existingId r)) workers extra → out = .threw) ∧
      node.id = targetId now existingId r ∧ (Utf8.Valid role → node.toJson.utf8 = true) := by
  have hsound := hr.sound.registerOrUpdateNode h
  obtain ⟨node, hn, -, hreg, -, hevent⟩ := registerOrUpdateNode_effect h
  have hk : r'.nodes.lookup (targetId now existingId r) = some node := by rw [hn, AList.lookup_insert]
  have hs := hsound _ _ hk
  have hu : node.Utf8ButRole := by
    refine ⟨?_, ?_, ?_, ?_⟩
    · rw [hs.id]
      exact utf8_targetId hin.existingId now r
    · rw [hreg.workers]
      exact hin.workers
    · rw [hreg.endpoint]
      exact utf8_finalEndpoint hin.peerIp hin.endpoint
    · rcases hs.formed.cases with ho | ho
      · refine utf8_of_members ho fun f hf => ?_
        rcases hreg.members f hf with ⟨old, ho, hf⟩ | ⟨hf, -, -⟩
        · exact utf8_members (hr _ _ ho).utf8.extra hf
        · exact utf8_members hin.extra hf
      · rw [ho]
        rfl
  refine ⟨Stored.insert hr hn ⟨hs, targetId_ne_nil now existingId r, hu⟩, node, hn, fun hfree => ?_, fun hno => ?_,
    hs.id, fun hrole => ?_⟩
  · exact hevent (fun old ho => ⟨(hr _ _ ho).sound.printable, (hr _ _ ho).sound.formed⟩) hfree
      fun f hf _ => (utf8_members hin.extra hf).2
  · exact (registerOrUpdateNode_obstructed (fun old ho => (hr _ _ ho).sound.formed) hno h).1
  · rw [NodeInfo.utf8_toJson hu, hreg.role]
    exact hrole

theorem Intact.markNodeGrace (hr : Intact cfg r) (h : markNodeGrace now nodeId r = (r', out)) : Intact cfg r' := by
  rcases modifyNode_effect h with ⟨-, rfl, -⟩ | ⟨old, hold, hn, -, -⟩
  · exact hr
  · obtain ⟨hs, hk, hu⟩ := hr _ _ hold
    exact Stored.insert hr hn ⟨⟨hs.id, nofun, hs.formed, hs.printable⟩, hk, ⟨hu.id, hu.workers, hu.endpoint, hu.extra⟩⟩

theorem Intact.updateNodeExtra (hr : Intact cfg r) (hw : Utf8.Valid worker) (hx : extra.utf8 = true)
    (h : updateNodeExtra cfg now nodeId worker extra r = (r', out)) : Intact cfg r' := by
  have hsound := hr.sound.updateNodeExtra h
  rcases updateNodeExtra_effect h with ⟨rfl, -⟩ | ⟨old, delta, hold, -, hn, -, -⟩
  · exact hr
  · obtain ⟨-, hk, hu⟩ := hr _ _ hold
    refine Stored.insert hr hn ⟨hsound _ _ (by rw [hn, AList.lookup_insert]), hk, ?_⟩
    exact ⟨hu.id, hu.workers, hu.endpoint, Json.utf8_set hw hx hu.extra⟩

theorem Intact.removeNodePermanently (hr : Intact cfg r) (h : removeNodePermanently cfg nodeId r = (r', out)) :
    Intact cfg r' := by
  rcases removeNodePermanently_effect h with ⟨-, rfl, -⟩ | ⟨old, -, hn, -, -, -⟩
  · exact hr
  · exact Stored.erase hr hn

end Registry
end LightApr.Core
