import LightApr.Core.RegistryIntegrity
import LightApr.Core.RegistryRuns

/-! The ids a run of registry operations hands out, and the events it announces. -/
namespace LightApr.Core

/-! The digits of a counter can be read back. -/

theorem decimal_inj {n m : Nat} (h : decimal n = decimal m) : n = m := by
  have hback (n : Nat) : (decimal n).map (fun b => Char.ofNat b.toNat) = Nat.toDigits 10 n := by
    rw [decimal, List.map_map]
    conv_rhs => rw [← List.map_id (Nat.toDigits 10 n)]
    apply List.map_congr_left
    intro c hc
    have hd := Nat.isDigit_of_mem_toDigits (by decide) (by decide) hc
    simp only [Char.isDigit, Bool.and_eq_true, decide_eq_true_eq] at hd
    have hle : c.toNat ≤ 57 := hd.2
    have hbyte : c.toNat.toUInt8.toNat = c.toNat := by
      rw [Nat.toUInt8, UInt8.toNat_ofNat', Nat.mod_eq_of_lt (by omega)]
    simp [hbyte]
  have hdigits := congrArg (List.map fun b : UInt8 => Char.ofNat b.toNat) h
  rw [hback, hback] at hdigits
  have hvalue := congrArg (fun ds => Nat.ofDigitChars 10 ds 0) hdigits
  simpa using hvalue

theorem not_mem_decimal {b : UInt8} (hb : b.toNat < 48) (n : Nat) : b ∉ decimal n := by
  intro h
  obtain ⟨c, hc, he⟩ := List.mem_map.mp h
  have hd := Nat.isDigit_of_mem_toDigits (by decide) (by decide) hc
  simp only [Char.isDigit, Bool.and_eq_true, decide_eq_true_eq] at hd
  have hge : 48 ≤ c.toNat := hd.1
  have hle : c.toNat ≤ 57 := hd.2
  have hbyte := congrArg UInt8.toNat he
  rw [Nat.toUInt8, UInt8.toNat_ofNat', Nat.mod_eq_of_lt (by omega)] at hbyte
  omega

/-- The part behind the last separator. -/
theorem last_part_inj {α : Type} [DecidableEq α] {a : α} {xs xs' ys ys' : List α} (hy : a ∉ ys) (hy' : a ∉ ys')
    (h : xs ++ a :: ys = xs' ++ a :: ys') : ys = ys' := by
  have hlast {xs ys : List α} (hy : a ∉ ys) : (xs ++ a :: ys).reverse.takeWhile (· ≠ a) = ys.reverse := by
    rw [List.reverse_append, List.reverse_cons, List.append_assoc, List.takeWhile_append_of_pos]
    · simp
    · intro b hb
      simp only [decide_eq_true_eq]
      rintro rfl
      exact hy (List.mem_reverse.mp hb)
  have hrev := congrArg (fun l => l.reverse.takeWhile (· ≠ a)) h
  simp only [hlast hy, hlast hy'] at hrev
  exact List.reverse_inj.mp hrev

/-- The record an outcome announces. -/
def Outcome.announced : Outcome → List NodeInfo
  | event node => [node]
  | refused | threw => []

namespace Registry

/-- An id is issued for one value of the counter. -/
theorem generateNodeId_inj {now now' : Int} {c c' : Nat} (h : generateNodeId now c = generateNodeId now' c') :
    c = c' := by
  have hdash : ascii "-" = [45] := by decide
  rw [generateNodeId, generateNodeId, hdash, List.append_assoc, List.append_assoc _ [45]] at h
  exact decimal_inj (last_part_inj (not_mem_decimal (by decide) c) (not_mem_decimal (by decide) c') h)

/-! The node an operation is about. -/

section
variable {cfg : RegistryConfig} {r r' : Registry} {out : Outcome} {op : Operation} {node : NodeInfo} {k : Bytes}

/-- An operation leaves every other record alone. -/
theorem lookup_run (h : op.run cfg r = (r', out)) (hk : op.about? r ≠ some k) :
    r'.nodes.lookup k = r.nodes.lookup k := by
  cases op with
  | addEventCallback | removeEventCallback =>
    obtain ⟨rfl, -⟩ := Prod.mk.inj h
    rfl
  | resolveNode role worker =>
    obtain ⟨rfl, -⟩ := Prod.mk.inj h
    rw [nodes_resolveNode]
  | registerOrUpdateNode now role workers ep peerIp existingId extra =>
    obtain ⟨node, hn, -⟩ := registerOrUpdateNode_effect h
    rw [hn, AList.lookup_insert_ne fun he => hk (congrArg some he.symm)]
  | markNodeGrace now nodeId | restoreNodeActive now nodeId =>
    rcases modifyNode_effect h with ⟨-, rfl, -⟩ | ⟨old, -, hn, -⟩
    · rfl
    · rw [hn, AList.lookup_insert_ne fun he => hk (congrArg some he.symm)]
  | updateNodeExtra now nodeId =>
    rcases updateNodeExtra_effect h with ⟨rfl, -⟩ | ⟨old, -, -, -, hn, -⟩
    · rfl
    · rw [hn, AList.lookup_insert_ne fun he => hk (congrArg some he.symm)]
  | removeNodePermanently nodeId =>
    rcases removeNodePermanently_effect h with ⟨-, rfl, -⟩ | ⟨old, -, hn, -⟩
    · rfl
    · rw [hn, AList.lookup_erase_ne fun he => hk (congrArg some he.symm)]

/-- The record an operation announces has the id of its node. -/
theorem about_event (hr : Stored (WellFormed cfg) r) (h : op.run cfg r = (r', .event node)) :
    op.about? r = some node.id := by
  cases op with
  | addEventCallback | removeEventCallback | resolveNode => cases h
  | registerOrUpdateNode now role workers ep peerIp existingId extra =>
    obtain ⟨node', hn, -, -, hout, -⟩ := registerOrUpdateNode_effect h
    have hstored := wellFormed_run hr h (targetId now existingId r)
    rcases hout with hout | hout
    · obtain rfl := Outcome.event.inj hout
      exact congrArg some (hstored node (by rw [hn, AList.lookup_insert])).id.symm
    · cases hout
  | markNodeGrace now nodeId | restoreNodeActive now nodeId =>
    rcases modifyNode_effect h with ⟨-, -, hout⟩ | ⟨old, hold, -, -, hout⟩
    · cases hout
    · obtain rfl := Outcome.event.inj hout
      exact congrArg some (hr _ old hold).id.symm
  | updateNodeExtra now nodeId =>
    rcases updateNodeExtra_effect h with ⟨-, hout | hout⟩ | ⟨old, -, hold, -, -, -, hout⟩
    · cases hout
    · cases hout
    · obtain rfl := Outcome.event.inj hout
      exact congrArg some (hr _ old hold).id.symm
  | removeNodePermanently nodeId =>
    rcases removeNodePermanently_effect h with ⟨-, -, hout⟩ | ⟨old, hold, -, -, hout | hout, -⟩
    · cases hout
    · obtain rfl := Outcome.event.inj hout
      exact congrArg some (hr _ old hold).id.symm
    · cases hout

end

/-! What a run yields, operation by operation. -/

/-- The new id an operation is given. -/
def Operation.issued? (r : Registry) : Operation → Option Bytes
  | registerOrUpdateNode now _ _ _ _ existingId _ =>
    if existingId = [] then some (generateNodeId now r.idCounter) else none
  | _ => none

theorem Operation.issued_eq {r : Registry} {op : Operation} {id : Bytes} (h : op.issued? r = some id) :
    ∃ now, id = generateNodeId now r.idCounter := by
  unfold issued? at h
  split at h
  · split at h
    · exact ⟨_, (Option.some.inj h).symm⟩
    · cases h
  · cases h

section
variable {α : Type} (cfg : RegistryConfig)

/-- What each operation of a run yields in the state it meets. -/
def along (f : Registry → Operation → List α) (r : Registry) : List Operation → List α
  | [] => []
  | op :: ops => f r op ++ along f (op.run cfg r).1 ops

theorem along_append (f : Registry → Operation → List α) (r : Registry) (ops more : List Operation) :
    along cfg f r (ops ++ more) = along cfg f r ops ++ along cfg f (after cfg r ops) more := by
  induction ops generalizing r with
  | nil => rfl
  | cons op ops ih =>
    rw [List.cons_append, along, ih, along, List.append_assoc]
    rfl

theorem after_append (r : Registry) (ops more : List Operation) :
    after cfg r (ops ++ more) = after cfg (after cfg r ops) more := List.foldl_append

/-- The events of a run. -/
def announcedBy : Registry → List Operation → List NodeInfo := along cfg fun r op => (op.run cfg r).2.announced

/-- The new ids that the registrations of a run were given. -/
def issuedBy : Registry → List Operation → List Bytes := along cfg fun r op => (op.issued? r).toList

end

/-! The counter behind the ids. -/

variable {cfg : RegistryConfig} {r r' : Registry} {out : Outcome} {now : Int}

theorem idCounter_upsert {role nodeId : Bytes} {workers : List Bytes} {ep : Option EndpointInfo} {node : NodeInfo}
    {threw : Bool} (h : upsert cfg now role workers ep nodeId r = (node, r', threw)) :
    r'.idCounter = r.idCounter := by
  cases upsert_cases h with
  | pruned | created => rfl

theorem idCounter_registerOrUpdateNode {role peerIp existingId : Bytes} {workers : List Bytes}
    {ep : Option EndpointInfo} {extra : Json}
    (h : registerOrUpdateNode cfg now role workers ep peerIp existingId extra r = (r', out)) :
    r'.idCounter = if existingId = [] then (r.idCounter + 1) % sizeMax else r.idCounter := by
  have hdrawn : (drawId existingId r).idCounter =
      if existingId = [] then (r.idCounter + 1) % sizeMax else r.idCounter := by
    unfold drawId
    split <;> rfl
  cases registerOrUpdateNode_cases h with
  | threw hu => exact (idCounter_upsert hu).trans hdrawn
  | announced hu _ => exact (idCounter_upsert hu).trans hdrawn

theorem idCounter_modifyNode {nodeId : Bytes} {f : NodeInfo → NodeInfo} (h : modifyNode nodeId f r = (r', out)) :
    r'.idCounter = r.idCounter := by
  unfold modifyNode at h
  split at h
  · obtain ⟨rfl, -⟩ := Prod.mk.inj h
    rfl
  · obtain ⟨rfl, -⟩ := Prod.mk.inj h
    rfl

/-- The counter moves on with every id it gives. -/
theorem idCounter_run {op : Operation} (h : op.run cfg r = (r', out)) :
    r'.idCounter = if (op.issued? r).isSome then (r.idCounter + 1) % sizeMax else r.idCounter := by
  cases op with
  | addEventCallback | removeEventCallback =>
    obtain ⟨rfl, -⟩ := Prod.mk.inj h
    rfl
  | registerOrUpdateNode now role workers ep peerIp existingId extra =>
    rw [idCounter_registerOrUpdateNode h, Operation.issued?]
    by_cases he : existingId = []
    · simp [he]
    · simp [he]
  | markNodeGrace | restoreNodeActive => exact idCounter_modifyNode h
  | updateNodeExtra now nodeId worker extra =>
    have h : updateNodeExtra cfg now nodeId worker extra r = (r', out) := h
    unfold updateNodeExtra at h
    split at h
    · obtain ⟨rfl, -⟩ := Prod.mk.inj h
      rfl
    · split at h
      · obtain ⟨rfl, -⟩ := Prod.mk.inj h
        rfl
      · obtain ⟨rfl, -⟩ := Prod.mk.inj h
        rfl
      · obtain ⟨rfl, -⟩ := Prod.mk.inj h
        rfl
  | removeNodePermanently nodeId =>
    have h : removeNodePermanently cfg nodeId r = (r', out) := h
    unfold removeNodePermanently at h
    split at h
    · obtain ⟨rfl, -⟩ := Prod.mk.inj h
      rfl
    · obtain ⟨rfl, -⟩ := Prod.mk.inj h
      rfl
  | resolveNode role worker =>
    obtain ⟨rfl, -⟩ := Prod.mk.inj h
    unfold resolveNode
    dsimp only
    split <;> rfl

/-- The counter stays below its modulus. -/
theorem idCounter_lt (op : Operation) (hr : r.idCounter < sizeMax) : (op.run cfg r).1.idCounter < sizeMax := by
  have hcounter : (op.run cfg r).1.idCounter = _ := idCounter_run rfl
  rw [hcounter]
  split
  · exact Nat.mod_lt _ (by decide)
  · exact hr

theorem issuedBy_append (r : Registry) (ops more : List Operation) :
    issuedBy cfg r (ops ++ more) = issuedBy cfg r ops ++ issuedBy cfg (after cfg r ops) more :=
      along_append cfg _ r ops more

theorem ne_nil_of_mem_issuedBy {ops : List Operation} {id : Bytes} (h : id ∈ issuedBy cfg r ops) : id ≠ [] := by
  induction ops generalizing r with
  | nil => cases h
  | cons op ops ih =>
    rcases List.mem_append.mp h with h | h
    · obtain ⟨now, rfl⟩ := Operation.issued_eq (Option.mem_toList.mp h)
      exact generateNodeId_ne_nil _ _
    · exact ih h

/-- Every id issued stands for its own value of the counter. -/
theorem mem_issuedBy {ops : List Operation} {id : Bytes} (hr : r.idCounter < sizeMax)
    (h : id ∈ issuedBy cfg r ops) : ∃ now m, m < (issuedBy cfg r ops).length ∧
      id = generateNodeId now ((r.idCounter + m) % sizeMax) := by
  induction ops generalizing r with
  | nil => cases h
  | cons op ops ih =>
    have hcounter : (op.run cfg r).1.idCounter = _ := idCounter_run rfl
    have hlt : (op.run cfg r).1.idCounter < sizeMax := idCounter_lt op hr
    change id ∈ (op.issued? r).toList ++ issuedBy cfg (op.run cfg r).1 ops at h
    change ∃ now m, m < ((op.issued? r).toList ++ issuedBy cfg (op.run cfg r).1 ops).length ∧ _
    cases hi : op.issued? r with
    | none =>
      rw [hi] at h hcounter
      obtain ⟨now, m, hm, he⟩ := ih hlt h
      exact ⟨now, m, hm, by rw [he, hcounter]; rfl⟩
    | some first =>
      rw [hi] at h hcounter
      rcases List.mem_cons.mp h with rfl | h
      · obtain ⟨now, he⟩ := Operation.issued_eq hi
        exact ⟨now, 0, Nat.succ_pos _, by rw [he, Nat.add_zero, Nat.mod_eq_of_lt hr]⟩
      · obtain ⟨now, m, hm, he⟩ := ih hlt h
        refine ⟨now, m + 1, Nat.succ_lt_succ hm, ?_⟩
        rw [he, hcounter, Option.isSome_some, if_pos rfl, Nat.mod_add_mod]
        congr 2
        omega

/-- **As long as fewer than `2 ^ 64` ids are issued they are all different.** -/
theorem issuedBy_nodup {ops : List Operation} (hr : r.idCounter < sizeMax)
    (h : (issuedBy cfg r ops).length ≤ sizeMax) : (issuedBy cfg r ops).Nodup := by
  induction ops generalizing r with
  | nil => exact List.nodup_nil
  | cons op ops ih =>
    have hcounter : (op.run cfg r).1.idCounter = _ := idCounter_run rfl
    have hlt : (op.run cfg r).1.idCounter < sizeMax := idCounter_lt op hr
    change ((op.issued? r).toList ++ issuedBy cfg (op.run cfg r).1 ops).length ≤ _ at h
    change ((op.issued? r).toList ++ issuedBy cfg (op.run cfg r).1 ops).Nodup
    cases hi : op.issued? r with
    | none =>
      rw [hi] at h
      exact ih hlt h
    | some first =>
      rw [hi] at h hcounter
      have h : (issuedBy cfg (op.run cfg r).1 ops).length + 1 ≤ sizeMax := h
      refine List.nodup_cons.mpr ⟨fun hm => ?_, ih hlt (by omega)⟩
      -- a later id stands for a later value of the counter
      obtain ⟨now, he⟩ := Operation.issued_eq hi
      obtain ⟨now', m, hm, he'⟩ := mem_issuedBy hlt hm
      have hsame := generateNodeId_inj (he.symm.trans he')
      rw [hcounter, Option.isSome_some, if_pos rfl, Nat.mod_add_mod] at hsame
      simp only [sizeMax, Nat.reducePow] at hr h hsame
      omega

end Registry
end LightApr.Core
