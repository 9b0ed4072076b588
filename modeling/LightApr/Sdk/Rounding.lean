import LightApr.Core.Node

/-! What `JSON.parse` makes of a printed value: its numbers are read as doubles. -/
namespace LightApr.Sdk.Rounding
open LightApr.Core

mutual
/-- Numbers that are read may be rounded. -/
def rounded (round : Json → Json) : Json → Json
  | .null => .null
  | .bool b => .bool b
  | .int n => round (.int n)
  | .float whole text => round (.float whole text)
  | .str s => .str s
  | .arr items => .arr (roundedItems round items)
  | .obj fields => .obj (roundedFields round fields)
def roundedItems (round : Json → Json) : List Json → List Json
  | [] => []
  | j :: rest => rounded round j :: roundedItems round rest
def roundedFields (round : Json → Json) : List (Bytes × Json) → List (Bytes × Json)
  | [] => []
  | (k, j) :: rest => (k, rounded round j) :: roundedFields round rest
end

/-- How a number is read, which is exact up to 2^53. -/
structure NumberReader where
  round : Json → Json
  safe : ∀ n : Int, -2 ^ 53 ≤ n → n ≤ 2 ^ 53 → round (.int n) = .int n

/-- One that rounds nothing. -/
def NumberReader.exact : NumberReader := ⟨id, fun _ _ _ => rfl⟩

/-- The value holds no number that is rounded. -/
def Exact (round : Json → Json) (j : Json) : Prop := rounded round j = j

section
variable {round : Json → Json}

theorem lookup_roundedFields (round : Json → Json) (fields : List (Bytes × Json)) (k : Bytes) :
    (roundedFields round fields).lookup k = (fields.lookup k).map (rounded round) := by
  induction fields with
  | nil => rfl
  | cons f rest ih =>
    obtain ⟨k', j⟩ := f
    rw [roundedFields, List.lookup_cons, List.lookup_cons, ih]
    cases k == k' <;> rfl

theorem field_rounded (round : Json → Json) {j v : Json} {k : Bytes} (h : j.field? k = some v) :
    (rounded round j).field? k = some (rounded round v) := by
  cases j with
  | obj fields =>
    rw [rounded]
    exact (lookup_roundedFields round fields k).trans (congrArg (Option.map (rounded round)) h)
  | _ => cases h

theorem roundedItems_eq_map (round : Json → Json) (items : List Json) :
    roundedItems round items = items.map (rounded round) := by
  induction items with
  | nil => rfl
  | cons j rest ih => rw [roundedItems, ih, List.map_cons]

theorem exact_arr {items : List Json} (h : ∀ j ∈ items, Exact round j) : Exact round (.arr items) := by
  rw [Exact, rounded, roundedItems_eq_map, List.map_congr_left h, List.map_id']

theorem exact_obj {fields : List (Bytes × Json)} (h : ∀ f ∈ fields, Exact round f.2) : Exact round (.obj fields) := by
  have hfields : roundedFields round fields = fields := by
    induction fields with
    | nil => rfl
    | cons f rest ih =>
      obtain ⟨hf, hrest⟩ := List.forall_mem_cons.mp h
      obtain ⟨k, j⟩ := f
      rw [roundedFields, ih hrest]
      exact congrArg (fun j => (k, j) :: rest) hf
  rw [Exact, rounded, hfields]

theorem exact_mkObj {members : List (Bytes × Json)} (h : ∀ m ∈ members, Exact round m.2) :
    Exact round (.mkObj members) := by
  refine exact_obj ?_
  suffices hfold : ∀ fields : List (Bytes × Json), (∀ f ∈ fields, Exact round f.2) →
      ∀ f ∈ members.foldl (fun fields m => Json.insertField m.1 m.2 fields) fields, Exact round f.2 from
    hfold [] nofun
  induction members with
  | nil => exact fun fields hfields => hfields
  | cons m members ih =>
    obtain ⟨hm, hrest⟩ := List.forall_mem_cons.mp h
    refine fun fields hfields => ih hrest _ fun f hf => ?_
    rcases Json.mem_insertField hf with rfl | hf
    · exact hm
    · exact hfields f hf

/-- The port of an endpoint is a number that every reader takes as it is. -/
theorem exact_endpoint (reader : NumberReader) (ep : EndpointInfo) : Exact reader.round ep.toJson := by
  have hport : Exact reader.round (.int ep.port.toNat) := by
    have hlt := ep.port.toNat_lt
    rw [Exact, rounded]
    exact reader.safe _ (by omega) (by omega)
  refine exact_mkObj ?_
  rw [List.forall_mem_cons, List.forall_mem_cons, List.forall_mem_singleton]
  exact ⟨rfl, hport, rfl⟩

end
end LightApr.Sdk.Rounding
