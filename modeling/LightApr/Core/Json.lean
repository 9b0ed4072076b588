import LightApr.Core.Bytes
import LightApr.Lib.Utf8
import Mathlib.Algebra.Ring.Int.Defs

/-! The JSON values the program exchanges, and what it relies on of the JSON
library. Parsing and printing are third-party code and stay parameters. -/
namespace LightApr.Core
open Lib

/-- A JSON value. The members of an object are kept in key order, one per key.
Of a floating-point number only the integer part and the printed text are read. -/
inductive Json where
  | null
  | bool (b : Bool)
  | int (n : Int)
  | float (whole : Int) (text : Bytes)
  | str (s : Bytes)
  | arr (items : List Json)
  | obj (fields : List (Bytes × Json))
  deriving Repr, Inhabited

namespace Json

def isObject : Json → Bool | obj _ => true | _ => false

/-- `j[key]` on a member that exists; `contains` is its `isSome`. -/
def field? (key : Bytes) : Json → Option Json
  | obj fields => fields.lookup key
  | _ => none

/-- `get<std::string>()`; none: a type error is thrown. -/
def getString? : Json → Option Bytes
  | str s => some s
  | _ => none

/-- `get<std::vector<std::string>>()`; none: a type error is thrown. -/
def getStrings? : Json → Option (List Bytes)
  | arr items => items.mapM getString?
  | _ => none

/-- `value(key, fallback)` for a string; none: not an object, or not a string. -/
def valueString? (key fallback : Bytes) (j : Json) : Option Bytes :=
  match j with
  | obj fields =>
    match fields.lookup key with
    | some v => v.getString?
    | none => some fallback
  | _ => none

/-- `fields[key] = value` in a map ordered by key. -/
def insertField (key : Bytes) (value : Json) : List (Bytes × Json) → List (Bytes × Json)
  | [] => [(key, value)]
  | (k, v) :: rest =>
    if key = k then (key, value) :: rest
    else if key < k then (key, value) :: (k, v) :: rest
    else (k, v) :: insertField key value rest

/-- `operator[]` takes a name, on an object and on null, which becomes one. On any other value it throws. -/
def assignable : Json → Bool
  | obj _ | null => true
  | _ => false

/-- `j[key] = value` where it does not throw. -/
def set (j : Json) (key : Bytes) (value : Json) : Json :=
  match j with
  | obj fields => obj (insertField key value fields)
  | null => obj [(key, value)]
  | j => j

def erase (key : Bytes) : Json → Json
  | obj fields => obj (fields.filter fun f => f.1 ≠ key)
  | j => j

/-- An object literal. -/
def mkObj (members : List (Bytes × Json)) : Json :=
  obj (members.foldl (fun fields m => insertField m.1 m.2 fields) [])

/-- The names that a loop over the value reads by `it.key()`; none: that throws, on the first element of a value
that is no object. -/
def keys? : Json → Option (List Bytes)
  | obj fields => some (fields.map Prod.fst)
  | null | arr [] => some []
  | _ => none

/-- The values a loop over `j` visits. -/
def elements : Json → List Json
  | obj fields => fields.map Prod.snd
  | arr items => items
  | null => []
  | j => [j]

def members : Json → List (Bytes × Json)
  | obj fields => fields
  | _ => []

mutual
/-- Every string in the value, the member names included, is valid UTF-8. -/
def utf8 : Json → Bool
  | null | bool _ | int _ | float _ _ => true
  | str s => Utf8.Valid s
  | arr items => utf8Items items
  | obj fields => utf8Fields fields
def utf8Items : List Json → Bool
  | [] => true
  | j :: rest => utf8 j && utf8Items rest
def utf8Fields : List (Bytes × Json) → Bool
  | [] => true
  | (k, j) :: rest => Utf8.Valid k && utf8 j && utf8Fields rest
end

@[simp] theorem utf8_null : utf8 null = true := rfl
@[simp] theorem utf8_bool (b : Bool) : utf8 (bool b) = true := rfl
@[simp] theorem utf8_int (n : Int) : utf8 (int n) = true := rfl
@[simp] theorem utf8_str (s : Bytes) : utf8 (str s) = true ↔ Utf8.Valid s := by
  simp [utf8]

@[simp] theorem utf8_arr (items : List Json) : utf8 (arr items) = true ↔ ∀ j ∈ items, utf8 j = true := by
  rw [utf8]
  induction items with
  | nil => simp [utf8Items]
  | cons j rest ih => simp [utf8Items, ih]

@[simp] theorem utf8_obj (fields : List (Bytes × Json)) :
    utf8 (obj fields) = true ↔ ∀ f ∈ fields, Utf8.Valid f.1 ∧ utf8 f.2 = true := by
  rw [utf8]
  induction fields with
  | nil => simp [utf8Fields]
  | cons f rest ih =>
    obtain ⟨k, j⟩ := f
    simp [utf8Fields, ih, and_assoc]

theorem mem_of_lookup {key : Bytes} {fields : List (Bytes × Json)} {v : Json}
    (h : fields.lookup key = some v) : (key, v) ∈ fields := by
  induction fields with
  | nil => exact nomatch h
  | cons f rest ih =>
    obtain ⟨k, j⟩ := f
    rw [List.lookup_cons] at h
    split at h
    · rename_i he
      obtain rfl := Option.some.inj h
      simp [beq_iff_eq.mp he]
    · exact List.mem_cons_of_mem _ (ih h)

theorem utf8_field {key : Bytes} {j v : Json} (hj : utf8 j = true) (h : j.field? key = some v) :
    utf8 v = true := by
  cases j with
  | obj fields => exact ((utf8_obj fields).mp hj _ (mem_of_lookup h)).2
  | _ => exact nomatch h

theorem utf8_getString {j : Json} {s : Bytes} (hj : utf8 j = true) (h : j.getString? = some s) :
    Utf8.Valid s := by
  cases j with
  | str t =>
    obtain rfl := Option.some.inj h
    simpa using hj
  | _ => exact nomatch h

theorem utf8_getStrings {j : Json} {ss : List Bytes} (hj : utf8 j = true)
    (h : j.getStrings? = some ss) : ∀ s ∈ ss, Utf8.Valid s := by
  cases j with
  | arr items =>
    replace hj := (utf8_arr items).mp hj
    change items.mapM getString? = some ss at h
    induction items generalizing ss with
    | nil =>
      obtain rfl : [] = ss := by simpa using h
      simp
    | cons j rest ih =>
      simp only [List.mapM_cons, Option.bind_eq_bind, Option.bind_eq_some_iff] at h
      obtain ⟨s, hs, t, ht, he⟩ := h
      obtain rfl := Option.some.inj he
      intro u hu
      rcases List.mem_cons.mp hu with rfl | hu
      · exact utf8_getString (hj j (by simp)) hs
      · exact ih (fun j hm => hj j (List.mem_cons_of_mem _ hm)) ht u hu
  | _ => exact nomatch h

theorem mem_insertField {key : Bytes} {value : Json} {fields : List (Bytes × Json)}
    {f : Bytes × Json} (h : f ∈ insertField key value fields) : f = (key, value) ∨ f ∈ fields := by
  induction fields with
  | nil => simpa [insertField] using h
  | cons g rest ih =>
    obtain ⟨k, v⟩ := g
    simp only [insertField] at h
    split at h
    · rcases List.mem_cons.mp h with rfl | h
      · exact .inl rfl
      · exact .inr (List.mem_cons_of_mem _ h)
    · split at h
      · rcases List.mem_cons.mp h with rfl | h
        · exact .inl rfl
        · exact .inr h
      · rcases List.mem_cons.mp h with rfl | h
        · exact .inr (by simp)
        · exact (ih h).imp_right (List.mem_cons_of_mem _)

theorem utf8_set {key : Bytes} {value j : Json} (hk : Utf8.Valid key) (hv : utf8 value = true)
    (hj : utf8 j = true) : utf8 (j.set key value) = true := by
  cases j with
  | obj fields =>
    refine (utf8_obj _).mpr fun f hf => ?_
    rcases mem_insertField hf with rfl | hf
    · exact ⟨hk, hv⟩
    · exact (utf8_obj fields).mp hj f hf
  | null => simpa [set] using ⟨hk, hv⟩
  | _ => exact hj

theorem mem_members_erase {key : Bytes} {j : Json} {f : Bytes × Json} :
    f ∈ (j.erase key).members ↔ f ∈ j.members ∧ f.1 ≠ key := by
  cases j with
  | obj fields => simp [erase, members]
  | _ => simp [erase, members]

theorem mem_keys {j : Json} {f : Bytes × Json} {keys : List Bytes} (hk : j.keys? = some keys)
    (h : f ∈ j.members) : f.1 ∈ keys := by
  cases j with
  | obj fields =>
    obtain rfl := Option.some.inj hk
    exact List.mem_map_of_mem h
  | _ => exact nomatch h

theorem mem_elements {j : Json} {f : Bytes × Json} (h : f ∈ j.members) : f.2 ∈ j.elements := by
  cases j with
  | obj fields => exact List.mem_map_of_mem h
  | _ => exact nomatch h

/-- The elements of an object are the values of its members. -/
theorem elements_object {j : Json} (h : j.isObject = true) : j.elements = j.members.map Prod.snd := by
  cases j with
  | obj fields => rfl
  | _ => exact nomatch h

theorem field_ne_none_of_mem {j : Json} {f : Bytes × Json} (h : f ∈ j.members) : j.field? f.1 ≠ none := by
  cases j with
  | obj fields =>
    intro hn
    have hne := List.lookup_eq_none_iff.mp hn f h
    simp at hne
  | _ => exact nomatch h

theorem isObject_erase {key : Bytes} {j : Json} (h : j.isObject = true) : (j.erase key).isObject = true := by
  cases j with
  | obj fields => rfl
  | _ => exact nomatch h

theorem isObject_of_field {key : Bytes} {j v : Json} (h : j.field? key = some v) : j.isObject = true := by
  cases j with
  | obj fields => rfl
  | _ => exact nomatch h

theorem assignable_of_isObject {j : Json} (h : j.isObject = true) : j.assignable = true := by
  cases j with
  | obj fields => rfl
  | _ => exact nomatch h

theorem assignable_of_field {key : Bytes} {j v : Json} (h : j.field? key = some v) : j.assignable = true :=
  assignable_of_isObject (isObject_of_field h)

theorem isObject_set {key : Bytes} {j v : Json} (h : j.assignable = true) : (j.set key v).isObject = true := by
  cases j with
  | obj fields => rfl
  | null => rfl
  | _ => exact nomatch h

theorem mem_insertField_self (key : Bytes) (value : Json) (fields : List (Bytes × Json)) :
    (key, value) ∈ insertField key value fields := by
  induction fields with
  | nil => simp [insertField]
  | cons g rest ih =>
    simp only [insertField]
    split
    · simp
    · split
      · simp
      · exact List.mem_cons_of_mem _ ih

theorem mem_insertField_of_ne {key : Bytes} {value : Json} {fields : List (Bytes × Json)}
    {f : Bytes × Json} (h : f ∈ fields) (hne : f.1 ≠ key) : f ∈ insertField key value fields := by
  induction fields with
  | nil => exact nomatch h
  | cons g rest ih =>
    simp only [insertField]
    rcases List.mem_cons.mp h with rfl | h
    · rw [if_neg fun he => hne he.symm]
      split <;> simp
    · split
      · exact List.mem_cons_of_mem _ h
      · split
        · exact List.mem_cons_of_mem _ (List.mem_cons_of_mem _ h)
        · exact List.mem_cons_of_mem _ (ih h)

private theorem lookup_cons_if (k k' : Bytes) (v : Json) (rest : List (Bytes × Json)) :
    ((k', v) :: rest).lookup k = if k = k' then some v else rest.lookup k := by
  by_cases h : k = k'
  · subst h
    simp
  · rw [List.lookup_cons, beq_false_of_ne h, if_neg h]

theorem lookup_insertField (key : Bytes) (value : Json) (fields : List (Bytes × Json)) (k : Bytes) :
    (insertField key value fields).lookup k = if k = key then some value else fields.lookup k := by
  induction fields with
  | nil => exact lookup_cons_if ..
  | cons g rest ih =>
    obtain ⟨k', v⟩ := g
    simp only [insertField]
    split
    · rename_i he
      subst he
      rw [lookup_cons_if, lookup_cons_if]
      split <;> rfl
    · rename_i hne
      split
      · exact lookup_cons_if ..
      · rw [lookup_cons_if, lookup_cons_if, ih]
        by_cases h : k = k'
        · subst h
          rw [if_pos rfl, if_pos rfl, if_neg fun he => hne he.symm]
        · rw [if_neg h, if_neg h]

/-- The members stand in key order, one per key. -/
def Sorted (fields : List (Bytes × Json)) : Prop := fields.Pairwise fun f g => f.1 < g.1

theorem Sorted.insertField {fields : List (Bytes × Json)} (h : Sorted fields) (key : Bytes) (value : Json) :
    Sorted (insertField key value fields) := by
  induction fields with
  | nil => exact List.pairwise_singleton _ _
  | cons g rest ih =>
    obtain ⟨k, v⟩ := g
    obtain ⟨hk, hrest⟩ := List.pairwise_cons.mp h
    simp only [Json.insertField]
    split
    · rename_i he
      subst he
      exact List.pairwise_cons.mpr ⟨hk, hrest⟩
    · rename_i hne
      split
      · rename_i hlt
        refine List.pairwise_cons.mpr ⟨fun f hf => ?_, h⟩
        rcases List.mem_cons.mp hf with rfl | hf
        · exact hlt
        · exact List.lt_trans hlt (hk f hf)
      · rename_i hge
        refine List.pairwise_cons.mpr ⟨fun f hf => ?_, ih hrest⟩
        rcases mem_insertField hf with rfl | hf
        · exact (List.le_iff_lt_or_eq.mp hge).resolve_right (Ne.symm hne)
        · exact hk f hf

theorem Sorted.lookup_of_lt {fields : List (Bytes × Json)} {key : Bytes} (h : ∀ f ∈ fields, key < f.1) :
    fields.lookup key = none := by
  apply List.lookup_eq_none_iff.mpr
  intro f hf
  apply bne_iff_ne.mpr
  intro he
  exact List.lt_irrefl _ (he ▸ h f hf)

/-- A quantity summed over the members. -/
def weigh (f : Json → Int) (fields : List (Bytes × Json)) : Int := (fields.map fun m => f m.2).sum

theorem weigh_cons (f : Json → Int) (k : Bytes) (v : Json) (fields : List (Bytes × Json)) :
    weigh f ((k, v) :: fields) = f v + weigh f fields := by
  rw [weigh, List.map_cons, List.sum_cons, ← weigh]

/-- The new member counts, the one in whose place it comes no longer does. -/
theorem weigh_insertField (f : Json → Int) {fields : List (Bytes × Json)} (h : Sorted fields) (key : Bytes)
    (value : Json) :
    weigh f (insertField key value fields) = weigh f fields + (f value - (fields.lookup key).elim 0 f) := by
  induction fields with
  | nil => simp [insertField, weigh]
  | cons g rest ih =>
    obtain ⟨k, v⟩ := g
    obtain ⟨hk, hrest⟩ := List.pairwise_cons.mp h
    simp only [insertField]
    rw [lookup_cons_if]
    split
    · rw [weigh_cons, weigh_cons, Option.elim_some]
      omega
    · split
      · rename_i hlt
        rw [Sorted.lookup_of_lt fun g hg => List.lt_trans hlt (hk g hg), weigh_cons, weigh_cons, Option.elim_none]
        omega
      · rw [weigh_cons, weigh_cons, ih hrest]
        omega

theorem weigh_erase (f : Json → Int) {fields : List (Bytes × Json)} (h : Sorted fields) (key : Bytes) :
    weigh f (fields.filter fun m => m.1 ≠ key) = weigh f fields - (fields.lookup key).elim 0 f := by
  induction fields with
  | nil => simp [weigh]
  | cons g rest ih =>
    obtain ⟨k, v⟩ := g
    obtain ⟨hk, hrest⟩ := List.pairwise_cons.mp h
    rw [lookup_cons_if]
    by_cases he : key = k
    · subst he
      have hno := Sorted.lookup_of_lt hk
      rw [List.filter_cons_of_neg (by simp), ih hrest, hno, if_pos rfl, weigh_cons, Option.elim_some,
        Option.elim_none]
      omega
    · rw [List.filter_cons_of_pos (by simpa using Ne.symm he), weigh_cons, ih hrest, if_neg he, weigh_cons]
      omega

private theorem lookup_foldl_of_fresh {ms fields : List (Bytes × Json)} {k : Bytes}
    (hk : k ∉ ms.map Prod.fst) :
    (ms.foldl (fun fs m => insertField m.1 m.2 fs) fields).lookup k = fields.lookup k := by
  induction ms generalizing fields with
  | nil => rfl
  | cons m ms ih =>
    simp only [List.map_cons, List.mem_cons, not_or] at hk
    rw [List.foldl_cons, ih hk.2, lookup_insertField, if_neg hk.1]

/-- Of distinct names none comes back behind its member. -/
private theorem split_of_nodup {ms : List (Bytes × Json)} {f : Bytes × Json} (hn : (ms.map Prod.fst).Nodup)
    (h : f ∈ ms) : ∃ before after, ms = before ++ f :: after ∧ f.1 ∉ after.map Prod.fst := by
  obtain ⟨before, after, rfl⟩ := List.append_of_mem h
  rw [List.map_append, List.map_cons] at hn
  exact ⟨before, after, rfl, (List.nodup_cons.mp (List.nodup_append.mp hn).2.1).1⟩

/-- With distinct names an object literal is read back member by member. -/
theorem field_mkObj {ms : List (Bytes × Json)} {k : Bytes} {v : Json} (hn : (ms.map Prod.fst).Nodup)
    (h : (k, v) ∈ ms) : (mkObj ms).field? k = some v := by
  obtain ⟨before, after, rfl, hfresh⟩ := split_of_nodup hn h
  change ((before ++ (k, v) :: after).foldl (fun fs m => insertField m.1 m.2 fs) []).lookup k = some v
  rw [List.foldl_append, List.foldl_cons, lookup_foldl_of_fresh hfresh, lookup_insertField, if_pos rfl]

private theorem mem_foldl_insertField {ms fields : List (Bytes × Json)} {f : Bytes × Json}
    (h : f ∈ ms.foldl (fun fs m => insertField m.1 m.2 fs) fields) : f ∈ ms ∨ f ∈ fields := by
  induction ms generalizing fields with
  | nil => exact .inr h
  | cons m ms ih =>
    rcases ih h with h | h
    · exact .inl (List.mem_cons_of_mem _ h)
    · rcases mem_insertField h with rfl | h
      · exact .inl (by simp)
      · exact .inr h

private theorem mem_foldl_of_fresh {ms fields : List (Bytes × Json)} {f : Bytes × Json}
    (h : f ∈ fields) (hf : f.1 ∉ ms.map Prod.fst) :
    f ∈ ms.foldl (fun fs m => insertField m.1 m.2 fs) fields := by
  induction ms generalizing fields with
  | nil => exact h
  | cons m ms ih =>
    simp only [List.map_cons, List.mem_cons, not_or] at hf
    exact ih (mem_insertField_of_ne h hf.1) hf.2

/-- With distinct names an object literal holds exactly its members. -/
theorem mem_members_mkObj {ms : List (Bytes × Json)} (hn : (ms.map Prod.fst).Nodup)
    (f : Bytes × Json) : f ∈ (mkObj ms).members ↔ f ∈ ms := by
  refine ⟨fun h => (mem_foldl_insertField h).resolve_right (by simp), fun h => ?_⟩
  obtain ⟨before, after, rfl, hfresh⟩ := split_of_nodup hn h
  change f ∈ (before ++ f :: after).foldl (fun fs m => insertField m.1 m.2 fs) []
  rw [List.foldl_append, List.foldl_cons]
  exact mem_foldl_of_fresh (mem_insertField_self ..) hfresh

theorem utf8_mkObj {ms : List (Bytes × Json)} (hn : (ms.map Prod.fst).Nodup) :
    utf8 (mkObj ms) = true ↔ ∀ m ∈ ms, Utf8.Valid m.1 ∧ utf8 m.2 = true := by
  have h := mem_members_mkObj hn
  exact (utf8_obj _).trans ⟨fun hu m hm => hu m ((h m).mpr hm), fun hu m hm => hu m ((h m).mp hm)⟩

end Json

/-- What the program relies on of the JSON library: `parse` accepts only text whose
strings are valid UTF-8, and `dump` fails exactly on a value with another string. -/
structure JsonLib where
  /-- none: `parse_error` is thrown -/
  parse : Bytes → Option Json
  /-- none: `type_error` is thrown -/
  dump : Json → Option Bytes
  /-- `json{j}` is an array that holds `j`, and no copy of it: compilers resolve this differently -/
  bracesWrap : Bool
  parse_utf8 : ∀ {text j}, parse text = some j → j.utf8 = true
  dump_isSome : ∀ j, (dump j).isSome = j.utf8
  dump_empty : dump (.obj []) = some (ascii "\x7b\x7d")

/-- `json{j}` -/
def JsonLib.braced (lib : JsonLib) (j : Json) : Json := if lib.bracesWrap then .arr [j] else j

/-- The library as the other kind of compiler builds it. -/
def JsonLib.wrapping (lib : JsonLib) : JsonLib := { lib with bracesWrap := true }

theorem JsonLib.dump_of_utf8 (lib : JsonLib) {j : Json} (h : j.utf8 = true) :
    ∃ text, lib.dump j = some text :=
  Option.isSome_iff_exists.mp ((lib.dump_isSome j).trans h)

theorem JsonLib.utf8_of_dump (lib : JsonLib) {j : Json} {text : Bytes} (h : lib.dump j = some text) :
    j.utf8 = true := by
  rw [← lib.dump_isSome j, h]
  rfl

namespace Json

/-- One byte of a string literal, escaped where JSON asks for it. -/
def escape (b : UInt8) : Bytes :=
  if b = 34 then ascii "\\\""
  else if b = 92 then ascii "\\\\"
  else if b = 8 then ascii "\\b"
  else if b = 9 then ascii "\\t"
  else if b = 10 then ascii "\\n"
  else if b = 12 then ascii "\\f"
  else if b = 13 then ascii "\\r"
  else if b < 32 then
    ascii "\\u00" ++ [if b < 16 then 48 else 49, if b % 16 < 10 then 48 + b % 16 else 87 + b % 16]
  else [b]

def quote (s : Bytes) : Bytes := ascii "\"" ++ (s.map escape).flatten ++ ascii "\""

mutual
/-- The compact text of a value. -/
def render : Json → Bytes
  | null => ascii "null"
  | bool b => if b then ascii "true" else ascii "false"
  | int n => decimalInt n
  | float _ text => text
  | str s => quote s
  | arr items => ascii "[" ++ renderItems items ++ ascii "]"
  | obj fields => ascii "\x7b" ++ renderFields fields ++ ascii "\x7d"
def renderItems : List Json → Bytes
  | [] => []
  | [j] => render j
  | j :: rest => render j ++ ascii "," ++ renderItems rest
def renderFields : List (Bytes × Json) → Bytes
  | [] => []
  | [(k, j)] => quote k ++ ascii ":" ++ render j
  | (k, j) :: rest => quote k ++ ascii ":" ++ render j ++ ascii "," ++ renderFields rest
end

end Json

/-- A library that prints every value and reads the compact text of the values `docs`. -/
def JsonLib.ofDocuments (docs : List Json) : JsonLib where
  parse text := docs.find? fun j => j.utf8 && decide (j.render = text)
  dump j := if j.utf8 then some j.render else none
  bracesWrap := false
  parse_utf8 h := by
    have := List.find?_some h
    simp_all
  dump_isSome j := by
    cases h : j.utf8 <;> simp
  dump_empty := rfl

end LightApr.Core
