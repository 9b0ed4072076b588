import LightApr.Lib.Writers
import Mathlib.Data.List.FinRange

/-! What a receiver gets of a channel. Where no two transfers overlap these are whole buffers, in the order in which
they went out, and the beginning of one more. -/
namespace LightApr.Lib.Writers.Channel
variable {α β : Type*}

/-- The symbols on the wire. -/
def received (c : Channel α) : List α := c.wire.map Prod.snd

/-- No buffer went out before an earlier one. -/
def InOrder (c : Channel α) : Prop := (c.wire.map Prod.fst).Pairwise (· ≤ ·)

/-- The first to go out is the first buffer. -/
def FirstOut (c : Channel α) : Prop := ∀ e ∈ c.wire.head?, e.1 = 0

instance (c : Channel α) : Decidable c.FirstOut := inferInstanceAs (Decidable (∀ e ∈ c.wire.head?, e.1 = 0))

/-- All of every buffer went out. -/
def Finished (c : Channel α) : Prop := ∀ k < c.buffers.length, 0 < c.sent k ∧ c.sent k = (c.buffer k).length

instance (c : Channel α) : Decidable c.Finished :=
  inferInstanceAs (Decidable (∀ k < c.buffers.length, 0 < c.sent k ∧ c.sent k = (c.buffer k).length))

/-- Behind the first `skip` symbols the receiver gets some of the units, each once, and the beginning of one more. -/
structure Outgoing (c : Channel α) (skip : Nat) (bytes : β → List α) (units sent : List β) (part : List α) : Prop where
  received : c.received.drop skip = (sent.map bytes).flatten ++ part
  once : sent.Subperm units
  ordered : c.InOrder → sent.Sublist units
  finished : c.Finished → sent.Perm units ∧ part = []
  part : part ≠ [] → ∃ u ∈ units, part <+: bytes u ∧ part ≠ bytes u

/-- What holds of every part of a stream of units holds of every part of what the receiver gets. -/
theorem Outgoing.cut {c : Channel α} {skip : Nat} {bytes : β → List α} {units sent : List β} {part read : List α}
    (h : c.Outgoing skip bytes units sent part) {Q : List β → List α → Prop} (hread : read <+: c.received.drop skip)
    (hcut : ∀ us : List β, us ⊆ units → read <+: (us.map bytes).flatten → ∃ done pending rest, us = done ++ pending ∧
      read = (done.map bytes).flatten ++ rest ∧ Q done rest ∧ ∀ u ∈ pending.head?, ¬ bytes u <+: rest) :
    ∃ done pending rest, sent = done ++ pending ∧ read = (done.map bytes).flatten ++ rest ∧ Q done rest ∧
      ∀ u ∈ pending.head?, ¬ bytes u <+: rest := by
  rw [h.received] at hread
  by_cases hpart : part = []
  · rw [hpart, List.append_nil] at hread
    exact hcut sent h.once.subset hread
  · obtain ⟨u, hu, hpre, hne⟩ := h.part hpart
    have hmore : ((sent ++ [u]).map bytes).flatten = (sent.map bytes).flatten ++ bytes u := by simp
    obtain ⟨done, pending, rest, hsplit, hdone, hq, hnext⟩ := hcut (sent ++ [u])
      (List.append_subset.mpr ⟨h.once.subset, fun w hw => List.mem_singleton.mp hw ▸ hu⟩)
      (hread.trans (hmore ▸ (List.prefix_append_right_inj _).mpr hpre))
    rcases List.eq_nil_or_concat pending with rfl | ⟨pending, v, rfl⟩
    · -- the unit has not gone out whole
      have hlen := hread.length_le
      have hlt : part.length < (bytes u).length := by
        refine Nat.lt_of_le_of_ne hpre.length_le fun heq => hne (hpre.eq_of_length heq)
      rw [hdone, ← List.append_nil done, ← hsplit, hmore, List.length_append, List.length_append,
        List.length_append] at hlen
      omega
    · rw [List.concat_eq_append, ← List.append_assoc] at hsplit
      obtain ⟨rfl, -⟩ := List.append_inj' hsplit rfl
      refine ⟨done, pending, rest, rfl, hdone, hq, fun w hw => hnext w ?_⟩
      rw [List.concat_eq_append, List.head?_append]
      exact Option.mem_def.mpr (by rw [Option.mem_def.mp hw]; rfl)

/-- Who has all that has gone out has all the units. -/
theorem Outgoing.pending_nil {c : Channel α} {skip : Nat} {bytes : β → List α} {units done pending : List β}
    {part rest : List α} (h : c.Outgoing skip bytes units (done ++ pending) part)
    (hall : c.received.drop skip = (done.map bytes).flatten ++ rest) (hnext : ∀ u ∈ pending.head?, ¬ bytes u <+: rest) :
    pending = [] := by
  cases pending with
  | nil => rfl
  | cons u pending =>
    refine absurd ?_ (hnext u rfl)
    have hrest := h.received.symm.trans hall
    rw [List.map_append, List.flatten_append, List.append_assoc] at hrest
    rw [← List.append_cancel_left hrest, List.map_cons, List.flatten_cons, List.append_assoc]
    exact List.prefix_append ..

/-! Positions of a list, each once. -/

theorem subperm_select {us : List β} {is : List (Fin us.length)} (h : is.Nodup) : (is.map us.get).Subperm us := by
  obtain ⟨l, hl, hs⟩ := List.subperm_of_subset h fun i _ => List.mem_finRange i
  have hmap := hs.map us.get
  rw [List.map_get_finRange] at hmap
  exact ⟨_, hl.map _, hmap⟩

theorem perm_select {us : List β} {is : List (Fin us.length)} (h : is.Nodup) (hall : ∀ i, i ∈ is) :
    (is.map us.get).Perm us := by
  have hperm : is.Perm (List.finRange us.length) :=
    (List.perm_ext_iff_of_nodup h (List.nodup_finRange _)).mpr fun i => iff_of_true (hall i) (List.mem_finRange i)
  have hmap := hperm.map us.get
  rwa [List.map_get_finRange] at hmap

/-! The writers that are finished. -/

variable {c : Channel α} {done : List Nat} {open? : Option Nat}

theorem Tidy.received (h : c.Tidy done open?) :
    c.received = (done.map c.buffer).flatten ++ open?.elim [] fun k => (c.buffer k).take (c.sent k) := by
  have hblock (k : Nat) : (c.block k).map Prod.snd = c.buffer k := by simp [block]
  rw [Channel.received, h.wire, List.map_append, List.map_flatten, List.map_map]
  congr 1
  · exact congrArg List.flatten (List.map_congr_left fun k _ => hblock k)
  · cases open? with
    | none => rfl
    | some k => rw [Option.elim, Option.elim, List.map_take, hblock]

theorem Tidy.block_ne_nil (h : c.Tidy done open?) {k : Nat} (hk : k ∈ done) : c.block k ≠ [] := by
  obtain ⟨-, hpos, hlen⟩ := h.finished k hk
  intro hnil
  rw [hlen, List.map_eq_nil_iff.mp hnil] at hpos
  exact Nat.lt_irrefl 0 hpos

/-- In order, the finished writers are in order. -/
theorem Tidy.sorted (h : c.Tidy done open?) (ho : c.InOrder) : done.Pairwise (· < ·) := by
  rw [InOrder, h.wire, List.map_append, List.pairwise_append, List.map_flatten, List.pairwise_flatten, List.map_map,
    List.pairwise_map] at ho
  refine (ho.1.2.and h.nodup).imp_of_mem fun {j k} hj hk hjk => ?_
  obtain ⟨x, hx⟩ := List.exists_mem_of_ne_nil _ (h.block_ne_nil hj)
  obtain ⟨y, hy⟩ := List.exists_mem_of_ne_nil _ (h.block_ne_nil hk)
  have hle := hjk.1 x.1 (List.mem_map_of_mem hx) y.1 (List.mem_map_of_mem hy)
  rw [fst_of_mem_block hx, fst_of_mem_block hy] at hle
  exact Nat.lt_of_le_of_ne hle hjk.2

theorem Tidy.all_done (h : c.Tidy done open?) (hf : c.Finished) : open? = none ∧ ∀ k < c.buffers.length, k ∈ done := by
  have hnone : open? = none := by
    cases ho : open? with
    | none => rfl
    | some k =>
      have hp := h.inside k ho
      exact absurd (hf k hp.lt_length).2 (Nat.ne_of_lt hp.2)
  refine ⟨hnone, fun k hk => ?_⟩
  by_contra hno
  have h0 := h.fresh k hno (by simp [hnone])
  exact Nat.lt_irrefl 0 (h0 ▸ (hf k hk).1)

/-- The piece of the open buffer. -/
theorem Tidy.open_part (h : c.Tidy done open?) {k : Nat} (hk : k ∈ open?) :
    k < c.buffers.length ∧ k ∉ done ∧ (c.buffer k).take (c.sent k) ≠ c.buffer k := by
  have hp := h.inside k hk
  refine ⟨hp.lt_length, fun hd => Nat.ne_of_lt hp.2 (h.finished k hd).2.2, fun heq => ?_⟩
  have hlen := congrArg List.length heq
  rw [List.length_take, Nat.min_eq_left (Nat.le_of_lt hp.2)] at hlen
  exact Nat.ne_of_lt hp.2 hlen

/-- The first buffer is the first in the order, or nothing else has begun. -/
theorem Tidy.first (h : c.Tidy done open?) (hfirst : c.FirstOut) :
    (∃ rest, done = 0 :: rest) ∨ done = [] ∧ ∀ k ∈ open?, k = 0 := by
  rw [FirstOut, h.wire] at hfirst
  cases done with
  | cons j rest =>
    obtain ⟨e, t, ht⟩ := List.exists_cons_of_ne_nil (h.block_ne_nil (List.mem_cons_self (a := j)))
    have he : e.1 = 0 := hfirst e (by rw [List.map_cons, List.flatten_cons, ht]; rfl)
    have hj : e.1 = j := fst_of_mem_block (c := c) (by rw [ht]; exact List.mem_cons_self)
    exact .inl ⟨rest, by rw [← hj, he]⟩
  | nil =>
    refine .inr ⟨rfl, fun k hk => ?_⟩
    obtain rfl := Option.mem_def.mp hk
    have hp := h.inside k rfl
    have hne : (c.block k).take (c.sent k) ≠ [] := by
      intro hnil
      have hlen := congrArg List.length hnil
      rw [List.length_take, block, List.length_map, Nat.min_eq_left (Nat.le_of_lt hp.2)] at hlen
      exact Nat.ne_of_gt hp.1 hlen
    obtain ⟨e, t, ht⟩ := List.exists_cons_of_ne_nil hne
    have he : e.1 = 0 := hfirst e (by simp [ht])
    exact (fst_of_mem_block (List.mem_of_mem_take (ht ▸ List.mem_cons_self))).symm.trans he

/-! The units of a channel. -/

variable {bytes : β → List α} {us : List β}

theorem buffer_units (hb : c.buffers = us.map bytes) (i : Fin us.length) : c.buffer i = bytes (us.get i) := by
  simp [buffer, hb]

/-- The positions of the finished writers. -/
theorem Tidy.positions (h : c.Tidy done open?) (hb : c.buffers = us.map bytes) :
    ∃ is : List (Fin us.length), is.map Fin.val = done := by
  have hlt : ∀ k ∈ done, k < us.length := fun k hk => by
    have := (h.finished k hk).1
    rwa [hb, List.length_map] at this
  exact ⟨done.pmap Fin.mk hlt, by simp [List.map_pmap]⟩

theorem units_positions (hb : c.buffers = us.map bytes) (is : List (Fin us.length)) :
    ((is.map Fin.val).map c.buffer).flatten = ((is.map us.get).map bytes).flatten := by
  rw [List.map_map, List.map_map]
  exact congrArg List.flatten (List.map_congr_left fun i _ => buffer_units hb i)

/-- What went out of the open buffer. -/
def piece (c : Channel α) (open? : Option Nat) : List α := open?.elim [] fun k => (c.buffer k).take (c.sent k)

/-- It is the beginning of a unit that is not finished. -/
theorem Tidy.piece_unit (h : c.Tidy done open?) (hb : c.buffers = us.map bytes) (hne : c.piece open? ≠ []) :
    ∃ i : Fin us.length, i.val ∉ done ∧ c.piece open? <+: bytes (us.get i) ∧ c.piece open? ≠ bytes (us.get i) := by
  cases hopen : open? with
  | none =>
    rw [hopen] at hne
    exact absurd rfl hne
  | some k =>
    obtain ⟨hk, hno, hpart⟩ := h.open_part hopen
    have hlt : k < us.length := by rwa [hb, List.length_map] at hk
    have hbuf : c.buffer k = bytes (us.get ⟨k, hlt⟩) := buffer_units hb ⟨k, hlt⟩
    rw [hbuf] at hpart
    rw [piece, Option.elim, hbuf]
    exact ⟨⟨k, hlt⟩, hno, List.take_prefix .., hpart⟩

/-- What goes out of a tidy channel. -/
theorem Tidy.outgoing_select {is : List (Fin us.length)} (h : c.Tidy (is.map Fin.val) open?)
    (hb : c.buffers = us.map bytes) : c.Outgoing 0 bytes us (is.map us.get) (c.piece open?) where
  received := by rw [List.drop_zero, h.received, units_positions hb, piece]
  once := subperm_select (.of_map Fin.val h.nodup)
  ordered ho := by
    have hsorted := h.sorted ho
    rw [List.pairwise_map] at hsorted
    exact List.map_getElem_sublist hsorted
  finished hf := by
    obtain ⟨rfl, hall⟩ := h.all_done hf
    refine ⟨perm_select (.of_map Fin.val h.nodup) fun i => ?_, rfl⟩
    have hi := hall i (by rw [hb, List.length_map]; exact i.isLt)
    obtain ⟨j, hj, hij⟩ := List.mem_map.mp hi
    exact Fin.ext hij ▸ hj
  part hne := by
    obtain ⟨i, -, hpart⟩ := h.piece_unit hb hne
    exact ⟨_, List.get_mem us i, hpart⟩

theorem Tidy.outgoing (h : c.Tidy done open?) (hb : c.buffers = us.map bytes) :
    ∃ sent part, c.Outgoing 0 bytes us sent part := by
  obtain ⟨is, rfl⟩ := h.positions hb
  exact ⟨_, _, h.outgoing_select hb⟩

/-- What goes out behind the first buffer, if this goes out first. -/
theorem Tidy.outgoing_first (h : c.Tidy done open?) {u : β} (hb : c.buffers = (u :: us).map bytes)
    (hfirst : c.FirstOut) : ∃ sent part, c.Outgoing (bytes u).length bytes us sent part := by
  obtain ⟨is, rfl⟩ := h.positions hb
  have hout := h.outgoing_select hb
  rcases h.first hfirst with ⟨rest, hdone⟩ | ⟨hdone, hopen⟩
  · obtain ⟨i, is, rfl, hi, -⟩ := List.map_eq_cons_iff.mp hdone
    obtain rfl : i = 0 := Fin.ext hi
    refine ⟨is.map (u :: us).get, c.piece open?, ?_, (List.subperm_cons _).mp hout.once,
      fun ho => List.cons_sublist_cons.mp (hout.ordered ho),
      fun hf => (hout.finished hf).imp_left (List.perm_cons _).mp, fun hne => ?_⟩
    · have hrec := hout.received
      rw [List.drop_zero] at hrec
      rw [hrec, List.map_cons, List.map_cons, List.flatten_cons, List.append_assoc]
      exact List.drop_left
    · obtain ⟨j, hj, hpart⟩ := h.piece_unit hb hne
      obtain ⟨j, rfl⟩ := Fin.exists_succ_eq.mpr fun h0 : j = 0 => hj (h0 ▸ List.mem_cons_self)
      exact ⟨us.get j, List.get_mem us j, hpart⟩
  · obtain rfl := List.map_eq_nil_iff.mp hdone
    refine ⟨[], [], ?_, List.nil_subperm, fun _ => List.nil_sublist _, fun hf => ?_, fun hne => absurd rfl hne⟩
    · -- at most the first buffer has begun
      have hrec := hout.received
      rw [List.drop_zero] at hrec
      rw [hrec]
      refine List.drop_eq_nil_of_le ?_
      cases open? with
      | none => exact Nat.zero_le _
      | some k =>
        obtain rfl := hopen k rfl
        have hbuf : c.buffer 0 = bytes u := buffer_units hb (0 : Fin (u :: us).length)
        rw [List.map_nil, List.map_nil, List.flatten_nil, List.nil_append, piece, Option.elim, hbuf]
        exact List.length_take_le' ..
    · have hall := (h.all_done hf).2 0 (by rw [hb]; exact Nat.zero_lt_succ _)
      cases hall

end LightApr.Lib.Writers.Channel
