import LightApr.Sdk.WebsocketClient

/-! The receive path of the C++ client library on plain TCP, against what a session of the server has on its wire. -/
namespace LightApr.Sdk.PlainClient
open LightApr.Core Lib Lib.Framing Mqtt Server World
open LightApr.Sdk.Stream (Short Front framer front front_incomplete front_packet front_long packet receive
  doRead processStream processMqttBuffer)
open LightApr.Sdk.WebsocketClient (Fits fits_reply Sent processMqttBuffer_threw)
open Replies (Written Accounts)

def stream (units : List Written) : Bytes := (units.map (·.bytes false)).flatten

theorem stream_append (units more : List Written) : stream (units ++ more) = stream units ++ stream more := by
  rw [stream, stream, stream, List.map_append, List.flatten_append]

/-- One packet, in front of whatever follows, and the call it leads to. -/
def Taken (u : Written) : Prop :=
  ∀ t : Bytes, front (u.bytes false ++ t) = .packet u.message? (u.bytes false).length

theorem taken_reply {header len : UInt8} {body : Bytes} (ht : header &&& 0xF0 ≠ Packet.publish)
    (hl : body.length = len.toNat) : Taken (.reply (header :: len :: body)) := by
  intro t
  have hbytes : (Written.reply (header :: len :: body)).bytes false = header :: len :: body := rfl
  rw [hbytes, List.cons_append, List.cons_append]
  unfold front
  simp only [List.length_cons, List.length_append, List.getD_cons_zero, List.getD_cons_succ]
  rw [if_neg (by omega), if_neg (by omega), if_neg ht]
  congr 1
  omega

/-- On this transport there are no pongs. -/
theorem taken_of_short {u : Written} (h : Fits u) (hno : ∀ payload, u ≠ .pong payload)
    (hs : ∀ m ∈ u.message?, Short m) : Taken u := by
  cases h with
  | reply ht hl => exact taken_reply ht hl
  | pong payload => exact absurd rfl (hno payload)
  | message topic payload =>
    have hbytes : (Written.message topic payload).bytes false = packet (topic, payload) := rfl
    intro t
    rw [hbytes, front_packet (hs _ rfl)]
    rfl

theorem cut_front {data : Bytes} {call : Option (Bytes × Bytes)} {n : Nat} (h : front data = .packet call n) :
    framer.cut data = some n := by
  unfold front at h
  split at h
  · cases h
  · rename_i h2
    dsimp only at h
    split at h
    · cases h
    · rename_i hlen
      have hn : 2 + (data.getD 1 0).toNat = n := by
        split at h
        · split at h
          · cases h
          · exact (Front.packet.inj h).2
        · exact (Front.packet.inj h).2
      simp only [framer]
      rw [if_neg h2, if_neg hlen, hn]

section
variable {units : List Written}

theorem words_taken (h : ∀ u ∈ units, Taken u) : ∀ raw ∈ units.map (·.bytes false), framer.Word raw := by
  intro raw hraw
  obtain ⟨u, hu, rfl⟩ := List.mem_map.mp hraw
  have hf := h u hu []
  rw [List.append_nil] at hf
  exact cut_front hf

/-- The loop over complete packets followed by an incomplete one. -/
theorem processMqttBuffer_units {rest : Bytes} (h : ∀ u ∈ units, Taken u) (hr : framer.Stuck rest) :
    processMqttBuffer (stream units ++ rest) = ⟨units.filterMap Written.message?, (stream units).length, false⟩ := by
  induction units with
  | nil =>
    rw [processMqttBuffer]
    have hinc := front_incomplete hr
    split
    · rfl
    · rename_i he
      cases hinc.symm.trans he
    · rename_i he
      cases hinc.symm.trans he
  | cons u units ih =>
    have hsplit : stream (u :: units) ++ rest = u.bytes false ++ (stream units ++ rest) := by
      rw [stream, List.map_cons, List.flatten_cons, List.append_assoc, ← stream]
    have hf := h u (List.mem_cons_self ..) (stream units ++ rest)
    rw [hsplit, processMqttBuffer]
    split
    · rename_i he
      cases hf.symm.trans he
    · rename_i he
      cases hf.symm.trans he
    · rename_i call n he
      obtain ⟨rfl, rfl⟩ := Front.packet.inj (hf.symm.trans he)
      rw [List.drop_left, ih fun v hv => h v (List.mem_cons_of_mem _ hv)]
      cases hm : u.message? <;> simp [stream, hm]

/-- However a part of the stream is divided into reads, the client has made the calls of the complete packets, and
holds what follows them. -/
theorem receive_taken (h : ∀ u ∈ units, Taken u) {reads : List Bytes} (hp : reads.flatten <+: stream units) :
    ∃ done pending rest, units = done ++ pending ∧ reads.flatten = stream done ++ rest ∧ framer.Stuck rest ∧
      receive reads = some ⟨done.filterMap Written.message?, rest⟩ ∧
      ∀ u ∈ pending.head?, ¬ u.bytes false <+: rest := by
  induction reads using List.reverseRecOn with
  | nil =>
    refine ⟨[], units, [], rfl, rfl, rfl, rfl, fun u hu hpre => ?_⟩
    have hf := h u (List.mem_of_mem_head? hu) []
    rw [List.prefix_nil.mp hpre] at hf
    cases hf
  | append_singleton reads read ih =>
    rw [List.flatten_append, List.flatten_singleton] at hp ⊢
    obtain ⟨done, pending, rest, rfl, hpart, -, hrec, -⟩ := ih ((List.prefix_append ..).trans hp)
    rw [hpart, List.append_assoc, stream_append, List.prefix_append_right_inj] at hp
    have hpending : ∀ u ∈ pending, Taken u := fun u hu => h u (List.mem_append_right _ hu)
    obtain ⟨raws, later, rest', hraws, hrest, hstuck, hnext⟩ :=
      Framer.exists_words (F := framer) rfl (words_taken hpending) hp
    obtain ⟨next, more, rfl, rfl, rfl⟩ := List.map_eq_append_iff.mp hraws
    have hscan := processMqttBuffer_units (fun u hu => hpending u (List.mem_append_left _ hu)) hstuck
    rw [stream, ← hrest] at hscan
    refine ⟨done ++ next, more, rest', (List.append_assoc ..).symm, ?_, hstuck, ?_, fun u hu => ?_⟩
    · rw [hpart, List.append_assoc, hrest, stream_append, List.append_assoc]
      rfl
    · rw [receive, List.foldlM_append, ← receive, hrec]
      show List.foldlM doRead _ [read] = _
      rw [List.foldlM_cons, doRead, processStream, hscan, List.filterMap_append]
      dsimp only
      rw [hrest, List.drop_left]
      rfl
    · exact hnext _ (by rw [List.head?_map]; exact Option.mem_map_of_mem _ hu)

end

/-! A session of the server. -/

/-- The answers of the machine to packets, and the messages. -/
theorem units_run {cfg : ServerConfig} {es : List World.Event} {w : World}
    (hrun : (machine cfg).Reaches (init cfg) es w) {i : Nat} {s : MqttSession} (hs : w.mqtt[i]? = some s)
    (hplain : s.isWebsocket = false) : ∃ units : List Written, s.out.buffers = units.map (·.bytes false) ∧
      units.filterMap Written.message? = s.broadcasts ∧
      ∀ u ∈ units, Sent cfg.accessKey s u ∧ ∀ payload, u ≠ .pong payload := by
  obtain ⟨frames, arrivals, units, -, harrived, haccounts⟩ := Replies.accounts_run hrun hs
  have hbuffers := haccounts.buffers
  rw [hplain] at hbuffers
  refine ⟨units, hbuffers, haccounts.messages, fun u hu => ?_⟩
  cases hm : u.message? with
  | some m =>
    cases u with
    | message topic payload => exact ⟨.message topic payload, nofun⟩
    | handshake | reply | pong => cases hm
  | none =>
    cases harrived with
    | websocket hws => cases hplain.symm.trans hws
    | plain =>
      have hans : u ∈ (Replies.responder cfg.accessKey).output .unknown (s.handled.map .packet) :=
        haccounts.answers ▸ List.mem_filter.mpr ⟨hu, Option.isNone_iff_eq_none.mpr hm⟩
      obtain ⟨c, x, hx, hy⟩ := Transducer.mem_output hans
      obtain ⟨data, hdata, rfl⟩ := List.mem_map.mp hx
      obtain ⟨reply, hreply, rfl⟩ := List.mem_map.mp hy
      exact ⟨.reply hdata hreply, nofun⟩

end LightApr.Sdk.PlainClient
