import LightApr.Mqtt.WebsocketCodec

/-! What decides on an upgrade request: an Upgrade header, and the last line that gives a
key. The parser is handed the whole buffer, with the bytes that follow the request. -/
namespace LightApr.Mqtt.UpgradeRequest
open LightApr.Core WebsocketCodec

/-- The text contains an Upgrade header in one of the spellings the parser knows. -/
def AsksUpgrade (text : Bytes) : Prop :=
  find (ascii "Upgrade: websocket") text ≠ none ∨ find (ascii "upgrade: websocket") text ≠ none ∨
    find (ascii "Upgrade: WebSocket") text ≠ none

instance (text : Bytes) : Decidable (AsksUpgrade text) := inferInstanceAs (Decidable (_ ∨ _ ∨ _))

/-- The value of a Sec-WebSocket-Key line. -/
def keyLine? (line : Bytes) : Option Bytes :=
  let line := if line.getLast? = some cr then line.dropLast else line
  match findByte 58 line with
  | none => none
  | some colon =>
    if (line.take colon).map toLower = ascii "sec-websocket-key" then
      some ((line.drop (colon + 1)).dropWhile (· = 32))
    else none

/-- The keys that the lines of the text give. -/
def keys (text : Bytes) : List Bytes := (text.splitOn lf).filterMap keyLine?

/-- The key that counts: the last one. -/
def requestKey (text : Bytes) : Bytes := (keys text).getLast?.getD []

theorem handshakeLine_key (found : Bytes × Bytes) (line : Bytes) :
    (handshakeLine found line).1 = (keyLine? line).getD found.1 := by
  unfold handshakeLine keyLine?
  generalize (if line.getLast? = some cr then line.dropLast else line) = line
  dsimp only
  cases findByte 58 line with
  | none => rfl
  | some colon =>
    dsimp only
    by_cases hkey : (line.take colon).map toLower = ascii "sec-websocket-key"
    · rw [if_pos hkey, if_pos hkey, Option.getD_some]
    · rw [if_neg hkey, if_neg hkey, Option.getD_none]
      split <;> rfl

theorem foldl_handshakeLine (lines : List Bytes) (found : Bytes × Bytes) :
    (lines.foldl handshakeLine found).1 = (lines.filterMap keyLine?).getLast?.getD found.1 := by
  induction lines generalizing found with
  | nil => rfl
  | cons line lines ih =>
    rw [List.foldl_cons, ih, handshakeLine_key]
    cases hk : keyLine? line with
    | none => rw [List.filterMap_cons_none hk, Option.getD_none]
    | some key => rw [List.filterMap_cons_some hk, List.getLast?_cons, Option.getD_some, Option.getD_some]

/-- The key of an accepted request. -/
def acceptedKey? (text : Bytes) : Option Bytes := (parseHandshakeRequest text).map Prod.fst

theorem acceptedKey?_eq {text : Bytes}
    (hget : find (ascii "GET ") text = some 0 ∨ find (ascii "get ") text = some 0) :
    acceptedKey? text = if AsksUpgrade text ∧ requestKey text ≠ [] then some (requestKey text) else none := by
  have hkey : ((text.splitOn lf).foldl handshakeLine ([], [])).1 = requestKey text := foldl_handshakeLine _ _
  unfold acceptedKey? parseHandshakeRequest
  rw [if_neg (by tauto)]
  by_cases hask : AsksUpgrade text
  · have hfound : ¬ (find (ascii "Upgrade: websocket") text = none ∧
        find (ascii "upgrade: websocket") text = none ∧ find (ascii "Upgrade: WebSocket") text = none) := by
      rintro ⟨h1, h2, h3⟩
      rcases hask with h | h | h
      · exact h h1
      · exact h h2
      · exact h h3
    rw [if_neg hfound]
    dsimp only
    rw [hkey]
    by_cases hnil : requestKey text = []
    · rw [if_pos hnil, if_neg (by simp [hnil])]
      rfl
    · rw [if_neg hnil, if_pos ⟨hask, hnil⟩, Option.map_some, hkey]
  · have hnone : find (ascii "Upgrade: websocket") text = none ∧
        find (ascii "upgrade: websocket") text = none ∧ find (ascii "Upgrade: WebSocket") text = none := by
      simpa only [AsksUpgrade, not_or, ne_eq, Classical.not_not] using hask
    rw [if_pos hnone, if_neg (by simp [hask])]
    rfl

/-! A request with bytes behind it. -/

/-- A header block ends with an empty line. -/
def IsHeader (header : Bytes) : Prop := find (ascii "\r\n\r\n") header = some (header.length - 4)

instance (header : Bytes) : Decidable (IsHeader header) := inferInstanceAs (Decidable (_ = _))

variable {header : Bytes}

theorem IsHeader.length (h : IsHeader header) : 4 ≤ header.length := by
  have hle : header.length - 4 + 4 ≤ header.length := (find_spec h).2
  omega

theorem IsHeader.split (h : IsHeader header) : ∃ front, header = front ++ [lf] := by
  have hlen := h.length
  obtain ⟨hp, -⟩ := find_spec h
  have htail : ascii "\r\n\r\n" = header.drop (header.length - 4) := by
    refine hp.eq_of_length ?_
    rw [List.length_drop]
    have h4 : (ascii "\r\n\r\n").length = 4 := by decide
    omega
  refine ⟨header.take (header.length - 4) ++ [cr, lf, cr], ?_⟩
  rw [List.append_assoc, show [cr, lf, cr] ++ [lf] = ascii "\r\n\r\n" by decide, htail, List.take_append_drop]

theorem keys_nil : keys [] = [] := by decide

theorem keys_append (h : IsHeader header) (frames : Bytes) : keys (header ++ frames) = keys header ++ keys frames := by
  obtain ⟨front, rfl⟩ := h.split
  have hsplit (t : Bytes) : keys (front ++ lf :: t) = keys front ++ keys t := by
    rw [keys, List.splitOn_append_cons_self, List.filterMap_append]
    rfl
  rw [List.append_assoc, List.singleton_append, hsplit, hsplit, keys_nil, List.append_nil]

theorem requestKey_append (h : IsHeader header) (frames : Bytes) :
    requestKey (header ++ frames) = (keys frames).getLast?.getD (requestKey header) := by
  rw [requestKey, keys_append h, List.getLast?_append]
  cases (keys frames).getLast? with
  | none => rfl
  | some key => rfl

private theorem or_columns {a b c a' b' c' : Prop} :
    (a ∨ a') ∨ (b ∨ b') ∨ (c ∨ c') ↔ (a ∨ b ∨ c) ∨ (a' ∨ b' ∨ c') := by tauto

theorem asksUpgrade_append (h : IsHeader header) (frames : Bytes) :
    AsksUpgrade (header ++ frames) ↔ AsksUpgrade header ∨ AsksUpgrade frames := by
  obtain ⟨front, rfl⟩ := h.split
  have key (needle : Bytes) (hn : lf ∉ needle) : find needle (front ++ [lf] ++ frames) ≠ none ↔
      find needle (front ++ [lf]) ≠ none ∨ find needle frames ≠ none := by
    rw [find_ne_none_iff, find_ne_none_iff, find_ne_none_iff, List.append_assoc, List.singleton_append,
      infix_append_cons hn, infix_append_cons hn]
    have hnil : List.IsInfix needle [] → List.IsInfix needle front := by
      rintro h
      rw [List.infix_nil.mp h]
      exact List.nil_infix
    tauto
  unfold AsksUpgrade
  rw [key (ascii "Upgrade: websocket") (by decide +kernel), key (ascii "upgrade: websocket") (by decide +kernel),
    key (ascii "Upgrade: WebSocket") (by decide +kernel)]
  exact or_columns

/-- The bytes that come with the end of the header block change neither the decision nor
the accept key. -/
structure Inert (header frames : Bytes) : Prop where
  key : AsksUpgrade header → ∀ key ∈ (keys frames).getLast?,
    (key = [] ↔ requestKey header = []) ∧ computeAcceptKey key = computeAcceptKey (requestKey header)
  upgrade : ¬ AsksUpgrade header → AsksUpgrade frames → (keys frames).getLast?.getD (requestKey header) = []

/-- The accept key that the server answers with; none: the request is refused. -/
def answer? (text : Bytes) : Option Bytes := (acceptedKey? text).map computeAcceptKey

theorem answer?_append_iff (h : IsHeader header)
    (hget : find (ascii "GET ") header = some 0 ∨ find (ascii "get ") header = some 0) (frames : Bytes) :
    answer? (header ++ frames) = answer? header ↔ Inert header frames := by
  have hget' : find (ascii "GET ") (header ++ frames) = some 0 ∨ find (ascii "get ") (header ++ frames) = some 0 :=
    hget.imp (find_append frames) (find_append frames)
  unfold answer?
  rw [acceptedKey?_eq hget, acceptedKey?_eq hget', requestKey_append h]
  simp only [asksUpgrade_append h]
  by_cases hask : AsksUpgrade header
  · simp only [hask, true_or, true_and]
    constructor
    · intro heq
      refine ⟨fun _ key hk => ?_, fun hnot => absurd hask hnot⟩
      rw [hk, Option.getD_some] at heq
      by_cases hnew : key = [] <;> by_cases hold : requestKey header = [] <;> simp_all
    · intro hinert
      cases hk : (keys frames).getLast? with
      | none => rw [Option.getD_none]
      | some key =>
        obtain ⟨hnil, hsame⟩ := hinert.key hask key hk
        rw [Option.getD_some]
        by_cases hnew : key = []
        · rw [if_neg (by simp [hnew]), if_neg (by simp [hnil.mp hnew])]
        · rw [if_pos hnew, if_pos (fun h => hnew (hnil.mpr h)), Option.map_some, Option.map_some, hsame]
  · simp only [hask, false_or, false_and, if_false, Option.map_none, Option.map_eq_none_iff, ite_eq_right_iff]
    constructor
    · intro heq
      refine ⟨fun h => absurd h hask, fun _ hframes => ?_⟩
      by_contra hnil
      exact absurd (heq ⟨hframes, hnil⟩) (by simp)
    · rintro hinert ⟨hframes, hnil⟩
      exact absurd (hinert.upgrade hask hframes) hnil

theorem generateHandshakeResponse_inj {acceptKey acceptKey' protocol : Bytes}
    (h : generateHandshakeResponse acceptKey protocol = generateHandshakeResponse acceptKey' protocol) :
    acceptKey = acceptKey' := by
  unfold generateHandshakeResponse at h
  exact List.append_cancel_left (List.append_cancel_right (List.append_cancel_right (List.append_cancel_right h)))

end LightApr.Mqtt.UpgradeRequest
