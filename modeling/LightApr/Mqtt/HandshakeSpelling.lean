import LightApr.Mqtt.UpgradeRequest
import Mathlib.Data.List.DropRight
import Mathlib.Data.List.Forall2
import Mathlib.Data.List.TakeWhile

/-! The spellings of one upgrade request: the letter case of its names and of the Upgrade token, and the blanks around
its values. -/
namespace LightApr.Mqtt.HandshakeSpelling
open LightApr.Core WebsocketCodec UpgradeRequest

/-- A space or a tab. -/
def isBlank (b : UInt8) : Bool := b = 32 || b = 9

/-- A header line, with the blanks around its value; those of an empty value count as before it. -/
structure HeaderLine where
  name : Bytes
  before : Bytes
  value : Bytes
  after : Bytes
  name_clean : 58 ∉ name ∧ lf ∉ name
  before_blank : before.all isBlank = true
  after_blank : after.all isBlank = true
  value_clean : lf ∉ value
  value_trimmed : (∀ b ∈ value.head?, isBlank b = false) ∧ ∀ b ∈ value.getLast?, isBlank b = false
  value_first : value = [] → after = []

namespace HeaderLine

def text (l : HeaderLine) : Bytes := l.name ++ 58 :: (l.before ++ l.value ++ l.after)

/-- Names are compared without regard to case. -/
def Named (l : HeaderLine) (name : String) : Prop := l.name.map toLower = ascii name

instance (l : HeaderLine) (name : String) : Decidable (l.Named name) := inferInstanceAs (Decidable (_ = _))

/-- The line asks for the upgrade to a WebSocket. -/
def Upgrades (l : HeaderLine) : Prop := l.Named "upgrade" ∧ l.value.map toLower = ascii "websocket"

instance (l : HeaderLine) : Decidable l.Upgrades := inferInstanceAs (Decidable (_ ∧ _))

/-- Another spelling of the line. -/
structure Variant (l l' : HeaderLine) : Prop where
  name : l'.name.map toLower = l.name.map toLower
  value : l'.value = l.value ∨ l.Upgrades ∧ l'.value.map toLower = l.value.map toLower

/-- The same blanks, but for spaces at the start. -/
structure SameBlanks (l l' : HeaderLine) : Prop where
  before : l'.before.dropWhile (· = 32) = l.before.dropWhile (· = 32)
  after : l'.after = l.after

end HeaderLine

/-- A GET request without a body. -/
structure Request where
  requestLine : Bytes
  lines : List HeaderLine
  get : List.IsPrefix (ascii "GET ") requestLine ∨ List.IsPrefix (ascii "get ") requestLine
  clean : lf ∉ requestLine

namespace Request

/-- The lines, each with its line end, and the empty line. -/
def text (r : Request) : Bytes :=
  r.requestLine ++ [cr, lf] ++ (r.lines.map fun l => l.text ++ [cr, lf]).flatten ++ [cr, lf]

def Variant (r r' : Request) : Prop := r'.requestLine = r.requestLine ∧ List.Forall₂ HeaderLine.Variant r.lines r'.lines

/-- An upgrade request: an Upgrade header and a key. -/
def Upgrades (r : Request) : Prop := (∃ l ∈ r.lines, l.Upgrades) ∧ ∃ l ∈ r.lines, l.Named "sec-websocket-key"

/-- The verdict and the key are the same for every spelling of the request. -/
def Invariant (r : Request) : Prop := ∀ r', r.Variant r' → acceptedKey? r'.text = acceptedKey? r.text

/-- The key line that counts. -/
def keyLine? (r : Request) : Option HeaderLine := (r.lines.filter (·.Named "sec-websocket-key")).getLast?

/-- One of the three texts for the Upgrade header is there, and behind the colon of the key line is more than spaces. -/
def Shown (r : Request) : Prop := AsksUpgrade r.text ∧ ∃ l ∈ r.keyLine?, l.value ≠ [] ∨ 9 ∈ l.before

/-- Both spellings have one of the three texts for the Upgrade header, or neither has, and the key line has the same
blanks but for leading spaces; or neither spelling shows an Upgrade header and a key. -/
def Keeps (r r' : Request) : Prop :=
  ((AsksUpgrade r.text ↔ AsksUpgrade r'.text) ∧ ∀ l ∈ r.keyLine?, ∀ l' ∈ r'.keyLine?, l.SameBlanks l') ∨
    (¬ r.Shown ∧ ¬ r'.Shown)

end Request

/-! What the parser finds. -/

variable {l : HeaderLine} {r : Request}

/-- The key that a line gives: only spaces before it are cut off. -/
def HeaderLine.key? (l : HeaderLine) : Option Bytes :=
  if l.Named "sec-websocket-key" then some ((l.before ++ l.value ++ l.after).dropWhile (· = 32)) else none

theorem keyLine?_cr (line : Bytes) : keyLine? (line ++ [cr]) = (findByte 58 line).bind fun colon =>
    if (line.take colon).map toLower = ascii "sec-websocket-key" then
      some ((line.drop (colon + 1)).dropWhile (· = 32))
    else none := by
  simp only [keyLine?, List.getLast?_concat, if_true, List.dropLast_concat]
  cases findByte 58 line with
  | none => rfl
  | some colon => rfl

theorem keyLine?_text (l : HeaderLine) : keyLine? (l.text ++ [cr]) = l.key? := by
  rw [keyLine?_cr, HeaderLine.text, findByte_append_cons _ l.name_clean.1, Option.bind_some, List.take_left,
    HeaderLine.key?]
  have hdrop : (l.name ++ 58 :: (l.before ++ l.value ++ l.after)).drop (l.name.length + 1) =
      l.before ++ l.value ++ l.after := by
    rw [← List.drop_drop, List.drop_left]
    rfl
  rw [hdrop]
  rfl

/-- The request line is no key line. -/
theorem keyLine?_requestLine (r : Request) : keyLine? (r.requestLine ++ [cr]) = none := by
  obtain ⟨g, rest, hline, hg⟩ : ∃ g rest, r.requestLine = g :: rest ∧ toLower g = 103 := by
    have hupper : ascii "GET " = [71, 69, 84, 32] := by decide
    have hlower : ascii "get " = [103, 101, 116, 32] := by decide
    rcases r.get with ⟨rest, h⟩ | ⟨rest, h⟩
    · exact ⟨71, [69, 84, 32] ++ rest, by rw [← h, hupper]; rfl, by decide⟩
    · exact ⟨103, [101, 116, 32] ++ rest, by rw [← h, hlower]; rfl, by decide⟩
  have hname (n : Nat) : ((g :: rest).take n).map toLower ≠ ascii "sec-websocket-key" := by
    intro h
    have hhead := congrArg List.head? h
    cases n with
    | zero =>
      rw [List.take_zero] at hhead
      exact absurd hhead (by decide)
    | succ n =>
      rw [List.take_succ_cons, List.map_cons, List.head?_cons, hg] at hhead
      exact absurd hhead (by decide)
  rw [keyLine?_cr, hline]
  cases findByte 58 (g :: rest) with
  | none => rfl
  | some colon => exact if_neg (hname colon)

theorem keys_cons {line : Bytes} (h : lf ∉ line) (rest : Bytes) :
    keys (line ++ lf :: rest) = (keyLine? line).toList ++ keys rest := by
  rw [keys, List.splitOn_append_cons_self_of_not_mem h]
  cases hk : keyLine? line with
  | none => exact List.filterMap_cons_none hk
  | some key => exact List.filterMap_cons_some hk

theorem not_lf_of_blank {text : Bytes} (h : text.all isBlank = true) : lf ∉ text := by
  intro hmem
  have hblank := List.all_eq_true.mp h lf hmem
  cases hblank

theorem HeaderLine.clean (l : HeaderLine) : lf ∉ l.text ++ [cr] := by
  have hcr : lf ≠ cr := by decide
  have hcolon : lf ≠ 58 := by decide
  simp [text, l.name_clean.2, not_lf_of_blank l.before_blank, not_lf_of_blank l.after_blank, l.value_clean, hcr, hcolon]

theorem keys_text (r : Request) : keys r.text = r.lines.filterMap HeaderLine.key? := by
  have hlines : ∀ lines : List HeaderLine, keys ((lines.map fun l => l.text ++ [cr, lf]).flatten ++ [cr, lf]) =
      lines.filterMap HeaderLine.key? := by
    intro lines
    induction lines with
    | nil => decide +kernel
    | cons l lines ih =>
      have hline : ((l :: lines).map fun l => l.text ++ [cr, lf]).flatten ++ [cr, lf] = (l.text ++ [cr]) ++
          lf :: ((lines.map fun l => l.text ++ [cr, lf]).flatten ++ [cr, lf]) := by
        simp
      rw [hline, keys_cons l.clean, keyLine?_text, ih]
      cases hk : l.key? with
      | none => exact (List.filterMap_cons_none hk).symm
      | some key => exact (List.filterMap_cons_some hk).symm
  have htext : r.text = (r.requestLine ++ [cr]) ++
      lf :: ((r.lines.map fun l => l.text ++ [cr, lf]).flatten ++ [cr, lf]) := by
    simp [Request.text]
  have hclean : lf ∉ r.requestLine ++ [cr] := by
    have hcr : lf ≠ cr := by decide
    simp [r.clean, hcr]
  rw [htext, keys_cons hclean, keyLine?_requestLine, hlines]
  rfl

/-- The parser's decision on a request. -/
theorem acceptedKey?_text (r : Request) : acceptedKey? r.text =
    if AsksUpgrade r.text ∧ (r.lines.filterMap HeaderLine.key?).getLast?.getD [] ≠ [] then
      some ((r.lines.filterMap HeaderLine.key?).getLast?.getD [])
    else none := by
  have hget : find (ascii "GET ") r.text = some 0 ∨ find (ascii "get ") r.text = some 0 := by
    rw [find_zero_iff, find_zero_iff, Request.text, List.append_assoc, List.append_assoc]
    exact r.get.imp (fun h => h.trans (List.prefix_append _ _)) (fun h => h.trans (List.prefix_append _ _))
  rw [acceptedKey?_eq hget, requestKey, keys_text]

/-! The key of a spelling. -/

/-- The key that a key line gives. -/
def HeaderLine.key (l : HeaderLine) : Bytes := l.before.dropWhile (· = 32) ++ l.value ++ l.after

theorem HeaderLine.dropWhile_spaces (l : HeaderLine) :
    (l.before ++ l.value ++ l.after).dropWhile (· = 32) = l.key := by
  have hkept : (l.value ++ l.after).dropWhile (· = 32) = l.value ++ l.after := by
    cases hvalue : l.value with
    | nil =>
      rw [l.value_first hvalue]
      rfl
    | cons b rest =>
      have hblank := l.value_trimmed.1 b (by rw [hvalue]; rfl)
      have hb : ¬ b = 32 := by
        rintro rfl
        cases hblank
      exact List.dropWhile_cons_of_neg (by simpa using hb)
  rw [HeaderLine.key, List.append_assoc, List.append_assoc, List.dropWhile_append, hkept]
  split
  · rename_i hnone
    rw [List.isEmpty_iff.mp hnone, List.nil_append]
  · rfl

/-- What remains of the blanks before the value starts with a tab. -/
theorem HeaderLine.tab_iff (l : HeaderLine) : l.before.dropWhile (· = 32) ≠ [] ↔ 9 ∈ l.before := by
  rw [Ne, List.dropWhile_eq_nil_iff, not_forall]
  constructor
  · rintro ⟨b, hb⟩
    obtain ⟨hmem, hspace⟩ := Classical.not_imp.mp hb
    have hblank := List.all_eq_true.mp l.before_blank b hmem
    have htab : b = 9 := by
      rw [isBlank, Bool.or_eq_true, decide_eq_true_eq, decide_eq_true_eq] at hblank
      exact hblank.resolve_left (by simpa using hspace)
    exact htab ▸ hmem
  · intro hmem
    exact ⟨9, fun h => absurd (h hmem) (by decide)⟩

theorem HeaderLine.key_ne_nil (l : HeaderLine) : l.key ≠ [] ↔ l.value ≠ [] ∨ 9 ∈ l.before := by
  have hnil : l.key = [] ↔ l.value = [] ∧ l.before.dropWhile (· = 32) = [] := by
    rw [HeaderLine.key, List.append_eq_nil_iff, List.append_eq_nil_iff]
    exact ⟨fun h => ⟨h.1.2, h.1.1⟩, fun h => ⟨⟨h.2, h.1⟩, l.value_first h.1⟩⟩
  rw [← l.tab_iff, Ne, hnil, not_and_or]

/-- The key tells which blanks there are. -/
theorem HeaderLine.key_eq_iff {l l' : HeaderLine} (h : l'.value = l.value) : l'.key = l.key ↔ l.SameBlanks l' := by
  constructor
  · intro hkey
    rw [HeaderLine.key, HeaderLine.key, h] at hkey
    cases hvalue : l.value with
    | nil =>
      rw [l'.value_first (h.trans hvalue), l.value_first hvalue, hvalue] at hkey
      refine ⟨by simpa using hkey, ?_⟩
      rw [l'.value_first (h.trans hvalue), l.value_first hvalue]
    | cons b rest =>
      have hstops : isBlank b = false := l.value_trimmed.1 b (by rw [hvalue]; rfl)
      have hblanks (m : HeaderLine) : ∀ c ∈ m.before.dropWhile (· = 32), isBlank c = true := fun c hc =>
        List.all_eq_true.mp m.before_blank c ((List.dropWhile_suffix _).subset hc)
      have hfront (m : HeaderLine) (after : Bytes) :
          (m.before.dropWhile (· = 32) ++ (b :: rest) ++ after).takeWhile isBlank = m.before.dropWhile (· = 32) := by
        rw [List.append_assoc, List.takeWhile_append_of_pos (hblanks m), List.cons_append,
          List.takeWhile_cons_of_neg (by simp [hstops]), List.append_nil]
      rw [hvalue] at hkey
      have hbefore := congrArg (List.takeWhile isBlank) hkey
      rw [hfront, hfront] at hbefore
      rw [hbefore] at hkey
      exact ⟨hbefore, List.append_cancel_left hkey⟩
  · rintro ⟨hbefore, hafter⟩
    rw [HeaderLine.key, HeaderLine.key, h, hbefore, hafter]

theorem keys_lines (r : Request) :
    r.lines.filterMap HeaderLine.key? = (r.lines.filter (·.Named "sec-websocket-key")).map HeaderLine.key := by
  induction r.lines with
  | nil => rfl
  | cons l lines ih =>
    by_cases hnamed : l.Named "sec-websocket-key"
    · rw [List.filterMap_cons_some (b := l.key) (by rw [HeaderLine.key?, if_pos hnamed, l.dropWhile_spaces]), ih,
        List.filter_cons_of_pos (by simpa using hnamed), List.map_cons]
    · rw [List.filterMap_cons_none (by rw [HeaderLine.key?, if_neg hnamed]), ih,
        List.filter_cons_of_neg (by simpa using hnamed)]

open Classical in
/-- The parser's decision on a spelling. -/
theorem acceptedKey?_shown (r : Request) :
    acceptedKey? r.text = if r.Shown then r.keyLine?.map HeaderLine.key else none := by
  rw [acceptedKey?_text, keys_lines, List.getLast?_map, ← Request.keyLine?]
  cases hkey : r.keyLine? with
  | none =>
    have hno : ¬ r.Shown := by
      rintro ⟨-, l, hl, -⟩
      rw [hkey] at hl
      cases hl
    rw [if_neg hno, if_neg fun h => h.2 rfl]
  | some l =>
    have hshown : r.Shown ↔ AsksUpgrade r.text ∧ l.key ≠ [] := by
      rw [Request.Shown, hkey, l.key_ne_nil]
      simp
    rw [Option.map_some, Option.getD_some]
    by_cases h : r.Shown
    · rw [if_pos h, if_pos (hshown.mp h)]
    · rw [if_neg h, if_neg fun h' => h (hshown.mpr h')]

theorem forall₂_getLast? {α β : Type} {R : α → β → Prop} {xs : List α} {ys : List β} (h : List.Forall₂ R xs ys) :
    (xs.getLast? = none ∧ ys.getLast? = none) ∨ ∃ x y, xs.getLast? = some x ∧ ys.getLast? = some y ∧ R x y := by
  rw [← List.forall₂_reverse_iff] at h
  rw [List.getLast?_eq_head?_reverse, List.getLast?_eq_head?_reverse]
  generalize xs.reverse = xs at h ⊢
  generalize ys.reverse = ys at h ⊢
  cases h with
  | nil => exact .inl ⟨rfl, rfl⟩
  | cons hxy _ => exact .inr ⟨_, _, rfl, rfl, hxy⟩

/-- A spelling has the same key line, but for its blanks. -/
theorem keyLine?_variant {r' : Request} (h : r.Variant r') : (r.keyLine? = none ∧ r'.keyLine? = none) ∨
    ∃ l l', r.keyLine? = some l ∧ r'.keyLine? = some l' ∧ l'.value = l.value := by
  have hnamed {l l' : HeaderLine} (hl : l.Variant l') : l.Named "sec-websocket-key" ↔ l'.Named "sec-websocket-key" := by
    rw [HeaderLine.Named, HeaderLine.Named, hl.name]
  have hfilter := List.rel_filter (fun l l' hl => by simpa using hnamed hl) h.2
    (p := fun l : HeaderLine => decide (l.Named "sec-websocket-key"))
    (q := fun l : HeaderLine => decide (l.Named "sec-websocket-key"))
  refine (forall₂_getLast? hfilter).imp id ?_
  rintro ⟨l, l', hl, hl', hvariant⟩
  refine ⟨l, l', hl, hl', hvariant.value.resolve_right fun hup => ?_⟩
  have hkey : l.Named "sec-websocket-key" := by simpa using List.of_mem_filter (List.mem_of_getLast? hl)
  exact absurd (hup.1.1.symm.trans hkey) (by decide)

/-- Which spellings of a request have the same verdict and key. -/
theorem same_iff_keeps {r' : Request} (h : r.Variant r') : acceptedKey? r'.text = acceptedKey? r.text ↔ r.Keeps r' := by
  classical
  rw [acceptedKey?_shown, acceptedKey?_shown, Request.Keeps]
  rcases keyLine?_variant h with ⟨hnone, hnone'⟩ | ⟨l, l', hl, hl', hvalue⟩
  · have hno : ¬ r.Shown := fun ⟨_, l, hl, _⟩ => by cases hnone.symm.trans hl
    have hno' : ¬ r'.Shown := fun ⟨_, l, hl, _⟩ => by cases hnone'.symm.trans hl
    rw [if_neg hno, if_neg hno']
    exact iff_of_true rfl (.inr ⟨hno, hno'⟩)
  · have hshown : r.Shown ↔ AsksUpgrade r.text ∧ l.key ≠ [] := by
      rw [Request.Shown, hl, l.key_ne_nil]
      simp
    have hshown' : r'.Shown ↔ AsksUpgrade r'.text ∧ l'.key ≠ [] := by
      rw [Request.Shown, hl', l'.key_ne_nil]
      simp
    rw [hl, hl', Option.map_some, Option.map_some]
    simp only [Option.mem_def, Option.some.injEq, forall_eq']
    rw [← HeaderLine.key_eq_iff hvalue, hshown, hshown']
    by_cases hask : AsksUpgrade r.text <;> by_cases hask' : AsksUpgrade r'.text <;>
      by_cases hkey : l.key = [] <;> by_cases hkey' : l'.key = [] <;> simp_all

/-! What an accepted text holds. -/

/-- The lines behind the request line, up to the end of the header block. -/
def headerLines (text : Bytes) : List Bytes :=
  let block := match find (ascii "\r\n\r\n") text with
    | some n => text.take (n + 1)
    | none => text
  ((block.splitOn lf).drop 1).map fun line => if line.getLast? = some cr then line.dropLast else line

def trim (s : Bytes) : Bytes := (s.dropWhile isBlank).rdropWhile isBlank

/-- The value of a header line of the name, without the blanks around it. -/
def valueOf? (name : String) (line : Bytes) : Option Bytes :=
  match findByte 58 line with
  | none => none
  | some colon => if (line.take colon).map toLower = ascii name then some (trim (line.drop (colon + 1))) else none

/-- An Upgrade line for a WebSocket. -/
def IsUpgrade (line : Bytes) : Prop := ∃ value ∈ valueOf? "upgrade" line, value.map toLower = ascii "websocket"

instance (line : Bytes) : Decidable (IsUpgrade line) := inferInstanceAs (Decidable (∃ value ∈ _, _))

/-- The header block has an Upgrade line for a WebSocket, and a key. -/
def ProperBlock (text : Bytes) : Prop :=
  (∃ line ∈ headerLines text, IsUpgrade line) ∧
    ∃ line ∈ headerLines text, ∃ value ∈ valueOf? "sec-websocket-key" line, value ≠ []

instance (text : Bytes) : Decidable (ProperBlock text) := inferInstanceAs (Decidable (_ ∧ _))

/-- A text that is accepted has a proper header block. -/
def OnlyProper (text : Bytes) : Prop := ∀ key, acceptedKey? text = some key → ProperBlock text

/-! How the parser is misled. -/

/-- What the parser searches for. -/
def spellings : List Bytes := [ascii "Upgrade: websocket", ascii "upgrade: websocket", ascii "Upgrade: WebSocket"]

/-- The line is one of these texts, with nothing but blanks behind it. -/
def IsHit (line : Bytes) : Prop := ∃ s ∈ spellings, List.IsPrefix s line ∧ (line.drop s.length).all isBlank = true

/-- An Upgrade line in a spelling that the parser does not know. -/
def IsUnknown (line : Bytes) : Prop := IsUpgrade line ∧ ∀ s ∈ spellings, ¬ List.IsInfix s line

/-- What stands behind the colon of a key line. -/
def keyRest? (line : Bytes) : Option Bytes :=
  let line := if line.getLast? = some cr then line.dropLast else line
  match findByte 58 line with
  | none => none
  | some colon =>
    if (line.take colon).map toLower = ascii "sec-websocket-key" then some (line.drop (colon + 1)) else none

/-- The last key line of the whole text has more than spaces behind its colon. -/
def GivesKey (text : Bytes) : Prop := ∃ rest ∈ ((text.splitOn lf).filterMap keyRest?).getLast?, ∃ b ∈ rest, b ≠ 32

/-- The text of the Upgrade header is found, but no header line is that text alone, and none is an Upgrade line in
another spelling. -/
def UpgradeAstray (text : Bytes) : Prop :=
  AsksUpgrade text ∧ ∀ line ∈ headerLines text, ¬ IsHit line ∧ ¬ IsUnknown line

/-- A key is found, but no header line gives one that is more than blanks. -/
def KeyAstray (text : Bytes) : Prop :=
  GivesKey text ∧ ∀ line ∈ headerLines text, ∀ value ∈ valueOf? "sec-websocket-key" line, value = []

/-- A GET request for which the parser finds what it searches for, but not both in their places. -/
structure Misread (text : Bytes) : Prop where
  get : find (ascii "GET ") text = some 0 ∨ find (ascii "get ") text = some 0
  asks : AsksUpgrade text
  gives : GivesKey text
  astray : UpgradeAstray text ∨ KeyAstray text

theorem valueOf?_eq_some {name : String} {line value : Bytes} : valueOf? name line = some value ↔
    ∃ front rest, line = front ++ 58 :: rest ∧ 58 ∉ front ∧ front.map toLower = ascii name ∧ trim rest = value := by
  have hsplit {front rest : Bytes} (hfront : 58 ∉ front) : valueOf? name (front ++ 58 :: rest) =
      if front.map toLower = ascii name then some (trim rest) else none := by
    rw [valueOf?, findByte_append_cons rest hfront]
    dsimp only
    rw [List.take_left, ← List.drop_drop, List.drop_left]
    rfl
  constructor
  · intro h
    by_cases hcolon : 58 ∈ line
    · obtain ⟨front, rest, rfl, hfront⟩ := List.eq_append_cons_of_mem hcolon
      rw [hsplit hfront] at h
      split at h
      · rename_i hname
        exact ⟨front, rest, rfl, hfront, hname, Option.some.inj h⟩
      · cases h
    · rw [valueOf?, findByte_of_not_mem hcolon] at h
      cases h
  · rintro ⟨front, rest, rfl, hfront, hname, rfl⟩
    rw [hsplit hfront, if_pos hname]

/-- The parts of a text that the parser searches for. -/
theorem spelling_split {s : Bytes} (h : s ∈ spellings) : ∃ front word, s = front ++ 58 :: 32 :: word ∧ 58 ∉ front ∧
    front.map toLower = ascii "upgrade" ∧ word.map toLower = ascii "websocket" ∧ ∀ b ∈ word, isBlank b = false := by
  have hsplit (upgrade websocket : String)
    (hfacts : 58 ∉ ascii upgrade ∧ (ascii upgrade).map toLower = ascii "upgrade" ∧
      (ascii websocket).map toLower = ascii "websocket" ∧ ∀ b ∈ ascii websocket, isBlank b = false)
      (hs : s = ascii upgrade ++ 58 :: 32 :: ascii websocket) : ∃ front word, s = front ++ 58 :: 32 :: word ∧
        58 ∉ front ∧ front.map toLower = ascii "upgrade" ∧ word.map toLower = ascii "websocket" ∧
        ∀ b ∈ word, isBlank b = false := ⟨_, _, hs, hfacts⟩
  simp only [spellings, List.mem_cons, List.not_mem_nil, or_false] at h
  obtain rfl | rfl | rfl := h
  · exact hsplit "Upgrade" "websocket" (by decide +kernel) (by decide +kernel)
  · exact hsplit "upgrade" "websocket" (by decide +kernel) (by decide +kernel)
  · exact hsplit "Upgrade" "WebSocket" (by decide +kernel) (by decide +kernel)

theorem length_word {word : Bytes} (h : word.map toLower = ascii "websocket") : word.length = 9 := by
  have hlen := congrArg List.length h
  rw [List.length_map] at hlen
  exact hlen.trans (by decide)

/-- Behind a word, only blanks are trimmed off. -/
theorem trim_word_iff {word : Bytes} (hword : ∀ b ∈ word, isBlank b = false) (hne : word ≠ []) (rest : Bytes) :
    trim (32 :: (word ++ rest)) = word ↔ rest.all isBlank = true := by
  have hfront : (32 :: (word ++ rest)).dropWhile isBlank = word ++ rest := by
    rw [List.dropWhile_cons_of_pos (by decide)]
    cases word with
    | nil => exact absurd rfl hne
    | cons b word => exact List.dropWhile_cons_of_neg (by simp [hword b List.mem_cons_self])
  rw [trim, hfront]
  constructor
  · intro h
    have hparts := List.rdropWhile_append_rtakeWhile (p := isBlank) (l := word ++ rest)
    rw [h] at hparts
    rw [← List.append_cancel_left hparts, List.all_eq_true]
    exact fun b hb => List.mem_rtakeWhile_imp hb
  · intro h
    have hself : word.rdropWhile isBlank = word :=
      List.rdropWhile_eq_self_iff.mpr fun hl => by simp [hword _ (List.getLast_mem hl)]
    rw [List.rdropWhile, List.reverse_append, List.dropWhile_append_of_pos (by simpa using h)]
    exact hself

theorem isBlank_or_mem_trim {b : UInt8} {s : Bytes} (h : b ∈ s) : isBlank b = true ∨ b ∈ trim s := by
  rw [← List.takeWhile_append_dropWhile (p := isBlank) (l := s), List.mem_append] at h
  rcases h with h | h
  · exact .inl (List.mem_takeWhile_imp h)
  · rw [← List.rdropWhile_append_rtakeWhile (p := isBlank) (l := s.dropWhile isBlank), List.mem_append] at h
    exact h.symm.imp List.mem_rtakeWhile_imp id

/-- An Upgrade line in which the parser's search ends starts with the text, and has only blanks behind it. -/
theorem isHit_of_contains {line s : Bytes} (h : IsUpgrade line) (hs : s ∈ spellings) (hin : List.IsInfix s line) :
    IsHit line := by
  obtain ⟨value, hvalue, hsocket⟩ := h
  obtain ⟨front, rest, rfl, hfront, hname, rfl⟩ := valueOf?_eq_some.mp hvalue
  obtain ⟨front', word, rfl, -, hname', hword', hclean⟩ := spelling_split hs
  obtain ⟨x, y, hline⟩ := hin
  -- there is one colon in the line
  have hrest : 58 ∉ rest := by
    intro hmem
    rcases isBlank_or_mem_trim hmem with hblank | hvalue
    · cases hblank
    · have hcolon : toLower 58 ∈ ascii "websocket" := hsocket ▸ List.mem_map_of_mem hvalue
      exact absurd hcolon (by decide +kernel)
  have hline : (x ++ front') ++ 58 :: (32 :: (word ++ y)) = front ++ 58 :: rest := by
    rw [← hline]
    simp
  obtain ⟨rfl, -, rfl⟩ := (List.append_cons_inj_of_notMem hfront hrest).mp hline.symm
  obtain rfl : x = [] := by
    have hlow := congrArg List.length (hname.trans hname'.symm)
    rw [List.length_map, List.length_map, List.length_append] at hlow
    exact List.eq_nil_of_length_eq_zero (by omega)
  have hne : word ≠ [] := List.ne_nil_of_length_pos (by rw [length_word hword']; decide)
  have htrim : trim (32 :: (word ++ y)) = word := by
    have hprefix : List.IsPrefix (trim (32 :: (word ++ y))) (word ++ y) := by
      rw [trim, List.dropWhile_cons_of_pos (by decide)]
      cases word with
      | nil => exact absurd rfl hne
      | cons b word =>
        rw [List.cons_append, List.dropWhile_cons_of_neg (by simp [hclean b List.mem_cons_self])]
        exact List.rdropWhile_prefix _ _
    refine (List.prefix_of_prefix_length_le hprefix (List.prefix_append _ _) ?_).eq_of_length ?_
    · rw [length_word hsocket, length_word hword']
    · rw [length_word hsocket, length_word hword']
  refine ⟨_, hs, ?_, ?_⟩
  · exact ⟨y, by simp⟩
  · have hdrop : ([] ++ front' ++ 58 :: 32 :: (word ++ y)).drop (front' ++ 58 :: 32 :: word).length = y := by
      rw [show [] ++ front' ++ 58 :: 32 :: (word ++ y) = (front' ++ 58 :: 32 :: word) ++ y by simp, List.drop_left]
    rw [hdrop]
    exact (trim_word_iff hclean hne y).mp htrim

theorem isUpgrade_iff (line : Bytes) : IsUpgrade line ↔ IsHit line ∨ IsUnknown line := by
  constructor
  · intro h
    by_cases hin : ∃ s ∈ spellings, List.IsInfix s line
    · obtain ⟨s, hs, hin⟩ := hin
      exact .inl (isHit_of_contains h hs hin)
    · exact .inr ⟨h, fun s hs hin' => hin ⟨s, hs, hin'⟩⟩
  · rintro (⟨s, hs, ⟨rest, rfl⟩, hblank⟩ | ⟨h, -⟩)
    · obtain ⟨front, word, rfl, hfront, hname, hword, hclean⟩ := spelling_split hs
      have hne : word ≠ [] := List.ne_nil_of_length_pos (by rw [length_word hword]; decide)
      rw [List.drop_left] at hblank
      refine ⟨word, valueOf?_eq_some.mpr ⟨front, 32 :: (word ++ rest), by simp, hfront, hname, ?_⟩, hword⟩
      exact (trim_word_iff hclean hne rest).mpr hblank
    · exact h

theorem keyLine?_eq (line : Bytes) : keyLine? line = (keyRest? line).map (·.dropWhile (· = 32)) := by
  unfold keyLine? keyRest?
  generalize (if line.getLast? = some cr then line.dropLast else line) = line
  dsimp only
  cases findByte 58 line with
  | none => rfl
  | some colon =>
    dsimp only
    split
    · rfl
    · rfl

theorem requestKey_ne_nil_iff (text : Bytes) : requestKey text ≠ [] ↔ GivesKey text := by
  have hkeys : keys text = ((text.splitOn lf).filterMap keyRest?).map (·.dropWhile (· = 32)) := by
    rw [keys, List.map_filterMap]
    exact congrArg (List.filterMap · _) (funext keyLine?_eq)
  rw [requestKey, hkeys, List.getLast?_map, GivesKey]
  cases ((text.splitOn lf).filterMap keyRest?).getLast? with
  | none => simp
  | some rest => simp [List.dropWhile_eq_nil_iff]

theorem onlyProper_iff (text : Bytes) : OnlyProper text ↔ ¬ Misread text := by
  have hkey : (¬ ∃ line ∈ headerLines text, ∃ value ∈ valueOf? "sec-websocket-key" line, value ≠ []) ↔
      ∀ line ∈ headerLines text, ∀ value ∈ valueOf? "sec-websocket-key" line, value = [] := by
    simp only [not_exists, not_and, Classical.not_not, ne_eq]
  have hupgrade : (¬ ∃ line ∈ headerLines text, IsUpgrade line) ↔
      ∀ line ∈ headerLines text, ¬ IsHit line ∧ ¬ IsUnknown line := by
    simp only [isUpgrade_iff, not_exists, not_and, not_or]
  by_cases hget : find (ascii "GET ") text = some 0 ∨ find (ascii "get ") text = some 0
  · rw [OnlyProper, acceptedKey?_eq hget]
    constructor
    · rintro h ⟨-, hask, hgives, hastray⟩
      obtain ⟨hup, hgiven⟩ := h _ (if_pos ⟨hask, (requestKey_ne_nil_iff text).mpr hgives⟩)
      rcases hastray with ⟨-, hnone⟩ | ⟨-, hnone⟩
      · exact hupgrade.mpr hnone hup
      · exact hkey.mpr hnone hgiven
    · intro h key haccepted
      split at haccepted
      · rename_i hfound
        have hgives := (requestKey_ne_nil_iff text).mp hfound.2
        constructor
        · by_contra hnone
          exact h ⟨hget, hfound.1, hgives, .inl ⟨hfound.1, hupgrade.mp hnone⟩⟩
        · by_contra hnone
          exact h ⟨hget, hfound.1, hgives, .inr ⟨hgives, hkey.mp hnone⟩⟩
      · cases haccepted
  · refine iff_of_true (fun key hkey => ?_) fun h => hget h.get
    rw [acceptedKey?, parseHandshakeRequest, if_pos (not_or.mp hget)] at hkey
    cases hkey

/-- A line with some blanks before its value. -/
private def headerLine (name before value : String) (h : (58 ∉ ascii name ∧ lf ∉ ascii name) ∧
    (ascii before).all isBlank = true ∧ lf ∉ ascii value ∧
    (∀ b ∈ (ascii value).head?, isBlank b = false) ∧ ∀ b ∈ (ascii value).getLast?, isBlank b = false) : HeaderLine :=
  ⟨ascii name, ascii before, ascii value, [], h.1, h.2.1, rfl, h.2.2.1, h.2.2.2, fun _ => rfl⟩

private theorem variant_headerLine {name name' before before' value : String} {h h'}
    (hname : (ascii name').map toLower = (ascii name).map toLower) :
    (headerLine name before value h).Variant (headerLine name' before' value h') :=
  ⟨hname, .inl rfl⟩

/-- A request with these two lines. -/
private def twoLines (upgrade key : HeaderLine) : Request where
  requestLine := ascii "GET / HTTP/1.1"
  lines := [upgrade, key]
  get := .inl ⟨ascii "/ HTTP/1.1", by decide +kernel⟩
  clean := by decide +kernel

private theorem variant_twoLines {upgrade upgrade' key key' : HeaderLine} (hupgrade : upgrade.Variant upgrade')
    (hkey : key.Variant key') : (twoLines upgrade key).Variant (twoLines upgrade' key') :=
  ⟨rfl, .cons hupgrade (.cons hkey .nil)⟩

private def usualLine : HeaderLine := headerLine "Upgrade" " " "websocket" (by decide +kernel)

private def keyLine : HeaderLine := headerLine "Sec-WebSocket-Key" " " "YQ==" (by decide +kernel)

end LightApr.Mqtt.HandshakeSpelling
