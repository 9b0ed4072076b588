import LightApr.Http.HeaderAgreement
import LightApr.Sdk.Bootstrap
import Mathlib.Data.List.TakeWhile

/-! What a client reads off an HTTP connection: the responses come apart by the rule that
the server applies to requests. -/
namespace LightApr.Sdk.Responses
open LightApr.Core LightApr.Http Lib Lib.Framing
open LightApr.Http.HttpSession (renderResponse staysOpen)
open Bootstrap (find_headerEnd)

/-! Numbers. -/

theorem digit_of_mem_decimal {b : UInt8} {n : Nat} (h : b ∈ decimal n) : 48 ≤ b.toNat ∧ b.toNat ≤ 57 := by
  obtain ⟨c, hc, rfl⟩ := List.mem_map.mp h
  have hd := Nat.isDigit_of_mem_toDigits (by decide) (by decide) hc
  simp only [Char.isDigit, Bool.and_eq_true, decide_eq_true_eq] at hd
  have hge : 48 ≤ c.toNat := hd.1
  have hle : c.toNat ≤ 57 := hd.2
  rw [Nat.toUInt8, UInt8.toNat_ofNat', Nat.mod_eq_of_lt (by omega)]
  exact ⟨hge, hle⟩

theorem digitsValue_decimal (n : Nat) : digitsValue (decimal n) = n := by
  have hfold (cs : List Char) (hcs : ∀ c ∈ cs, c.toNat < 256) (m : Nat) :
      (cs.map fun c => c.toNat.toUInt8).foldl (fun n d => n * 10 + (d.toNat - 48)) m = Nat.ofDigitChars 10 cs m := by
    induction cs generalizing m with
    | nil => rfl
    | cons c cs ih =>
      have hbyte : c.toNat.toUInt8.toNat = c.toNat := by
        rw [Nat.toUInt8, UInt8.toNat_ofNat', Nat.mod_eq_of_lt (hcs c List.mem_cons_self)]
      rw [List.map_cons, List.foldl_cons, ih fun c hc => hcs c (List.mem_cons_of_mem _ hc), hbyte,
        Nat.ofDigitChars_cons]
      congr 1
      rw [Nat.mul_comm]
      rfl
  rw [digitsValue, decimal, hfold _ (fun c hc => ?_)]
  · exact Nat.ofDigitChars_toDigits (by decide) (by decide)
  · have hd := Nat.isDigit_of_mem_toDigits (by decide) (by decide) hc
    simp only [Char.isDigit, Bool.and_eq_true, decide_eq_true_eq] at hd
    exact Nat.lt_of_le_of_lt hd.2 (by decide)

theorem valueLength_decimal (n : Nat) : valueLength (decimal n) = n := by
  have hall : (decimal n).takeWhile isDigit = decimal n := by
    rw [List.takeWhile_eq_self_iff]
    intro b hb
    obtain ⟨hge, hle⟩ := digit_of_mem_decimal hb
    simp [isDigit, UInt8.le_iff_toNat_le, hge, hle]
  rw [valueLength, hall, digitsValue_decimal]

/-! The header of a response. -/

def statusLine (res : HttpResponse) : Bytes :=
  ascii "HTTP/1.1 " ++ decimal res.statusCode ++ ascii " " ++ res.statusText

def fieldLines (res : HttpResponse) (keepAlive : Bool) : List Bytes :=
  [ascii "Content-Type: " ++ res.contentType, ascii "Content-Length: " ++ decimal res.body.length,
    ascii (if keepAlive then "Connection: keep-alive" else "Connection: close")]

/-- No text of the response breaks a line, and the status line names no field. -/
structure Plain (res : HttpResponse) : Prop where
  statusText : ∀ b ∈ res.statusText, b ≠ cr ∧ b ≠ lf ∧ b ≠ colon
  contentType : ∀ b ∈ res.contentType, b ≠ cr ∧ b ≠ lf

theorem renderResponse_eq (res : HttpResponse) (keepAlive : Bool) : renderResponse res keepAlive =
    statusLine res ++ (Bootstrap.headerLines (fieldLines res keepAlive) ++ (crlfcrlf ++ res.body)) := by
  have h1 : ascii "\r\nContent-Type: " = cr :: lf :: ascii "Content-Type: " := by decide
  have h2 : ascii "\r\nContent-Length: " = cr :: lf :: ascii "Content-Length: " := by decide
  have h3 : (if keepAlive then ascii "\r\nConnection: keep-alive\r\n\r\n" else ascii "\r\nConnection: close\r\n\r\n") =
      cr :: lf :: (ascii (if keepAlive then "Connection: keep-alive" else "Connection: close") ++ crlfcrlf) := by
    cases keepAlive <;> decide
  rw [renderResponse, h1, h2, h3]
  simp [statusLine, fieldLines, Bootstrap.headerLines]

/-- The lines of a header, cut at the line breaks. -/
theorem splitOn_headerLines {first : Bytes} {lines : List Bytes}
    (h : ∀ line ∈ first :: lines, cr ∉ line ∧ lf ∉ line) :
    ((first ++ Bootstrap.headerLines lines).splitOn lf).map stripCr = first :: lines := by
  have hplain {line : Bytes} (hcr : cr ∉ line) : stripCr line = line :=
    if_neg fun he => hcr (List.mem_of_mem_getLast? he)
  have hbroken (line : Bytes) : stripCr (line ++ [cr]) = line := by
    rw [stripCr, List.getLast?_concat, if_pos rfl, List.dropLast_concat]
  induction lines generalizing first with
  | nil =>
    obtain ⟨hcr, hlf⟩ := h first List.mem_cons_self
    rw [Bootstrap.headerLines, List.flatMap_nil, List.append_nil, List.splitOn_eq_singleton hlf, List.map_singleton,
      hplain hcr]
  | cons line lines ih =>
    obtain ⟨-, hlf⟩ := h first List.mem_cons_self
    have hsplit : first ++ Bootstrap.headerLines (line :: lines) = (first ++ [cr]) ++ lf ::
      (line ++ Bootstrap.headerLines lines) := by
      simp [Bootstrap.headerLines]
    have hfirst : lf ∉ first ++ [cr] := by
      rw [List.mem_append, not_or]
      exact ⟨hlf, by decide⟩
    rw [hsplit, List.splitOn_append_cons_self_of_not_mem hfirst, List.map_cons, hbroken,
      ih fun l hl => h l (List.mem_cons_of_mem _ hl)]

section
variable {res : HttpResponse} {keepAlive : Bool}

/-- The lines of a plain response are whole. -/
theorem Plain.lines (h : Plain res) (keepAlive : Bool) :
    ∀ line ∈ statusLine res :: fieldLines res keepAlive, cr ∉ line ∧ lf ∉ line := by
  have hcode : cr ∉ decimal res.statusCode ∧ lf ∉ decimal res.statusCode :=
    ⟨not_mem_decimal (by decide) _, not_mem_decimal (by decide) _⟩
  have hlength : cr ∉ decimal res.body.length ∧ lf ∉ decimal res.body.length :=
    ⟨not_mem_decimal (by decide) _, not_mem_decimal (by decide) _⟩
  have htext : cr ∉ res.statusText ∧ lf ∉ res.statusText :=
    ⟨fun hm => (h.statusText _ hm).1 rfl, fun hm => (h.statusText _ hm).2.1 rfl⟩
  have htype : cr ∉ res.contentType ∧ lf ∉ res.contentType :=
    ⟨fun hm => (h.contentType _ hm).1 rfl, fun hm => (h.contentType _ hm).2 rfl⟩
  have join {a b : Bytes} (ha : cr ∉ a ∧ lf ∉ a) (hb : cr ∉ b ∧ lf ∉ b) : cr ∉ a ++ b ∧ lf ∉ a ++ b := by
    rw [List.mem_append, List.mem_append, not_or, not_or]
    exact ⟨⟨ha.1, hb.1⟩, ha.2, hb.2⟩
  intro line hline
  rw [fieldLines, List.mem_cons, List.mem_cons, List.mem_cons, List.mem_singleton] at hline
  obtain rfl | rfl | rfl | rfl := hline
  · exact join (join (join (by decide) hcode) (by decide)) htext
  · exact join (by decide) htype
  · exact join (by decide) hlength
  · cases keepAlive <;> decide

theorem lengthLine_other {name value : Bytes} (hname : colon ∉ name)
    (hno : iequalsAscii name (ascii "Content-Length") = false) : lengthLine? (name ++ colon :: value) = none := by
  rw [lengthLine?, namesLength, lineName?, findByte_append_cons _ hname, Option.map_some, List.take_left,
    Option.any_some,
    hno, if_neg Bool.false_ne_true]

/-- Only the line with the length announces one. -/
theorem announcedLength_fields (h : Plain res) (keepAlive : Bool) :
    announcedLength (statusLine res :: fieldLines res keepAlive) = res.body.length := by
  have hcolon : colon ∉ res.statusText := fun hm => (h.statusText _ hm).2.2 rfl
  have hstatus : lengthLine? (statusLine res) = none := by
    have hfront : colon ∉ ascii "HTTP/1.1 " := by decide
    have hcode : colon ∉ decimal res.statusCode := fun hm => absurd (digit_of_mem_decimal hm).2 (by decide)
    have hblank : colon ∉ ascii " " := by decide
    have hno : colon ∉ statusLine res := by
      rw [statusLine, List.mem_append, List.mem_append, List.mem_append, not_or, not_or, not_or]
      exact ⟨⟨⟨hfront, hcode⟩, hblank⟩, hcolon⟩
    rw [lengthLine?, namesLength, lineName?, findByte_of_not_mem hno]
    rfl
  have htype : lengthLine? (ascii "Content-Type: " ++ res.contentType) = none := by
    have hname : ascii "Content-Type: " = ascii "Content-Type" ++ [colon, space] := by decide
    rw [hname, List.append_assoc, List.cons_append]
    exact lengthLine_other (by decide) (by decide)
  have hlength : lengthLine? (ascii "Content-Length: " ++ decimal res.body.length) = some res.body.length := by
    have hline : ascii "Content-Length: " ++ decimal res.body.length =
        ascii "Content-Length" ++ colon :: (space :: decimal res.body.length) := by
      have hfront : ascii "Content-Length: " = ascii "Content-Length" ++ [colon, space] := by decide
      rw [hfront, List.append_assoc]
      rfl
    have hname : colon ∉ ascii "Content-Length" := by decide
    have hblank : (space :: decimal res.body.length).dropWhile (· = space) = decimal res.body.length := by
      rw [List.dropWhile_cons_of_pos (by simp), List.dropWhile_eq_self_iff]
      intro hpos hhead
      have hmem := List.getElem_mem hpos
      rw [of_decide_eq_true hhead] at hmem
      exact absurd (digit_of_mem_decimal hmem).1 (by decide)
    rw [hline, lengthLine?, namesLength, lineName?, lineValue, findByte_append_cons _ hname, Option.map_some,
      List.take_left,
      Option.any_some, if_pos (by decide)]
    dsimp only
    rw [← List.drop_drop, List.drop_left, List.drop_one, List.tail_cons, hblank, valueLength_decimal]
  have hconnection : lengthLine?
    (ascii (if keepAlive then "Connection: keep-alive" else "Connection: close")) = none := by
    cases keepAlive <;> decide
  rw [announcedLength, fieldLines, List.filterMap_cons_none hstatus, List.filterMap_cons_none htype,
    List.filterMap_cons_some hlength, List.filterMap_cons_none hconnection]
  rfl

/-- What a response says: its header lines, and the body behind them. -/
def ReadsAs (raw : Bytes) (res : HttpResponse) (keepAlive : Bool) : Prop :=
  ∃ headerEnd, find crlfcrlf raw = some headerEnd ∧
    blockLines raw headerEnd = statusLine res :: fieldLines res keepAlive ∧ raw.drop (headerEnd + 4) = res.body

theorem readsAs_renderResponse (h : Plain res) (keepAlive : Bool) :
    ReadsAs (renderResponse res keepAlive) res keepAlive := by
  have hlines := h.lines keepAlive
  obtain ⟨⟨hfirst, -⟩, hfields⟩ := List.forall_mem_cons.mp hlines
  have hne : ∀ line ∈ fieldLines res keepAlive, line ≠ [] := by
    intro line hline
    rw [fieldLines, List.mem_cons, List.mem_cons, List.mem_singleton] at hline
    obtain rfl | rfl | rfl := hline
    · exact List.append_ne_nil_of_left_ne_nil (by decide) _
    · exact List.append_ne_nil_of_left_ne_nil (by decide) _
    · cases keepAlive <;> decide
  have hend := find_headerEnd hfirst (fun line hline => ⟨hne line hline, (hfields line hline).1⟩) res.body
  rw [← renderResponse_eq, ← List.length_append] at hend
  have hsplit : renderResponse res keepAlive =
      (statusLine res ++ Bootstrap.headerLines (fieldLines res keepAlive)) ++ (crlfcrlf ++ res.body) := by
    rw [renderResponse_eq, List.append_assoc]
  refine ⟨_, hend, ?_, ?_⟩
  · rw [blockLines, hsplit, List.take_left]
    exact splitOn_headerLines hlines
  · rw [hsplit, ← List.drop_drop, List.drop_left]
    rfl

/-- A response is one word of the framing of requests. -/
theorem word_renderResponse (h : Plain res)
    (hsize : (renderResponse res keepAlive).length < sizeMax) : requestFramer.Word (renderResponse res keepAlive) := by
  obtain ⟨headerEnd, hf, hlines, hbody⟩ := readsAs_renderResponse h keepAlive
  have hlen := congrArg List.length hbody
  rw [List.length_drop] at hlen
  have hin := (find_spec hf).2
  have hfour : crlfcrlf.length = 4 := rfl
  have htotal : (headerEnd + 4 + announcedLength (blockLines (renderResponse res keepAlive) headerEnd)) % sizeMax =
      (renderResponse res keepAlive).length := by
    rw [hlines, announcedLength_fields h, Nat.mod_eq_of_lt] <;> omega
  have hcut : findRequestBoundary (renderResponse res keepAlive) = some (renderResponse res keepAlive).length :=
    findRequestBoundary_eq_some.mpr ⟨headerEnd, hf, htotal, Nat.le_refl _⟩
  have hframer : requestFramer.cut = findRequestBoundary := rfl
  rw [Framer.Word, hframer, hcut]

end

/-! The routes. -/

section
variable {cfg : HttpConfig} {env : Readings} {r r' : Registry} {res : HttpResponse}

theorem plain_respond {lib : JsonLib} {statusCode : Nat} {statusText : Bytes} {j : Json}
    (htext : ∀ b ∈ statusText, b ≠ cr ∧ b ≠ lf ∧ b ≠ colon) (h : respond lib statusCode statusText j = some res) :
    Plain res := by
  obtain ⟨body, -, rfl⟩ := Option.map_eq_some_iff.mp h
  have htype : ∀ b ∈ ascii "application/json", b ≠ cr ∧ b ≠ lf := by decide +kernel
  exact ⟨htext, htype⟩

theorem plain_registryRoute {params : Table Bytes} (h : registryRoute cfg env params r = some res) : Plain res := by
  rw [registryRoute, Option.bind_eq_bind, Option.bind_eq_some_iff] at h
  obtain ⟨page, -, h⟩ := h
  rw [Option.bind_eq_bind, Option.bind_eq_some_iff] at h
  obtain ⟨count, -, h⟩ := h
  obtain ⟨found, -, h⟩ := Option.bind_eq_some_iff.mp h
  exact plain_respond (by decide +kernel) h

theorem plain_nodeRoute {id : Bytes} (h : nodeRoute cfg env id r = some res) : Plain res := by
  unfold nodeRoute at h
  split at h
  · exact plain_respond (by decide +kernel) h
  · exact plain_respond (by decide +kernel) h

theorem plain_resolveRoute {params : Table Bytes} (h : resolveRoute cfg params r = (some res, r')) : Plain res := by
  unfold resolveRoute at h
  dsimp only at h
  split at h
  · exact plain_respond (by decide +kernel) (congrArg Prod.fst h)
  · split at h
    · exact plain_respond (by decide +kernel) (congrArg Prod.fst h)
    · exact plain_respond (by decide +kernel) (congrArg Prod.fst h)

/-- Every route answers with a plain response. -/
theorem plain_routeRequest {req : HttpRequest} (h : routeRequest cfg env req r = (some res, r')) : Plain res := by
  have page {body : Bytes} (h : (some (Http.ok (ascii "text/html") body), r) = (some res, r')) : Plain res := by
    obtain rfl := Option.some.inj (congrArg Prod.fst h)
    have htext : ∀ b ∈ ascii "OK", b ≠ cr ∧ b ≠ lf ∧ b ≠ colon := by decide +kernel
    have htype : ∀ b ∈ ascii "text/html", b ≠ cr ∧ b ≠ lf := by decide +kernel
    exact ⟨htext, htype⟩
  unfold routeRequest at h
  dsimp only at h
  split at h
  · exact page h
  · split at h
    · exact page h
    · split at h
      · exact plain_respond (by decide +kernel) (congrArg Prod.fst h)
      · split at h
        · exact plain_respond (by decide +kernel) (congrArg Prod.fst h)
        · split at h
          · exact plain_registryRoute (congrArg Prod.fst h)
          · split at h
            · exact plain_nodeRoute (congrArg Prod.fst h)
            · split at h
              · exact plain_resolveRoute h
              · exact plain_respond (by decide +kernel) (congrArg Prod.fst h)

end

/-! A connection. -/

section
variable {cfg : HttpConfig} {limits : HttpLimits}

/-- No request makes its handler throw. -/
def Unthrown (cfg : HttpConfig) (limits : HttpLimits) (st : HttpSession × Shared) : HttpSession.Step → Prop
  | .own e => ∀ x, st.1.handle cfg limits st.2 e = some x → x.2.2 = .done
  | .elsewhere _ => True

/-- The connection is closed over a buffer that is too large, and nothing else changes. -/
theorem serving_handle {s s' : HttpSession} {sh sh' : Shared} {e : HttpSession.Event}
    (h : HttpSession.Serving cfg limits s) (ht : s.handle cfg limits sh e = some (s', sh', .done)) :
    HttpSession.Serving cfg limits s' := by
  by_cases hcap : ∀ env data, e = .read env data → s.requestAcc.totalCapacity + data.length ≤ limits.maxBufferBytes
  · exact h.handle hcap ht
  · obtain ⟨env, hcap⟩ := not_forall.mp hcap
    obtain ⟨data, hcap⟩ := not_forall.mp hcap
    obtain ⟨rfl, hover⟩ := Classical.not_imp.mp hcap
    simp only [HttpSession.handle] at ht
    split at ht
    · rename_i hg
      have hlen : 0 < s.tcp.reads.length := List.length_pos_of_mem hg.1
      have hex := h.exclusive
      have hreads : s.tcp.reads.erase true = [] := List.eq_nil_of_length_eq_zero (by
        rw [List.length_erase_of_mem hg.1]
        omega)
      have hwrites : s.writes = [] := List.eq_nil_of_length_eq_zero (by omega)
      have hgt : (s.requestAcc.append data).totalCapacity > limits.maxBufferBytes := by
        simp only [StreamAccumulator.totalCapacity, StreamAccumulator.append, List.length_append] at hover ⊢
        omega
      rw [HttpSession.onBytesRead, if_pos hgt] at ht
      obtain ⟨released, hs'⟩ := HttpSession.close_fst (Option.some.inj ht)
      subst hs'
      refine ⟨h.inRange.append data, ?_, h.count, h.answered, h.last, ?_, fun hn => absurd hreads hn, ?_,
        fun hopen => absurd hopen.symm Bool.false_ne_true⟩
      · dsimp only
        rw [StreamAccumulator.data_append h.inRange]
        exact h.framed.extend data
      · dsimp only
        rw [hreads, hwrites]
        exact Nat.zero_le 1
      · dsimp only
        rw [hreads, hwrites]
        rintro (hn | hm)
        · exact absurd rfl hn
        · cases hm
    · cases ht

theorem serving_run {st st' : HttpSession × Shared} {es : List HttpSession.Step}
    (hrun : (HttpSession.machine cfg limits).Run (Unthrown cfg limits) st es st')
    (h : HttpSession.Serving cfg limits st.1) : HttpSession.Serving cfg limits st'.1 := by
  refine hrun.invariant (fun st => HttpSession.Serving cfg limits st.1) h fun m e n hm hp hs => ?_
  cases e with
  | elsewhere sh =>
    obtain rfl := Option.some.inj hs
    exact hm
  | own e =>
    obtain ⟨⟨s', sh', flow⟩, ht, rfl⟩ := Option.map_eq_some_iff.mp hs
    obtain rfl := hp _ ht
    exact serving_handle hm ht

/-- A response is what a route has answered to its request. -/
theorem response_of_serving {s : HttpSession} (h : HttpSession.Serving cfg limits s) {i : Nat} {raw : Bytes}
    (hi : s.responses[i]? = some raw) : ∃ req res keepAlive, s.requests[i]? = some req ∧
      keepAlive = staysOpen limits (parseRawHttp cfg.registry.order req) (i + 1) ∧
      (∃ env r r', routeRequest cfg env (parseRawHttp cfg.registry.order req) r = (some res, r')) ∧
      raw = renderResponse res keepAlive ∧ (keepAlive = false → i + 1 = s.requests.length) := by
  obtain ⟨hlength, hanswered⟩ := h.answered
  have hlt : i < s.requests.length := hlength ▸ (List.getElem?_eq_some_iff.mp hi).1
  obtain ⟨env, r, res, r', hroute, hraw⟩ := hanswered i _ (List.getElem?_eq_getElem hlt)
  refine ⟨_, res, _, List.getElem?_eq_getElem hlt, rfl, ⟨env, r, r', hroute⟩, Option.some.inj (hi.symm.trans hraw),
    fun hends => ?_⟩
  by_contra hlast
  have hstays :=
    h.last i (s.requests[i]) (by rw [List.getElem?_dropLast, if_pos (by omega), List.getElem?_eq_getElem hlt])
  exact nomatch hends.symm.trans hstays

/-- **Whatever happens on an HTTP connection, as long as no request makes its handler throw: the bytes that a client has
received of it so far come apart, by the rule that the server applies to requests, into the first responses and the
beginning of the next. There is one response to each request, in the order of the requests; its header lines and its body
are those of what the route has answered, and it announces the end of the connection only in answer to the last request
that is served.** -/
theorem responses_read_back (cfg : HttpConfig) (limits : HttpLimits) {ip : Bytes} {remote : Option Bytes}
    {sh sh' : Shared} {es : List HttpSession.Step} {s : HttpSession}
    (hrun : (HttpSession.machine cfg limits).Run (Unthrown cfg limits) (HttpSession.start (.new ip remote), sh) es
      (s, sh'))
    (hsize : ∀ raw ∈ s.responses, raw.length < sizeMax) :
    s.responses.length = s.requests.length ∧ ∀ part : Bytes, part <+: s.responses.flatten →
      ∃ done pending rest, s.responses = done ++ pending ∧ requestFramer.Peels part done rest ∧
        requestFramer.Stuck rest ∧ (∀ raw ∈ pending.head?, ¬ raw <+: rest) ∧
        ∀ (i : Nat) (raw : Bytes), done[i]? = some raw → ∃ req res keepAlive, s.requests[i]? = some req ∧
          keepAlive = staysOpen limits (parseRawHttp cfg.registry.order req) (i + 1) ∧
          (∃ env r r', routeRequest cfg env (parseRawHttp cfg.registry.order req) r = (some res, r')) ∧
          ReadsAs raw res keepAlive ∧ (keepAlive = false → i + 1 = s.requests.length) := by
  have hserving := serving_run hrun (HttpSession.serving_start ip remote)
  refine ⟨hserving.answered.1, fun part hpart => ?_⟩
  have hwords : ∀ raw ∈ s.responses, requestFramer.Word raw := by
    intro raw hraw
    obtain ⟨i, hi⟩ := List.mem_iff_getElem?.mp hraw
    obtain ⟨req, res, keepAlive, -, -, ⟨env, r, r', hroute⟩, rfl, -⟩ := response_of_serving hserving hi
    exact word_renderResponse (plain_routeRequest hroute) (hsize _ hraw)
  have hnil : requestFramer.Stuck [] := rfl
  obtain ⟨done, pending, rest, hsplit, rfl, hstuck, hnext⟩ := Framer.exists_words hnil hwords hpart
  refine ⟨done, pending, rest, hsplit, ?_, hstuck, hnext, fun i raw hi => ?_⟩
  · exact Framer.peels_words done rest fun raw hraw => hwords raw (hsplit ▸ List.mem_append_left _ hraw)
  · have hi' : s.responses[i]? = some raw := by
      rw [hsplit, List.getElem?_append_left (List.getElem?_eq_some_iff.mp hi).1, hi]
    obtain ⟨req, res, keepAlive, hreq, hstays, ⟨env, r, r', hroute⟩, rfl, hlast⟩ := response_of_serving hserving hi'
    exact ⟨req, res, keepAlive, hreq, hstays, ⟨env, r, r', hroute⟩,
      readsAs_renderResponse (plain_routeRequest hroute) keepAlive, hlast⟩

/-- Two requests in one read, the second one the last. -/
private def pipelined : Bytes := ascii "GET /x HTTP/1.1\r\n\r\nGET /y HTTP/1.1\r\nConnection: close\r\n\r\n"

private def atStart : HttpSession × Shared := (HttpSession.start (.new [] none), ⟨.empty, .empty⟩)

private def next (st : HttpSession × Shared) (e : HttpSession.Event) : HttpSession × Shared :=
  ((HttpSession.machine (.ofDocuments []) ⟨4096, 0⟩).step st (.own e)).getD st

private def served : HttpSession × Shared := next (next atStart (.read .zero pipelined)) (.written .zero true)

private theorem run_next {st : HttpSession × Shared} {es : List HttpSession.Step} {e : HttpSession.Event}
    (h : (HttpSession.machine (.ofDocuments []) ⟨4096, 0⟩).Run (Unthrown (.ofDocuments []) ⟨4096, 0⟩) atStart es st)
    (hflow : (st.1.handle (.ofDocuments []) ⟨4096, 0⟩ st.2 e).map (fun x => x.2.2) = some .done) :
    (HttpSession.machine (.ofDocuments []) ⟨4096, 0⟩).Run (Unthrown (.ofDocuments []) ⟨4096, 0⟩) atStart
    (es ++ [.own e]) (next st e) := by
  obtain ⟨x, hx, hdone⟩ := Option.map_eq_some_iff.mp hflow
  have hp : Unthrown (.ofDocuments []) ⟨4096, 0⟩ st (.own e) := by
    intro y hy
    obtain rfl := Option.some.inj (hx.symm.trans hy)
    exact hdone
  have hs : (HttpSession.machine (.ofDocuments []) ⟨4096, 0⟩).step st (.own e) = some (x.1, x.2.1) :=
    congrArg (Option.map fun x : HttpSession × Shared × Flow => (x.1, x.2.1)) hx
  exact h.next hp (Option.isSome_iff_exists.mpr ⟨_, hs⟩)

/-- Both are answered, and the answers come apart. -/
theorem pipelined_answered : served.1.responses.length = 2 ∧
    ∀ part : Bytes, part <+: served.1.responses.flatten → ∃ done pending rest,
      served.1.responses = done ++ pending ∧ requestFramer.Peels part done rest ∧ requestFramer.Stuck rest := by
  have hfacts : served.1.requests.length = 2 ∧ ∀ raw ∈ served.1.responses, raw.length < 1000 := by
    decide +kernel
  have hread := run_next (e := .read .zero pipelined) .start (by decide +kernel)
  have hrun : (HttpSession.machine (.ofDocuments []) ⟨4096, 0⟩).Run (Unthrown (.ofDocuments []) ⟨4096, 0⟩) atStart _
    (served.1, served.2) :=
    run_next (e := .written .zero true) hread (by decide +kernel)
  obtain ⟨hlength, hall⟩ := responses_read_back (.ofDocuments []) ⟨4096, 0⟩ hrun fun raw hraw =>
    Nat.lt_trans (hfacts.2 raw hraw) (by decide)
  refine ⟨hlength.trans hfacts.1, fun part hpart => ?_⟩
  obtain ⟨done, pending, rest, hsplit, hpeels, hstuck, -⟩ := hall part hpart
  exact ⟨done, pending, rest, hsplit, hpeels, hstuck⟩

end

end LightApr.Sdk.Responses
